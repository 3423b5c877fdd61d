import Stdx.Foundation.Machine
import Stdx.Foundation.Region
import Stdx.Alloc.FixedBuffer

/-! # Runs of a fixed buffer allocator

An allocator is used through a sequence of calls. The blocks that are live, each
with the layout it was last allocated or resized with, are not known to the
allocator; they belong to its clients and decide which calls the `Allocator`
trait permits. A world joins the allocator, the memory and the live blocks;
`Stdx.World.step_outcome` says everything one call can do to it.
-/

namespace Stdx

open Foundation

variable {w : Nat}

/-- A block handed out by an allocator, with the layout it currently has. -/
structure Block (w : Nat) where
  ptr : Usize w
  layout : Layout w
deriving DecidableEq

namespace Block

/-- The first address of the block. -/
def start (block : Block w) : Nat := block.ptr.toNat

/-- The number of bytes in the block. -/
def size (block : Block w) : Nat := block.layout.size.toNat

/-- The first address past the block. -/
def stop (block : Block w) : Nat := block.start + block.size

/-- The addresses the block covers. -/
def region (block : Block w) : Region Nat := ⟨block.start, block.stop⟩

end Block

/-- A call on the allocator. Blocks are passed by their pointer and layout. -/
inductive Call (w : Nat)
  | allocate (layout : Layout w)
  | deallocate (block : Block w)
  | grow (block : Block w) (newLayout : Layout w)
  | shrink (block : Block w) (newLayout : Layout w)
deriving DecidableEq

/-- What a call returns. -/
inductive Reply (w : Nat)
  | block (slice : Slice w)
  | allocError
  | done
deriving DecidableEq

/-- The allocator, the memory and the live blocks. -/
structure World (w : Nat) where
  fba : FixedBufferAllocator w
  memory : Memory w
  live : List (Block w)

namespace World

/-- A new allocator over a buffer. -/
def new (buffer : Buffer w) (memory : Memory w) : World w where
  fba := .fromSlice buffer
  memory := memory
  live := []

/-- The world after `grow` or `shrink` answered. A block that could not be
resized stays live with its old layout. -/
def resized (world : World w) (block : Block w) (newLayout : Layout w) :
    Option (Slice w) × FixedBufferAllocator w × Memory w → Reply w × World w
  | (none, fba, memory) => (.allocError, { world with fba, memory })
  | (some slice, fba, memory) =>
      (.block slice, ⟨fba, memory, ⟨slice.ptr, newLayout⟩ :: world.live.erase block⟩)

/-- A buffer of sixteen bytes, for runs on fixed calls. -/
def page : Buffer 64 := ⟨0x1000, 16, by decide, by decide⟩

/-- One call. -/
def step (world : World w) : Call w → Reply w × World w
  | .allocate layout =>
      match world.fba.allocate layout with
      | none => (.allocError, world)
      | some (slice, fba) =>
          (.block slice, { world with fba, live := ⟨slice.ptr, layout⟩ :: world.live })
  | .deallocate block =>
      (.done, { world with
        fba := world.fba.deallocate block.ptr block.layout
        live := world.live.erase block })
  | .grow block newLayout =>
      world.resized block newLayout
        (world.fba.grow world.memory block.ptr block.layout newLayout)
  | .shrink block newLayout =>
      world.resized block newLayout
        (world.fba.shrink world.memory block.ptr block.layout newLayout)

/-- The allocator as a machine driven by its clients. -/
def machine (w : Nat) : Machine (World w) (Call w) (Reply w) := ⟨step⟩

/-- The precondition of the `Allocator` trait: blocks are live and come with
their current layout, `grow` does not make them smaller and `shrink` not larger. -/
def Admits (world : World w) : Call w → Prop
  | .allocate _ => True
  | .deallocate block => block ∈ world.live
  | .grow block newLayout =>
      block ∈ world.live ∧ block.layout.size.toNat ≤ newLayout.size.toNat
  | .shrink block newLayout =>
      block ∈ world.live ∧ newLayout.size.toNat ≤ block.layout.size.toNat

instance (world : World w) : ∀ call, Decidable (world.Admits call)
  | .allocate _ => inferInstanceAs (Decidable True)
  | .deallocate _ => inferInstanceAs (Decidable (_ ∈ _))
  | .grow _ _ => inferInstanceAs (Decidable (_ ∧ _))
  | .shrink _ _ => inferInstanceAs (Decidable (_ ∧ _))

/-! ## What one call can do -/

/-- `grow` and `shrink` resize a block. -/
def Resizes (block : Block w) (newLayout : Layout w) (call : Call w) : Prop :=
  call = .grow block newLayout ∨ call = .shrink block newLayout

/-- Everything one call can do: a refusal leaves the world as it is, `grow` and
`shrink` resize the last block where it is or move a block to a new alignment. -/
inductive Outcome (world : World w) : Call w → Reply w → World w → Prop
  | refused (call : Call w) : Outcome world call .allocError world
  | allocated {layout : Layout w} {slice : Slice w} {fba : FixedBufferAllocator w}
      (granted : world.fba.allocate layout = some (slice, fba)) :
      Outcome world (.allocate layout) (.block slice)
        { world with fba, live := ⟨slice.ptr, layout⟩ :: world.live }
  | deallocated (block : Block w) :
      Outcome world (.deallocate block) .done
        { world with
          fba := world.fba.deallocate block.ptr block.layout
          live := world.live.erase block }
  | resized {call : Call w} {block : Block w} {newLayout : Layout w}
      (resizes : Resizes block newLayout call)
      (sameAlign : block.layout.align = newLayout.align)
      (last : world.fba.IsLast block.ptr block.layout)
      (within : call = .grow block newLayout →
        world.fba.passesEnd block.ptr (newLayout.size - block.layout.size) = false) :
      Outcome world call (.block ⟨block.ptr, newLayout.size⟩)
        { world with
          fba := { world.fba with
            begin := world.fba.begin + (newLayout.size - block.layout.size) }
          live := ⟨block.ptr, newLayout⟩ :: world.live.erase block }
  | relocated {call : Call w} {block : Block w} {newLayout : Layout w} {slice : Slice w}
      {middle : FixedBufferAllocator w} (resizes : Resizes block newLayout call)
      (differ : block.layout.align ≠ newLayout.align)
      (granted : world.fba.allocate newLayout = some (slice, middle)) :
      Outcome world call (.block slice)
        ⟨middle.deallocate block.ptr block.layout,
          copyNonoverlapping world.memory block.ptr slice.ptr block.layout.size,
          ⟨slice.ptr, newLayout⟩ :: world.live.erase block⟩

variable {world : World w} {call : Call w} {block : Block w} {newLayout : Layout w}

theorem Admits.member (admitted : world.Admits call) (resizes : Resizes block newLayout call) :
    block ∈ world.live := by
  rcases resizes with rfl | rfl
  · exact admitted.1
  · exact admitted.1

/-- A relocation is refused or moves the block. -/
theorem Outcome.relocate (resizes : Resizes block newLayout call)
    (differ : block.layout.align ≠ newLayout.align) :
    let result := world.resized block newLayout
      (world.fba.relocate world.memory block.ptr block.layout newLayout)
    Outcome world call result.1 result.2 := by
  intro result
  rcases world.fba.relocate_cases world.memory block.ptr block.layout newLayout with
    ⟨_, refused⟩ | ⟨slice, middle, granted, moved⟩
  · simp only [result, refused]
    exact .refused call
  · simp only [result, moved]
    exact .relocated resizes differ granted

theorem step_outcome (world : World w) (call : Call w) :
    Outcome world call ((machine w).out world call) ((machine w).next world call) := by
  cases call with
  | allocate layout =>
      simp only [Machine.out, Machine.next, machine, step]
      cases granted : world.fba.allocate layout with
      | none => exact .refused _
      | some pair => exact .allocated granted
  | deallocate block => exact .deallocated block
  | grow block newLayout =>
      simp only [Machine.out, Machine.next, machine, step]
      by_cases sameAlign : block.layout.align = newLayout.align
      · rcases FixedBufferAllocator.grow_cases sameAlign with ⟨inPlace, equal⟩ | ⟨_, equal⟩
        · rw [equal]
          exact .resized (.inl rfl) sameAlign inPlace.1 fun _ => inPlace.2
        · rw [equal]
          exact .refused _
      · rw [FixedBufferAllocator.grow_of_align_ne sameAlign]
        exact .relocate (.inl rfl) sameAlign
  | shrink block newLayout =>
      simp only [Machine.out, Machine.next, machine, step]
      by_cases sameAlign : block.layout.align = newLayout.align
      · rcases FixedBufferAllocator.shrink_cases sameAlign with ⟨last, equal⟩ | ⟨_, equal⟩
        · rw [equal]
          exact .resized (.inr rfl) sameAlign last fun impossible => by cases impossible
        · rw [equal]
          exact .refused _
      · rw [FixedBufferAllocator.shrink_of_align_ne sameAlign]
        exact .relocate (.inr rfl) sameAlign

end World

end Stdx
