import Stdx.Alloc.Release

/-! # The virtual memory allocator

`VirtualMemoryAllocator` hands its calls to a fixed buffer allocator over the range
it reserved, and takes `grow` and `shrink` from the `Allocator` trait: allocate a
block of the new layout, copy, deallocate the old block. The inner allocator may
take the old block for the last one although the new block is above it, and then
rewinds `begin` below the new block. In every run a step that resizes leaves its
block below `begin` exactly when the end of that block is not in the reach of the
old one, or not above its start (`Stdx.VirtualWorld.resized_reserved_iff`).
-/

namespace Stdx

open Foundation

variable {w : Nat}

/-- The reserved range and the allocator in it. -/
structure VirtualMemoryAllocator (w : Nat) where
  addr : Usize w
  size : Usize w
  fba : FixedBufferAllocator w
deriving DecidableEq

namespace VirtualMemoryAllocator

/-- `VirtualMemoryAllocator::new`, on the range that the system mapped. -/
def new (range : Buffer w) : VirtualMemoryAllocator w where
  addr := range.start
  size := range.len
  fba := .fromSlice range

/-- `Allocator::allocate`. -/
def allocate (self : VirtualMemoryAllocator w) (layout : Layout w) :
    Option (Slice w × VirtualMemoryAllocator w) :=
  (self.fba.allocate layout).map fun (slice, fba) => (slice, { self with fba })

/-- `Allocator::deallocate`. -/
def deallocate (self : VirtualMemoryAllocator w) (ptr : Usize w) (layout : Layout w) :
    VirtualMemoryAllocator w :=
  { self with fba := self.fba.deallocate ptr layout }

/-- The methods `grow` and `shrink` that the trait provides: allocate, copy the
bytes that both blocks have, deallocate. -/
def reallocate (self : VirtualMemoryAllocator w) (memory : Memory w) (ptr : Usize w)
    (oldLayout newLayout : Layout w) :
    Option (Slice w) × VirtualMemoryAllocator w × Memory w :=
  match self.allocate newLayout with
  | none => (none, self, memory)
  | some (newPtr, self) =>
      let count := if oldLayout.size < newLayout.size then oldLayout.size else newLayout.size
      (some newPtr, self.deallocate ptr oldLayout,
        copyNonoverlapping memory ptr newPtr.ptr count)

end VirtualMemoryAllocator

/-- The allocator, the memory and the live blocks. -/
structure VirtualWorld (w : Nat) where
  vma : VirtualMemoryAllocator w
  memory : Memory w
  live : List (Block w)

namespace VirtualWorld

/-- A new allocator over a range. -/
def new (range : Buffer w) (memory : Memory w) : VirtualWorld w where
  vma := .new range
  memory := memory
  live := []

/-- The world after `grow` or `shrink`. -/
def resized (world : VirtualWorld w) (block : Block w) (newLayout : Layout w) :
    Reply w × VirtualWorld w :=
  match world.vma.reallocate world.memory block.ptr block.layout newLayout with
  | (none, vma, memory) => (.allocError, { world with vma, memory })
  | (some slice, vma, memory) =>
      (.block slice, ⟨vma, memory, ⟨slice.ptr, newLayout⟩ :: world.live.erase block⟩)

/-- One call. -/
def step (world : VirtualWorld w) : Call w → Reply w × VirtualWorld w
  | .allocate layout =>
      match world.vma.allocate layout with
      | none => (.allocError, world)
      | some (slice, vma) =>
          (.block slice, { world with vma, live := ⟨slice.ptr, layout⟩ :: world.live })
  | .deallocate block =>
      (.done, { world with
        vma := world.vma.deallocate block.ptr block.layout
        live := world.live.erase block })
  | .grow block newLayout => world.resized block newLayout
  | .shrink block newLayout => world.resized block newLayout

/-- The allocator as a machine driven by its clients. -/
def machine (w : Nat) : Machine (VirtualWorld w) (Call w) (Reply w) := ⟨step⟩

/-- The precondition of the `Allocator` trait. -/
def Admits (world : VirtualWorld w) : Call w → Prop
  | .allocate _ => True
  | .deallocate block => block ∈ world.live
  | .grow block newLayout =>
      block ∈ world.live ∧ block.layout.size.toNat ≤ newLayout.size.toNat
  | .shrink block newLayout =>
      block ∈ world.live ∧ newLayout.size.toNat ≤ block.layout.size.toNat

/-- A block that `grow` or `shrink` returns ends at or below `begin` afterwards. -/
def Reserves (world : VirtualWorld w) (call : Call w) : Prop :=
  ∀ block newLayout slice, World.Resizes block newLayout call →
    (machine w).out world call = .block slice →
      slice.ptr.toNat + slice.len.toNat ≤ ((machine w).next world call).vma.fba.begin.toNat

/-- A block of the new layout is refused, or it ends inside the address space and,
if the old block is recognised from its end, at or below the start of the old one. -/
def Clears (fba : FixedBufferAllocator w) (block : Block w) (newLayout : Layout w) : Prop :=
  fba.end_.toNat < (fba.newBegin newLayout).toNat ∨
    (maskUp fba.begin newLayout.align).toNat + newLayout.size.toNat < 2 ^ w ∧
      (block.Meets (fba.newBegin newLayout) →
        (maskUp fba.begin newLayout.align).toNat + newLayout.size.toNat ≤ block.start)

/-- The condition on one step. -/
def ResizesClear (world : VirtualWorld w) : Call w → Prop
  | .allocate _ => True
  | .deallocate _ => True
  | .grow block newLayout => Clears world.vma.fba block newLayout
  | .shrink block newLayout => Clears world.vma.fba block newLayout

instance (world : VirtualWorld w) : ∀ call, Decidable (world.Admits call)
  | .allocate _ => inferInstanceAs (Decidable True)
  | .deallocate _ => inferInstanceAs (Decidable (_ ∈ _))
  | .grow _ _ => inferInstanceAs (Decidable (_ ∧ _))
  | .shrink _ _ => inferInstanceAs (Decidable (_ ∧ _))

variable {world : VirtualWorld w} {call : Call w} {block : Block w} {newLayout : Layout w}

/-! ## One step -/

/-- Everything `grow` and `shrink` can do. -/
theorem resized_cases (world : VirtualWorld w) (block : Block w) (newLayout : Layout w) :
    (world.vma.fba.allocate newLayout = none ∧
      world.resized block newLayout = (.allocError, world)) ∨
    ∃ slice fba memory, world.vma.fba.allocate newLayout = some (slice, fba) ∧
      world.resized block newLayout =
        (.block slice, ⟨{ world.vma with fba := fba.deallocate block.ptr block.layout }, memory,
          ⟨slice.ptr, newLayout⟩ :: world.live.erase block⟩) := by
  unfold resized VirtualMemoryAllocator.reallocate VirtualMemoryAllocator.allocate
  cases granted : world.vma.fba.allocate newLayout with
  | none => exact .inl ⟨rfl, rfl⟩
  | some pair => exact .inr ⟨pair.1, pair.2, _, rfl, rfl⟩

theorem step_of_resizes (resizes : World.Resizes block newLayout call) :
    (machine w).step world call = world.resized block newLayout := by
  rcases resizes with rfl | rfl
  · rfl
  · rfl

/-- Every live block starts at a multiple of its alignment. -/
def Aligned (world : VirtualWorld w) : Prop :=
  ∀ block ∈ world.live, block.layout.align.toNat ∣ block.start

theorem Aligned.resized (aligned : world.Aligned) (block : Block w) (newLayout : Layout w) :
    (world.resized block newLayout).2.Aligned := by
  rcases world.resized_cases block newLayout with ⟨_, equal⟩ | ⟨slice, fba, memory, granted, equal⟩
  · rw [equal]
    exact aligned
  · rw [equal]
    intro other member
    rcases List.mem_cons.mp member with rfl | old
    · exact FixedBufferAllocator.aligned_of_allocate granted
    · exact aligned other (List.mem_of_mem_erase old)

/-- Every step keeps the live blocks aligned. -/
theorem Aligned.step (aligned : world.Aligned) (call : Call w) :
    ((machine w).next world call).Aligned := by
  cases call with
  | allocate layout =>
      simp only [Machine.next, machine, VirtualWorld.step, VirtualMemoryAllocator.allocate]
      cases granted : world.vma.fba.allocate layout with
      | none => exact aligned
      | some pair =>
          intro other member
          rcases List.mem_cons.mp member with rfl | old
          · exact FixedBufferAllocator.aligned_of_allocate granted
          · exact aligned other old
  | deallocate block =>
      exact fun other member => aligned other (List.mem_of_mem_erase member)
  | grow block newLayout => exact aligned.resized block newLayout
  | shrink block newLayout => exact aligned.resized block newLayout

/-- One resizing of an aligned block. -/
theorem reserves_iff_clears (aligned : block.layout.align.toNat ∣ block.start)
    (resizes : World.Resizes block newLayout call) :
    world.Reserves call ↔ Clears world.vma.fba block newLayout := by
  unfold Reserves
  simp only [Machine.out, Machine.next, step_of_resizes resizes]
  rcases world.resized_cases block newLayout with
    ⟨refused, equal⟩ | ⟨slice, fba, memory, granted, equal⟩
  · have full : world.vma.fba.end_.toNat < (world.vma.fba.newBegin newLayout).toNat := by
      by_contra room
      have some := FixedBufferAllocator.allocate_eq_some.mpr ⟨Nat.le_of_not_lt room, rfl, rfl⟩
      exact Option.some_ne_none _ (some.symm.trans refused)
    rw [equal]
    refine ⟨fun _ => .inl full, fun _ other layout slice _ impossible => ?_⟩
    cases impossible
  · obtain ⟨room, rfl, rfl⟩ := FixedBufferAllocator.allocate_eq_some.mp granted
    have modulus := (world.vma.fba.newBegin newLayout).isLt
    have stop : (world.vma.fba.newBegin newLayout).toNat =
        ((maskUp world.vma.fba.begin newLayout.align).toNat + newLayout.size.toNat) % 2 ^ w :=
      BitVec.toNat_add _ _
    rw [equal]
    unfold Clears
    rw [or_iff_right (Nat.not_lt.mpr room)]
    -- the world afterwards stands at the old block, or at the end of the new one
    rcases FixedBufferAllocator.deallocate_cases
        { world.vma.fba with begin := world.vma.fba.newBegin newLayout } block.ptr block.layout with
      ⟨last, after⟩ | ⟨notLast, after⟩
    · have meets := (FixedBufferAllocator.isLast_iff_meets aligned).mp last
      rw [after]
      constructor
      · intro reserved
        have below : _ ≤ block.ptr.toNat := reserved block newLayout _ resizes rfl
        exact ⟨lt_of_le_of_lt below block.ptr.isLt, fun _ => below⟩
      · rintro ⟨_, clear⟩ other layout slice _ same
        cases same
        exact clear meets
    · have misses := (FixedBufferAllocator.isLast_iff_meets aligned).not.mp notLast
      rw [after]
      constructor
      · intro reserved
        have below : _ ≤ (world.vma.fba.newBegin newLayout).toNat :=
          reserved block newLayout _ resizes rfl
        exact ⟨lt_of_le_of_lt below modulus, fun meets => absurd meets misses⟩
      · rintro ⟨inside, _⟩ other layout slice _ same
        cases same
        rw [Nat.mod_eq_of_lt inside] at stop
        exact stop.ge

/-! ## Runs -/

/-- **Resized blocks.** At every step of a run whose calls respect the trait, the
block that `grow` or `shrink` returns is still reserved afterwards exactly under
the condition. -/
theorem resized_reserved_iff (range : Buffer w) (memory : Memory w) (calls : List (Call w))
    (admitted : (machine w).Along Admits (new range memory) calls) :
    (machine w).Along (fun world call => world.Reserves call ↔ world.ResizesClear call)
      (new range memory) calls := by
  have start : (new range memory).Aligned := List.forall_mem_nil _
  refine admitted.of_invariant Aligned (fun world call aligned admits => ?_) start
  refine ⟨?_, aligned.step call⟩
  cases call with
  | allocate layout =>
      refine ⟨fun _ => trivial, fun _ block newLayout slice resizes => ?_⟩
      rcases resizes with impossible | impossible
      · cases impossible
      · cases impossible
  | deallocate block =>
      refine ⟨fun _ => trivial, fun _ other newLayout slice resizes => ?_⟩
      rcases resizes with impossible | impossible
      · cases impossible
      · cases impossible
  | grow block newLayout => exact reserves_iff_clears (aligned block admits.1) (.inl rfl)
  | shrink block newLayout => exact reserves_iff_clears (aligned block admits.1) (.inr rfl)

/-- A word that grows to two and shrinks to a byte. -/
def movedCalls : List (Call 64) :=
  [.allocate .word, .grow ⟨0x1000, .word⟩ .twoWords, .shrink ⟨0x1004, .twoWords⟩ .byte]

theorem movedCalls_reserved :
    (machine 64).Along (fun world call => world.Reserves call ↔ world.ResizesClear call)
      (new World.page fun _ => 0) movedCalls :=
  resized_reserved_iff World.page (fun _ => 0) movedCalls (by decide)

/-- An aligned byte grows to the two bytes behind it, and `begin` goes back to its start. -/
theorem grown_block_released :
    ¬ ∀ (w : Nat) (range : Buffer w) (memory : Memory w) (calls : List (Call w)),
      (machine w).Along Admits (new range memory) calls →
        let world := (machine w).final (new range memory) calls
        ∀ call, world.Admits call → world.Reserves call := by
  intro claim
  have reserved := claim 64 World.page (fun _ => 0) [.allocate .alignedByte] (by decide)
    (.grow ⟨0x1000, .alignedByte⟩ .twoBytes) (by decide) ⟨0x1000, .alignedByte⟩ .twoBytes
    ⟨0x1001, 2⟩ (.inl rfl) rfl
  exact absurd reserved (by decide)

end VirtualWorld

end Stdx
