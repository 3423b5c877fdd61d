import Stdx.Alloc.Isolation

/-! # Allocators that leave resizing to the trait

`Mallocator` and `VirtualMemoryAllocator` implement `allocate` and `deallocate` only; the
`Allocator` trait provides `grow` and `shrink`, which allocate a block of the new layout, copy
the bytes that both blocks have and deallocate the old one. What an allocator has to keep for
its clients is stated as a discipline on its state and the live blocks. Under a discipline,
what a client keeps in a block stays there over every run, whatever is done to the other
blocks, and moves along when the block is resized (`Stdx.Minimal.Discipline.isolates`).
-/

namespace Stdx

open Foundation

variable {w : Nat} {σ : Type*}

/-- An allocator with `allocate` and `deallocate`, and the memory it works on. -/
structure Minimal (w : Nat) (σ : Type*) where
  allocate : σ → Memory w → Layout w → Option (Slice w) × σ × Memory w
  deallocate : σ → Memory w → Usize w → Layout w → σ × Memory w

/-- The allocator's state, the memory and the live blocks. -/
structure Heap (w : Nat) (σ : Type*) where
  state : σ
  memory : Memory w
  live : List (Block w)

namespace Minimal

/-- The methods `grow` and `shrink` that the trait provides; they differ in how many bytes
they copy. -/
def resized (alloc : Minimal w σ) (world : Heap w σ) (block : Block w) (newLayout : Layout w)
    (count : Usize w) : Reply w × Heap w σ :=
  match alloc.allocate world.state world.memory newLayout with
  | (none, state, memory) => (.allocError, { world with state, memory })
  | (some slice, state, memory) =>
      let memory := copyNonoverlapping memory block.ptr slice.ptr count
      let after := alloc.deallocate state memory block.ptr block.layout
      (.block slice, ⟨after.1, after.2, ⟨slice.ptr, newLayout⟩ :: world.live.erase block⟩)

/-- One call. -/
def step (alloc : Minimal w σ) (world : Heap w σ) : HeapCall w → Reply w × Heap w σ
  | .call (.allocate layout) =>
      match alloc.allocate world.state world.memory layout with
      | (none, state, memory) => (.allocError, { world with state, memory })
      | (some slice, state, memory) =>
          (.block slice, ⟨state, memory, ⟨slice.ptr, layout⟩ :: world.live⟩)
  | .call (.deallocate block) =>
      let after := alloc.deallocate world.state world.memory block.ptr block.layout
      (.done, ⟨after.1, after.2, world.live.erase block⟩)
  | .call (.grow block newLayout) => alloc.resized world block newLayout block.layout.size
  | .call (.shrink block newLayout) => alloc.resized world block newLayout newLayout.size
  | .write block index byte =>
      (.done, { world with memory := Function.update world.memory (block.ptr + index) byte })

/-- The allocator as a machine driven by its clients. -/
def machine (alloc : Minimal w σ) : Machine (Heap w σ) (HeapCall w) (Reply w) := ⟨step alloc⟩

/-- The precondition of the `Allocator` trait; clients write inside live blocks. -/
def Admits (world : Heap w σ) : HeapCall w → Prop
  | .call (.allocate _) => True
  | .call (.deallocate block) => block ∈ world.live
  | .call (.grow block newLayout) =>
      block ∈ world.live ∧ block.layout.size.toNat ≤ newLayout.size.toNat
  | .call (.shrink block newLayout) =>
      block ∈ world.live ∧ newLayout.size.toNat ≤ block.layout.size.toNat
  | .write block index _ => block ∈ world.live ∧ index.toNat < block.size

instance (world : Heap w σ) : ∀ call, Decidable (Admits world call)
  | .call (.allocate _) => inferInstanceAs (Decidable True)
  | .call (.deallocate _) => inferInstanceAs (Decidable (_ ∈ _))
  | .call (.grow _ _) => inferInstanceAs (Decidable (_ ∧ _))
  | .call (.shrink _ _) => inferInstanceAs (Decidable (_ ∧ _))
  | .write _ _ _ => inferInstanceAs (Decidable (_ ∧ _))

/-- A call does to the heap what isolates the clients. -/
def Isolated (alloc : Minimal w σ) (world : Heap w σ) (call : HeapCall w) : Prop :=
  Isolation call world.memory world.live (alloc.machine.out world call)
    (alloc.machine.next world call).memory (alloc.machine.next world call).live

/-- A discipline: states that go with lists of live blocks, which are apart, with a condition
on what is allocated and one on what is deallocated, under which both operations lead from
such a state to another and leave the memory of the blocks alone. -/
structure Discipline (alloc : Minimal w σ) where
  valid : σ → List (Block w) → Prop
  grants : σ → Layout w → Prop
  releases : σ → List (Block w) → Block w → Prop
  apart : ∀ {state live}, valid state live → live.Pairwise Block.Apart
  allocate : ∀ {state live layout slice after} {memory later : Memory w}, valid state live →
    grants state layout → alloc.allocate state memory layout = (some slice, after, later) →
      valid after (⟨slice.ptr, layout⟩ :: live) ∧ KeptOn live memory later
  refuse : ∀ {state live layout after} {memory later : Memory w}, valid state live →
    grants state layout → alloc.allocate state memory layout = (none, after, later) →
      valid after live ∧ KeptOn live memory later
  deallocate : ∀ {state live block others} (memory : Memory w), valid state live →
    live.Perm (block :: others) → releases state others block →
      valid (alloc.deallocate state memory block.ptr block.layout).1 others ∧
        KeptOn others memory (alloc.deallocate state memory block.ptr block.layout).2

namespace Discipline

variable {alloc : Minimal w σ}

/-- The conditions on what a resizing allocates and deallocates. -/
def Resizes (discipline : Discipline alloc) (world : Heap w σ) (block : Block w)
    (newLayout : Layout w) : Prop :=
  discipline.grants world.state newLayout ∧
    ∀ slice, (alloc.allocate world.state world.memory newLayout).1 = some slice →
      discipline.releases (alloc.allocate world.state world.memory newLayout).2.1
        (⟨slice.ptr, newLayout⟩ :: world.live.erase block) block

/-- The conditions on one step. -/
def Allows (discipline : Discipline alloc) (world : Heap w σ) : HeapCall w → Prop
  | .call (.allocate layout) => discipline.grants world.state layout
  | .call (.deallocate block) =>
      discipline.releases world.state (world.live.erase block) block
  | .call (.grow block newLayout) | .call (.shrink block newLayout) =>
      discipline.Resizes world block newLayout
  | .write _ _ _ => True

variable {discipline : Discipline alloc} {world : Heap w σ} {block : Block w}
  {newLayout : Layout w} {count : Usize w}

/-- A resizing under a discipline. -/
theorem resized_isolated {inner : Call w} (resizes : World.Resizes block newLayout inner)
    (valid : discipline.valid world.state world.live) (member : block ∈ world.live)
    (allowed : discipline.Resizes world block newLayout)
    (few : count.toNat = min block.size newLayout.size.toNat) :
    let outcome := alloc.resized world block newLayout count
    Isolation (.call inner) world.memory world.live outcome.1 outcome.2.memory outcome.2.live ∧
      discipline.valid outcome.2.state outcome.2.live := by
  obtain ⟨grants, releases⟩ := allowed
  intro outcome
  rcases answer : alloc.allocate world.state world.memory newLayout with
    ⟨_ | slice, state, memory⟩
  · obtain ⟨kept, same⟩ := discipline.refuse valid grants answer
    have refused : outcome = (.allocError, { world with state, memory }) := by
      simp only [outcome, resized, answer]
    rw [refused]
    exact ⟨.of_refused same, kept⟩
  · obtain ⟨granted, same⟩ := discipline.allocate valid grants answer
    have release := releases slice (by rw [answer])
    rw [answer] at release
    obtain ⟨fresh, _⟩ := List.pairwise_cons.mp (discipline.apart granted)
    have order : (⟨slice.ptr, newLayout⟩ :: world.live : List (Block w)).Perm
        (block :: ⟨slice.ptr, newLayout⟩ :: world.live.erase block) :=
      ((List.perm_cons_erase member).cons _).trans (.swap _ _ _)
    obtain ⟨released, left⟩ := discipline.deallocate
      (copyNonoverlapping memory block.ptr slice.ptr count) granted order release
    have moved : outcome = (.block slice,
        ⟨(alloc.deallocate state (copyNonoverlapping memory block.ptr slice.ptr count)
            block.ptr block.layout).1,
          (alloc.deallocate state (copyNonoverlapping memory block.ptr slice.ptr count)
            block.ptr block.layout).2,
          ⟨slice.ptr, newLayout⟩ :: world.live.erase block⟩) := by
      simp only [outcome, resized, answer]
    rw [moved]
    refine ⟨.of_moved resizes member same (fun other live address inside => ?_) few.ge left,
      released⟩
    have short : count.toNat ≤ newLayout.size.toNat := few.trans_le (Nat.min_le_right _ _)
    exact fresh other live address
      (BitVec.lt_def.mpr (lt_of_lt_of_le (BitVec.lt_def.mp inside) short))

/-- One call under a discipline. -/
theorem step_isolated (valid : discipline.valid world.state world.live) (call : HeapCall w)
    (admitted : Admits world call) (allowed : discipline.Allows world call) :
    Isolated alloc world call ∧
      discipline.valid (alloc.machine.next world call).state
        (alloc.machine.next world call).live := by
  simp only [Isolated, Machine.out, Machine.next, machine]
  rcases call with (layout | block | ⟨block, newLayout⟩ | ⟨block, newLayout⟩) |
    ⟨block, index, byte⟩
  · simp only [step]
    rcases answer : alloc.allocate world.state world.memory layout with
      ⟨_ | slice, state, memory⟩
    · obtain ⟨kept, same⟩ := discipline.refuse valid allowed answer
      exact ⟨.of_refused same, kept⟩
    · obtain ⟨kept, same⟩ := discipline.allocate valid allowed answer
      exact ⟨.of_allocated same, kept⟩
  · obtain ⟨kept, same⟩ := discipline.deallocate world.memory valid
      (List.perm_cons_erase admitted) allowed
    exact ⟨.of_deallocated same, kept⟩
  · exact resized_isolated (.inl rfl) valid admitted.1 allowed (Nat.min_eq_left admitted.2).symm
  · exact resized_isolated (.inr rfl) valid admitted.1 allowed (Nat.min_eq_right admitted.2).symm
  · exact ⟨.of_written (discipline.apart valid) admitted.1 admitted.2 byte, valid⟩

/-- **Blocks are isolated.** Under a discipline, over every run that keeps its conditions. -/
theorem isolates (discipline : Discipline alloc) (world : Heap w σ)
    (valid : discipline.valid world.state world.live) (calls : List (HeapCall w))
    (admitted : alloc.machine.Along Admits world calls)
    (allowed : alloc.machine.Along discipline.Allows world calls) :
    discipline.valid (alloc.machine.final world calls).state
        (alloc.machine.final world calls).live ∧
      alloc.machine.Along (Isolated alloc) world calls := by
  have step (world : Heap w σ) (call : HeapCall w)
      (valid : discipline.valid world.state world.live)
      (both : Admits world call ∧ discipline.Allows world call) :=
    step_isolated valid call both.1 both.2
  constructor
  · exact (admitted.and allowed).invariant (fun world => discipline.valid world.state world.live)
      (fun world call valid both => (step world call valid both).2) valid
  · exact (admitted.and allowed).of_invariant
      (fun world => discipline.valid world.state world.live) step valid

end Discipline

end Minimal

end Stdx
