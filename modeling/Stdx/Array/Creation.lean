import Stdx.Array.Contents

/-! # Two ways to a first block

`with_capacity` and a reservation on a new array compute the same layout, the one
with plain arithmetic and the other with checked. As long as the number of bytes is
a word they do the same; beyond that the product of `with_capacity` wraps, and it
asks for a block that is too small where `reserve` answers with an error
(`Stdx.Parts.creates_alike_iff`).
-/

namespace Stdx

open Foundation

variable {w : Nat} {α σ : Type*}

namespace Parts

variable [Element w α]

/-- `Array::new` followed by `reserve`. -/
def newReserved (alloc : Allocator w σ) (capacity : Usize w) (state : σ) :
    Except AllocError (Parts w α) :=
  let reserved := (new : Parts w α).reserve alloc capacity state
  reserved.1.map fun _ => reserved.2.1

/-- Both fail, or both give an empty array of one capacity. -/
def SameOutcome : Except AllocError (Parts w α) → Except AllocError (Parts w α) → Prop
  | .ok first, .ok second =>
      first.capacity = second.capacity ∧ first.deref = [] ∧ second.deref = []
  | .error _, .error _ => True
  | .ok _, .error _ | .error _, .ok _ => False

/-- The number of bytes of the elements is a word. -/
def BytesFit (w : Nat) (α : Type*) [Element w α] (capacity : Usize w) : Prop :=
  (sizeOf w α).toNat * capacity.toNat < 2 ^ w

/-- The arrays come out the same, and without a product that wraps; they are refused
when no layout has the number of bytes. -/
structure CreatesAlike (α : Type*) [Element w α] (alloc : Allocator w σ) (capacity : Usize w)
    (state : σ) : Prop where
  same : SameOutcome (withCapacity (α := α) alloc capacity state).1
    (newReserved alloc capacity state)
  refused : 2 ^ (w - 1) < (sizeOf w α).toNat * capacity.toNat + (alignOf w α).toNat →
    (withCapacity (α := α) alloc capacity state).1 = .error .allocError ∧
      newReserved (α := α) alloc capacity state = .error .allocError
  exact : (withCapacity (α := α) alloc capacity state).2.2 = []

/-- The block of the allocator for a number of bytes. -/
def blockOf (α : Type*) [Element w α] (alloc : Allocator w σ) (size : Usize w) (state : σ) :
    Option (Slice w) :=
  (Layout.fromSizeAlign size (alignOf w α)).bind fun layout => (alloc.allocate state layout).1

/-- The empty array in a block, if there is one. -/
def created : Option (Slice w) → Except AllocError (Parts w α)
  | none => .error .allocError
  | some slice => .ok ⟨slice.ptr, 0, slice.len, .fresh, slice.len⟩

variable {alloc : Allocator w σ} {capacity : Usize w} {state : σ}

/-- `with_capacity` takes the block for the product of words. -/
theorem withCapacity_fst (alloc : Allocator w σ) (capacity : Usize w) (state : σ) :
    (withCapacity (α := α) alloc capacity state).1 =
      created (blockOf α alloc (sizeOf w α * capacity) state) := by
  unfold withCapacity blockOf
  cases Layout.fromSizeAlign (sizeOf w α * capacity) (alignOf w α) with
  | none => rfl
  | some layout =>
      rcases answer : alloc.allocate state layout with ⟨_ | slice, after⟩
      · simp only [Option.bind_some, answer, created]
      · simp only [Option.bind_some, answer, created]

/-- `with_capacity` multiplies once. -/
theorem withCapacity_events (alloc : Allocator w σ) (capacity : Usize w) (state : σ) :
    (withCapacity (α := α) alloc capacity state).2.2 = Event.ofMul (sizeOf w α) capacity := by
  unfold withCapacity
  split
  · rfl
  · split
    · rfl
    · rfl

/-- `reserve` takes the block for the same product when it is exact. -/
theorem newReserved_of_fit (fit : BytesFit w α capacity) :
    newReserved (α := α) alloc capacity state =
      created (blockOf α alloc (sizeOf w α * capacity) state) := by
  have checked : (sizeOf w α).checkedMul capacity = some (sizeOf w α * capacity) :=
    Usize.checkedMul_eq_some.mpr ⟨fit, rfl⟩
  unfold newReserved reserve firstLayout blockOf
  simp only [new, if_true, checked, Option.bind_eq_bind, Option.bind_some]
  cases Layout.fromSizeAlign (sizeOf w α * capacity) (alignOf w α) with
  | none => rfl
  | some layout =>
      rcases answer : alloc.allocate state layout with ⟨_ | slice, after⟩
      · simp only [Option.bind_some, answer, created]
        rfl
      · simp only [Option.bind_some, answer, created]
        rfl

/-- Beyond a word `reserve` fails. -/
theorem newReserved_of_not_fit (beyond : ¬ BytesFit w α capacity) :
    newReserved (α := α) alloc capacity state = .error .allocError := by
  have checked : firstLayout w α capacity = none := by
    cases computed : firstLayout w α capacity with
    | none => rfl
    | some layout => exact absurd (firstLayout_eq_some.mp computed).1 beyond
  unfold newReserved reserve
  simp only [new, if_true, checked]
  rfl

theorem sameOutcome_created (block : Option (Slice w)) :
    SameOutcome (created block : Except AllocError (Parts w α)) (created block) := by
  cases block with
  | none => trivial
  | some slice => exact ⟨rfl, rfl, rfl⟩

/-- No layout has too many bytes. -/
theorem blockOf_eq_none (fit : BytesFit w α capacity)
    (large : 2 ^ (w - 1) < (sizeOf w α).toNat * capacity.toNat + (alignOf w α).toNat) :
    blockOf α alloc (sizeOf w α * capacity) state = none := by
  have bytes : (sizeOf w α * capacity).toNat = (sizeOf w α).toNat * capacity.toNat := by
    rw [BitVec.toNat_mul, Nat.mod_eq_of_lt fit]
  have refused : Layout.fromSizeAlign (sizeOf w α * capacity) (alignOf w α) = none := by
    apply dif_neg
    rw [bytes]
    exact fun valid => absurd valid.2 (Nat.not_le_of_lt large)
  rw [blockOf, refused]
  rfl

/-- The outcomes also agree when the block for the wrapped product is refused. -/
theorem sameOutcome_iff :
    SameOutcome (withCapacity (α := α) alloc capacity state).1
        (newReserved alloc capacity state) ↔
      BytesFit w α capacity ∨ blockOf α alloc (sizeOf w α * capacity) state = none := by
  rw [withCapacity_fst]
  by_cases fit : BytesFit w α capacity
  · rw [newReserved_of_fit fit]
    exact ⟨fun _ => .inl fit, fun _ => sameOutcome_created _⟩
  · rw [newReserved_of_not_fit fit, or_iff_right fit]
    cases blockOf α alloc (sizeOf w α * capacity) state with
    | none => exact ⟨fun _ => rfl, fun _ => trivial⟩
    | some slice => exact ⟨fun same => same.elim, fun impossible => by cases impossible⟩

/-- **Creation.** The two ways to an array agree, without a product that wraps,
exactly when the number of bytes is a word; if only the outcomes count, also when
the wrapped product is refused. -/
theorem creates_alike_iff (alloc : Allocator w σ) (capacity : Usize w) (state : σ) :
    (CreatesAlike α alloc capacity state ↔ BytesFit w α capacity) ∧
      (SameOutcome (withCapacity (α := α) alloc capacity state).1
          (newReserved alloc capacity state) ↔
        BytesFit w α capacity ∨ blockOf α alloc (sizeOf w α * capacity) state = none) := by
  refine ⟨⟨fun alike => ?_, fun fit => ⟨sameOutcome_iff.mpr (.inl fit), fun large => ?_, ?_⟩⟩,
    sameOutcome_iff⟩
  · by_contra beyond
    have overflow := alike.exact
    rw [withCapacity_events, Event.ofMul] at overflow
    split at overflow
    · rename_i fit
      exact beyond fit
    · cases overflow
  · rw [withCapacity_fst, newReserved_of_fit fit, blockOf_eq_none fit large]
    exact ⟨rfl, rfl⟩
  · rw [withCapacity_events]
    exact Event.ofMul_eq_nil fit

/-- So many elements of a gibibyte that the number of bytes wraps to zero are created
in an empty block, and not reserved. -/
theorem wrapped_creation :
    ¬ ∀ (alloc : Allocator 64 (FixedBufferAllocator 64 × Memory 64)) (capacity : Usize 64)
      (state : FixedBufferAllocator 64 × Memory 64),
        CreatesAlike Gibibyte alloc capacity state := by
  intro claim
  have alike := claim (FixedBufferAllocator.allocator 64) 0x400000000 (page 0)
  rcases sameOutcome_iff.mp alike.same with fit | refused
  · exact absurd fit (by unfold BytesFit; decide)
  · cases refused

end Parts

end Stdx
