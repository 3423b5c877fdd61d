import Stdx.Array.Append
import Stdx.Array.Insert

/-! # What a failed call leaves behind

`push` checks the offset it writes at after the reservation has moved the array,
so the error of that check comes too late; `insert` pushes at the end and has the
same exit. Every other error of `reserve`, `push`, `insert` and `append` comes
before any change (`Stdx.Parts.restores_iff`).
-/

namespace Stdx

open Foundation

variable {w : Nat} {α σ : Type*} [Element w α] {alloc : Allocator w σ}

/-- A call that can fail with `AllocError`. -/
inductive FallibleOp (w : Nat) (α : Type*)
  | reserve (additional : Usize w)
  | push (value : α)
  | insert (index : Usize w) (value : α)
  | append (other : Parts w α)

namespace Parts

/-- Two arrays have the same data pointer, length, capacity and elements. -/
structure Same (before after : Parts w α) : Prop where
  data : after.data = before.data
  length : after.length = before.length
  capacity : after.capacity = before.capacity
  elements : after.deref = before.deref

theorem Same.refl (array : Parts w α) : array.Same array := ⟨rfl, rfl, rfl, rfl⟩

namespace Fallible

/-- Whether a call fails, and the arrays that take part in it before and after. -/
def run (alloc : Allocator w σ) (array : Parts w α) (state : σ) :
    FallibleOp w α → Except AllocError Unit × List (Parts w α × Parts w α)
  | .reserve additional =>
      let reserved := array.reserve alloc additional state
      (reserved.1, [(array, reserved.2.1)])
  | .push value =>
      let pushed := array.push alloc value state
      (pushed.1, [(array, pushed.2.1)])
  | .insert index value =>
      let inserted := RawArray.insert array alloc index value state
      (inserted.1.map fun _ => (), [(array, inserted.2.1)])
  | .append other =>
      let appended := RawArray.append array alloc other state
      (appended.1, [(array, appended.2.1), (other, appended.2.2.1)])

/-- The promise of a call that fails: all arrays are what they were. -/
def Restores (alloc : Allocator w σ) (array : Parts w α) (state : σ) (op : FallibleOp w α) :
    Prop :=
  (run alloc array state op).1 = .error .allocError →
    ∀ sides ∈ (run alloc array state op).2, sides.1.Same sides.2

/-- The offset behind the block that a push obtains fits `isize`. -/
def PushFits (alloc : Allocator w σ) (array : Parts w α) (state : σ) : Prop :=
  ∀ slice ∈ array.granted alloc array.room state,
    (sizeOf w α).toNat * slice.len.toNat ≤ isizeMax w

/-- The condition on a call: its push, if it makes one, does not fail late. -/
def Prompt (alloc : Allocator w σ) (array : Parts w α) (state : σ) : FallibleOp w α → Prop
  | .push _ => PushFits alloc array state
  | .insert index _ => index = array.length → PushFits alloc array state
  | .reserve _ | .append _ => True

instance (alloc : Allocator w σ) (array : Parts w α) (state : σ) :
    Decidable (PushFits alloc array state) := inferInstanceAs (Decidable (∀ _ ∈ _, _))

variable {array : Parts w α} {state : σ} {slice : Slice w} {op : FallibleOp w α}

/-- A push that fails late has changed the capacity. -/
theorem not_same_enlarged (honours : alloc.Honours) {additional : Usize w}
    (grant : array.granted alloc additional state = some slice)
    (late : isizeMax w < (sizeOf w α).toNat * slice.len.toNat) :
    ¬ array.Same (array.enlarged slice) := by
  intro same
  have capacity : slice.len.toNat = array.capacity.toNat := congrArg BitVec.toNat same.capacity
  obtain ⟨room, bytes⟩ := granted_len honours grant
  -- elements have two bytes at least, so a block counted in bytes has grown
  have large : 1 < (sizeOf w α).toNat := by
    by_contra small
    have product := Nat.mul_le_mul_right slice.len.toNat (not_lt.mp small)
    omega
  have occupied : 0 < slice.len.toNat := by
    by_contra empty
    rw [Nat.eq_zero_of_not_pos empty] at late
    omega
  have twice := Nat.mul_le_mul_right slice.len.toNat large
  rw [Nat.mul_add, ← capacity] at room
  omega

/-- A call that succeeds has nothing to restore. -/
theorem restores_of_ok (ok : (run alloc array state op).1 = .ok ()) :
    Restores alloc array state op := by
  intro error
  rw [ok] at error
  cases error

/-- A call that changes no array restores them all. -/
theorem restores_of_unchanged (same : ∀ sides ∈ (run alloc array state op).2, sides.1 = sides.2) :
    Restores alloc array state op := by
  intro _ sides member
  rw [same sides member]
  exact .refl _

/-- A push that fails late does not restore the array. -/
theorem not_restores_of_late (honours : alloc.Honours) {additional : Usize w}
    (grant : array.granted alloc additional state = some slice)
    (late : isizeMax w < (sizeOf w α).toNat * slice.len.toNat)
    (moved : run alloc array state op = (.error .allocError, [(array, array.enlarged slice)])) :
    ¬ Restores alloc array state op := by
  intro restores
  unfold Restores at restores
  rw [moved] at restores
  exact not_same_enlarged honours grant late (restores rfl _ (List.mem_singleton_self _))

/-- A push restores the array exactly when it does not fail late. -/
theorem push_restores_iff (honours : alloc.Honours) (value : α) :
    Restores alloc array state (.push value) ↔ PushFits alloc array state := by
  unfold PushFits
  rcases array.push_cases alloc value state with
    ⟨refused, after, pushed⟩ | ⟨slice, grant, after, ⟨late, pushed⟩ | ⟨fits, pushed⟩⟩
  · rw [refused]
    refine iff_of_true (restores_of_unchanged ?_)
      fun _ some => absurd some (Option.not_mem_none _)
    rw [run, pushed]
    exact List.forall_mem_singleton.mpr rfl
  · rw [grant]
    refine iff_of_false (not_restores_of_late honours grant late ?_)
      fun fits => absurd (fits slice rfl) (not_le.mpr late)
    rw [run, pushed]
  · rw [grant]
    refine iff_of_true (restores_of_ok ?_) fun other same => ?_
    · rw [run, pushed]
    · cases same
      exact fits

/-- An insertion restores the array exactly when it is not a push that fails late. -/
theorem insert_restores_iff (honours : alloc.Honours) (index : Usize w) (value : α) :
    Restores alloc array state (.insert index value) ↔
      (index = array.length → PushFits alloc array state) := by
  by_cases outside : array.length.toNat < index.toNat
  · refine iff_of_true (restores_of_ok ?_) fun last => ?_
    · rw [run, (insert_outside alloc value state outside).2]
      rfl
    · rw [last] at outside
      exact absurd outside (lt_irrefl _)
  have entered := (insert_inside alloc value state (not_lt.mp outside)).2
  have pushes (last : index = array.length) : array.insertRoom index = array.room := if_pos last
  rcases array.insertUnchecked_cases alloc index value state with
    ⟨refused, after, inserted⟩ | ⟨slice, grant, ⟨late, after, inserted⟩ | ⟨early, ok, _⟩⟩
  · refine iff_of_true (restores_of_unchanged ?_) fun last other granted => ?_
    · rw [run, entered, inserted]
      exact List.forall_mem_singleton.mpr rfl
    · rw [← pushes last, refused] at granted
      exact absurd granted (Option.not_mem_none _)
  · refine iff_of_false (not_restores_of_late honours grant late.2 ?_) fun fits => ?_
    · rw [run, entered, inserted]
      rfl
    · rw [pushes late.1] at grant
      exact absurd (fits late.1 slice grant) (not_le.mpr late.2)
  · refine iff_of_true (restores_of_ok ?_) fun last other granted => ?_
    · rw [run, entered]
      dsimp only
      rw [ok]
      rfl
    · rw [← pushes last] at granted
      cases Option.mem_unique grant granted
      exact not_lt.mp fun late => early ⟨last, late⟩

/-- A failed reservation changes nothing. -/
theorem reserve_restores (alloc : Allocator w σ) (array : Parts w α) (state : σ)
    (additional : Usize w) : Restores alloc array state (.reserve additional) := by
  rcases array.reserve_cases alloc additional state with
    ⟨_, after, reserved⟩ | ⟨slice, _, after, reserved⟩
  · apply restores_of_unchanged
    rw [run, reserved]
    exact List.forall_mem_singleton.mpr rfl
  · apply restores_of_ok
    rw [run, reserved]

/-- A failed `append` changes neither array. -/
theorem append_restores (alloc : Allocator w σ) (array : Parts w α) (state : σ)
    (other : Parts w α) : Restores alloc array state (.append other) := by
  rcases array.append_cases alloc other state with
    ⟨_, after, appended⟩ | ⟨slice, _, after, appended⟩
  · apply restores_of_unchanged
    rw [run, appended]
    exact List.forall_mem_cons.mpr ⟨rfl, List.forall_mem_singleton.mpr rfl⟩
  · apply restores_of_ok
    rw [run, appended]

end Fallible

open Fallible in
/-- **Exactly when a failed call leaves everything as it was.** -/
theorem restores_iff (honours : alloc.Honours) (array : Parts w α) (state : σ)
    (op : FallibleOp w α) : Restores alloc array state op ↔ Prompt alloc array state op := by
  cases op with
  | reserve additional =>
      exact iff_of_true (reserve_restores alloc array state additional) trivial
  | push value => exact push_restores_iff honours value
  | insert index value => exact insert_restores_iff honours index value
  | append other => exact iff_of_true (append_restores alloc array state other) trivial

open Fallible in
/-- A byte inserted behind two others; the page has no room for the larger block. -/
theorem fullPage_restored :
    Restores (FixedBufferAllocator.allocator 64) (ofBytes [5, 6]) (page 16) (.insert 2 7) :=
  (restores_iff (FixedBufferAllocator.allocator_honours 64) (ofBytes [5, 6]) (page 16)
    (.insert 2 7)).mpr (fun _ => by decide)

open Fallible in
/-- A first push of a gibibyte obtains a block of sixteen and then fails: their
number in bytes, as a number of elements, does not fit. -/
theorem failed_push_changes_array :
    ¬ ∀ (alloc : Allocator 64 (FixedBufferAllocator 64 × Memory 64)), alloc.Honours →
      ∀ (array : Parts 64 Gibibyte) (state : FixedBufferAllocator 64 × Memory 64)
        (op : FallibleOp 64 Gibibyte), Restores alloc array state op := by
  intro claim
  have restored := claim (FixedBufferAllocator.allocator 64)
    (FixedBufferAllocator.allocator_honours 64) new (⟨0x1000, 0x800000000⟩, fun _ => 0)
    (.push fun _ => 0) (by decide) _ (List.mem_singleton_self _)
  exact absurd restored.capacity (by decide)

end Parts

end Stdx
