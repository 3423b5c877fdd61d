import Stdx.Foundation.Machine
import Stdx.Array.Contents

/-! # Push and pop

`push` never updates the length and writes past a full block, so an array under
`push` and `pop` stays empty. A run keeps the law of a stack exactly when none
of its pushes succeeds (`Stdx.Parts.stack_law_iff`).
-/

namespace Stdx

open Foundation

variable {w : Nat} {α σ : Type*} [Element w α]

/-- A call of `Array::push` or `Array::pop`. -/
inductive StackOp (α : Type*)
  | push (value : α)
  | pop

/-- What the call returns. -/
inductive StackReply (α : Type*)
  | pushed (outcome : Except AllocError Unit)
  | popped (value : Option (Cell α))
deriving DecidableEq

namespace Parts

namespace Stacked

/-- One call on an array next to the values that were pushed and not yet popped,
the most recent one first. -/
def step (alloc : Allocator w σ) :
    Parts w α × σ × List α → StackOp α → StackReply α × Parts w α × σ × List α
  | (array, state, stack), .push value =>
      match array.push alloc value state with
      | (.ok (), array, state, _) => (.pushed (.ok ()), array, state, value :: stack)
      | (.error error, array, state, _) => (.pushed (.error error), array, state, stack)
  | (array, state, stack), .pop =>
      let popped := RawArray.pop array
      (.popped popped.1, popped.2.1, state, stack.tail)

/-- An array driven by `push` and `pop`. -/
def machine (alloc : Allocator w σ) :
    Machine (Parts w α × σ × List α) (StackOp α) (StackReply α) := ⟨step alloc⟩

/-- The law of a stack for one call. -/
def Lawful (alloc : Allocator w σ) (world : Parts w α × σ × List α) (op : StackOp α) : Prop :=
  let reply := (machine alloc).out world op
  let after := ((machine alloc).next world op).1
  match op with
  | .push value =>
      match reply with
      | .pushed (.ok ()) =>
          after.length.toNat = world.1.length.toNat + 1 ∧
            after.deref = world.1.deref ++ [.val value]
      | _ => after.deref = world.1.deref
  | .pop => reply = .popped (world.2.2.head?.map .val)

/-- The condition on one call: a push obtains no block, or one whose length in
elements does not fit `isize`. -/
def Refused (alloc : Allocator w σ) (world : Parts w α × σ × List α) : StackOp α → Prop
  | .push _ => ∀ slice ∈ world.1.granted alloc world.1.room world.2.1,
      isizeMax w < (sizeOf w α).toNat * slice.len.toNat
  | .pop => True

/-- What every run of pushes and pops keeps. -/
structure Empty (world : Parts w α × σ × List α) : Prop where
  length : world.1.length = 0
  stack : world.2.2 = []

variable {alloc : Allocator w σ}

theorem length_enlarged {array : Parts w α} (empty : array.length = 0) (slice : Slice w) :
    (array.enlarged slice).length = 0 := by
  unfold enlarged
  split
  · rfl
  · exact empty

/-- On an empty array a push is lawful exactly when it is refused, and a refused
push leaves the array empty. -/
theorem push_step {world : Parts w α × σ × List α} (empty : Empty world) (value : α) :
    (Lawful alloc world (.push value) ↔ Refused alloc world (.push value)) ∧
      (Lawful alloc world (.push value) → Empty ((machine alloc).next world (.push value))) := by
  obtain ⟨array, state, stack⟩ := world
  obtain ⟨length, rfl⟩ := empty
  dsimp only at length
  unfold Lawful Refused Machine.out Machine.next machine step
  dsimp only
  rcases array.push_cases alloc value state with
    ⟨refused, after, pushed⟩ | ⟨slice, grant, after, ⟨large, pushed⟩ | ⟨fits, pushed⟩⟩
  · simp only [pushed, refused]
    exact ⟨⟨fun _ => nofun, fun _ => trivial⟩, fun _ => ⟨length, rfl⟩⟩
  · have same := length_enlarged length slice
    simp only [pushed, grant, deref_of_length same, deref_of_length length]
    refine ⟨⟨fun _ other obtained => ?_, fun _ => trivial⟩, fun _ => ⟨same, rfl⟩⟩
    cases obtained
    exact large
  · simp only [pushed, grant, length_enlarged length, length]
    refine ⟨⟨fun lawful => ?_, fun refused => ?_⟩, fun lawful => ?_⟩
    · exact absurd lawful.1 (by simp)
    · exact absurd (refused slice rfl) (not_lt.mpr fits)
    · exact absurd lawful.1 (by simp)

/-- On an empty array a pop is lawful and changes nothing. -/
theorem pop_step (alloc : Allocator w σ) {world : Parts w α × σ × List α} (empty : Empty world) :
    Lawful alloc world .pop ∧ Empty ((machine alloc).next world .pop) := by
  obtain ⟨array, state, stack⟩ := world
  obtain ⟨length, rfl⟩ := empty
  have none : RawArray.pop array = (none, array, []) := if_pos length
  unfold Lawful Machine.out Machine.next machine step
  simp only [none]
  exact ⟨rfl, ⟨length, rfl⟩⟩

end Stacked

open Stacked in
/-- **Exactly when an array is a stack.** -/
theorem stack_law_iff (alloc : Allocator w σ) (state : σ) (ops : List (StackOp α)) :
    (machine alloc).Along (Lawful alloc) (new, state, []) ops ↔
      (machine alloc).Along (Refused alloc) (new, state, []) ops := by
  refine Machine.Along.iff_of_invariant Empty (fun world op empty _ => ?_)
    (Machine.Along.of_forall (fun _ _ => trivial) _ ops) ⟨rfl, rfl⟩
  cases op with
  | push value => exact push_step empty value
  | pop =>
      obtain ⟨lawful, kept⟩ := pop_step alloc empty
      exact ⟨⟨fun _ => trivial, fun _ => lawful⟩, fun _ => kept⟩

open Stacked in
/-- A push that succeeds leaves the length at zero. -/
theorem push_keeps_length :
    ¬ ∀ (alloc : Allocator 64 (FixedBufferAllocator 64 × Memory 64)), alloc.Honours →
      ∀ (state : FixedBufferAllocator 64 × Memory 64) (ops : List (StackOp UInt8)),
        (machine alloc).Along (Lawful alloc) (new, state, []) ops := by
  intro claim
  have run := claim (FixedBufferAllocator.allocator 64)
    (FixedBufferAllocator.allocator_honours 64) (⟨0x1000, 0x1010⟩, fun _ => 0) [.push 7]
  exact absurd run.1.1 (by decide)

end Parts

end Stdx
