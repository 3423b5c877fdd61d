import Mathlib.Algebra.Order.Group.Multiset
import Mathlib.Algebra.BigOperators.Group.List.Basic
import Mathlib.Tactic.Abel
import Stdx.Foundation.Machine

/-! # Bounded lists

A list that never holds more than a fixed number of values, with the operations
at its end and the removal that fills the gap with the last value. Over every
run, no value is lost or duplicated: what a list held and was given is what it
holds, has returned and has dropped (`Foundation.BoundedList.run_conserves`).
-/

open scoped List

namespace Foundation

variable {α : Type*} {bound : Nat}

/-- A list with at most `bound` values. -/
structure BoundedList (α : Type*) (bound : Nat) where
  values : List α
  length_le : values.length ≤ bound

namespace BoundedList

/-- An operation on a bounded list. -/
inductive Op (α : Type*)
  | push (value : α)
  | pop
  | clear
  | swapRemove (index : Nat)

/-- What an operation answers; clearing answers with the values it dropped. -/
inductive Reply (α : Type*)
  | pushed (outcome : Except α Unit)
  | popped (value : Option α)
  | cleared (dropped : List α)
  | removed (value : Option α)

/-- The values an operation hands over. -/
def Op.given : Op α → Multiset α
  | .push value => {value}
  | .pop | .clear | .swapRemove _ => 0

/-- The values an answer hands back. -/
def Reply.returned : Reply α → Multiset α
  | .pushed (.error value) => {value}
  | .popped value | .removed value => value.toList
  | .pushed (.ok ()) | .cleared _ => 0

/-- The values that an answer reports as dropped. -/
def Reply.dropped : Reply α → Multiset α
  | .cleared dropped => dropped
  | .pushed _ | .popped _ | .removed _ => 0

/-- The values without the one at an index, whose place the last one takes. -/
def fillGap (values : List α) (index : Nat) : List α :=
  match values.getLast? with
  | none => []
  | some last => values.dropLast.set index last

@[simp] theorem fillGap_concat (front : List α) (last : α) (index : Nat) :
    fillGap (front ++ [last]) index = front.set index last := by
  simp [fillGap]

theorem length_fillGap (values : List α) (index : Nat) :
    (fillGap values index).length = values.length - 1 := by
  rcases values.eq_nil_or_concat' with rfl | ⟨front, last, rfl⟩
  · rfl
  · simp

/-- Filling the gap keeps every value but the removed one. -/
theorem cons_fillGap_perm {values : List α} {index : Nat} (inside : index < values.length) :
    (values[index] :: fillGap values index).Perm values := by
  rcases values.eq_nil_or_concat' with rfl | ⟨front, last, rfl⟩
  · simp at inside
  · rw [fillGap_concat]
    refine .trans ?_ (List.perm_append_singleton last front).symm
    by_cases front_inside : index < front.length
    · rw [List.getElem_append_left front_inside]
      calc front[index] :: front.set index last
          ~ front[index] :: last :: front.eraseIdx index :=
            (List.set_perm_cons_eraseIdx front_inside last).cons _
        _ ~ last :: front[index] :: front.eraseIdx index := .swap _ _ _
        _ ~ last :: front := (List.getElem_cons_eraseIdx_perm front_inside).cons _
    · rw [List.getElem_append_right (Nat.le_of_not_lt front_inside), List.getElem_singleton,
        List.set_eq_of_length_le (Nat.le_of_not_lt front_inside)]

/-- One operation. -/
def step (list : BoundedList α bound) : Op α → Reply α × BoundedList α bound
  | .push value =>
      if room : list.values.length < bound then
        (.pushed (.ok ()), ⟨list.values ++ [value], by simpa using Nat.succ_le_of_lt room⟩)
      else
        (.pushed (.error value), list)
  | .pop =>
      (.popped list.values.getLast?,
        ⟨list.values.dropLast, List.length_dropLast ▸ (Nat.sub_le _ 1).trans list.length_le⟩)
  | .clear => (.cleared list.values, ⟨[], Nat.zero_le bound⟩)
  | .swapRemove index =>
      if index < list.values.length then
        (.removed list.values[index]?,
          ⟨fillGap list.values index,
            length_fillGap list.values index ▸ (Nat.sub_le _ 1).trans list.length_le⟩)
      else
        (.removed none, list)

/-- Bounded lists as a machine. -/
def machine (α : Type*) (bound : Nat) : Machine (BoundedList α bound) (Op α) (Reply α) := ⟨step⟩

/-- One operation neither loses nor duplicates a value. -/
theorem step_conserves (list : BoundedList α bound) (op : Op α) :
    (((machine α bound).next list op).values : Multiset α) +
        (((machine α bound).out list op).returned + ((machine α bound).out list op).dropped) =
      list.values + op.given := by
  cases op with
  | push value =>
      by_cases room : list.values.length < bound
      · simp [Machine.next, Machine.out, machine, step, room, Reply.returned, Reply.dropped,
          Op.given, ← Multiset.coe_add]
      · simp [Machine.next, Machine.out, machine, step, room, Reply.returned, Reply.dropped,
          Op.given]
  | pop =>
      rcases list with ⟨values, bounded⟩
      rcases values.eq_nil_or_concat' with rfl | ⟨front, last, rfl⟩
      · rfl
      · simp [Machine.next, Machine.out, machine, step, Reply.returned, Reply.dropped, Op.given,
          ← Multiset.coe_add]
  | clear =>
      simp [Machine.next, Machine.out, machine, step, Reply.returned, Reply.dropped, Op.given]
  | swapRemove index =>
      by_cases inside : index < list.values.length
      · have same := Multiset.coe_eq_coe.mpr (cons_fillGap_perm inside)
        simp only [Machine.next, Machine.out, machine, step, inside, if_true, Reply.returned,
          Reply.dropped, Op.given, add_zero, List.getElem?_eq_getElem, Option.toList_some]
        rw [← same, ← Multiset.cons_coe, ← Multiset.singleton_add, add_comm]
        rfl
      · simp [Machine.next, Machine.out, machine, step, inside, Reply.returned, Reply.dropped,
          Op.given]

/-- **Conservation.** What a list held and was given is what it holds, has
returned and has dropped. -/
theorem run_conserves (list : BoundedList α bound) (ops : List (Op α)) :
    (((machine α bound).final list ops).values : Multiset α) +
        (((machine α bound).outputs list ops).map Reply.returned).sum +
        (((machine α bound).outputs list ops).map Reply.dropped).sum =
      list.values + (ops.map Op.given).sum := by
  induction ops generalizing list with
  | nil => simp [Machine.outputs]
  | cons op ops ih =>
      have now := step_conserves list op
      have later := ih ((machine α bound).next list op)
      simp only [Machine.outputs, Machine.final_cons, List.map_cons, List.sum_cons]
      rw [← add_assoc (list.values : Multiset α), ← now,
        add_right_comm (((machine α bound).next list op).values : Multiset α), ← later]
      abel

end BoundedList

end Foundation
