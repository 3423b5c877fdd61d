import Mathlib.Data.List.TakeWhile

/-! # Lists split at their first marked entry

A list with a marked entry splits at the first one, in one way only
(`Foundation.exists_first`, `Foundation.first_unique`).
-/

namespace Foundation

variable {α : Type*} {marked : α → Bool} {list front other rest left : List α} {mark second : α}

/-- A list with a marked entry splits at the first one. -/
theorem exists_first (some : ¬ ∀ entry ∈ list, marked entry = false) :
    ∃ front mark rest, list = front ++ mark :: rest ∧
      (∀ entry ∈ front, marked entry = false) ∧ marked mark = true := by
  induction list with
  | nil => exact (some (List.forall_mem_nil _)).elim
  | cons entry list ih =>
      cases here : marked entry with
      | true => exact ⟨[], entry, list, rfl, List.forall_mem_nil _, here⟩
      | false =>
          obtain ⟨front, mark, rest, rfl, plain, isMark⟩ := ih fun none =>
            some (List.forall_mem_cons.mpr ⟨here, none⟩)
          exact ⟨entry :: front, mark, rest, rfl, List.forall_mem_cons.mpr ⟨here, plain⟩, isMark⟩

/-- The split at the first marked entry is the only one. -/
theorem first_unique (frontPlain : ∀ entry ∈ front, marked entry = false)
    (otherPlain : ∀ entry ∈ other, marked entry = false) (isMark : marked mark = true)
    (isSecond : marked second = true) (same : front ++ mark :: rest = other ++ second :: left) :
    front = other ∧ mark = second ∧ rest = left := by
  induction front generalizing other with
  | nil =>
      cases other with
      | nil =>
          obtain ⟨head, tail⟩ := List.cons.inj same
          exact ⟨rfl, head, tail⟩
      | cons entry other =>
          have plain := otherPlain entry List.mem_cons_self
          rw [← (List.cons.inj same).1, isMark] at plain
          cases plain
  | cons entry front ih =>
      obtain ⟨here, later⟩ := List.forall_mem_cons.mp frontPlain
      cases other with
      | nil =>
          rw [(List.cons.inj same).1, isSecond] at here
          cases here
      | cons head other =>
          obtain ⟨equal, tail⟩ := List.cons.inj same
          obtain ⟨fronts, marks, rests⟩ := ih later (List.forall_mem_cons.mp otherPlain).2 tail
          exact ⟨by rw [equal, fronts], marks, rests⟩

/-- A list without a marked entry does not split. -/
theorem ne_of_unmarked (plain : ∀ entry ∈ list, marked entry = false)
    (isMark : marked mark = true) : list ≠ front ++ mark :: rest := by
  rintro rfl
  have here := plain mark (List.mem_append_right _ List.mem_cons_self)
  rw [isMark] at here
  cases here

end Foundation
