import Mathlib.Data.List.Forall2
import Stdx.Foundation.Align

/-! # Items placed in their order

Items with a size and an alignment are placed one behind the other, each at the first multiple of
its alignment. No other placement of the same items in the same order puts one of them lower
(`Foundation.Arranged.pack_le`), so there is one within a bound exactly when this one is
(`Foundation.exists_arranged_iff`). Items whose sizes are multiples of their alignments and whose
alignments divide one another in their order leave no gaps (`Foundation.packedEnd_eq_sum`).
-/

namespace Foundation

/-- An item to be placed. -/
structure Item where
  size : Nat
  align : Nat
  align_pos : 0 < align

/-- Starts for items in their order: each at a multiple of the alignment and behind the item
before, the first one behind `begin`, and all items end at `stop` or before. -/
inductive Arranged (stop : Nat) : Nat → List Item → List Nat → Prop
  | nil {begin : Nat} (inside : begin ≤ stop) : Arranged stop begin [] []
  | cons {begin start : Nat} {item : Item} {items : List Item} {starts : List Nat}
      (aligned : item.align ∣ start) (behind : begin ≤ start)
      (later : Arranged stop (start + item.size) items starts) :
      Arranged stop begin (item :: items) (start :: starts)

/-- Every item at the first multiple of its alignment behind the item before. -/
def pack : Nat → List Item → List Nat
  | _, [] => []
  | begin, item :: items =>
      alignUp begin item.align :: pack (alignUp begin item.align + item.size) items

/-- The end of the last item. -/
def packedEnd : Nat → List Item → Nat
  | begin, [] => begin
  | begin, item :: items => packedEnd (alignUp begin item.align + item.size) items

variable {stop begin : Nat} {item : Item} {items : List Item} {starts : List Nat}

theorem packedEnd_mono {lower : Nat} (le : lower ≤ begin) (items : List Item) :
    packedEnd lower items ≤ packedEnd begin items := by
  induction items generalizing lower begin with
  | nil => exact le
  | cons item items ih => exact ih (Nat.add_le_add_right (alignUp_mono le) _)

theorem le_packedEnd (begin : Nat) (items : List Item) : begin ≤ packedEnd begin items := by
  induction items generalizing begin with
  | nil => exact Nat.le_refl begin
  | cons item items ih =>
      have start := le_alignUp begin item.align_pos
      exact start.trans ((Nat.le_add_right _ _).trans (ih _))

/-- Items that fit can be placed. -/
theorem arranged_pack (fits : packedEnd begin items ≤ stop) :
    Arranged stop begin items (pack begin items) := by
  induction items generalizing begin with
  | nil => exact .nil fits
  | cons item items ih =>
      exact .cons (dvd_alignUp _ _) (le_alignUp begin item.align_pos) (ih fits)

namespace Arranged

/-- Items that are placed within a bound fit. -/
theorem packedEnd_le (arranged : Arranged stop begin items starts) :
    packedEnd begin items ≤ stop := by
  induction arranged with
  | nil inside => exact inside
  | @cons begin start item items starts aligned behind later ih =>
      have low := alignUp_le_of_dvd item.align_pos aligned behind
      exact (packedEnd_mono (Nat.add_le_add_right low _) items).trans ih

/-- Where more is free, the starts are not higher. -/
theorem pack_le_of_le {lower : Nat} (le : lower ≤ begin)
    (arranged : Arranged stop begin items starts) :
    List.Forall₂ (· ≤ ·) (pack lower items) starts := by
  induction arranged generalizing lower with
  | nil inside => exact .nil
  | @cons begin start item items starts aligned behind later ih =>
      have low := alignUp_le_of_dvd item.align_pos aligned (le.trans behind)
      exact .cons low (ih (Nat.add_le_add_right low _))

/-- **The lowest placement.** -/
theorem pack_le (arranged : Arranged stop begin items starts) :
    List.Forall₂ (· ≤ ·) (pack begin items) starts :=
  arranged.pack_le_of_le (Nat.le_refl begin)

end Arranged

/-- Items can be placed within a bound exactly when the lowest placement is within it. -/
theorem exists_arranged_iff :
    (∃ starts, Arranged stop begin items starts) ↔ packedEnd begin items ≤ stop := by
  constructor
  · rintro ⟨starts, arranged⟩
    exact arranged.packedEnd_le
  · intro fits
    exact ⟨_, arranged_pack fits⟩

/-- Alignments that divide those before them, and sizes in multiples of alignments. -/
def Nested : Nat → List Item → Prop
  | _, [] => True
  | align, item :: items => item.align ∣ align ∧ item.align ∣ item.size ∧ Nested item.align items

instance : ∀ align items, Decidable (Nested align items)
  | _, [] => isTrue trivial
  | align, item :: items =>
      have : Decidable (Nested item.align items) := instDecidableNested item.align items
      inferInstanceAs (Decidable (item.align ∣ align ∧ item.align ∣ item.size ∧
        Nested item.align items))

/-- **No gaps.** -/
theorem packedEnd_eq_sum {align : Nat} (divides : align ∣ begin) (nested : Nested align items) :
    packedEnd begin items = begin + (items.map Item.size).sum := by
  induction items generalizing begin align with
  | nil => rfl
  | cons item items ih =>
      obtain ⟨smaller, padded, later⟩ := nested
      have here : item.align ∣ begin := smaller.trans divides
      rw [packedEnd, alignUp_of_dvd item.align_pos here, ih (Nat.dvd_add here padded) later,
        List.map_cons, List.sum_cons, Nat.add_assoc]

end Foundation
