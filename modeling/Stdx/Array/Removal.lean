import Stdx.Array.Contents

/-! # Removing elements

`truncate` starts its loop one element early, so it keeps its promise exactly
when it has nothing to do (`Stdx.Parts.truncate_iff`). `remove` and
`swap_remove` compare the index with `length - 1` before they look at the
length, so they keep theirs exactly on arrays that are not empty
(`Stdx.Parts.removals_iff`).
-/

namespace Stdx

open Foundation

variable {w : Nat} {α : Type*} [Element w α]

/-- The place and the contents of a cell that is dropped. -/
def Event.dropSite : Event α → Option (Nat × Cell α)
  | .dropInPlace offset cell => some (offset, cell)
  | .read _ _ | .write _ _ | .readOther _ _ | .dropValue _ | .overflow => none

namespace Parts

/-- The elements from an index on, each at its place. -/
def sites (w : Nat) [Element w α] (values : List α) (first : Nat) : List (Nat × Cell α) :=
  ((values.drop first).zipIdx first).map fun entry =>
    ((sizeOf w α).toNat * entry.2, .val entry.1)

/-- The promise of `truncate`: the elements in front stay, those behind are
dropped once each, and no arithmetic overflows. -/
structure Truncates (values : List α) (len : Nat) (outcome : Parts w α × List (Event α)) :
    Prop where
  kept : outcome.1.deref = (values.take len).map .val
  dropped : (outcome.2.filterMap Event.dropSite).Perm (sites w values len)
  arithmetic : .overflow ∉ outcome.2

/-- The promise of a removal: it refuses exactly the indices that are out of
bounds, returns the element, leaves the others, and no arithmetic overflows. -/
structure Removes (array : Parts w α) (values : List α) (index : Nat) (rest : List α)
    (outcome : Option (Cell α) × Parts w α × List (Event α)) : Prop where
  refused : outcome.1 = none ∧ outcome.2.1 = array ↔ values.length ≤ index
  removed : ∀ inside : index < values.length,
    outcome.1 = some (.val values[index]) ∧ outcome.2.1.deref = rest.map .val
  arithmetic : .overflow ∉ outcome.2.2

variable {array : Parts w α} {values : List α}

theorem length_sites (first : Nat) : (sites w values first).length = values.length - first := by
  rw [sites, List.length_map, List.length_zipIdx, List.length_drop]

/-- Taking one from a length of zero wraps. -/
theorem overflow_mem_ofSub {length : Usize w} (zero : length.toNat = 0) :
    .overflow ∈ (Event.ofSub length 1 : List (Event α)) := by
  rw [Event.ofSub, zero, toNat_one w α, if_pos Nat.one_pos]
  exact List.mem_singleton_self _

/-- A truncation to a smaller length runs its loop once too often, or not at all
when the start of the loop wraps. -/
theorem truncate_of_lt {len : Usize w} (shorter : len.toNat < array.length.toNat) :
    (len = 0 ∧ .overflow ∈ (array.truncate len).2) ∨
      ((array.truncate len).2.filterMap Event.dropSite).length =
        array.length.toNat - len.toNat + 1 := by
  unfold truncate
  rw [if_neg (not_le.mpr shorter)]
  dsimp only
  by_cases zero : len.toNat = 0
  · exact .inl ⟨BitVec.eq_of_toNat_eq zero, List.mem_append_left _ (overflow_mem_ofSub zero)⟩
  · have positive := Nat.pos_of_ne_zero zero
    refine .inr ?_
    rw [Event.ofSub_one_eq_nil positive, List.nil_append, List.filterMap_map]
    change (List.filterMap (some ∘ _) _).length = _
    rw [List.filterMap_eq_map, List.length_map, List.length_range', toNat_pred positive]
    omega

/-- **Exactly when `truncate` keeps its promise.** -/
theorem truncate_iff (shown : array.Shows values) (len : Usize w) :
    Truncates values len.toNat (array.truncate len) ↔ values.length ≤ len.toNat := by
  have count := shown.count
  constructor
  · intro promise
    by_contra shorter
    rcases truncate_of_lt (show len.toNat < array.length.toNat by omega) with
      ⟨_, overflow⟩ | twice
    · exact promise.arithmetic overflow
    · have once := promise.dropped.length_eq
      rw [twice, length_sites, count] at once
      omega
  · intro longer
    have same : array.truncate len = (array, []) := if_pos (count ▸ longer)
    rw [same]
    refine ⟨?_, ?_, List.not_mem_nil⟩
    · rw [List.take_of_length_le longer]
      exact shown.contents
    · rw [sites, List.drop_eq_nil_of_le longer]
      exact .nil

/-- A truncation to the length it has or a larger one. -/
theorem twoBytes_kept : Truncates [5, 6] 2 (truncate (ofBytes [5, 6]) 2) :=
  (truncate_iff (ofBytes_shows (by decide)) 2).mpr (by decide)

/-- `Box<u8>`, whose destructor frees the byte at its address. -/
structure Boxed where
  address : Usize 64

/-- `Box<u8>` on a 64-bit machine. -/
instance : Element 64 Boxed where
  layout := ⟨8, 8, by decide, by decide⟩
  align_dvd_size := by decide
  eq_of_size_eq_zero empty := absurd empty (by decide)

/-- Two boxes in a block of sixteen bytes. -/
def twoBoxes : Parts 64 Boxed where
  data := 0x1000
  length := 2
  capacity := 16
  cells
    | 0 => .val ⟨0x2000⟩
    | 8 => .val ⟨0x2001⟩
    | _ => .uninit
  bytes := 16

/-- Truncating two boxes to one drops the box that stays, too. -/
theorem kept_box_dropped :
    ¬ ∀ (array : Parts 64 Boxed) (values : List Boxed), array.Shows values →
      ∀ len : Usize 64, Truncates values len.toNat (array.truncate len) := by
  intro claim
  have shown : twoBoxes.Shows [⟨0x2000⟩, ⟨0x2001⟩] := ⟨rfl, by decide⟩
  exact absurd (claim _ _ shown 1).dropped.length_eq (by decide)

/-- The slice of an array that has become shorter by one. -/
theorem Shows.shorten (shown : array.Shows values) (nonempty : values ≠ []) {rest : List α}
    (count : rest.length = values.length - 1) {cells : Cells α}
    (same : ∀ index, ∀ inside : index < rest.length,
      cells ((sizeOf w α).toNat * index) = .val rest[index]) :
    ({ array with cells, length := array.length - 1 } : Parts w α).deref = rest.map .val := by
  have occupied : 0 < array.length.toNat := by
    rw [shown.count]
    exact List.length_pos_of_ne_nil nonempty
  exact deref_eq_map_iff.mpr ⟨by rw [toNat_pred occupied, shown.count, count], same⟩

/-- Moving the elements behind an index down by one leaves the list without it. -/
theorem cells_removeUnchecked (shown : array.Shows values) {index : Usize w}
    (inside : index.toNat < values.length) (place : Nat)
    (placed : place < (values.eraseIdx index.toNat).length) :
    (array.removeUnchecked index).2.1.cells ((sizeOf w α).toNat * place) =
      .val (values.eraseIdx index.toNat)[place] := by
  have count := shown.count
  have small := mul_lt_of_lt shown.mul_length_lt (count ▸ inside)
  rw [List.length_eraseIdx_of_lt inside] at placed
  have moved : (array.length - index).toNat = values.length - index.toNat := by
    rw [BitVec.toNat_sub_of_le (by rw [BitVec.le_def]; omega), count]
  unfold removeUnchecked
  dsimp only
  rw [offset_eq small, moved, List.getElem_eraseIdx]
  rcases Nat.eq_zero_or_pos (sizeOf w α).toNat with zero | positive
  · -- elements without bytes are all the same value
    have same := shown.cell (show place < values.length by omega)
    rw [zero, Cells.copy_zero, ← zero, same]
    exact congrArg _ (Element.eq_of_size_eq_zero (BitVec.eq_of_toNat_eq zero) _ _)
  · rw [← Nat.mul_succ, Cells.copy_mul _ positive]
    by_cases before : place < index.toNat
    · rw [dif_pos before, if_neg (by omega)]
      exact shown.cell _
    · rw [dif_neg before, if_pos (by omega), ← shown.cell]
      congr 2
      omega

/-- An in-bounds `remove_unchecked` does its arithmetic in range. -/
theorem removeUnchecked_arithmetic (shown : array.Shows values) {index : Usize w}
    (inside : index.toNat < values.length) : .overflow ∉ (array.removeUnchecked index).2.2 := by
  have bound : index.toNat < array.length.toNat := shown.count ▸ inside
  unfold removeUnchecked
  rw [Event.ofMul_eq_nil (mul_lt_of_lt shown.mul_length_lt bound),
    Event.ofSub_eq_nil bound.le, Event.ofSub_one_eq_nil (Nat.zero_lt_of_lt bound)]
  simp

/-- The last element is the one that either way of closing a gap leaves out. -/
theorem rest_of_last {index : Nat} (last : index = values.length - 1) {rest : List α}
    (closed : rest = values.eraseIdx index ∨ rest = BoundedList.fillGap values index)
    (nonempty : values ≠ []) : rest = values.dropLast := by
  subst last
  rcases closed with rfl | rfl
  · rw [List.eraseIdx_length_sub_one]
  · rcases values.eq_nil_or_concat' with rfl | ⟨front, last, rfl⟩
    · exact absurd rfl nonempty
    · rw [BoundedList.fillGap_concat, List.dropLast_concat,
        List.set_eq_of_length_le (by simp)]

/-- Removing the last element of a nonempty array. -/
theorem removes_last (shown : array.Shows values) (nonempty : values ≠ []) {index : Usize w}
    (last : index = array.length - 1) {rest : List α}
    (closed : rest = values.eraseIdx index.toNat ∨ rest = BoundedList.fillGap values index.toNat) :
    Removes array values index.toNat rest
      (some array.pop.1, array.pop.2.1, Event.ofSub array.length 1 ++ array.pop.2.2) := by
  have positive := List.length_pos_of_ne_nil nonempty
  have occupied : 0 < array.length.toNat := shown.count ▸ positive
  have place : index.toNat = values.length - 1 := by
    rw [last, toNat_pred occupied, shown.count]
  rw [rest_of_last place closed nonempty, pop_of_pos shown.mul_length_lt occupied,
    Event.ofSub_one_eq_nil occupied, shown.count]
  refine ⟨?_, fun inside => ⟨?_, ?_⟩, ?_⟩
  · constructor
    · exact fun refused => nomatch refused.1
    · exact fun outside => absurd outside (by omega)
  · rw [shown.cell (by omega)]
    simp only [place]
  · refine shown.shorten nonempty List.length_dropLast fun other placed => ?_
    rw [List.length_dropLast] at placed
    rw [shown.cell (by omega), List.getElem_dropLast]
  · simp

/-- Removing an element in front of the last one. -/
theorem removes_inside (shown : array.Shows values) {index : Usize w}
    (inside : index.toNat < values.length) {rest : List α}
    {outcome : Cell α × Parts w α × List (Event α)}
    (removed : outcome.1 = .val values[index.toNat])
    (left : outcome.2.1.deref = rest.map .val) (arithmetic : .overflow ∉ outcome.2.2) :
    Removes array values index.toNat rest
      (some outcome.1, outcome.2.1, Event.ofSub array.length 1 ++ outcome.2.2) := by
  have bound : index.toNat < array.length.toNat := shown.count ▸ inside
  rw [Event.ofSub_one_eq_nil (Nat.zero_lt_of_lt bound)]
  refine ⟨?_, fun _ => ⟨congrArg some removed, left⟩, arithmetic⟩
  constructor
  · exact fun refused => nomatch refused.1
  · exact fun outside => absurd outside (not_le.mpr inside)

/-- Refusing an index that is out of bounds of a nonempty array. -/
theorem removes_outside (shown : array.Shows values) (nonempty : values ≠ []) {index : Usize w}
    (outside : values.length ≤ index.toNat) (rest : List α) :
    Removes array values index.toNat rest (none, array, Event.ofSub array.length 1) := by
  have occupied : 0 < array.length.toNat := shown.count ▸ List.length_pos_of_ne_nil nonempty
  rw [Event.ofSub_one_eq_nil occupied]
  exact ⟨⟨fun _ => outside, fun _ => ⟨rfl, rfl⟩⟩,
    fun inside => absurd inside (not_lt.mpr outside), List.not_mem_nil⟩

/-- The checks that both removals make keep the promise, where what is removed in front of
the last element does. -/
theorem removes_of_checks (shown : array.Shows values) (nonempty : values ≠ []) {index : Usize w}
    {rest : List α} {removed : Cell α × Parts w α × List (Event α)}
    (closed : rest = values.eraseIdx index.toNat ∨ rest = BoundedList.fillGap values index.toNat)
    (front : index.toNat < values.length →
      Removes array values index.toNat rest
        (some removed.1, removed.2.1, Event.ofSub array.length 1 ++ removed.2.2)) :
    Removes array values index.toNat rest
      (if index = array.length - 1 then
        (some array.pop.1, array.pop.2.1, Event.ofSub array.length 1 ++ array.pop.2.2)
      else if array.length.toNat ≤ index.toNat then
        (none, array, Event.ofSub array.length 1)
      else
        (some removed.1, removed.2.1, Event.ofSub array.length 1 ++ removed.2.2)) := by
  by_cases last : index = array.length - 1
  · rw [if_pos last]
    exact removes_last shown nonempty last closed
  rw [if_neg last]
  by_cases outside : array.length.toNat ≤ index.toNat
  · rw [if_pos outside]
    exact removes_outside shown nonempty (shown.count ▸ outside) _
  · rw [if_neg outside]
    exact front (shown.count ▸ not_le.mp outside)

/-- `remove` keeps its promise on a nonempty array. -/
theorem removes_remove (shown : array.Shows values) (nonempty : values ≠ []) (index : Usize w) :
    Removes array values index.toNat (values.eraseIdx index.toNat)
      (RawArray.remove array index) := by
  apply removes_of_checks shown nonempty (.inl rfl)
  intro inside
  have bound : index.toNat < array.length.toNat := shown.count ▸ inside
  apply removes_inside shown inside
  · change array.cells (offset w α index) = _
    rw [offset_eq (mul_lt_of_lt shown.mul_length_lt bound), shown.cell inside]
  · exact shown.shorten nonempty (List.length_eraseIdx_of_lt inside)
      (cells_removeUnchecked shown inside)
  · exact removeUnchecked_arithmetic shown inside

/-- `swap_remove` keeps its promise on a nonempty array. -/
theorem removes_swapRemove (shown : array.Shows values) (nonempty : values ≠ [])
    (index : Usize w) :
    Removes array values index.toNat (BoundedList.fillGap values index.toNat)
      (RawArray.swapRemove array index) := by
  have positive := List.length_pos_of_ne_nil nonempty
  have occupied : array.length ≠ 0 := fun zero => by
    rw [← shown.count, zero] at positive
    exact absurd positive (Nat.not_lt_zero 0)
  unfold RawArray.swapRemove
  rw [RawArray.pop, if_neg occupied]
  apply removes_of_checks shown nonempty (.inr rfl)
  intro inside
  have bound : index.toNat < array.length.toNat := shown.count ▸ inside
  rw [swapRemoveUnchecked_of_lt shown.mul_length_lt bound, shown.count]
  apply removes_inside shown inside
  · exact shown.cell inside
  · apply shown.shorten nonempty (BoundedList.length_fillGap values index.toNat)
    exact set_fillGap (fun _ => shown.cell) index.toNat
  · simp

/-- A removal that looks for the last element first breaks its promise on an empty array. -/
theorem Removes.nonempty {index : Nat} {rest : List α}
    {outcome : Option (Cell α) × Parts w α × List (Event α)}
    (promise : Removes array values index rest outcome) (shown : array.Shows values)
    (first : Event.ofSub array.length 1 ⊆ outcome.2.2) : values ≠ [] := by
  rintro rfl
  exact promise.arithmetic (first (overflow_mem_ofSub shown.count))

/-- The place of the last element is the first thing `remove` computes. -/
theorem ofSub_subset_remove (array : Parts w α) (index : Usize w) :
    Event.ofSub array.length 1 ⊆ (RawArray.remove array index).2.2 := by
  unfold RawArray.remove
  split
  · exact List.subset_append_left _ _
  split
  · exact List.Subset.refl _
  · exact List.subset_append_left _ _

/-- So it is in `swap_remove`. -/
theorem ofSub_subset_swapRemove (array : Parts w α) (index : Usize w) :
    Event.ofSub array.length 1 ⊆ (RawArray.swapRemove array index).2.2 := by
  unfold RawArray.swapRemove
  split
  · exact List.subset_append_left _ _
  split
  · exact List.Subset.refl _
  · exact List.subset_append_left _ _

/-- **Exactly when `remove` and `swap_remove` keep their promises.** -/
theorem removals_iff (shown : array.Shows values) (index : Usize w) :
    (Removes array values index.toNat (values.eraseIdx index.toNat)
        (RawArray.remove array index) ↔ values ≠ []) ∧
      (Removes array values index.toNat (BoundedList.fillGap values index.toNat)
        (RawArray.swapRemove array index) ↔ values ≠ []) := by
  constructor
  · refine ⟨fun promise => ?_, fun nonempty => removes_remove shown nonempty index⟩
    exact promise.nonempty shown (ofSub_subset_remove array index)
  · refine ⟨fun promise => ?_, fun nonempty => removes_swapRemove shown nonempty index⟩
    exact promise.nonempty shown (ofSub_subset_swapRemove array index)

/-- Two bytes out of three are removed, and an index out of bounds is refused. -/
theorem threeBytes_removed :
    Removes (ofBytes [5, 6, 7]) [5, 6, 7] 1 [5, 7] (RawArray.remove (ofBytes [5, 6, 7]) 1) ∧
      Removes (ofBytes [5, 6, 7]) [5, 6, 7] 0 [7, 6]
        (RawArray.swapRemove (ofBytes [5, 6, 7]) 0) :=
  ⟨(removals_iff (ofBytes_shows (by decide)) 1).1.mpr (by decide),
    (removals_iff (ofBytes_shows (by decide)) 0).2.mpr (by decide)⟩

/-- Removing from an empty array with the largest index pops an element. -/
theorem empty_array_popped :
    ¬ ∀ (array : Parts 64 UInt8) (values : List UInt8), array.Shows values → ∀ index : Usize 64,
      Removes array values index.toNat (values.eraseIdx index.toNat)
          (RawArray.remove array index) ∧
        Removes array values index.toNat (BoundedList.fillGap values index.toNat)
          (RawArray.swapRemove array index) := by
  intro claim
  have removed := (claim (ofBytes []) [] (ofBytes_shows (by decide)) (-1)).1
  exact absurd (removed.refused.mpr (by decide)).1 (by decide)

end Parts

end Stdx
