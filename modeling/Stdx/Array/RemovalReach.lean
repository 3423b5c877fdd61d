import Stdx.Array.Removal

/-! # What a removal touches

`remove_unchecked` moves one element more than there are behind the removed one, and so
reads the cell behind the last element. The elements that are left do not show it, but
an access is out of the elements whenever an element has bytes
(`Stdx.Parts.removeUnchecked_within_iff`), and out of the block when the array is full, too
(`Stdx.Parts.removeUnchecked_block_iff`).
-/

namespace Stdx

open Foundation

variable {w : Nat} {α : Type*} [Element w α]

/-- `()` on a 64-bit machine. -/
instance : Element 64 Unit where
  layout := .unit
  align_dvd_size := dvd_zero _
  eq_of_size_eq_zero _ _ _ := rfl

/-- The place in the block that is read or written. -/
def Event.accessed : Event α → Option Nat
  | .read offset _ | .write offset _ | .dropInPlace offset _ => some offset
  | .readOther _ _ | .dropValue _ | .overflow => none

namespace Parts

/-- The slice of an array is the given values, and its block has exactly the capacity. -/
structure Fits (array : Parts w α) (values : List α) : Prop where
  contents : array.deref = values.map .val
  length : array.length.toNat ≤ array.capacity.toNat
  bytes : array.bytes.toNat = (sizeOf w α).toNat * array.capacity.toNat

/-- The promise of an in-bounds removal: it returns the element, leaves the others, and
reads and writes the cells of the elements only. -/
structure RemovesWithin (values : List α) (index : Nat)
    (outcome : Cell α × Parts w α × List (Event α)) : Prop where
  returned : ∀ inside : index < values.length, outcome.1 = .val values[index]
  rest : outcome.2.1.deref = (values.eraseIdx index).map .val
  length : outcome.2.1.length.toNat = values.length - 1
  reach : ∀ offset ∈ outcome.2.2.filterMap Event.accessed,
    ∃ position < values.length, offset = (sizeOf w α).toNat * position

variable {array : Parts w α} {values : List α} {index : Usize w} {offset : Nat}

theorem Fits.shows (fits : array.Fits values) : array.Shows values :=
  ⟨fits.contents, fits.bytes ▸ Nat.mul_le_mul_left _ fits.length⟩

/-- The places a copy of some elements to the place in front of them touches. -/
theorem mem_accessed_copies {size addr count : Nat} {cells : Cells α} :
    offset ∈ ((List.range count).flatMap fun step =>
        [.read (addr + size + size * step) (cells (addr + size + size * step)),
          .write (addr + size * step) (cells (addr + size + size * step))]).filterMap
            Event.accessed ↔
      ∃ step < count, offset = addr + size * (step + 1) ∨ offset = addr + size * step := by
  have next : ∀ step, addr + size + size * step = addr + size * (step + 1) := by
    intro step
    rw [Nat.mul_succ]
    omega
  simp only [List.mem_filterMap, List.mem_flatMap, List.mem_range, List.mem_cons,
    List.not_mem_nil, or_false, next]
  constructor
  · rintro ⟨_, ⟨step, inside, rfl | rfl⟩, same⟩
    · exact ⟨step, inside, .inl (Option.some.inj same).symm⟩
    · exact ⟨step, inside, .inr (Option.some.inj same).symm⟩
  · rintro ⟨step, inside, rfl | rfl⟩
    · exact ⟨_, ⟨step, inside, .inl rfl⟩, rfl⟩
    · exact ⟨_, ⟨step, inside, .inr rfl⟩, rfl⟩

/-- An in-bounds removal touches the cells from the index on up to the one behind the last
element. -/
theorem mem_accessed_removeUnchecked
    (small : (sizeOf w α).toNat * array.length.toNat < 2 ^ w)
    (inside : index.toNat < array.length.toNat) :
    offset ∈ (array.removeUnchecked index).2.2.filterMap Event.accessed ↔
      ∃ position, index.toNat ≤ position ∧ position ≤ array.length.toNat ∧
        offset = (sizeOf w α).toNat * position := by
  have place := mul_lt_of_lt small inside
  have count : (array.length - index).toNat = array.length.toNat - index.toNat :=
    BitVec.toNat_sub_of_le (BitVec.le_def.mpr inside.le)
  unfold removeUnchecked
  dsimp only
  rw [Event.ofMul_eq_nil place, Event.ofSub_eq_nil inside.le,
    Event.ofSub_one_eq_nil (Nat.zero_lt_of_lt inside), List.nil_append, List.append_nil,
    List.append_nil, List.filterMap_append, List.mem_append, mem_accessed_copies,
    offset_eq place, count]
  constructor
  · rintro (first | ⟨step, below, same | same⟩)
    · exact ⟨index.toNat, le_rfl, inside.le, List.mem_singleton.mp first⟩
    · rw [← Nat.mul_add] at same
      exact ⟨index.toNat + (step + 1), Nat.le_add_right _ _, by omega, same⟩
    · rw [← Nat.mul_add] at same
      exact ⟨index.toNat + step, Nat.le_add_right _ _, by omega, same⟩
  · rintro ⟨position, above, below, rfl⟩
    rcases above.eq_or_lt with same | behind
    · rw [same]
      exact .inl (List.mem_singleton_self _)
    · refine .inr ⟨position - index.toNat - 1, by omega, .inl ?_⟩
      rw [← Nat.mul_add]
      congr 1
      omega

/-- **What a removal touches.** An in-bounds `remove_unchecked` keeps its promise exactly
when elements have no bytes. -/
theorem removeUnchecked_within_iff (fits : array.Fits values)
    (inside : index.toNat < values.length) :
    RemovesWithin values index.toNat (array.removeUnchecked index) ↔ sizeOf w α = 0 := by
  have shown := fits.shows
  have small := shown.mul_length_lt
  have bound : index.toNat < array.length.toNat := shown.count ▸ inside
  constructor
  · intro promise
    have behind : (sizeOf w α).toNat * array.length.toNat ∈
        (array.removeUnchecked index).2.2.filterMap Event.accessed :=
      (mem_accessed_removeUnchecked small bound).mpr ⟨_, bound.le, le_rfl, rfl⟩
    obtain ⟨position, below, same⟩ := promise.reach _ behind
    by_contra sized
    have last := Nat.eq_of_mul_eq_mul_left (sizeOf_pos sized) same
    rw [shown.count] at last
    omega
  · intro zero
    refine ⟨fun inside => ?_, ?_, ?_, ?_⟩
    · change array.cells (offset w α index) = _
      rw [offset_eq (mul_lt_of_lt small bound), shown.cell inside]
    · exact shown.shorten (List.ne_nil_of_length_pos (Nat.zero_lt_of_lt inside))
        (List.length_eraseIdx_of_lt inside) (cells_removeUnchecked shown inside)
    · change (array.length - 1).toNat = _
      rw [toNat_pred (Nat.zero_lt_of_lt bound), shown.count]
    · intro offset member
      obtain ⟨position, _, _, rfl⟩ := (mem_accessed_removeUnchecked small bound).mp member
      have none : (sizeOf w α).toNat = 0 := by
        rw [zero]
        rfl
      exact ⟨index.toNat, inside, by rw [none, Nat.zero_mul, Nat.zero_mul]⟩

/-- Removing the only element of an array of `()`. -/
theorem unit_removed_within :
    RemovesWithin [()] (0 : Usize 64).toNat
      (removeUnchecked (⟨1, 1, 1, fun _ => .val (), 0⟩ : Parts 64 Unit) 0) :=
  (removeUnchecked_within_iff ⟨rfl, le_rfl, rfl⟩ (by decide)).mpr rfl

/-- Removing the first of eight bytes reads the ninth byte of the block. -/
theorem ninth_byte_read :
    ¬ ∀ (array : Parts 64 UInt8) (values : List UInt8), array.Fits values →
      ∀ index : Usize 64, index.toNat < values.length →
        RemovesWithin values index.toNat (array.removeUnchecked index) := by
  intro claim
  have shown : (ofBytes [1, 2, 3, 4, 5, 6, 7, 8]).Shows _ := ofBytes_shows le_rfl
  have promise := claim _ _ ⟨shown.contents, le_rfl, rfl⟩ 0 (by decide)
  obtain ⟨position, below, same⟩ := promise.reach 8 (by decide)
  rw [show (sizeOf 64 UInt8).toNat = 1 from rfl, Nat.one_mul] at same
  subst same
  exact absurd below (by decide)

/-- **Accesses behind the block.** An in-bounds `remove_unchecked` touches the block only
exactly when elements have no bytes or the array is not full. -/
theorem removeUnchecked_block_iff (fits : array.Fits values)
    (inside : index.toNat < values.length) :
    (∀ offset ∈ (array.removeUnchecked index).2.2.filterMap Event.accessed,
        offset + (sizeOf w α).toNat ≤ array.bytes.toNat) ↔
      sizeOf w α = 0 ∨ array.length.toNat < array.capacity.toNat := by
  have shown := fits.shows
  have bound : index.toNat < array.length.toNat := shown.count ▸ inside
  constructor
  · intro within
    have behind := within _
      ((mem_accessed_removeUnchecked shown.mul_length_lt bound).mpr ⟨_, bound.le, le_rfl, rfl⟩)
    rw [fits.bytes, ← Nat.mul_succ] at behind
    by_cases zero : sizeOf w α = 0
    · exact .inl zero
    · exact .inr (Nat.le_of_mul_le_mul_left behind (sizeOf_pos zero))
  · intro spare offset member
    obtain ⟨position, _, below, rfl⟩ :=
      (mem_accessed_removeUnchecked shown.mul_length_lt bound).mp member
    rw [fits.bytes, ← Nat.mul_succ]
    rcases spare with zero | spare
    · rw [show (sizeOf w α).toNat = 0 by rw [zero]; rfl, Nat.zero_mul, Nat.zero_mul]
    · exact Nat.mul_le_mul_left _ (below.trans_lt spare)

end Parts

end Stdx
