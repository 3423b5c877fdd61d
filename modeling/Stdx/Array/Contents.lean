import Stdx.Foundation.BoundedList
import Stdx.Array.Parts

/-! # The slice of an array

What the slice of an array holds, element by element, and which changes of the
length, of single cells and of the block keep it. A reservation keeps the slice
exactly when an array without capacity has no elements
(`Stdx.Parts.deref_enlarged_iff`).
-/

namespace Stdx

open Foundation

variable {w : Nat} {α σ : Type*} [Element w α]

/-- The values whose bits a cell holds. -/
def Cell.contents : Cell α → Multiset α
  | .val value => {value}
  | .uninit => 0

namespace Parts

/-- The values in the slice of an array, which its destructor drops. -/
def owned (array : Parts w α) : Multiset α := (array.deref.map Cell.contents).sum

/-- The slice of an array is the given values, and inside the block. -/
structure Shows (array : Parts w α) (values : List α) : Prop where
  contents : array.deref = values.map .val
  block : (sizeOf w α).toNat * array.length.toNat ≤ array.bytes.toNat

/-- Elements with bytes are within the capacity. -/
def Counted (array : Parts w α) : Prop :=
  sizeOf w α ≠ 0 → array.length.toNat ≤ array.capacity.toNat

instance (array : Parts w α) : Decidable array.Counted := inferInstanceAs (Decidable (_ → _))

/-- A reservation takes the elements of the array over. -/
def Carries (array : Parts w α) : Prop := array.capacity = 0 → array.length = 0

instance (array : Parts w α) : Decidable array.Carries := inferInstanceAs (Decidable (_ → _))

theorem sizeOf_pos (nonzero : sizeOf w α ≠ 0) : 0 < (sizeOf w α).toNat :=
  Nat.pos_of_ne_zero fun zero => nonzero (BitVec.eq_of_toNat_eq zero)

variable {array : Parts w α} {values : List α}

@[simp] theorem length_deref : array.deref.length = array.length.toNat := by
  rw [deref, List.length_map, List.length_range]

@[simp] theorem getElem_deref {index : Nat} (inside : index < array.deref.length) :
    array.deref[index] = array.cells ((sizeOf w α).toNat * index) := by
  simp [deref]

/-- A slice, element by element. -/
theorem deref_eq_map_iff :
    array.deref = values.map .val ↔ array.length.toNat = values.length ∧
      ∀ index, ∀ inside : index < values.length,
        array.cells ((sizeOf w α).toNat * index) = .val values[index] := by
  constructor
  · intro same
    have count : array.length.toNat = values.length := by
      rw [← length_deref, same, List.length_map]
    refine ⟨count, fun index inside => ?_⟩
    have place : index < array.deref.length := by rwa [length_deref, count]
    rw [← getElem_deref place, List.getElem_of_eq same, List.getElem_map]
  · rintro ⟨count, same⟩
    apply List.ext_getElem
    · rw [length_deref, count, List.length_map]
    · intro index place inside
      rw [getElem_deref, List.getElem_map]
      exact same index (by rwa [List.length_map] at inside)

theorem Shows.count (shown : array.Shows values) : array.length.toNat = values.length :=
  (deref_eq_map_iff.mp shown.contents).1

theorem Shows.cell (shown : array.Shows values) {index : Nat} (inside : index < values.length) :
    array.cells ((sizeOf w α).toNat * index) = .val values[index] :=
  (deref_eq_map_iff.mp shown.contents).2 index inside

/-- The offsets of the elements do not wrap. -/
theorem Shows.mul_length_lt (shown : array.Shows values) :
    (sizeOf w α).toNat * array.length.toNat < 2 ^ w :=
  lt_of_le_of_lt shown.block array.bytes.isLt

theorem deref_of_length (empty : array.length = 0) : array.deref = [] := by
  rw [deref, empty]
  rfl

/-- Two elements share an offset only when elements have no bytes, and then they
are the same value. -/
theorem eq_of_offset_eq {index other : Nat} (differ : other ≠ index)
    (clash : (sizeOf w α).toNat * other = (sizeOf w α).toNat * index) (first second : α) :
    first = second := by
  rcases Nat.eq_zero_or_pos (sizeOf w α).toNat with zero | positive
  · exact Element.eq_of_size_eq_zero (BitVec.eq_of_toNat_eq zero) first second
  · exact absurd (Nat.eq_of_mul_eq_mul_left positive clash) differ

/-- A value written at one place leaves the values at the others. -/
theorem set_at {cells : Cells α} {index other : Nat} {value kept : α} (differ : other ≠ index)
    (same : cells ((sizeOf w α).toNat * other) = .val kept) :
    cells.set ((sizeOf w α).toNat * index) (.val value) ((sizeOf w α).toNat * other) =
      .val kept := by
  by_cases clash : (sizeOf w α).toNat * other = (sizeOf w α).toNat * index
  · rw [clash, Cells.set_same, eq_of_offset_eq differ clash value kept]
  · rw [Cells.set_of_ne clash, same]

/-- Moving the last value into a gap. -/
theorem set_fillGap {cells : Cells α}
    (same : ∀ index, ∀ inside : index < values.length,
      cells ((sizeOf w α).toNat * index) = .val values[index])
    (gap place : Nat) (placed : place < (BoundedList.fillGap values gap).length) :
    cells.set ((sizeOf w α).toNat * gap) (cells ((sizeOf w α).toNat * (values.length - 1)))
        ((sizeOf w α).toNat * place) = .val (BoundedList.fillGap values gap)[place] := by
  rcases values.eq_nil_or_concat' with rfl | ⟨front, last, rfl⟩
  · exact absurd placed (Nat.not_lt_zero place)
  · simp only [BoundedList.fillGap_concat, List.length_set] at placed
    have read := same front.length (by simp)
    rw [List.getElem_concat_length rfl] at read
    rw [List.length_append, List.length_singleton, Nat.add_sub_cancel, read]
    simp only [BoundedList.fillGap_concat, List.getElem_set]
    by_cases here : gap = place
    · rw [if_pos here, here, Cells.set_same]
    · have kept := same place (by simp; omega)
      rw [if_neg here, set_at (Ne.symm here) kept, List.getElem_append_left placed]

variable {alloc : Allocator w σ} {additional : Usize w} {state : σ} {slice : Slice w}

/-- A larger block takes over the elements of an array with a capacity. -/
theorem cells_enlarged (counted : array.Counted) (occupied : array.capacity ≠ 0)
    (grant : array.granted alloc additional state = some slice) {index : Nat}
    (inside : index < array.length.toNat) :
    (array.enlarged slice).cells ((sizeOf w α).toNat * index) =
      array.cells ((sizeOf w α).toNat * index) := by
  unfold granted at grant
  rw [if_neg occupied] at grant
  obtain ⟨⟨old, new⟩, layouts, _⟩ := Option.bind_eq_some_iff.mp grant
  obtain ⟨oldSize, old_eq, _⟩ := growLayouts_eq_some layouts
  have covered : (sizeOf w α).toNat * index + (sizeOf w α).toNat ≤
      (sizeOf w α * array.capacity).toNat := by
    rw [← old_eq, oldSize]
    by_cases zero : sizeOf w α = 0
    · simp [zero]
    · exact Nat.mul_le_mul_left _ (lt_of_lt_of_le inside (counted zero))
  simp only [enlarged, Cells.keep, occupied, if_false, covered, if_true]

/-- The slice after a reservation that obtained a block. -/
theorem deref_enlarged_iff (counted : array.Counted)
    (grant : array.granted alloc additional state = some slice) :
    (array.enlarged slice).deref = array.deref ↔ array.Carries := by
  by_cases empty : array.capacity = 0
  · have length : (array.enlarged slice).length = 0 := if_pos empty
    constructor
    · intro same _
      have count := congrArg List.length same
      rw [length_deref, length_deref, length] at count
      exact BitVec.eq_of_toNat_eq count.symm
    · intro carries
      rw [deref_of_length length, deref_of_length (carries empty)]
  · have length : (array.enlarged slice).length = array.length := if_neg empty
    refine ⟨fun _ zero => absurd zero empty, fun _ => ?_⟩
    apply List.ext_getElem
    · rw [length_deref, length_deref, length]
    · intro index _ inside
      rw [length_deref] at inside
      rw [getElem_deref, getElem_deref, cells_enlarged counted empty grant inside]

/-- A reservation does not make an array longer. -/
theorem length_enlarged_le_length (array : Parts w α) (slice : Slice w) :
    (array.enlarged slice).length.toNat ≤ array.length.toNat := by
  unfold enlarged
  by_cases empty : array.capacity = 0
  · simp only [empty, if_true]
    exact Nat.zero_le _
  · simp only [empty, if_false, le_refl]

/-- The block obtained has room for the elements there are and those to come. -/
theorem length_enlarged_add_le (counted : array.Counted) (honours : alloc.Honours)
    (nonzero : sizeOf w α ≠ 0) (grant : array.granted alloc additional state = some slice) :
    (array.enlarged slice).length.toNat + additional.toNat ≤ slice.len.toNat := by
  have room := (granted_len honours grant).1
  have scaled := Nat.le_mul_of_pos_left (array.capacity.toNat + additional.toNat)
    (sizeOf_pos nonzero)
  have length : (array.enlarged slice).length.toNat ≤ array.capacity.toNat :=
    (length_enlarged_le_length array slice).trans (counted nonzero)
  omega

/-- A reservation keeps the length exactly when it keeps the slice. -/
theorem length_enlarged_iff : (array.enlarged slice).length = array.length ↔ array.Carries := by
  unfold enlarged Carries
  by_cases empty : array.capacity = 0
  · simp only [empty, if_true, true_implies]
    exact eq_comm
  · simp only [empty, if_false, false_implies]

/-- A page of sixteen bytes that nothing has been allocated from, or the first
eight bytes of which are taken. -/
def page (taken : Usize 64) : FixedBufferAllocator 64 × Memory 64 :=
  (⟨0x1000 + taken, 0x1010⟩, fun _ => 0)

/-- Bytes in a block of eight. -/
def ofBytes (values : List UInt8) : Parts 64 UInt8 where
  data := 0x1000
  length := BitVec.ofNat 64 values.length
  capacity := 8
  cells offset := values[offset]?.elim .uninit .val
  bytes := 8

theorem ofBytes_shows {values : List UInt8} (few : values.length ≤ 8) :
    (ofBytes values).Shows values := by
  have count : (ofBytes values).length.toNat = values.length := by
    change (BitVec.ofNat 64 values.length).toNat = _
    rw [BitVec.toNat_ofNat, Nat.mod_eq_of_lt (by omega)]
  have size : (sizeOf 64 UInt8).toNat = 1 := rfl
  refine ⟨deref_eq_map_iff.mpr ⟨count, fun index inside => ?_⟩, ?_⟩
  · rw [size, Nat.one_mul]
    change values[index]?.elim Cell.uninit Cell.val = _
    rw [List.getElem?_eq_getElem inside]
    rfl
  · rw [size, Nat.one_mul, count]
    exact few

end Parts

end Stdx
