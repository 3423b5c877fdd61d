import Stdx.Foundation.Region
import Stdx.Array.Contents

/-! # Bytes in a fixed buffer

Elements of one byte have no alignment, and their capacity in bytes is their number. A
reservation of bytes in a fixed buffer succeeds exactly when the array has no block, or the
last one, and the free space is large enough, and takes the bytes from the start of the free
space (`Stdx.Parts.reserve_fixedBuffer`).
-/

namespace Stdx

open Foundation

variable {w : Nat} {α : Type*}

namespace FixedBufferAllocator

variable {oldLayout newLayout : Layout w}

/-- Without an alignment, a block is taken from the start of the free space if it fits. -/
theorem allocate_of_align_one (fba : FixedBufferAllocator w) {layout : Layout w}
    (one : layout.align.toNat = 1)
    (ordered : fba.begin.toNat ≤ fba.end_.toNat) (low : fba.end_.toNat ≤ isizeMax w) :
    (fba.begin.toNat + layout.size.toNat ≤ fba.end_.toNat ∧ ∃ after,
        fba.allocate layout = some (⟨fba.begin, layout.size⟩, after) ∧
          after.begin.toNat = fba.begin.toNat + layout.size.toNat ∧ after.end_ = fba.end_) ∨
      fba.end_.toNat < fba.begin.toNat + layout.size.toNat ∧ fba.allocate layout = none := by
  have positive := Nat.two_pow_pos (w - 1)
  have noWrap : fba.NoWrap layout := .of_low (by unfold isizeMax at low; omega)
  have start : alignUp fba.begin.toNat layout.align.toNat = fba.begin.toNat := by
    rw [one]
    exact alignUp_of_dvd Nat.one_pos (one_dvd _)
  by_cases fits : fba.begin.toNat + layout.size.toNat ≤ fba.end_.toNat
  · refine .inl ⟨fits, ?_⟩
    cases answer : fba.allocate layout with
    | none =>
        have refused := (allocate_eq_none noWrap).mp answer
        rw [start] at refused
        omega
    | some granted =>
        obtain ⟨slice, after⟩ := granted
        have granted := Granted.of_noWrap answer noWrap
        have ptr : slice.ptr = fba.begin := BitVec.eq_of_toNat_eq (granted.ptr.trans start)
        have same : slice = ⟨fba.begin, layout.size⟩ := by rw [← ptr, ← granted.len]
        refine ⟨after, by rw [same], ?_, granted.end_⟩
        rw [granted.begin, ptr]
  · refine .inr ⟨by omega, (allocate_eq_none noWrap).mpr ?_⟩
    rw [start]
    omega

/-- Without an alignment, a block grows if it is the last one and the rest fits. The test of
`grow` leaves out the bytes that the block already has, so it must not be their number that
decides. -/
theorem grow_of_align_one (fba : FixedBufferAllocator w) (memory : Memory w) (ptr : Usize w)
    (one : oldLayout.align.toNat = 1)
    (same : newLayout.align = oldLayout.align)
    (larger : oldLayout.size.toNat ≤ newLayout.size.toNat)
    (inside : ptr.toNat + oldLayout.size.toNat ≤ fba.begin.toNat)
    (ordered : fba.begin.toNat ≤ fba.end_.toNat) (low : fba.end_.toNat ≤ isizeMax w)
    (clear : ptr.toNat + oldLayout.size.toNat = fba.begin.toNat →
      ptr.toNat + newLayout.size.toNat ≤ fba.end_.toNat + oldLayout.size.toNat →
        ptr.toNat + newLayout.size.toNat ≤ fba.end_.toNat) :
    ((ptr.toNat + oldLayout.size.toNat = fba.begin.toNat ∧
        ptr.toNat + newLayout.size.toNat ≤ fba.end_.toNat) ∧ ∃ after,
        fba.grow memory ptr oldLayout newLayout = (some ⟨ptr, newLayout.size⟩, after, memory) ∧
          after.begin.toNat = ptr.toNat + newLayout.size.toNat ∧ after.end_ = fba.end_) ∨
      ¬ (ptr.toNat + oldLayout.size.toNat = fba.begin.toNat ∧
        ptr.toNat + newLayout.size.toNat ≤ fba.end_.toNat) ∧
        fba.grow memory ptr oldLayout newLayout = (none, fba, memory) := by
  have half := newLayout.two_pow_width
  have bound := newLayout.size_le
  have limit := isizeMax_lt w
  have last : fba.IsLast ptr oldLayout ↔ _ := isLast_iff (by omega)
  have past : fba.passesEnd ptr (newLayout.size - oldLayout.size) = true ↔ _ :=
    passesEnd_iff (by omega) (by omega) larger
  have inPlace : fba.GrowsInPlace ptr oldLayout newLayout ↔
      ptr.toNat + oldLayout.size.toNat = fba.begin.toNat ∧
        ptr.toNat + newLayout.size.toNat ≤ fba.end_.toNat := by
    unfold GrowsInPlace
    rw [last, one, ← Bool.not_eq_true, past]
    constructor
    · rintro ⟨⟨_, _, _⟩, _⟩
      have ends : ptr.toNat + oldLayout.size.toNat = fba.begin.toNat := by omega
      exact ⟨ends, clear ends (by omega)⟩
    · rintro ⟨_, _⟩
      exact ⟨⟨one_dvd _, by omega, by omega⟩, by omega⟩
  rcases (grow_cases same.symm : fba.GrowsInPlace ptr oldLayout newLayout ∧ _ ∨ _) with
    ⟨grows, grown⟩ | ⟨stays, grown⟩
  · have fits := inPlace.mp grows
    refine .inl ⟨fits, _, grown, ?_, rfl⟩
    rw [toNat_begin_add_sub (by omega) (by unfold isizeMax at *; omega)]
    omega
  · exact .inr ⟨fun fits => stays (inPlace.mpr fits), grown⟩

end FixedBufferAllocator

namespace Parts

variable [Element w α]

/-- The addresses of the block. -/
def block (array : Parts w α) : Region Nat :=
  ⟨array.data.toNat, array.data.toNat + array.bytes.toNat⟩

/-- The array has no block, or the one that ends where the free space begins, and the free
space is large enough. -/
def HasRoom (array : Parts w α) (fba : FixedBufferAllocator w) (additional : Usize w) : Prop :=
  (array.capacity = 0 ∨ array.data.toNat + array.capacity.toNat = fba.begin.toNat) ∧
    fba.begin.toNat + additional.toNat ≤ fba.end_.toNat

instance (array : Parts w α) (fba : FixedBufferAllocator w) (additional : Usize w) :
    Decidable (array.HasRoom fba additional) :=
  inferInstanceAs (Decidable (_ ∧ _))

/-- The test of `grow` accepts a larger block that ends behind the buffer, because it leaves
out the bytes that the block already has. -/
def Overshoots (array : Parts w α) (fba : FixedBufferAllocator w) (additional : Usize w) : Prop :=
  array.capacity ≠ 0 ∧ array.data.toNat + array.capacity.toNat = fba.begin.toNat ∧
    array.data.toNat + additional.toNat ≤ fba.end_.toNat ∧
      fba.end_.toNat < fba.begin.toNat + additional.toNat

instance (array : Parts w α) (fba : FixedBufferAllocator w) (additional : Usize w) :
    Decidable (array.Overshoots fba additional) :=
  inferInstanceAs (Decidable (_ ∧ _))

/-- The block after a reservation, and the free space behind it. -/
structure Extends (array : Parts w α) (fba : FixedBufferAllocator w) (additional : Usize w)
    (slice : Slice w) (after : FixedBufferAllocator w) : Prop where
  ptr : slice.ptr = if array.capacity = 0 then fba.begin else array.data
  len : slice.len.toNat = array.capacity.toNat + additional.toNat
  begin : after.begin.toNat = fba.begin.toNat + additional.toNat
  end_ : after.end_ = fba.end_

variable {array : Parts w α} {fba : FixedBufferAllocator w} {additional : Usize w}

omit [Element w α] in
/-- The block ends where the free space begins. -/
theorem Extends.ends {slice : Slice w} {after : FixedBufferAllocator w}
    (extends_ : array.Extends fba additional slice after) (room : array.HasRoom fba additional) :
    slice.ptr.toNat + slice.len.toNat = after.begin.toNat := by
  rw [extends_.ptr, extends_.len, extends_.begin]
  by_cases empty : array.capacity = 0
  · rw [if_pos empty, empty]
    simp
  · rw [if_neg empty, ← Nat.add_assoc, room.1.resolve_left empty]

/-- The size of an element of one byte, as a number. -/
theorem toNat_sizeOf (unit : sizeOf w α = 1) : (sizeOf w α).toNat = 1 := by
  rw [unit, toNat_one w α]

theorem sizeOf_ne_zero (unit : sizeOf w α = 1) : sizeOf w α ≠ 0 := by
  intro zero
  have size := toNat_sizeOf unit
  rw [zero] at size
  exact Nat.zero_ne_one size

/-- Elements of one byte have no alignment. -/
theorem alignOf_of_unit (unit : sizeOf w α = 1) : (alignOf w α).toNat = 1 := by
  have divides := Element.align_dvd_size (w := w) (α := α)
  exact Nat.dvd_one.mp (toNat_sizeOf unit ▸ divides)

/-- As many bytes as elements. -/
theorem sizeOf_mul (unit : sizeOf w α = 1) (count : Usize w) : sizeOf w α * count = count := by
  rw [unit]
  exact BitVec.one_mul count

theorem toNat_sizeOf_mul (unit : sizeOf w α = 1) (count : Nat) :
    (sizeOf w α).toNat * count = count := by
  rw [toNat_sizeOf unit, Nat.one_mul]

/-- A number of bytes that an allocation can have has a layout. -/
theorem layout_of_unit (unit : sizeOf w α = 1) (count : Usize w)
    (small : count.toNat ≤ isizeMax w) :
    ∃ layout : Layout w, layout.size = count ∧ layout.align = alignOf w α := by
  have align := alignOf_of_unit unit
  have positive := Nat.two_pow_pos (w - 1)
  have fits : count.toNat + (alignOf w α).toNat ≤ 2 ^ (w - 1) := by
    unfold isizeMax at small
    omega
  exact ⟨⟨count, alignOf w α, (Element.layout α : Layout w).powerOfTwo, fits⟩, rfl, rfl⟩

/-- The first layout of bytes. -/
theorem firstLayout_of_unit (unit : sizeOf w α = 1) (additional : Usize w) :
    (∃ layout, firstLayout w α additional = some layout ∧ layout.size = additional ∧
        layout.align = alignOf w α) ∨
      isizeMax w < additional.toNat ∧ firstLayout w α additional = none := by
  by_cases small : additional.toNat ≤ isizeMax w
  · obtain ⟨layout, size, align⟩ := layout_of_unit unit additional small
    refine .inl ⟨layout, firstLayout_eq_some.mpr ⟨?_, ?_, align⟩, size, align⟩
    · rw [toNat_sizeOf_mul unit]
      exact additional.isLt
    · rw [sizeOf_mul unit, size]
  · refine .inr ⟨by omega, ?_⟩
    cases answer : firstLayout w α additional with
    | none => rfl
    | some layout =>
        have size := (firstLayout_eq_some.mp answer).2.1
        rw [sizeOf_mul unit] at size
        exact absurd (size ▸ layout.size_le) small

/-- The layouts of bytes for a larger block. -/
theorem growLayouts_of_unit (unit : sizeOf w α = 1) (capacity additional : Usize w) :
    (∃ layouts, growLayouts α capacity additional = some layouts ∧
        layouts.1.size = capacity ∧ layouts.1.align = alignOf w α ∧
        layouts.2.size.toNat = capacity.toNat + additional.toNat ∧
        layouts.2.align = layouts.1.align) ∨
      isizeMax w < capacity.toNat + additional.toNat ∧
        growLayouts α capacity additional = none := by
  by_cases small : capacity.toNat + additional.toNat ≤ isizeMax w
  · have limit := isizeMax_lt w
    have sum : (capacity + additional).toNat = capacity.toNat + additional.toNat :=
      BitVec.toNat_add_of_lt (by omega)
    obtain ⟨old, oldSize, oldAlign⟩ := layout_of_unit unit capacity (by omega)
    obtain ⟨new, newSize, newAlign⟩ :=
      layout_of_unit unit (capacity + additional) (by omega)
    refine .inl ⟨(old, new), ?_, oldSize, oldAlign, by rw [newSize, sum],
      by rw [newAlign, oldAlign]⟩
    simp only [growLayouts, Option.bind_eq_bind, Option.bind_eq_some_iff,
      Usize.checkedMul_eq_some, Usize.checkedAdd_eq_some, Layout.fromSizeAlign_eq_some,
      Option.pure_def, Option.some.injEq, Prod.mk.injEq, toNat_sizeOf_mul unit,
      sizeOf_mul unit]
    exact ⟨_, ⟨by omega, rfl⟩, _, ⟨by omega, rfl⟩, _, ⟨by omega, rfl⟩, old, ⟨oldSize, oldAlign⟩,
      new, ⟨newSize, newAlign⟩, rfl, rfl⟩
  · refine .inr ⟨by omega, ?_⟩
    cases answer : growLayouts α capacity additional with
    | none => rfl
    | some layouts =>
        have size := (growLayouts_eq_some answer).2.2
        rw [toNat_sizeOf_mul unit] at size
        exact absurd (size ▸ layouts.2.size_le) small

/-- **A reservation in a shared buffer.** -/
theorem reserve_fixedBuffer (unit : sizeOf w α = 1) (memory : Memory w)
    (inside : array.capacity ≠ 0 →
      array.data.toNat + array.capacity.toNat ≤ fba.begin.toNat)
    (ordered : fba.begin.toNat ≤ fba.end_.toNat) (low : fba.end_.toNat ≤ isizeMax w)
    (clear : ¬ array.Overshoots fba additional) :
    (array.HasRoom fba additional ∧ ∃ slice after, array.Extends fba additional slice after ∧
        array.reserve (FixedBufferAllocator.allocator w) additional (fba, memory) =
          (.ok (), array.enlarged slice, after, memory)) ∨
      ¬ array.HasRoom fba additional ∧
        array.reserve (FixedBufferAllocator.allocator w) additional (fba, memory) =
          (.error .allocError, array, fba, memory) := by
  have align := alignOf_of_unit unit
  by_cases empty : array.capacity = 0
  · have room : array.HasRoom fba additional ↔
        fba.begin.toNat + additional.toNat ≤ fba.end_.toNat :=
      and_iff_right (.inl empty)
    rw [room, reserve, if_pos empty]
    rcases firstLayout_of_unit unit additional with
      ⟨layout, answer, size, aligned⟩ | ⟨large, answer⟩
    · rw [answer]
      rcases FixedBufferAllocator.allocate_of_align_one fba (by rw [aligned, align]) ordered low
        with ⟨fits, after, granted, begin, end_⟩ | ⟨full, refused⟩
      · rw [size] at fits begin
        refine .inl ⟨fits, ⟨fba.begin, layout.size⟩, after, ⟨?_, ?_, begin, end_⟩, ?_⟩
        · rw [if_pos empty]
        · rw [size, empty]
          simp
        · simp only [FixedBufferAllocator.allocator, granted, enlarged, empty, if_true]
      · rw [size] at full
        refine .inr ⟨by omega, ?_⟩
        simp only [FixedBufferAllocator.allocator, refused]
    · rw [answer]
      exact .inr ⟨by omega, rfl⟩
  · rw [reserve, if_neg empty]
    have below := inside empty
    have room : array.HasRoom fba additional ↔
        array.data.toNat + array.capacity.toNat = fba.begin.toNat ∧
          fba.begin.toNat + additional.toNat ≤ fba.end_.toNat := by
      unfold HasRoom
      simp only [empty, false_or]
    rw [room]
    rcases growLayouts_of_unit unit array.capacity additional with
      ⟨⟨old, new⟩, answer, oldSize, oldAlign, newSize, sameAlign⟩ | ⟨large, answer⟩
    · rw [answer]
      dsimp only at oldSize oldAlign newSize sameAlign
      rcases FixedBufferAllocator.grow_of_align_one fba memory array.data
          (by rw [oldAlign, align]) sameAlign (by rw [newSize, oldSize]; omega)
          (by rw [oldSize]; exact below) ordered low
          (fun ends accepted => by
            rw [oldSize] at ends
            rw [oldSize, newSize] at accepted
            rw [newSize]
            by_contra beyond
            exact clear ⟨empty, ends, by omega, by omega⟩) with
        ⟨fits, after, grown, begin, end_⟩ | ⟨stays, refused⟩
      · rw [oldSize, newSize] at fits
        rw [newSize] at begin
        refine .inl ⟨by omega, ⟨array.data, new.size⟩, after, ⟨?_, newSize, by omega, end_⟩, ?_⟩
        · rw [if_neg empty]
        · simp only [FixedBufferAllocator.allocator, grown, enlarged, empty, if_false, oldSize,
            sizeOf_mul unit]
      · rw [oldSize, newSize] at stays
        refine .inr ⟨by omega, ?_⟩
        simp only [FixedBufferAllocator.allocator, refused]
    · rw [answer]
      exact .inr ⟨by omega, rfl⟩

end Parts

end Stdx
