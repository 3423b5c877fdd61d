import Stdx.Alloc.Layout

/-! # The fixed buffer allocator

`FixedBufferAllocator` keeps two addresses, `begin` and `end`, and nothing
else. Every operation recovers the last block from `begin`, the size and the
alignment by one masked subtraction.
-/

namespace Stdx

variable {w : Nat}

/-- The allocator's state. `end_` is one past the last byte of the buffer. -/
structure FixedBufferAllocator (w : Nat) where
  begin : Usize w
  end_ : Usize w
deriving DecidableEq

/-- A mutable byte slice as Rust guarantees it: at most `isize::MAX` bytes that
do not wrap around the address space. -/
structure Buffer (w : Nat) where
  start : Usize w
  len : Usize w
  len_le : len.toNat ≤ isizeMax w
  no_wrap : start.toNat + len.toNat < 2 ^ w

/-- The address one past the buffer. -/
def Buffer.stop (buffer : Buffer w) : Nat := buffer.start.toNat + buffer.len.toNat

namespace FixedBufferAllocator

/-- `FixedBufferAllocator::from_slice`. -/
def fromSlice (mem : Buffer w) : FixedBufferAllocator w where
  begin := mem.start
  end_ := mem.start + mem.len

/-- `Allocator::allocate`. `AllocError` carries nothing and is `none`. A block at the
address 0 stands for undefined behaviour, that of `NonNull::new_unchecked` of null. -/
def allocate (self : FixedBufferAllocator w) (layout : Layout w) :
    Option (Slice w × FixedBufferAllocator w) :=
  let size := layout.size
  let align := layout.align
  let beginAligned := (self.begin + (align - 1)) &&& ~~~(align - 1)
  let newBegin := beginAligned + size
  if (self.end_.checkedSub newBegin).isNone then
    none
  else
    some (⟨beginAligned, size⟩, { self with begin := newBegin })

/-- The start a block of this size and alignment has if it is the last one. -/
def prevBegin (self : FixedBufferAllocator w) (size align : Usize w) : Usize w :=
  (self.begin - size) &&& ~~~(align - 1)

/-- `Allocator::deallocate`. -/
def deallocate (self : FixedBufferAllocator w) (ptr : Usize w) (layout : Layout w) :
    FixedBufferAllocator w :=
  if ptr ≠ self.prevBegin layout.size layout.align then
    self
  else
    { self with begin := self.prevBegin layout.size layout.align }

/-- The branch `grow` and `shrink` share when the alignment changes: allocate,
copy the old size, deallocate. -/
def relocate (self : FixedBufferAllocator w) (memory : Memory w) (ptr : Usize w)
    (oldLayout newLayout : Layout w) :
    Option (Slice w) × FixedBufferAllocator w × Memory w :=
  match self.allocate newLayout with
  | none => (none, self, memory)
  | some (newPtr, self) =>
      (some newPtr, self.deallocate ptr oldLayout,
        copyNonoverlapping memory ptr newPtr.ptr oldLayout.size)

/-- `end.byte_offset_from(ptr.offset(difference)) < 0`. -/
def passesEnd (self : FixedBufferAllocator w) (ptr difference : Usize w) : Bool :=
  (self.end_ - (ptr + difference)).toInt < 0

/-- `Allocator::grow`. -/
def grow (self : FixedBufferAllocator w) (memory : Memory w) (ptr : Usize w)
    (oldLayout newLayout : Layout w) :
    Option (Slice w) × FixedBufferAllocator w × Memory w :=
  if oldLayout.align ≠ newLayout.align then
    self.relocate memory ptr oldLayout newLayout
  else
    let prevBegin := self.prevBegin oldLayout.size newLayout.align
    let difference := newLayout.size - oldLayout.size
    if ptr ≠ prevBegin then
      (none, self, memory)
    else if self.passesEnd ptr difference then
      (none, self, memory)
    else
      (some ⟨prevBegin, newLayout.size⟩, { self with begin := self.begin + difference }, memory)

/-- `Allocator::shrink`. -/
def shrink (self : FixedBufferAllocator w) (memory : Memory w) (ptr : Usize w)
    (oldLayout newLayout : Layout w) :
    Option (Slice w) × FixedBufferAllocator w × Memory w :=
  if oldLayout.align ≠ newLayout.align then
    self.relocate memory ptr oldLayout newLayout
  else
    let prevBegin := self.prevBegin oldLayout.size newLayout.align
    let difference := newLayout.size - oldLayout.size
    if ptr ≠ prevBegin then
      (none, self, memory)
    else
      (some ⟨prevBegin, newLayout.size⟩, { self with begin := self.begin + difference }, memory)

variable {self after : FixedBufferAllocator w} {layout oldLayout newLayout : Layout w}
  {memory : Memory w} {ptr : Usize w} {slice : Slice w}

/-- The address `allocate` moves `begin` to; its sums may wrap. -/
def newBegin (self : FixedBufferAllocator w) (layout : Layout w) : Usize w :=
  ((self.begin + (layout.align - 1)) &&& ~~~(layout.align - 1)) + layout.size

/-- Neither sum of `allocate` wraps around the address space. -/
def NoWrap (self : FixedBufferAllocator w) (layout : Layout w) : Prop :=
  self.begin.toNat + (layout.align.toNat - 1) < 2 ^ w ∧
    Foundation.alignUp self.begin.toNat layout.align.toNat + layout.size.toNat < 2 ^ w

instance (self : FixedBufferAllocator w) (layout : Layout w) : Decidable (self.NoWrap layout) :=
  inferInstanceAs (Decidable (_ ∧ _))

/-- The test by which every operation recognises the last block. -/
def IsLast (self : FixedBufferAllocator w) (ptr : Usize w) (layout : Layout w) : Prop :=
  ptr = self.prevBegin layout.size layout.align

instance (self : FixedBufferAllocator w) (ptr : Usize w) (layout : Layout w) :
    Decidable (self.IsLast ptr layout) :=
  inferInstanceAs (Decidable (_ = _))

/-! ## What each operation can do -/

/-- Everything `deallocate` can do. -/
theorem deallocate_cases (self : FixedBufferAllocator w) (ptr : Usize w) (layout : Layout w) :
    (self.IsLast ptr layout ∧ self.deallocate ptr layout = { self with begin := ptr }) ∨
      (¬ self.IsLast ptr layout ∧ self.deallocate ptr layout = self) := by
  unfold IsLast deallocate
  by_cases last : ptr = self.prevBegin layout.size layout.align
  · exact .inl ⟨last, by rw [if_neg (not_not_intro last), ← last]⟩
  · exact .inr ⟨last, if_pos last⟩

/-- A relocation is refused as a whole or is an allocation, a copy and a
deallocation. -/
theorem relocate_cases (self : FixedBufferAllocator w) (memory : Memory w) (ptr : Usize w)
    (oldLayout newLayout : Layout w) :
    (self.allocate newLayout = none ∧
      self.relocate memory ptr oldLayout newLayout = (none, self, memory)) ∨
    ∃ slice middle, self.allocate newLayout = some (slice, middle) ∧
      self.relocate memory ptr oldLayout newLayout =
        (some slice, middle.deallocate ptr oldLayout,
          copyNonoverlapping memory ptr slice.ptr oldLayout.size) := by
  unfold relocate
  cases granted : self.allocate newLayout with
  | none => exact .inl ⟨rfl, rfl⟩
  | some pair => exact .inr ⟨pair.1, pair.2, rfl, rfl⟩

/-- `grow` resizes a block where it is. -/
def GrowsInPlace (self : FixedBufferAllocator w) (ptr : Usize w) (oldLayout newLayout : Layout w) :
    Prop :=
  self.IsLast ptr oldLayout ∧ self.passesEnd ptr (newLayout.size - oldLayout.size) = false

instance (self : FixedBufferAllocator w) (ptr : Usize w) (oldLayout newLayout : Layout w) :
    Decidable (self.GrowsInPlace ptr oldLayout newLayout) :=
  inferInstanceAs (Decidable (_ ∧ _))

/-- Everything `grow` can do when the alignment stays. -/
theorem grow_cases (sameAlign : oldLayout.align = newLayout.align) :
    (self.GrowsInPlace ptr oldLayout newLayout ∧
      self.grow memory ptr oldLayout newLayout =
        (some ⟨ptr, newLayout.size⟩,
          { self with begin := self.begin + (newLayout.size - oldLayout.size) }, memory)) ∨
    (¬ self.GrowsInPlace ptr oldLayout newLayout ∧
      self.grow memory ptr oldLayout newLayout = (none, self, memory)) := by
  unfold grow GrowsInPlace IsLast
  rw [if_neg (not_not_intro sameAlign), ← sameAlign]
  by_cases last : ptr = self.prevBegin oldLayout.size oldLayout.align
  · cases bound : self.passesEnd ptr (newLayout.size - oldLayout.size) with
    | true => exact .inr ⟨nofun, by simp [← last, bound]⟩
    | false => exact .inl ⟨⟨last, rfl⟩, by simp [← last, bound]⟩
  · exact .inr ⟨fun inPlace => last inPlace.1, by simp [last]⟩

/-- Everything `shrink` can do when the alignment stays. -/
theorem shrink_cases (sameAlign : oldLayout.align = newLayout.align) :
    (self.IsLast ptr oldLayout ∧
      self.shrink memory ptr oldLayout newLayout =
        (some ⟨ptr, newLayout.size⟩,
          { self with begin := self.begin + (newLayout.size - oldLayout.size) }, memory)) ∨
    (¬ self.IsLast ptr oldLayout ∧
      self.shrink memory ptr oldLayout newLayout = (none, self, memory)) := by
  unfold shrink IsLast
  rw [if_neg (not_not_intro sameAlign), ← sameAlign]
  by_cases last : ptr = self.prevBegin oldLayout.size oldLayout.align
  · exact .inl ⟨last, by simp [← last]⟩
  · exact .inr ⟨last, by simp [last]⟩

theorem grow_of_align_ne (differ : oldLayout.align ≠ newLayout.align) :
    self.grow memory ptr oldLayout newLayout = self.relocate memory ptr oldLayout newLayout :=
  if_pos differ

theorem shrink_of_align_ne (differ : oldLayout.align ≠ newLayout.align) :
    self.shrink memory ptr oldLayout newLayout = self.relocate memory ptr oldLayout newLayout :=
  if_pos differ

/-! ## The arithmetic of the tests -/

/-- What a granted allocation is: the first aligned address, the requested
size, and `begin` moved to its end, which is inside the buffer. -/
structure Granted (before : FixedBufferAllocator w) (layout : Layout w) (slice : Slice w)
    (after : FixedBufferAllocator w) : Prop where
  ptr : slice.ptr.toNat = Foundation.alignUp before.begin.toNat layout.align.toNat
  len : slice.len = layout.size
  end_ : after.end_ = before.end_
  begin : after.begin.toNat = slice.ptr.toNat + layout.size.toNat
  bound : after.begin.toNat ≤ before.end_.toNat

theorem allocate_eq_some :
    self.allocate layout = some (slice, after) ↔
      (self.newBegin layout).toNat ≤ self.end_.toNat ∧
        slice = ⟨(self.begin + (layout.align - 1)) &&& ~~~(layout.align - 1), layout.size⟩ ∧
          after = { self with begin := self.newBegin layout } := by
  unfold allocate newBegin
  simp only [Usize.checkedSub_isNone]
  split
  · rename_i refused
    exact ⟨nofun, fun granted => (Nat.not_le_of_lt refused granted.1).elim⟩
  · rename_i granted
    rw [Option.some.injEq, Prod.mk.injEq]
    exact ⟨fun ⟨left, right⟩ => ⟨Nat.le_of_not_lt granted, left.symm, right.symm⟩,
      fun ⟨_, left, right⟩ => ⟨left.symm, right.symm⟩⟩

theorem toNat_newBegin (noWrap : self.NoWrap layout) :
    (self.newBegin layout).toNat =
      Foundation.alignUp self.begin.toNat layout.align.toNat + layout.size.toNat := by
  have aligned := Foundation.toNat_maskUp self.begin layout.powerOfTwo noWrap.1
  unfold Foundation.maskUp Foundation.maskDown at aligned
  unfold newBegin
  rw [BitVec.toNat_add_of_lt (by rw [aligned]; exact noWrap.2), aligned]

/-- A granted allocation whose sums do not wrap is the first aligned block. -/
theorem Granted.of_noWrap (granted : self.allocate layout = some (slice, after))
    (noWrap : self.NoWrap layout) : self.Granted layout slice after := by
  obtain ⟨bound, rfl, rfl⟩ := allocate_eq_some.mp granted
  have aligned := Foundation.toNat_maskUp self.begin layout.powerOfTwo noWrap.1
  exact ⟨aligned, rfl, rfl, (toNat_newBegin noWrap).trans (by rw [← aligned]; rfl), bound⟩

/-- An allocation whose sums do not wrap is refused exactly when the first
aligned block does not fit. -/
theorem allocate_eq_none (noWrap : self.NoWrap layout) :
    self.allocate layout = none ↔
      self.end_.toNat <
        Foundation.alignUp self.begin.toNat layout.align.toNat + layout.size.toNat := by
  rw [← toNat_newBegin noWrap]
  unfold allocate newBegin
  simp only [Usize.checkedSub_isNone]
  split <;> simp_all

/-- A buffer in the lower half of the address space leaves room for every sum. -/
theorem NoWrap.of_low (low : self.begin.toNat ≤ 2 ^ (w - 1)) : self.NoWrap layout := by
  have half := layout.two_pow_width
  have bound := layout.fits
  have positive := layout.align_pos
  have aligned := Foundation.alignUp_le_of_dvd positive layout.align_dvd_half low
  exact ⟨by omega, by omega⟩

/-- Where `begin` goes when a block below it is resized in place. -/
theorem toNat_begin_add_sub (room : oldLayout.size.toNat ≤ self.begin.toNat)
    (fits : self.begin.toNat + newLayout.size.toNat < 2 ^ w + oldLayout.size.toNat) :
    (self.begin + (newLayout.size - oldLayout.size)).toNat =
      self.begin.toNat - oldLayout.size.toNat + newLayout.size.toNat := by
  have lowered : (self.begin - oldLayout.size).toNat =
      self.begin.toNat - oldLayout.size.toNat :=
    BitVec.toNat_sub_of_le (BitVec.le_def.mpr room)
  have regrouped : self.begin + (newLayout.size - oldLayout.size) =
      self.begin - oldLayout.size + newLayout.size := by
    rw [BitVec.sub_eq_add_neg, BitVec.sub_eq_add_neg, BitVec.add_assoc,
      BitVec.add_comm newLayout.size]
  rw [regrouped, BitVec.toNat_add_of_lt (by omega), lowered]

/-- While `begin` is above the size, the test accepts exactly the aligned
addresses whose block ends less than one alignment below `begin`. -/
theorem isLast_iff (room : layout.size.toNat ≤ self.begin.toNat) :
    self.IsLast ptr layout ↔
      layout.align.toNat ∣ ptr.toNat ∧ ptr.toNat + layout.size.toNat ≤ self.begin.toNat ∧
        self.begin.toNat < ptr.toNat + layout.size.toNat + layout.align.toNat := by
  have masked := Foundation.toNat_maskDown (self.begin - layout.size) layout.powerOfTwo
  rw [BitVec.toNat_sub_of_le (BitVec.le_def.mpr room)] at masked
  unfold IsLast
  rw [BitVec.toNat_eq, eq_comm]
  change (Foundation.maskDown (self.begin - layout.size) layout.align).toNat = _ ↔ _
  rw [masked, Foundation.alignDown_eq_iff layout.align_pos]
  constructor <;> rintro ⟨divides, below, above⟩ <;> exact ⟨divides, by omega, by omega⟩

/-- When the subtraction wraps, the test only accepts upper addresses. -/
theorem lt_of_isLast_of_wrap (wraps : self.begin.toNat < layout.size.toNat)
    (accepted : self.IsLast ptr layout) : 2 ^ (w - 1) < ptr.toNat := by
  have masked := Foundation.toNat_maskDown (self.begin - layout.size) layout.powerOfTwo
  have half := layout.two_pow_width
  have bound := layout.fits
  have positive := layout.align_pos
  have divides : layout.align.toNat ∣ 2 ^ (w - 1) + layout.align.toNat :=
    Nat.dvd_add layout.align_dvd_half (Nat.dvd_refl _)
  have wrapped : (self.begin - layout.size).toNat =
      2 ^ w - layout.size.toNat + self.begin.toNat := by
    rw [BitVec.toNat_sub, Nat.mod_eq_of_lt (by omega)]
  have floor : 2 ^ (w - 1) + layout.align.toNat ≤
      Foundation.alignDown (self.begin - layout.size).toNat layout.align.toNat := by
    calc 2 ^ (w - 1) + layout.align.toNat
        = Foundation.alignDown (2 ^ (w - 1) + layout.align.toNat) layout.align.toNat :=
          (Foundation.alignDown_of_dvd divides).symm
      _ ≤ _ := Foundation.alignDown_mono (by rw [wrapped]; omega)
  unfold IsLast at accepted
  rw [accepted]
  change _ < (Foundation.maskDown (self.begin - layout.size) layout.align).toNat
  omega

/-- The signed distance of `grow` decides the bound as it is meant to, as long
as the block starts inside the buffer and the buffer is a slice. -/
theorem passesEnd_iff (inside : ptr.toNat ≤ self.end_.toNat)
    (slice : self.end_.toNat - ptr.toNat ≤ isizeMax w)
    (larger : oldLayout.size.toNat ≤ newLayout.size.toNat) :
    self.passesEnd ptr (newLayout.size - oldLayout.size) = true ↔
      self.end_.toNat + oldLayout.size.toNat < ptr.toNat + newLayout.size.toNat := by
  have half := newLayout.two_pow_width
  have bound := newLayout.fits
  have positive := newLayout.align_pos
  have endBound := self.end_.isLt
  have difference : (newLayout.size - oldLayout.size).toNat =
      newLayout.size.toNat - oldLayout.size.toNat :=
    BitVec.toNat_sub_of_le (BitVec.le_def.mpr larger)
  have distance : (self.end_ - (ptr + (newLayout.size - oldLayout.size))).toNat =
      (self.end_.toNat - ptr.toNat + (2 ^ w - (newLayout.size.toNat - oldLayout.size.toNat))) %
        2 ^ w := by
    rw [← BitVec.sub_sub, BitVec.toNat_sub, BitVec.toNat_sub_of_le (BitVec.le_def.mpr inside),
      difference, Nat.add_comm]
  unfold passesEnd isizeMax at *
  rw [decide_eq_true_eq, BitVec.toInt_neg_iff, distance]
  rcases Nat.lt_or_ge (self.end_.toNat - ptr.toNat)
    (newLayout.size.toNat - oldLayout.size.toNat) with beyond | within
  · rw [Nat.mod_eq_of_lt (by omega)]
    omega
  · rw [show self.end_.toNat - ptr.toNat + (2 ^ w - (newLayout.size.toNat - oldLayout.size.toNat)) =
      self.end_.toNat - ptr.toNat - (newLayout.size.toNat - oldLayout.size.toNat) + 2 ^ w by omega,
      Nat.add_mod_right, Nat.mod_eq_of_lt (by omega)]
    omega

end FixedBufferAllocator

end Stdx
