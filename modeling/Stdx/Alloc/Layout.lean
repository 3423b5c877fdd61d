import Stdx.Foundation.Align

/-! # Machine words, layouts and raw memory

The vocabulary the allocators and the arrays share: `usize` as a word of a
fixed but arbitrary width with the checked operations of `core`, a memory
layout together with what `Layout::from_size_align` guarantees of it, and raw
byte memory with the copies made on it.
-/

namespace Stdx

variable {w : Nat}

/-- `usize`: an unsigned word as wide as a pointer. Pointers are their addresses. -/
abbrev Usize (w : Nat) := BitVec w

/-- `isize::MAX`. -/
def isizeMax (w : Nat) : Nat := 2 ^ (w - 1) - 1

theorem isizeMax_lt (w : Nat) : isizeMax w < 2 ^ w := by
  have smaller : 2 ^ (w - 1) ≤ 2 ^ w := Nat.pow_le_pow_right (by decide) (Nat.sub_le w 1)
  have positive : 0 < 2 ^ (w - 1) := Nat.two_pow_pos (w - 1)
  unfold isizeMax
  omega

namespace Usize

/-- `usize::checked_add`. -/
def checkedAdd (left right : Usize w) : Option (Usize w) :=
  if left.toNat + right.toNat < 2 ^ w then some (left + right) else none

/-- `usize::checked_sub`. -/
def checkedSub (left right : Usize w) : Option (Usize w) :=
  if left < right then none else some (left - right)

/-- `usize::checked_mul`. -/
def checkedMul (left right : Usize w) : Option (Usize w) :=
  if left.toNat * right.toNat < 2 ^ w then some (left * right) else none

theorem checkedSub_isNone {left right : Usize w} :
    (checkedSub left right).isNone = true ↔ left.toNat < right.toNat := by
  unfold checkedSub
  split
  · rename_i less
    simpa using BitVec.lt_def.mp less
  · rename_i atLeast
    simpa using fun less => atLeast (BitVec.lt_def.mpr less)

theorem checkedMul_eq_some {left right product : Usize w} :
    checkedMul left right = some product ↔
      left.toNat * right.toNat < 2 ^ w ∧ left * right = product := by
  unfold checkedMul
  split <;> simp_all

theorem checkedAdd_eq_some {left right sum : Usize w} :
    checkedAdd left right = some sum ↔
      left.toNat + right.toNat < 2 ^ w ∧ left + right = sum := by
  unfold checkedAdd
  split <;> simp_all

end Usize

/-- A size and an alignment as `Layout` accepts them: the alignment is a power
of two, and the size rounded up to it does not exceed `isize::MAX`. -/
structure Layout (w : Nat) where
  size : Usize w
  align : Usize w
  powerOfTwo : align.toNat.isPowerOfTwo
  fits : size.toNat + align.toNat ≤ 2 ^ (w - 1)
deriving DecidableEq

namespace Layout

/-- The layout of `u8` on a 64-bit machine. -/
def byte : Layout 64 := ⟨1, 1, by decide, by decide⟩

/-- The layout of `u32` on a 64-bit machine. -/
def word : Layout 64 := ⟨4, 4, by decide, by decide⟩

/-- The layout of `()` on a 64-bit machine. -/
def unit : Layout 64 := ⟨0, 1, by decide, by decide⟩

/-- A single byte aligned as a `u32`. -/
def alignedByte : Layout 64 := ⟨1, 4, by decide, by decide⟩

/-- Two bytes. -/
def twoBytes : Layout 64 := ⟨2, 1, by decide, by decide⟩

/-- Two `u32`. -/
def twoWords : Layout 64 := ⟨8, 4, by decide, by decide⟩

/-- Eighteen bytes. -/
def manyBytes : Layout 64 := ⟨18, 1, by decide, by decide⟩

/-- A gibibyte of bytes. -/
def gibibyte : Layout 64 := ⟨0x40000000, 1, by decide, by decide⟩

/-- `Layout::from_size_align`, with its `LayoutError` as `none`. -/
def fromSizeAlign (size align : Usize w) : Option (Layout w) :=
  if valid : align.toNat.isPowerOfTwo ∧ size.toNat + align.toNat ≤ 2 ^ (w - 1) then
    some ⟨size, align, valid.1, valid.2⟩
  else
    none

theorem align_pos (layout : Layout w) : 0 < layout.align.toNat :=
  Nat.pos_of_isPowerOfTwo layout.powerOfTwo

theorem size_le (layout : Layout w) : layout.size.toNat ≤ isizeMax w := by
  have bound := layout.fits
  have positive := layout.align_pos
  unfold isizeMax
  omega

/-- There is a layout at all only for words of at least one bit. -/
theorem width_pos (layout : Layout w) : 0 < w := by
  rcases Nat.eq_zero_or_pos w with rfl | positive
  · have small := layout.align.isLt
    have large := layout.align_pos
    omega
  · exact positive

/-- The modulus of the words is twice the bound of the layouts. -/
theorem two_pow_width (layout : Layout w) : 2 ^ w = 2 * 2 ^ (w - 1) := by
  rw [← Nat.pow_succ', Nat.succ_eq_add_one, Nat.sub_add_cancel layout.width_pos]

/-- Every alignment divides the bound of the layouts. -/
theorem align_dvd_half (layout : Layout w) : layout.align.toNat ∣ 2 ^ (w - 1) := by
  have bound := layout.fits
  exact Foundation.dvd_of_isPowerOfTwo layout.powerOfTwo ⟨w - 1, rfl⟩ (by omega)

theorem fromSizeAlign_eq_some {size align : Usize w} {layout : Layout w} :
    fromSizeAlign size align = some layout ↔ layout.size = size ∧ layout.align = align := by
  unfold fromSizeAlign
  split
  · cases layout
    simp only [Option.some.injEq, Layout.mk.injEq]
    exact ⟨fun ⟨left, right⟩ => ⟨left.symm, right.symm⟩,
      fun ⟨left, right⟩ => ⟨left.symm, right.symm⟩⟩
  · rename_i invalid
    refine ⟨fun impossible => (Option.some_ne_none _ impossible.symm).elim, ?_⟩
    rintro ⟨rfl, rfl⟩
    exact (invalid ⟨layout.powerOfTwo, layout.fits⟩).elim

end Layout

/-- `NonNull<[u8]>`: the address and the length of a block of bytes. -/
structure Slice (w : Nat) where
  ptr : Usize w
  len : Usize w
deriving DecidableEq

/-- Raw byte memory. -/
abbrev Memory (w : Nat) := Usize w → UInt8

/-- `ptr::copy_nonoverlapping` of bytes. -/
def copyNonoverlapping (memory : Memory w) (src dst count : Usize w) : Memory w :=
  fun address => if address - dst < count then memory (src + (address - dst)) else memory address

end Stdx
