import Mathlib.Algebra.Order.Group.Nat
import Mathlib.Data.Nat.ModEq
import Mathlib.Tactic.Ring

/-! # Rounding to an alignment

Rounding a number down or up to a multiple of an alignment, first over the
naturals, where it needs no bound, and then as the bit masks `x & !(a - 1)` and
`(x + (a - 1)) & !(a - 1)` that machine code uses for it on words of any width.
The masks compute the rounding whenever the alignment is a power of two and the
sum stays below the word's modulus
(`Foundation.toNat_maskDown`, `Foundation.toNat_maskUp`).
-/

namespace Foundation

/-- The greatest multiple of `align` that is at most `value`. -/
def alignDown (value align : Nat) : Nat :=
  value - value % align

/-- The least multiple of `align` that is at least `value`. -/
def alignUp (value align : Nat) : Nat :=
  alignDown (value + (align - 1)) align

theorem alignDown_le (value align : Nat) : alignDown value align ≤ value :=
  Nat.sub_le _ _

theorem dvd_alignDown (value align : Nat) : align ∣ alignDown value align :=
  Nat.dvd_sub_mod value

theorem lt_alignDown_add (value : Nat) {align : Nat} (positive : 0 < align) :
    value < alignDown value align + align := by
  have bound := Nat.mod_lt value positive
  unfold alignDown
  omega

/-- Rounding down is the only multiple of the alignment in its window. -/
theorem alignDown_eq_iff {value align point : Nat} (positive : 0 < align) :
    alignDown value align = point ↔ align ∣ point ∧ point ≤ value ∧ value < point + align := by
  constructor
  · rintro rfl
    exact ⟨dvd_alignDown _ _, alignDown_le _ _, lt_alignDown_add _ positive⟩
  · rintro ⟨divides, below, above⟩
    obtain ⟨factor, rfl⟩ := divides
    have quotient : value / align = factor :=
      (Nat.div_eq_iff positive).mpr ⟨by rw [Nat.mul_comm]; exact below, by
        rw [Nat.mul_comm]; omega⟩
    have split := Nat.div_add_mod value align
    rw [quotient] at split
    unfold alignDown
    omega

theorem alignDown_of_dvd {value align : Nat} (divides : align ∣ value) :
    alignDown value align = value := by
  unfold alignDown
  rw [Nat.mod_eq_zero_of_dvd divides, Nat.sub_zero]

theorem alignDown_mono {value larger align : Nat} (le : value ≤ larger) :
    alignDown value align ≤ alignDown larger align := by
  have left := Nat.div_mul_self_eq_mod_sub_self (x := value) (k := align)
  have right := Nat.div_mul_self_eq_mod_sub_self (x := larger) (k := align)
  unfold alignDown
  rw [← left, ← right]
  exact Nat.mul_le_mul_right align (Nat.div_le_div_right le)

theorem dvd_alignUp (value align : Nat) : align ∣ alignUp value align :=
  dvd_alignDown _ _

theorem le_alignUp (value : Nat) {align : Nat} (positive : 0 < align) :
    value ≤ alignUp value align := by
  have window := lt_alignDown_add (value + (align - 1)) positive
  unfold alignUp
  omega

theorem alignUp_le_add (value align : Nat) : alignUp value align ≤ value + (align - 1) :=
  alignDown_le _ _

/-- Rounding up gives the least multiple of the alignment above the value. -/
theorem alignUp_le_of_dvd {value align point : Nat} (positive : 0 < align)
    (divides : align ∣ point) (above : value ≤ point) : alignUp value align ≤ point := by
  obtain ⟨factor, rfl⟩ := divides
  obtain ⟨rounded, equal⟩ := dvd_alignUp value align
  rw [equal]
  apply Nat.mul_le_mul_left
  have close : align * rounded ≤ value + (align - 1) := equal ▸ alignUp_le_add value align
  have strict : align * rounded < align * (factor + 1) := by
    rw [Nat.mul_succ]
    omega
  exact Nat.lt_succ_iff.mp (Nat.lt_of_mul_lt_mul_left strict)

/-- Rounding up is below a bound when the value is below the bound rounded down. -/
theorem alignUp_le_iff {value align bound : Nat} (positive : 0 < align) :
    alignUp value align ≤ bound ↔ value ≤ alignDown bound align := by
  constructor
  · intro below
    have aligned : alignDown (alignUp value align) align = alignUp value align :=
      alignDown_of_dvd (dvd_alignUp value align)
    exact (le_alignUp value positive).trans (aligned ▸ alignDown_mono below)
  · intro below
    exact (alignUp_le_of_dvd positive (dvd_alignDown bound align) below).trans
      (alignDown_le bound align)

theorem alignUp_mono {value larger align : Nat} (le : value ≤ larger) :
    alignUp value align ≤ alignUp larger align :=
  alignDown_mono (Nat.add_le_add_right le _)

theorem alignUp_of_dvd {value align : Nat} (positive : 0 < align) (divides : align ∣ value) :
    alignUp value align = value :=
  Nat.le_antisymm (alignUp_le_of_dvd positive divides (Nat.le_refl _)) (le_alignUp _ positive)

/-- Of two powers of two the larger one is a multiple of the other. -/
theorem dvd_of_isPowerOfTwo {small large : Nat} (smallPower : small.isPowerOfTwo)
    (largePower : large.isPowerOfTwo) (le : small ≤ large) : small ∣ large := by
  obtain ⟨first, rfl⟩ := smallPower
  obtain ⟨second, rfl⟩ := largePower
  exact Nat.pow_dvd_pow 2 ((Nat.pow_le_pow_iff_right (by decide)).mp le)

section Words

variable {w : Nat}

/-- The mask `x & !(a - 1)` on machine words. -/
def maskDown (value align : BitVec w) : BitVec w :=
  value &&& ~~~(align - 1)

/-- The mask `(x + (a - 1)) & !(a - 1)` on machine words; the sum may wrap. -/
def maskUp (value align : BitVec w) : BitVec w :=
  maskDown (value + (align - 1)) align

/-- The bits a mask clears and the bits it keeps partition the word. -/
theorem toNat_and_not (value mask : BitVec w) :
    (value &&& ~~~mask).toNat = value.toNat - (value &&& mask).toNat := by
  have apart : (value &&& ~~~mask) &&& (value &&& mask) = 0#w := by
    rw [BitVec.and_comm value mask, BitVec.and_assoc, ← BitVec.and_assoc (~~~mask),
      BitVec.not_and_self]
    simp
  have together : value &&& ~~~mask ||| value &&& mask = value := by
    rw [← BitVec.and_or_distrib_left, BitVec.or_comm, BitVec.or_not_self, BitVec.and_allOnes]
  have sum := BitVec.toNat_add_of_and_eq_zero apart
  rw [BitVec.add_eq_or_of_and_eq_zero _ _ apart, together] at sum
  omega

theorem toNat_succ {value : BitVec w} (room : value.toNat + 1 < 2 ^ w) :
    (value + 1).toNat = value.toNat + 1 := by
  have one : (1 : BitVec w).toNat = 1 :=
    Nat.mod_eq_of_lt (lt_of_le_of_lt (Nat.le_add_left 1 _) room)
  rw [BitVec.toNat_add_of_lt (by rw [one]; exact room), one]

theorem toNat_pred {value : BitVec w} (positive : 0 < value.toNat) :
    (value - 1).toNat = value.toNat - 1 := by
  have one : (1 : BitVec w).toNat = 1 :=
    Nat.mod_eq_of_lt (lt_of_le_of_lt positive value.isLt)
  rw [BitVec.toNat_sub_of_le (by rw [BitVec.le_def, one]; exact positive), one]

/-- Clearing the low bits rounds down to the power of two they count to. -/
theorem toNat_maskDown (value : BitVec w) {align : BitVec w}
    (power : align.toNat.isPowerOfTwo) :
    (maskDown value align).toNat = alignDown value.toNat align.toNat := by
  have positive : 0 < align.toNat := Nat.pos_of_isPowerOfTwo power
  have low : (value &&& (align - 1)).toNat = value.toNat % align.toNat := by
    obtain ⟨exponent, equal⟩ := power
    rw [BitVec.toNat_and, toNat_pred positive, equal, Nat.and_two_pow_sub_one_eq_mod]
  unfold maskDown alignDown
  rw [toNat_and_not, low]

/-- What the mask rounds up to is aligned, whether or not the sum wraps. -/
theorem dvd_maskUp (value : BitVec w) {align : BitVec w} (power : align.toNat.isPowerOfTwo) :
    align.toNat ∣ (maskUp value align).toNat := by
  rw [maskUp, toNat_maskDown _ power]
  exact dvd_alignDown _ _

/-- A power of two that a word can hold divides the number of words. -/
theorem dvd_two_pow {align : BitVec w} (power : align.toNat.isPowerOfTwo) :
    align.toNat ∣ 2 ^ w :=
  dvd_of_isPowerOfTwo power ⟨w, rfl⟩ align.isLt.le

/-- Sums of aligned words are aligned, whether or not they wrap. -/
theorem dvd_toNat_add {align first second : BitVec w} (power : align.toNat.isPowerOfTwo)
    (left : align.toNat ∣ first.toNat) (right : align.toNat ∣ second.toNat) :
    align.toNat ∣ (first + second).toNat := by
  rw [BitVec.toNat_add, Nat.dvd_mod_iff (dvd_two_pow power)]
  exact Nat.dvd_add left right

/-- Above an aligned word there is room for one alignment. -/
theorem toNat_add_le_two_pow {align point : BitVec w} (power : align.toNat.isPowerOfTwo)
    (divides : align.toNat ∣ point.toNat) : point.toNat + align.toNat ≤ 2 ^ w := by
  have below := point.isLt
  obtain ⟨all, modulus⟩ := dvd_two_pow power
  obtain ⟨factor, equal⟩ := divides
  rw [modulus, equal] at below ⊢
  have strict := Nat.lt_of_mul_lt_mul_left below
  exact Nat.mul_succ align.toNat factor ▸ Nat.mul_le_mul_left _ strict

/-- Rounding down gives the aligned word that is less than an alignment below the
value. -/
theorem maskDown_eq_iff {value align point : BitVec w} (power : align.toNat.isPowerOfTwo) :
    maskDown value align = point ↔
      align.toNat ∣ point.toNat ∧ (value - point).toNat < align.toNat := by
  rw [← BitVec.toNat_inj, toNat_maskDown _ power, alignDown_eq_iff (Nat.pos_of_isPowerOfTwo power),
    BitVec.toNat_sub]
  refine and_congr_right fun divides => ?_
  have inside := toNat_add_le_two_pow power divides
  have valueLt := value.isLt
  by_cases above : point.toNat ≤ value.toNat
  · rw [show 2 ^ w - point.toNat + value.toNat = value.toNat - point.toNat + 2 ^ w by omega,
      Nat.add_mod_right, Nat.mod_eq_of_lt (by omega)]
    omega
  · rw [Nat.mod_eq_of_lt (by omega : 2 ^ w - point.toNat + value.toNat < 2 ^ w)]
    omega

/-- Adding one less than the alignment first rounds up, when the sum fits. -/
theorem toNat_maskUp (value : BitVec w) {align : BitVec w}
    (power : align.toNat.isPowerOfTwo) (fits : value.toNat + (align.toNat - 1) < 2 ^ w) :
    (maskUp value align).toNat = alignUp value.toNat align.toNat := by
  have pred := toNat_pred (Nat.pos_of_isPowerOfTwo power)
  unfold maskUp alignUp
  rw [toNat_maskDown _ power, BitVec.toNat_add_of_lt (by rw [pred]; exact fits), pred]

/-- The mask rounds up when the result is a word. -/
theorem toNat_maskUp_of_lt (value : BitVec w) {align : BitVec w}
    (power : align.toNat.isPowerOfTwo) (fits : alignUp value.toNat align.toNat < 2 ^ w) :
    (maskUp value align).toNat = alignUp value.toNat align.toNat := by
  apply toNat_maskUp value power
  by_contra large
  have rounded : alignDown (2 ^ w) align.toNat ≤ alignUp value.toNat align.toNat :=
    alignDown_mono (not_lt.mp large)
  rw [alignDown_of_dvd (dvd_two_pow power)] at rounded
  exact absurd fits (not_lt.mpr rounded)

/-- Rounding up gives the aligned word that is less than an alignment past the
value; the distance may wrap. -/
theorem maskUp_eq_iff {value align point : BitVec w} (power : align.toNat.isPowerOfTwo) :
    maskUp value align = point ↔
      align.toNat ∣ point.toNat ∧ (point - value).toNat < align.toNat := by
  have positive := Nat.pos_of_isPowerOfTwo power
  have valueLt := value.isLt
  have pointLt := point.isLt
  have sum := BitVec.toNat_add value (align - 1)
  rw [toNat_pred positive] at sum
  rw [← BitVec.toNat_inj, maskUp, toNat_maskDown _ power, alignDown_eq_iff positive, sum,
    BitVec.toNat_sub]
  refine and_congr_right fun divides => ?_
  have inside := toNat_add_le_two_pow power divides
  by_cases wraps : value.toNat + (align.toNat - 1) < 2 ^ w
  · rw [Nat.mod_eq_of_lt wraps]
    by_cases above : value.toNat ≤ point.toNat
    · rw [show 2 ^ w - value.toNat + point.toNat = point.toNat - value.toNat + 2 ^ w by omega,
        Nat.add_mod_right, Nat.mod_eq_of_lt (by omega)]
      omega
    · rw [Nat.mod_eq_of_lt (by omega : 2 ^ w - value.toNat + point.toNat < 2 ^ w)]
      omega
  · rw [Nat.mod_eq_sub_mod (by omega), Nat.mod_eq_of_lt (by omega)]
    by_cases above : value.toNat ≤ point.toNat
    · omega
    · rw [Nat.mod_eq_of_lt (by omega : 2 ^ w - value.toNat + point.toNat < 2 ^ w)]
      omega

end Words

end Foundation
