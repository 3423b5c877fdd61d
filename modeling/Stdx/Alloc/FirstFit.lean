import Mathlib.Order.Bounds.Basic
import Stdx.Alloc.Client

/-! # Where an allocation goes

Below `isize::MAX` an allocation is a first fit: it succeeds exactly when a block
of the layout fits into what is left of the buffer, and its block is the lowest
one (`Stdx.World.allocate_first_fit`). At the upper end of the address space the
sums of `allocate` wrap, and a request that does not fit is granted at a low
address. Both happen exactly when `begin` is past the last address at which a
block of the layout ends inside the address space
(`Stdx.FixedBufferAllocator.allocate_in_bounds_iff`).
-/

namespace Stdx

open Foundation

variable {w : Nat}

/-- The highest address at which a block of the layout can start and end inside
the address space. -/
def Layout.highest (layout : Layout w) : Nat :=
  alignDown (2 ^ w - 1 - layout.size.toNat) layout.align.toNat

/-- Above the highest address there is room for one alignment. -/
theorem Layout.highest_add_le (layout : Layout w) :
    layout.highest + layout.align.toNat ≤ 2 ^ w := by
  have below : layout.highest ≤ 2 ^ w - 1 - layout.size.toNat := alignDown_le _ _
  have positive : 0 < 2 ^ w := Nat.two_pow_pos w
  have gap : layout.align.toNat ∣ 2 ^ w - layout.highest :=
    Nat.dvd_sub (dvd_two_pow layout.powerOfTwo) (dvd_alignDown _ _)
  have room := Nat.le_of_dvd (by omega) gap
  omega

namespace FixedBufferAllocator

variable {self after : FixedBufferAllocator w} {layout : Layout w} {slice : Slice w}

/-- The addresses at which a block of the layout fits into what is left of the
buffer. -/
def places (self : FixedBufferAllocator w) (layout : Layout w) : Set Nat :=
  {start | layout.align.toNat ∣ start ∧ self.begin.toNat ≤ start ∧
    start + layout.size.toNat ≤ self.end_.toNat}

/-- The two sums of `allocate` are the ones of numbers. -/
def SumsFit (self : FixedBufferAllocator w) (layout : Layout w) : Prop :=
  (self.begin + (layout.align - 1)).toNat = self.begin.toNat + (layout.align.toNat - 1) ∧
    (self.newBegin layout).toNat =
      ((self.begin + (layout.align - 1)) &&& ~~~(layout.align - 1)).toNat + layout.size.toNat

/-- What is allocated fits. -/
def GrantsFit (self : FixedBufferAllocator w) (layout : Layout w) : Prop :=
  ∀ granted, self.allocate layout = some granted → (self.places layout).Nonempty

/-! ## The lowest place -/

/-- Every place is at or above the first aligned address. -/
theorem alignUp_le_of_mem_places {start : Nat} (place : start ∈ self.places layout) :
    alignUp self.begin.toNat layout.align.toNat ≤ start :=
  alignUp_le_of_dvd layout.align_pos place.1 place.2.1

/-- There is a place when the first aligned address is one. -/
theorem places_nonempty_iff :
    (self.places layout).Nonempty ↔
      alignUp self.begin.toNat layout.align.toNat + layout.size.toNat ≤ self.end_.toNat := by
  constructor
  · rintro ⟨start, place⟩
    have lowest := alignUp_le_of_mem_places place
    exact (Nat.add_le_add_right lowest _).trans place.2.2
  · intro fits
    exact ⟨_, dvd_alignUp _ _, le_alignUp _ layout.align_pos, fits⟩

theorem places_eq_empty_of_lt
    (full : self.end_.toNat <
      alignUp self.begin.toNat layout.align.toNat + layout.size.toNat) :
    self.places layout = ∅ := by
  apply Set.not_nonempty_iff_eq_empty.mp
  rw [places_nonempty_iff]
  exact Nat.not_le_of_lt full

/-- A block that is granted without a wrapping sum is at the lowest place. -/
theorem Granted.isLeast (granted : self.Granted layout slice after) :
    IsLeast (self.places layout) slice.ptr.toNat := by
  have aligned := granted.ptr
  constructor
  · refine ⟨aligned ▸ dvd_alignUp _ _, aligned ▸ le_alignUp _ layout.align_pos, ?_⟩
    exact granted.begin ▸ granted.bound
  · intro start place
    exact aligned ▸ alignUp_le_of_mem_places place

/-- A block at the end of which `begin` stands is the last one. -/
theorem Granted.deallocate (granted : self.Granted layout slice after) :
    after.deallocate slice.ptr layout = { after with begin := slice.ptr } := by
  have aligned : layout.align.toNat ∣ slice.ptr.toNat := granted.ptr ▸ dvd_alignUp _ _
  have stop := granted.begin
  have positive := layout.align_pos
  have last : after.IsLast slice.ptr layout :=
    (isLast_iff (by omega)).mpr ⟨aligned, by omega, by omega⟩
  rcases after.deallocate_cases slice.ptr layout with ⟨_, equal⟩ | ⟨notLast, _⟩
  · exact equal
  · exact absurd last notLast

/-- From the start of a block the same block is allocated again. -/
theorem allocate_of_granted (granted : self.allocate layout = some (slice, after))
    (noWrap : self.NoWrap layout) :
    FixedBufferAllocator.allocate { after with begin := slice.ptr } layout =
      some (slice, after) := by
  have result := Granted.of_noWrap granted noWrap
  have aligned : layout.align.toNat ∣ slice.ptr.toNat := result.ptr ▸ dvd_alignUp _ _
  have again : maskUp slice.ptr layout.align = slice.ptr := by
    apply (maskUp_eq_iff layout.powerOfTwo).mpr
    rw [BitVec.sub_self]
    exact ⟨aligned, layout.align_pos⟩
  obtain ⟨bound, rfl, rfl⟩ := allocate_eq_some.mp granted
  change maskUp _ layout.align = _ at again
  apply allocate_eq_some.mpr
  unfold newBegin
  unfold maskUp maskDown at again
  rw [again]
  exact ⟨bound, rfl, rfl⟩

/-! ## Sums that wrap -/

/-- No sum wraps when `begin` is not past the highest address for the layout. -/
theorem noWrap_iff : self.NoWrap layout ↔ self.begin.toNat ≤ layout.highest := by
  have size := layout.size.isLt
  have positive := layout.align_pos
  unfold Layout.highest
  rw [← alignUp_le_iff positive]
  constructor
  · intro noWrap
    have sum := noWrap.2
    omega
  · intro low
    have room := layout.highest_add_le
    have below : self.begin.toNat ≤ layout.highest := (alignUp_le_iff positive).mp low
    exact ⟨by omega, by omega⟩

/-- The sums of `allocate` are those of numbers when they do not wrap. -/
theorem sumsFit_iff_noWrap : self.SumsFit layout ↔ self.NoWrap layout := by
  have pred := toNat_pred layout.align_pos
  constructor
  · intro ⟨first, second⟩
    have firstFits : self.begin.toNat + (layout.align.toNat - 1) < 2 ^ w :=
      first ▸ BitVec.isLt _
    have aligned := toNat_maskUp self.begin layout.powerOfTwo firstFits
    unfold maskUp maskDown at aligned
    have secondFits := second ▸ (self.newBegin layout).isLt
    rw [aligned] at secondFits
    exact ⟨firstFits, secondFits⟩
  · intro noWrap
    have aligned := toNat_maskUp self.begin layout.powerOfTwo noWrap.1
    unfold maskUp maskDown at aligned
    refine ⟨?_, (toNat_newBegin noWrap).trans (by rw [aligned])⟩
    rw [BitVec.toNat_add_of_lt (by rw [pred]; exact noWrap.1), pred]

/-- A sum that wraps comes out below `begin`. -/
theorem newBegin_lt_of_wrap (wraps : ¬ self.NoWrap layout) :
    (self.newBegin layout).toNat < self.begin.toNat := by
  have half := layout.two_pow_width
  have bound := layout.fits
  have start := self.begin.isLt
  have rounded : maskUp self.begin layout.align = maskUp self.begin layout.align ↔ _ :=
    maskUp_eq_iff layout.powerOfTwo
  obtain ⟨divides, close⟩ := rounded.mp rfl
  have room := toNat_add_le_two_pow layout.powerOfTwo divides
  have sum : (self.newBegin layout).toNat =
      ((maskUp self.begin layout.align).toNat + layout.size.toNat) % 2 ^ w :=
    BitVec.toNat_add _ _
  rw [BitVec.toNat_sub] at close
  generalize maskUp self.begin layout.align = point at divides close room sum
  rw [sum]
  by_cases above : self.begin.toNat ≤ point.toNat
  · have distance : 2 ^ w - self.begin.toNat + point.toNat =
        point.toNat - self.begin.toNat + 2 ^ w := by omega
    rw [distance, Nat.add_mod_right, Nat.mod_eq_of_lt (by omega)] at close
    -- the block starts above `begin`, so it is its end that wraps
    have beyond : 2 ^ w ≤ point.toNat + layout.size.toNat := by
      by_contra inside
      have lowest := alignUp_le_of_dvd layout.align_pos divides above
      exact wraps ⟨by omega, by omega⟩
    rw [Nat.mod_eq_sub_mod beyond, Nat.mod_eq_of_lt (by omega)]
    omega
  · rw [Nat.mod_eq_of_lt (by omega)] at close
    rw [Nat.mod_eq_of_lt (by omega)]
    omega

/-- Where a sum wraps there is no place. -/
theorem places_eq_empty_of_wrap (wraps : ¬ self.NoWrap layout) : self.places layout = ∅ := by
  apply places_eq_empty_of_lt
  by_contra fits
  have stop := self.end_.isLt
  have low : alignUp self.begin.toNat layout.align.toNat ≤ 2 ^ w - 1 - layout.size.toNat := by
    omega
  exact wraps (noWrap_iff.mpr ((alignUp_le_iff layout.align_pos).mp low))

/-- A request whose sums wrap is granted, and does not fit. -/
theorem not_grantsFit_of_wrap (ordered : self.begin.toNat ≤ self.end_.toNat)
    (wraps : ¬ self.NoWrap layout) : ¬ self.GrantsFit layout := by
  intro fits
  have low := (newBegin_lt_of_wrap wraps).le.trans ordered
  have place := fits _ (allocate_eq_some.mpr ⟨low, rfl, rfl⟩)
  rw [places_eq_empty_of_wrap wraps] at place
  exact Set.not_nonempty_empty place

theorem grantsFit_of_noWrap (noWrap : self.NoWrap layout) : self.GrantsFit layout := by
  rintro ⟨slice, after⟩ granted
  exact ⟨_, (Granted.of_noWrap granted noWrap).isLeast.1⟩

/-- **Sums of addresses.** Wherever the buffer is, the sums of an allocation do not
wrap, and no request that does not fit is granted, exactly when `begin` is not past
the highest address for the layout. -/
theorem allocate_in_bounds_iff (self : FixedBufferAllocator w) (layout : Layout w)
    (ordered : self.begin.toNat ≤ self.end_.toNat) :
    (self.SumsFit layout ↔ self.begin.toNat ≤ layout.highest) ∧
      (self.GrantsFit layout ↔ self.begin.toNat ≤ layout.highest) := by
  rw [sumsFit_iff_noWrap, ← noWrap_iff]
  refine ⟨Iff.rfl, fun fits => ?_, grantsFit_of_noWrap⟩
  by_contra wraps
  exact not_grantsFit_of_wrap ordered wraps fits

/-- Sixteen bytes a page below the end of the address space. -/
def topPage : Buffer 64 := ⟨0xfffffffffffff000, 16, World.page.len_le, by decide⟩

/-- A word fits at the start of the page. -/
theorem topPage_in_bounds :
    ((fromSlice topPage).SumsFit .word ↔ (fromSlice topPage).begin.toNat ≤ Layout.word.highest) ∧
      ((fromSlice topPage).GrantsFit .word ↔
        (fromSlice topPage).begin.toNat ≤ Layout.word.highest) :=
  allocate_in_bounds_iff (fromSlice topPage) .word (by decide)

/-- A gibibyte from the page on wraps around, and is granted. -/
theorem topPage_grants_gibibyte :
    ¬ ∀ (w : Nat) (buffer : Buffer w) (self : FixedBufferAllocator w) (layout : Layout w),
      buffer.start.toNat ≤ self.begin.toNat → self.begin.toNat ≤ self.end_.toNat →
        self.end_.toNat = buffer.stop → self.SumsFit layout ∧ self.GrantsFit layout := by
  intro claim
  obtain ⟨⟨_, wraps⟩, _⟩ := claim 64 topPage (fromSlice topPage) .gibibyte (by decide) (by decide)
    (by decide)
  exact absurd wraps (by decide)

end FixedBufferAllocator

namespace World

/-- The block is at the lowest place and `begin` at its end; deallocating the block
and allocating the layout again gives the same block and the same world. -/
structure FirstFit (world : World w) (layout : Layout w) (slice : Slice w) (after : World w) :
    Prop where
  lowest : IsLeast (world.fba.places layout) slice.ptr.toNat
  len : slice.len = layout.size
  begin : after.fba.begin.toNat = slice.ptr.toNat + layout.size.toNat
  end_ : after.fba.end_ = world.fba.end_
  replies : (machine w).outputs after [.deallocate ⟨slice.ptr, layout⟩, .allocate layout] =
    [.done, .block slice]
  returns : (machine w).final after [.deallocate ⟨slice.ptr, layout⟩, .allocate layout] = after

variable {world : World w} {layout : Layout w} {slice : Slice w} {fba : FixedBufferAllocator w}

/-- A granted allocation without a wrapping sum is a first fit. -/
theorem FirstFit.of_granted (granted : world.fba.allocate layout = some (slice, fba))
    (noWrap : world.fba.NoWrap layout) :
    world.FirstFit layout slice { world with fba, live := ⟨slice.ptr, layout⟩ :: world.live } := by
  have result := FixedBufferAllocator.Granted.of_noWrap granted noWrap
  have again := FixedBufferAllocator.allocate_of_granted granted noWrap
  refine ⟨result.isLeast, result.len, result.begin, result.end_, ?_, ?_⟩
  · simp only [Machine.outputs, Machine.out, Machine.next, machine, step, result.deallocate, again]
  · simp only [Machine.final, Machine.next, machine, step, result.deallocate, again,
      List.erase_cons_head]

/-- **First fit.** In a buffer that ends at `isize::MAX` at the latest, an
allocation succeeds exactly when there is a place for its block, which is then at
the lowest one; otherwise it changes nothing. -/
theorem allocate_first_fit (world : World w) (layout : Layout w)
    (ordered : world.fba.begin.toNat ≤ world.fba.end_.toNat)
    (low : world.fba.end_.toNat ≤ isizeMax w) :
    let reply := (machine w).out world (.allocate layout)
    let after := (machine w).next world (.allocate layout)
    ((∃ slice, reply = .block slice) ↔ (world.fba.places layout).Nonempty) ∧
      (∀ slice, reply = .block slice → world.FirstFit layout slice after) ∧
        ((¬ ∃ slice, reply = .block slice) → reply = .allocError ∧ after = world) := by
  have noWrap : world.fba.NoWrap layout := by
    apply FixedBufferAllocator.NoWrap.of_low
    exact ordered.trans (low.trans (Nat.sub_le _ _))
  simp only [Machine.out, Machine.next, machine, step]
  cases granted : world.fba.allocate layout with
  | none =>
      have full := (FixedBufferAllocator.allocate_eq_none noWrap).mp granted
      rw [FixedBufferAllocator.places_eq_empty_of_lt full]
      refine ⟨⟨?_, fun place => absurd place Set.not_nonempty_empty⟩, ?_, fun _ => ⟨rfl, rfl⟩⟩
      · rintro ⟨slice, impossible⟩
        cases impossible
      · intro slice impossible
        cases impossible
  | some pair =>
      obtain ⟨slice, fba⟩ := pair
      have fits := FirstFit.of_granted granted noWrap
      refine ⟨⟨fun _ => ⟨_, fits.lowest.1⟩, fun _ => ⟨slice, rfl⟩⟩, ?_, fun refused => ?_⟩
      · intro other same
        cases same
        exact fits
      · exact absurd ⟨slice, rfl⟩ refused

/-- A word at the start of the page. -/
theorem word_first_fit :
    ((machine 64).out (new page fun _ => 0) (.allocate .word) = .block ⟨0x1000, 4⟩) ∧
      (new page fun _ => 0).FirstFit .word ⟨0x1000, 4⟩
        ((machine 64).next (new page fun _ => 0) (.allocate .word)) :=
  ⟨rfl, (allocate_first_fit (new page fun _ => 0) .word (by decide) (by decide)).2.1 _ rfl⟩

end World

end Stdx
