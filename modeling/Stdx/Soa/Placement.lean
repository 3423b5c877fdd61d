import Stdx.Foundation.Region
import Stdx.Soa.RequestSize

/-! # The arrays of the pushes

`buf_align` is the greatest of the alignments, which are powers of two, and so a multiple
of each of them (`Stdx.Soa.align_dvd_bufAlign`). In a buffer at a multiple of it the places
to which the pushes write begin arrays that follow one another in the order of the
fields, each of them aligned for its field (`Stdx.Soa.placed_laidOut`).
-/

namespace Stdx

namespace Soa

open Foundation Rust

variable {w : Nat}

/-- The array of a field that begins at a place. -/
def arrayAt (types : Types w) (cap : Usize w) (field : Field) (place : String × Usize w) :
    Region Nat where
  start := place.2.toNat
  stop := place.2.toNat + cap.toNat * (types.size field.ty).toNat

/-- The arrays of fields at their places. -/
def arrays (types : Types w) (cap : Usize w) (fields : List Field)
    (places : List (String × Usize w)) : List (Region Nat) :=
  List.zipWith (arrayAt types cap) fields places

/-- The layout of a buffer: an array for each field in the order of the fields, disjoint
from the others and at an aligned address. -/
structure LaidOut (types : Types w) (cap base : Usize w) (fields : List Field)
    (places : List (String × Usize w)) : Prop where
  names : places.map Prod.fst = fields.map Field.name
  ordered : (arrays types cap fields places).Pairwise fun first second =>
    first.stop ≤ second.start
  apart : (arrays types cap fields places).Pairwise fun first second =>
    Disjoint first.range second.range
  aligned : List.Forall₂ (fun field place =>
    (types.align field.ty).toNat ∣ (base + place.2).toNat) fields places

variable {types : Types w} {state : SoaState w} {cap base cursor : Usize w} {field : Field}
  {fields : List Field}

/-! ## The alignment of the buffer -/

theorem aligns_derive (name : String) (fields : List Field) :
    (derive name fields).aligns = fields.map Field.ty := by
  have appended : (fields.foldl Templates.addField .start).alignments =
      Templates.start.alignments ++ fields.flatMap fun field => [field.ty] :=
    foldl_addField (fun _ _ => rfl) .start fields
  rw [List.map_eq_flatMap]
  exact appended

/-- One round of the loop of `buf_align`. -/
def maxAlign (types : Types w) (max : Usize w) (ty : String) : Usize w :=
  if max < types.align ty then types.align ty else max

/-- A round leaves a power of two that both alignments divide. -/
theorem dvd_maxAlign (types : Types w) {max : Usize w} (power : max.toNat.isPowerOfTwo)
    (ty : String) :
    (maxAlign types max ty).toNat.isPowerOfTwo ∧ max.toNat ∣ (maxAlign types max ty).toNat ∧
      (types.align ty).toNat ∣ (maxAlign types max ty).toNat := by
  have other := types.power ty
  unfold maxAlign
  by_cases less : max < types.align ty
  · rw [if_pos less]
    exact ⟨other, dvd_of_isPowerOfTwo power other (BitVec.lt_def.mp less).le, dvd_rfl⟩
  · rw [if_neg less]
    exact ⟨power, dvd_rfl, dvd_of_isPowerOfTwo other power (BitVec.not_lt.mp less)⟩

/-- The loop leaves a multiple of what it begins with and of every alignment it meets. -/
theorem dvd_foldl_maxAlign {max : Usize w} (power : max.toNat.isPowerOfTwo)
    (tys : List String) :
    max.toNat ∣ (tys.foldl (maxAlign types) max).toNat ∧
      ∀ ty ∈ tys, (types.align ty).toNat ∣ (tys.foldl (maxAlign types) max).toNat := by
  induction tys generalizing max with
  | nil => exact ⟨dvd_rfl, List.forall_mem_nil _⟩
  | cons ty tys ih =>
      obtain ⟨next, first, second⟩ := dvd_maxAlign types power ty
      obtain ⟨kept, others⟩ := ih next
      exact ⟨first.trans kept, List.forall_mem_cons.mpr ⟨second.trans kept, others⟩⟩

/-- **The alignment of the buffer.** -/
theorem align_dvd_bufAlign (name : String) (member : field ∈ fields) :
    (types.align field.ty).toNat ∣ ((derive name fields).bufAlign types).toNat := by
  have wide : 0 < w := by
    have some := align_pos types field.ty
    have bound := (types.align field.ty).isLt
    apply Nat.pos_of_ne_zero
    rintro rfl
    omega
  have one : (1 : Usize w).toNat.isPowerOfTwo := ⟨0, BitVec.toNat_one wide⟩
  unfold Generated.bufAlign
  rw [aligns_derive]
  exact (dvd_foldl_maxAlign one _).2 _ (List.mem_map_of_mem member)

/-! ## The places of the arrays -/

theorem map_fst_cursorsFrom (types : Types w) (cap cursor : Usize w) (fields : List Field) :
    (cursorsFrom types cap cursor fields).map Prod.fst = fields.map Field.name := by
  induction fields generalizing cursor with
  | nil => rfl
  | cons field rest ih => exact congrArg (field.name :: ·) (ih _)

/-- Every place is aligned for its field, from any cursor on and even if a sum wraps. -/
theorem aligned_cursorsFrom
    (divides : ∀ field ∈ fields, (types.align field.ty).toNat ∣ base.toNat) :
    List.Forall₂ (fun field place => (types.align field.ty).toNat ∣ (base + place.2).toNat)
      fields (cursorsFrom types cap cursor fields) := by
  induction fields generalizing cursor with
  | nil => exact .nil
  | cons field rest ih =>
      obtain ⟨here, others⟩ := List.forall_mem_cons.mp divides
      have power := types.power field.ty
      exact .cons (dvd_toNat_add power here (dvd_maskUp cursor power)) (ih others)

/-- The arrays behind a cursor begin behind it. -/
theorem le_start_arrays (fits : endFrom types cap.toNat cursor.toNat fields < 2 ^ w) :
    ∀ region ∈ arrays types cap fields (cursorsFrom types cap cursor fields),
      cursor.toNat ≤ region.start := by
  induction fields generalizing cursor with
  | nil => exact List.forall_mem_nil _
  | cons field rest ih =>
      obtain ⟨start, next⟩ := toNat_advance fits
      have above := le_alignUp cursor.toNat (align_pos types field.ty)
      refine List.forall_mem_cons.mpr ⟨above.trans start.ge, fun region member => ?_⟩
      rw [endFrom, ← next] at fits
      have behind := ih fits region member
      rw [next] at behind
      omega

/-- Every array ends where a later one begins, or before. -/
theorem ordered_cursorsFrom (cursor : Usize w)
    (fits : endFrom types cap.toNat cursor.toNat fields < 2 ^ w) :
    (arrays types cap fields (cursorsFrom types cap cursor fields)).Pairwise
      fun first second => first.stop ≤ second.start := by
  induction fields generalizing cursor with
  | nil => exact .nil
  | cons field rest ih =>
      obtain ⟨start, next⟩ := toNat_advance fits
      rw [endFrom, ← next] at fits
      refine List.pairwise_cons.mpr ⟨fun region member => ?_, ih _ fits⟩
      have behind := le_start_arrays fits region member
      rw [next, ← start] at behind
      exact behind

/-- **The arrays of the pushes.** In a buffer at a multiple of its alignment, and without
overflow, a push writes the fields to disjoint aligned arrays in their order. -/
theorem placed_laidOut {name : String} {answer : Request w → Option (Usize w)}
    {later : SoaState w} {effects : List (Effect w)}
    (pushed : (derive name fields).push types answer state = some (later, effects) ∨
      (derive name fields).tryPush types answer state = some (later, effects))
    (divides : ((derive name fields).bufAlign types).toNat ∣ base.toNat)
    (fits : endOffset types state.cap.toNat fields < 2 ^ w) :
    LaidOut types state.cap base fields (placed effects) := by
  have ordered := ordered_cursorsFrom 0 fits
  rw [placed_push pushed]
  refine ⟨map_fst_cursorsFrom _ _ _ _, ordered, ordered.imp Region.disjoint_of_le, ?_⟩
  exact aligned_cursorsFrom fun field member => (align_dvd_bufAlign name member).trans divides

/-- Two arrays of sixteen words. -/
theorem words_laidOut :
    ∃ later effects, (derive "Pair" [⟨"x", "u32"⟩, ⟨"y", "u32"⟩]).push wordTypes (fun _ => none)
        ⟨0, 16, 0x1000⟩ = some (later, effects) ∧
      LaidOut wordTypes 16 0x1000 [⟨"x", "u32"⟩, ⟨"y", "u32"⟩] (placed effects) :=
  ⟨_, _, rfl, placed_laidOut (.inl (Eq.refl ((derive "Pair" [⟨"x", "u32"⟩, ⟨"y", "u32"⟩]).push
    wordTypes (fun _ => none) ⟨0, 16, 0x1000⟩))) (by decide) (by decide)⟩

end Soa

end Stdx
