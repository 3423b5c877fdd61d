import Stdx.Soa.Offsets

/-! # The size that is requested

The new capacity is written in front of a sum that begins with `0`, so it is a factor
of that `0` alone: whatever the capacity is, `try_reserve_impl` requests the bytes of
one element of every field. The arrays for the capacity end inside the requested
block only if there is nothing to place (`Stdx.Soa.request_covers_iff`).
-/

namespace Stdx

namespace Soa

open Foundation Rust

variable {w : Nat}

/-- The end of the arrays of some fields behind a cursor: each begins at a multiple of
its alignment and has room for `cap` elements. -/
def endFrom (types : Types w) (cap : Nat) : Nat → List Field → Nat
  | cursor, [] => cursor
  | cursor, field :: rest =>
      endFrom types cap (Foundation.alignUp cursor (types.align field.ty).toNat +
        cap * (types.size field.ty).toNat) rest

/-- The end of the last array in a buffer, alignment included. -/
def endOffset (types : Types w) (cap : Nat) (fields : List Field) : Nat :=
  endFrom types cap 0 fields

/-- Where the array of a field begins behind the arrays of those before it. -/
def startOf (types : Types w) (cap : Nat) (before : List Field) (field : Field) : Nat :=
  Foundation.alignUp (endOffset types cap before) (types.align field.ty).toNat

/-- The capacity that `try_reserve_impl` chooses. -/
def SoaState.chosenCap (state : SoaState w) : Usize w :=
  if state.cap = 0 then 16 else state.cap * 2

variable {types : Types w} {state : SoaState w} {cap cursor : Nat} {field : Field}
  {fields before after : List Field}

/-! ## Ends and starts -/

theorem align_pos (types : Types w) (ty : String) : 0 < (types.align ty).toNat :=
  Nat.pos_of_isPowerOfTwo (types.power ty)

theorem endFrom_append (types : Types w) (cap cursor : Nat) (before fields : List Field) :
    endFrom types cap cursor (before ++ fields) =
      endFrom types cap (endFrom types cap cursor before) fields := by
  induction before generalizing cursor with
  | nil => rfl
  | cons field before ih => exact ih _

/-- Behind the arrays there are at least the bytes of their elements. -/
theorem add_le_endFrom (types : Types w) (cap cursor : Nat) (fields : List Field) :
    cursor + cap * elementSize types fields ≤ endFrom types cap cursor fields := by
  induction fields generalizing cursor with
  | nil => exact Nat.le_refl cursor
  | cons field rest ih =>
      have above := le_alignUp cursor (align_pos types field.ty)
      have later := ih (Foundation.alignUp cursor (types.align field.ty).toNat +
        cap * (types.size field.ty).toNat)
      rw [elementSize_cons, Nat.mul_add, endFrom]
      omega

theorem le_endFrom (types : Types w) (cap cursor : Nat) (fields : List Field) :
    cursor ≤ endFrom types cap cursor fields :=
  (Nat.le_add_right _ _).trans (add_le_endFrom types cap cursor fields)

/-- Arrays with more room end later. -/
theorem endFrom_mono (types : Types w) {larger later : Nat} (rooms : cap ≤ larger)
    (cursors : cursor ≤ later) (fields : List Field) :
    endFrom types cap cursor fields ≤ endFrom types larger later fields := by
  induction fields generalizing cursor later with
  | nil => exact cursors
  | cons field rest ih =>
      exact ih (Nat.add_le_add (alignUp_mono cursors) (Nat.mul_le_mul_right _ rooms))

/-- The array of a field ends before the end of all of them. -/
theorem startOf_add_le (types : Types w) (cap : Nat) (before : List Field) (field : Field)
    (after : List Field) :
    startOf types cap before field + cap * (types.size field.ty).toNat ≤
      endOffset types cap (before ++ field :: after) := by
  unfold endOffset
  rw [endFrom_append]
  exact le_endFrom types cap _ after

/-- Elements without a size take no room, and no more do arrays without elements. -/
theorem endOffset_eq_zero_iff :
    endOffset types cap fields = 0 ↔ cap * elementSize types fields = 0 := by
  constructor
  · intro none
    have bytes := add_le_endFrom types cap 0 fields
    unfold endOffset at none
    omega
  · intro none
    unfold endOffset
    induction fields with
    | nil => rfl
    | cons field rest ih =>
        rw [elementSize_cons, Nat.mul_add, Nat.add_eq_zero_iff] at none
        have start : Foundation.alignUp 0 (types.align field.ty).toNat = 0 :=
          alignUp_of_dvd (align_pos types field.ty) (dvd_zero _)
        rw [endFrom, start, none.1]
        exact ih none.2

/-! ## The cursors of the pushes -/

/-- The cursor of the pushes behind an array that fits. -/
theorem toNat_advance {cap cursor : Usize w} {rest : List Field}
    (fits : endFrom types cap.toNat cursor.toNat (field :: rest) < 2 ^ w) :
    (maskUp cursor (types.align field.ty)).toNat =
        Foundation.alignUp cursor.toNat (types.align field.ty).toNat ∧
      (maskUp cursor (types.align field.ty) + cap * types.size field.ty).toNat =
        Foundation.alignUp cursor.toNat (types.align field.ty).toNat +
          cap.toNat * (types.size field.ty).toNat := by
  have inside := le_endFrom types cap.toNat
    (Foundation.alignUp cursor.toNat (types.align field.ty).toNat +
      cap.toNat * (types.size field.ty).toNat) rest
  rw [endFrom] at fits
  have start := toNat_maskUp_of_lt cursor (types.power field.ty) (by omega)
  have bytes : (cap * types.size field.ty).toNat = cap.toNat * (types.size field.ty).toNat := by
    rw [BitVec.toNat_mul, Nat.mod_eq_of_lt (by omega)]
  refine ⟨start, ?_⟩
  rw [BitVec.toNat_add, start, bytes, Nat.mod_eq_of_lt (by omega)]

/-- In a buffer that fits, the pushes write a field where its array begins. -/
theorem cursorsFrom_getElem? {cap : Usize w} (cursor : Usize w)
    (fits : endFrom types cap.toNat cursor.toNat (before ++ field :: after) < 2 ^ w) :
    ((cursorsFrom types cap cursor (before ++ field :: after))[before.length]?).map
        (fun entry => (entry.1, entry.2.toNat)) =
      some (field.name, Foundation.alignUp (endFrom types cap.toNat cursor.toNat before)
        (types.align field.ty).toNat) := by
  induction before generalizing cursor with
  | nil => exact congrArg (fun start => some (field.name, start)) (toNat_advance fits).1
  | cons first before ih =>
      have next := (toNat_advance fits).2
      rw [List.cons_append, endFrom, ← next] at fits
      rw [endFrom, ← next]
      exact ih _ fits

/-- **The layout of the pushes.** -/
theorem placed_push_getElem? {name : String} {answer : Request w → Option (Usize w)}
    {later : SoaState w} {effects : List (Effect w)} (split : fields = before ++ field :: after)
    (pushed : (derive name fields).push types answer state = some (later, effects) ∨
      (derive name fields).tryPush types answer state = some (later, effects))
    (fits : endOffset types state.cap.toNat fields < 2 ^ w) :
    ((placed effects)[before.length]?).map (fun entry => (entry.1, entry.2.toNat)) =
      some (field.name, startOf types state.cap.toNat before field) := by
  subst split
  rw [placed_push pushed]
  exact cursorsFrom_getElem? 0 fits

/-! ## The request -/

/-- The capacity is a factor of the `0` in front of the sum. -/
theorem requestSize_value (types : Types w) (state : SoaState w) (newCap : Usize w)
    (templates : Templates) (fields : List Field) :
    ((fields.foldl Templates.addField templates).singleElementSize.scale .newCap).value
        (Operand.value types state newCap) =
      (templates.singleElementSize.scale .newCap).value (Operand.value types state newCap) +
        BitVec.ofNat w (elementSize types fields) := by
  induction fields generalizing templates with
  | nil => exact (BitVec.add_zero _).symm
  | cons field rest ih =>
      have step : ((templates.addField field).singleElementSize.scale .newCap).value
          (Operand.value types state newCap) =
            (templates.singleElementSize.scale .newCap).value (Operand.value types state newCap) +
              types.size field.ty :=
        (templates.singleElementSize.scale .newCap).value_append_plus _ (.sizeOf field.ty)
      rw [List.foldl_cons, ih, step, elementSize_cons, BitVec.ofNat_add, BitVec.ofNat_toNat,
        BitVec.setWidth_eq, BitVec.add_assoc]

/-- The emitted size is that of one element of every field, for every capacity. -/
theorem requestSize_derive (types : Types w) (state : SoaState w) (newCap : Usize w)
    (name : String) (fields : List Field) :
    (derive name fields).requestSize.value (Operand.value types state newCap) =
      BitVec.ofNat w (elementSize types fields) := by
  have start : (Templates.start.singleElementSize.scale .newCap).value
      (Operand.value types state newCap) = 0 := by
    change (0 : Usize w) + newCap * 0 = 0
    rw [mul_zero, add_zero]
  have sum := requestSize_value types state newCap .start fields
  rw [start, zero_add] at sum
  exact sum

/-- What is requested are the bytes of one element of every field. -/
theorem requested_size {name : String} {additional : Usize w}
    {answer : Request w → Option (Usize w)} {layout : LayoutRequest w}
    (asked : (derive name fields).tryReserveImpl types answer state additional = .error layout) :
    layout.size = BitVec.ofNat w (elementSize types fields) := by
  unfold Generated.tryReserveImpl at asked
  split at asked
  · cases asked
  · dsimp only at asked
    split at asked
    · cases asked
    · cases asked
      exact requestSize_derive types state _ name fields

/-- A chosen capacity has room for two elements, unless it is zero. -/
theorem SoaState.two_le_chosenCap (some : state.chosenCap ≠ 0) : 2 ≤ state.chosenCap.toNat := by
  obtain ⟨half, double⟩ : ∃ half : Usize w, state.chosenCap = half * 2 := by
    unfold SoaState.chosenCap
    split
    · exact ⟨8, BitVec.ofNat_mul 8 2⟩
    · exact ⟨state.cap, rfl⟩
  rw [double] at some ⊢
  have positive : (half * 2).toNat ≠ 0 := fun zero => some (BitVec.eq_of_toNat_eq zero)
  have value : (half * 2).toNat = half.toNat * 2 % 2 ^ w := by
    have two : (2 : Usize w).toNat = 2 % 2 ^ w := rfl
    rw [BitVec.toNat_mul, two, Nat.mul_mod_mod]
  rw [value] at positive ⊢
  cases w with
  | zero => exact absurd (Nat.mod_one _) positive
  | succ w =>
      rw [Nat.pow_succ, Nat.mul_mod_mul_right] at positive ⊢
      omega

/-- **The size that is requested.** The arrays for the chosen capacity end inside the
block that an allocator is asked for exactly when no element of any field has a size or
the capacity is zero. -/
theorem request_covers_iff (types : Types w) (state : SoaState w) (name : String)
    (fields : List Field) (additional : Usize w) (layout : LayoutRequest w)
    (asked : (derive name fields).tryReserveImpl types (fun _ => none) state additional =
      .error layout) :
    endOffset types state.chosenCap.toNat fields ≤ layout.size.toNat ↔
      elementSize types fields = 0 ∨ state.chosenCap = 0 := by
  have size := requested_size asked
  constructor
  · intro covers
    by_contra both
    obtain ⟨sized, chosen⟩ := not_or.mp both
    have room := SoaState.two_le_chosenCap chosen
    have bytes := add_le_endFrom types state.chosenCap.toNat 0 fields
    have twice := Nat.mul_le_mul_right (elementSize types fields) room
    have least : layout.size.toNat ≤ elementSize types fields := by
      rw [size, BitVec.toNat_ofNat]
      exact Nat.mod_le _ _
    unfold endOffset at covers
    omega
  · intro none
    have zero : endOffset types state.chosenCap.toNat fields = 0 := by
      refine endOffset_eq_zero_iff.mpr (Nat.mul_eq_zero.mpr ?_)
      rcases none with noSize | noRoom
      · exact .inr noSize
      · exact .inl (by rw [noRoom]; rfl)
    rw [zero]
    exact Nat.zero_le _

/-- Every type with the size and the alignment of `u32`. -/
def wordTypes : Types 64 := ⟨fun _ => 4, fun _ => 4, fun _ => ⟨2, rfl⟩⟩

/-- A marker type without a size. -/
def markerTypes : Types 64 := ⟨fun _ => 0, fun _ => 1, fun _ => ⟨0, rfl⟩⟩

theorem marker_request_covers :
    endOffset markerTypes (16 : Usize 64).toNat [⟨"x", "Marker"⟩] ≤ (0 : Usize 64).toNat :=
  (request_covers_iff markerTypes ⟨0, 0, 0x1000⟩ "Mark" [⟨"x", "Marker"⟩] 1 ⟨0, 1⟩ rfl).mpr
    (.inl rfl)

/-- For 16 elements of `u32` four bytes are requested. -/
theorem word_request_short :
    ¬ ∀ (types : Types 64) (state : SoaState 64) (name : String) (fields : List Field)
      (additional : Usize 64) (layout : LayoutRequest 64),
      (derive name fields).tryReserveImpl types (fun _ => none) state additional = .error layout →
        endOffset types state.chosenCap.toNat fields ≤ layout.size.toNat := by
  intro claim
  have covers := claim wordTypes ⟨0, 0, 0x1000⟩ "One" [⟨"x", "u32"⟩] 1 ⟨4, 4⟩ rfl
  exact absurd covers (by decide)

end Soa

end Stdx
