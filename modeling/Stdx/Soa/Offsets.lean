import Mathlib.Data.BitVec
import Mathlib.Tactic.Ring
import Stdx.Soa.Generated

/-! # Where the accessors read

The accessors of a field add up the bytes of `len` elements of the fields before
it; the pushes leave room for `cap` elements and align every array. The two agree
on all fields exactly when the arrays have no room left between them and none of
them needs padding (`Stdx.Soa.offsetsAgree_iff`); for arrays that fit the address
space that means full or without size (`Stdx.Soa.packed_iff_of_fits`).
-/

namespace Stdx

namespace Soa

open Foundation Rust

variable {w : Nat}

/-- The accessors of every field read where the pushes place it. -/
def OffsetsAgree (types : Types w) (state : SoaState w) (code : Generated) : Prop :=
  ∀ answer after effects,
    code.push types answer state = some (after, effects) ∨
      code.tryPush types answer state = some (after, effects) →
    code.sliceOffsets types state FieldMethods.slice = placed effects ∧
      code.sliceOffsets types state FieldMethods.sliceMut = placed effects

/-- The bytes of one element of every field. -/
def elementSize (types : Types w) (fields : List Field) : Nat :=
  (fields.map fun field => (types.size field.ty).toNat).sum

/-- **Packed.** Whatever precedes a field in the arrays of `len` elements is a
multiple of its alignment, and the array before it has no room left; the room may
be short of a multiple of the number of words, by less than the alignment. -/
def Packed (types : Types w) (state : SoaState w) (fields : List Field) : Prop :=
  ∀ before field next after, fields = before ++ field :: next :: after →
    (types.align next.ty).toNat ∣ elementSize types (before ++ [field]) * state.len.toNat ∧
      (types.size field.ty * (state.len - state.cap)).toNat < (types.align next.ty).toNat

variable {types : Types w} {state : SoaState w} {newCap : Usize w}

theorem elementSize_cons (types : Types w) (field : Field) (fields : List Field) :
    elementSize types (field :: fields) =
      (types.size field.ty).toNat + elementSize types fields := rfl

/-- The running sum of the accessors. -/
def offsetsFrom (types : Types w) (len : Usize w) : Usize w → List Field → List (String × Usize w)
  | _, [] => []
  | total, field :: rest =>
      (field.name, total) :: offsetsFrom types len (total + types.size field.ty * len) rest

/-- The aligned cursor of the pushes. -/
def cursorsFrom (types : Types w) (cap : Usize w) : Usize w → List Field → List (String × Usize w)
  | _, [] => []
  | cursor, field :: rest =>
      (field.name, maskUp cursor (types.align field.ty)) :: cursorsFrom types cap
        (maskUp cursor (types.align field.ty) + cap * types.size field.ty) rest

/-! ## The templates -/

/-- The accessors read at the running sum. -/
theorem sliceOffsets_addField (types : Types w) (state : SoaState w)
    {method : FieldMethods → SliceMethod}
    (reads : ∀ offset field, (method (fieldMethods offset field)).offset = offset)
    (templates : Templates) (fields : List Field) :
    (fields.foldl Templates.addField templates).fieldSliceMethods.map (fun methods =>
        (methods.field, (method methods).offset.value (Operand.value types state 0))) =
      templates.fieldSliceMethods.map (fun methods =>
          (methods.field, (method methods).offset.value (Operand.value types state 0))) ++
        offsetsFrom types state.len
          (templates.offsetCalculation.value (Operand.value types state 0)) fields := by
  induction fields generalizing templates with
  | nil => exact (List.append_nil _).symm
  | cons field rest ih =>
      rw [List.foldl_cons, ih, Templates.addField, List.map_append, List.append_assoc,
        Formula.value_append_product, List.map_singleton, reads]
      rfl

/-- A template to which every round appends. -/
theorem foldl_addField {β : Type*} {template : Templates → List β} {emit : Field → List β}
    (round : ∀ templates field,
      template (templates.addField field) = template templates ++ emit field)
    (templates : Templates) (fields : List Field) :
    template (fields.foldl Templates.addField templates) =
      template templates ++ fields.flatMap emit := by
  induction fields generalizing templates with
  | nil => exact (List.append_nil _).symm
  | cons field rest ih =>
      rw [List.foldl_cons, ih, round, List.flatMap_cons, List.append_assoc]

theorem writeFieldsFromValue_addField (templates : Templates) (fields : List Field) :
    (fields.foldl Templates.addField templates).writeFieldsFromValue =
      templates.writeFieldsFromValue ++ fields.flatMap writeField :=
  foldl_addField (fun _ _ => rfl) templates fields

theorem resizeBody_addField (templates : Templates) (fields : List Field) :
    (fields.foldl Templates.addField templates).resizeBody =
      templates.resizeBody ++ fields.flatMap resizeField :=
  foldl_addField (fun _ _ => rfl) templates fields

theorem placed_append (first second : List (Effect w)) :
    placed (first ++ second) = placed first ++ placed second :=
  List.filterMap_append

/-- The writes of a push go to the aligned cursor. -/
theorem placed_writeFields (cursors : Cursor → Usize w) (fields : List Field) :
    placed (execute types state newCap cursors (fields.flatMap writeField)) =
      cursorsFrom types state.cap (cursors .cursor) fields := by
  induction fields generalizing cursors with
  | nil => rfl
  | cons field rest ih =>
      rw [List.flatMap_cons, writeField, List.cons_append, List.cons_append, List.cons_append,
        List.nil_append]
      simp only [execute, Statement.effects, Statement.next, List.nil_append, List.singleton_append]
      rw [placed, List.filterMap_cons, ← placed, ih]
      simp [Effect.placed, cursorsFrom, alignUp_eq_maskUp, Operand.value]

/-- Moving the arrays places no field. -/
theorem placed_resizeFields (cursors : Cursor → Usize w) (fields : List Field) :
    placed (execute types state newCap cursors (fields.flatMap resizeField)) = [] := by
  induction fields generalizing cursors with
  | nil => rfl
  | cons field rest ih =>
      rw [List.flatMap_cons, resizeField]
      exact ih _

/-- Reserving space places no field. -/
theorem placed_tryReserveImpl {name : String} {fields : List Field}
    {answer : Request w → Option (Usize w)} {additional : Usize w} {after : SoaState w}
    {effects : List (Effect w)}
    (reserved : (derive name fields).tryReserveImpl types answer state additional =
      .ok (after, effects)) : placed effects = [] := by
  unfold Generated.tryReserveImpl at reserved
  split at reserved
  · cases reserved
    rfl
  · dsimp only at reserved
    split at reserved
    · cases reserved
      rw [Generated.resize, derive, resizeBody_addField]
      exact placed_resizeFields _ fields
    · cases reserved

theorem placed_reserved {name : String} {fields : List Field}
    {answer : Request w → Option (Usize w)} {after : SoaState w} {effects : List (Effect w)}
    {body : List Statement} (writes : body = fields.flatMap writeField)
    (pushed : (((derive name fields).tryReserveImpl types answer state (state.len + 1)).toOption.map
      fun reserved => (reserved.1, reserved.2 ++ execute types reserved.1 0 (fun _ => 0) body)) =
        some (after, effects)) :
    placed effects = cursorsFrom types state.cap 0 fields := by
  obtain ⟨⟨reserved, moved⟩, found, same⟩ := Option.map_eq_some_iff.mp pushed
  have ok : (derive name fields).tryReserveImpl types answer state (state.len + 1) =
      .ok (reserved, moved) := by
    cases result : (derive name fields).tryReserveImpl types answer state (state.len + 1) with
    | error layout => rw [result] at found; cases found
    | ok out => rw [result] at found; cases found; rfl
  obtain ⟨ptr, rfl⟩ := Generated.tryReserveImpl_state ok
  cases same
  rw [placed_append, placed_tryReserveImpl ok, writes, placed_writeFields]
  rfl

/-- Both pushes place the fields at the aligned cursor. -/
theorem placed_push {name : String} {fields : List Field} {answer : Request w → Option (Usize w)}
    {after : SoaState w} {effects : List (Effect w)}
    (pushed : (derive name fields).push types answer state = some (after, effects) ∨
      (derive name fields).tryPush types answer state = some (after, effects)) :
    placed effects = cursorsFrom types state.cap 0 fields := by
  have writes := writeFieldsFromValue_addField .start fields
  rcases pushed with pushed | pushed
  · exact placed_reserved writes pushed
  · exact placed_reserved writes pushed

/-- An allocator that answers lets a push through. -/
theorem push_isSome (code : Generated) (types : Types w) (state : SoaState w) (ptr : Usize w) :
    (code.push types (fun _ => some ptr) state).isSome = true := by
  unfold Generated.push Generated.reserve Generated.tryReserveImpl
  split
  · rfl
  · rfl

/-- The accessors of a derived type read at the running sum. -/
theorem sliceOffsets_derive (name : String) (fields : List Field)
    {method : FieldMethods → SliceMethod}
    (reads : ∀ offset field, (method (fieldMethods offset field)).offset = offset) :
    (derive name fields).sliceOffsets types state method =
      offsetsFrom types state.len 0 fields := by
  have start : Templates.start.offsetCalculation.value (Operand.value types state 0) = 0 :=
    BitVec.add_zero _
  have methods := sliceOffsets_addField types state reads .start fields
  rw [start] at methods
  exact methods

/-- The accessors of emitted code agree with its pushes when the running sum is the cursor at
each field. -/
theorem offsetsAgree_iff_eq (name : String) (fields : List Field) :
    OffsetsAgree types state (derive name fields) ↔
      offsetsFrom types state.len 0 fields = cursorsFrom types state.cap 0 fields := by
  constructor
  · intro agree
    obtain ⟨⟨after, effects⟩, pushed⟩ :=
      Option.isSome_iff_exists.mp (push_isSome (derive name fields) types state 0)
    have reads := (agree _ after effects (.inl pushed)).1
    rwa [placed_push (.inl pushed), sliceOffsets_derive name fields fun _ _ => rfl] at reads
  · intro equal answer after effects pushed
    rw [placed_push pushed, sliceOffsets_derive name fields fun _ _ => rfl,
      sliceOffsets_derive name fields fun _ _ => rfl]
    exact ⟨equal, equal⟩

/-! ## The sum and the cursor -/

/-- The sum in front of the fields that follow `before`. -/
def sumOf (types : Types w) (len : Usize w) (before : List Field) : Usize w :=
  BitVec.ofNat w (elementSize types before * len.toNat)

theorem sumOf_append (types : Types w) (len : Usize w) (before : List Field) (field : Field) :
    sumOf types len (before ++ [field]) = sumOf types len before + types.size field.ty * len := by
  have size : elementSize types (before ++ [field]) =
      elementSize types before + (types.size field.ty).toNat := by
    rw [elementSize, List.map_append, List.sum_append, List.map_singleton, List.sum_singleton]
    rfl
  have product : BitVec.ofNat w ((types.size field.ty).toNat * len.toNat) =
      types.size field.ty * len := by
    rw [BitVec.ofNat_mul, BitVec.ofNat_toNat, BitVec.ofNat_toNat, BitVec.setWidth_eq,
      BitVec.setWidth_eq]
  rw [sumOf, sumOf, size, Nat.add_mul, BitVec.ofNat_add, product]

/-- The cursor meets the sum at a field that has no padding and no room before it. -/
theorem maskUp_eq_sumOf_iff (types : Types w) (state : SoaState w) (before : List Field)
    (field next : Field) :
    maskUp (sumOf types state.len before + state.cap * types.size field.ty)
        (types.align next.ty) = sumOf types state.len (before ++ [field]) ↔
      (types.align next.ty).toNat ∣ elementSize types (before ++ [field]) * state.len.toNat ∧
        (types.size field.ty * (state.len - state.cap)).toNat < (types.align next.ty).toNat := by
  have distance : sumOf types state.len (before ++ [field]) -
      (sumOf types state.len before + state.cap * types.size field.ty) =
        types.size field.ty * (state.len - state.cap) := by
    rw [sumOf_append]
    ring
  rw [maskUp_eq_iff (types.power next.ty), distance, sumOf, BitVec.toNat_ofNat,
    Nat.dvd_mod_iff (dvd_two_pow (types.power next.ty))]

theorem offsets_eq_cursors_cons {types : Types w} {len cap total cursor : Usize w} {field : Field}
    {rest : List Field} :
    offsetsFrom types len total (field :: rest) = cursorsFrom types cap cursor (field :: rest) ↔
      maskUp cursor (types.align field.ty) = total ∧
        offsetsFrom types len (total + types.size field.ty * len) rest =
          cursorsFrom types cap (total + cap * types.size field.ty) rest := by
  constructor
  · intro equal
    obtain ⟨head, tail⟩ := List.cons.inj equal
    obtain ⟨_, rfl⟩ := Prod.mk.inj head
    exact ⟨rfl, tail⟩
  · rintro ⟨rfl, tail⟩
    exact congrArg _ tail

/-- From a field at which they agree, they agree on as long as the fields are packed. -/
theorem offsets_eq_cursors_iff (types : Types w) (state : SoaState w) (before : List Field)
    (field : Field) (rest : List Field) {cursor : Usize w}
    (here : maskUp cursor (types.align field.ty) = sumOf types state.len before) :
    offsetsFrom types state.len (sumOf types state.len before) (field :: rest) =
        cursorsFrom types state.cap cursor (field :: rest) ↔
      ∀ inner last next after, field :: rest = inner ++ last :: next :: after →
        (types.align next.ty).toNat ∣
            elementSize types (before ++ inner ++ [last]) * state.len.toNat ∧
          (types.size last.ty * (state.len - state.cap)).toNat < (types.align next.ty).toNat := by
  induction rest generalizing before field cursor with
  | nil =>
      constructor
      · intro _ inner last next after split
        have length := congrArg List.length split
        simp only [List.length_append, List.length_cons, List.length_nil] at length
        omega
      · intro _
        exact offsets_eq_cursors_cons.mpr ⟨here, rfl⟩
  | cons second rest ih =>
      rw [offsets_eq_cursors_cons, ← sumOf_append, and_iff_right here]
      constructor
      · intro equal inner last next after split
        have meets := (offsets_eq_cursors_cons.mp equal).1
        cases inner with
        | nil =>
            cases split
            rw [List.append_nil]
            exact (maskUp_eq_sumOf_iff types state before field second).mp meets
        | cons first inner =>
            obtain ⟨rfl, tail⟩ := List.cons.inj split
            have later := (ih (before ++ [field]) second meets).mp equal inner last next after tail
            rwa [List.append_assoc before, List.singleton_append] at later
      · intro packed
        have meets := (maskUp_eq_sumOf_iff types state before field second).mpr (by
          have first := packed [] field second rest rfl
          rwa [List.append_nil] at first)
        refine (ih (before ++ [field]) second meets).mpr fun inner last next after split => ?_
        have later := packed (field :: inner) last next after (congrArg (field :: ·) split)
        rwa [List.append_assoc before, List.singleton_append]

/-- **Where the accessors read.** -/
theorem offsetsAgree_iff (types : Types w) (state : SoaState w) (name : String)
    (fields : List Field) :
    OffsetsAgree types state (derive name fields) ↔ Packed types state fields := by
  rw [offsetsAgree_iff_eq]
  cases fields with
  | nil =>
      refine ⟨fun _ before field next after split => ?_, fun _ => rfl⟩
      have length := congrArg List.length split
      simp only [List.length_append, List.length_cons, List.length_nil] at length
      omega
  | cons field rest =>
      have zero : sumOf types state.len [] = 0 := by
        rw [sumOf, elementSize, List.map_nil, List.sum_nil, Nat.zero_mul]
        rfl
      have start : maskUp 0 (types.align field.ty) = sumOf types state.len [] := by
        rw [zero, maskUp_eq_iff (types.power field.ty), BitVec.sub_self]
        exact ⟨dvd_zero _, Nat.pos_of_isPowerOfTwo (types.power field.ty)⟩
      have agree := offsets_eq_cursors_iff types state [] field rest start
      rw [zero] at agree
      exact agree

/-- An array that fits has no room left when it is full or its elements have no size. -/
theorem room_lt_iff {size len cap align : Usize w} (le : len ≤ cap) (positive : 0 < align.toNat)
    (fits : size.toNat * cap.toNat + align.toNat ≤ 2 ^ w) :
    (size * (len - cap)).toNat < align.toNat ↔ size.toNat = 0 ∨ len = cap := by
  have order := BitVec.le_def.mp le
  have bytes : size.toNat * (cap.toNat - len.toNat) ≤ size.toNat * cap.toNat :=
    Nat.mul_le_mul_left _ (Nat.sub_le _ _)
  have opposite : size * (len - cap) = -(size * (cap - len)) := by ring
  have room : (size * (cap - len)).toNat = size.toNat * (cap.toNat - len.toNat) := by
    rw [BitVec.toNat_mul, BitVec.toNat_sub_of_le le, Nat.mod_eq_of_lt (by omega)]
  rw [opposite, BitVec.toNat_neg, room]
  constructor
  · intro less
    have none : size.toNat * (cap.toNat - len.toNat) = 0 := by
      by_contra some
      rw [Nat.mod_eq_of_lt (by omega)] at less
      omega
    rcases Nat.mul_eq_zero.mp none with noSize | full
    · exact .inl noSize
    · exact .inr (BitVec.eq_of_toNat_eq (by omega))
  · intro full
    have none : size.toNat * (cap.toNat - len.toNat) = 0 := by
      rcases full with noSize | rfl
      · rw [noSize, Nat.zero_mul]
      · rw [Nat.sub_self, Nat.mul_zero]
    rw [none, Nat.sub_zero, Nat.mod_self]
    exact positive

/-- When every array fits, fields are packed when no padding is needed and every
array but the last is full or takes no bytes. -/
theorem packed_iff_of_fits {types : Types w} {state : SoaState w} {fields : List Field}
    (le : state.len ≤ state.cap)
    (fits : ∀ field ∈ fields, ∀ next ∈ fields,
      (types.size field.ty).toNat * state.cap.toNat + (types.align next.ty).toNat ≤ 2 ^ w) :
    Packed types state fields ↔
      ∀ before field next after, fields = before ++ field :: next :: after →
        (types.align next.ty).toNat ∣ elementSize types (before ++ [field]) * state.len.toNat ∧
          ((types.size field.ty).toNat = 0 ∨ state.len = state.cap) := by
  refine forall_congr' fun before => forall_congr' fun field => forall_congr' fun next =>
    forall_congr' fun after => forall_congr' fun split => and_congr_right fun _ => ?_
  subst split
  exact room_lt_iff le (Nat.pos_of_isPowerOfTwo (types.power next.ty))
    (fits field (by simp) next (by simp))

/-- Two arrays of `u32` with one element each: the second is read inside the first. -/
theorem second_array_read_early :
    ¬ ∀ (types : Types 64) (state : SoaState 64) (name : String) (fields : List Field),
      state.len ≤ state.cap → OffsetsAgree types state (derive name fields) := by
  intro claim
  have agree := claim ⟨fun _ => 4, fun _ => 4, fun _ => ⟨2, rfl⟩⟩ ⟨1, 16, 0x1000⟩ "Pair"
    [⟨"x", "u32"⟩, ⟨"y", "u32"⟩] (by decide)
  exact absurd (agree (fun _ => none) _ _ (.inl rfl)).1 (by decide)

end Soa

end Stdx
