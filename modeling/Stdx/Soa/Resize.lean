import Stdx.Soa.RequestSize

/-! # Arrays that move to a new buffer

`resize` copies every array to its place in the layout for the new capacity, but the
cursor of the old buffer never leaves the start, so every copy reads there. The arrays
arrive exactly when each of them begins with the bytes at the start of the old buffer,
whatever they hold only if at most one field has a size (`Stdx.Soa.resize_moves_iff`).
-/

namespace Stdx

namespace Soa

open Foundation Rust

variable {w : Nat}

/-- What an effect of `resize` does to memory, from the buffer at `ptr` to the one at
`newPtr`; the bytes of a value that is written are not modelled. -/
def Effect.apply (ptr newPtr : Usize w) (memory : Memory w) : Effect w → Memory w
  | .copy source target bytes => copyNonoverlapping memory (ptr + source) (newPtr + target) bytes
  | .write _ _ => memory

/-- The memory after some effects. -/
def applyAll (ptr newPtr : Usize w) (memory : Memory w) (effects : List (Effect w)) : Memory w :=
  effects.foldl (Effect.apply ptr newPtr) memory

/-- No byte of the old buffer is in the new one. -/
def Fresh (types : Types w) (state : SoaState w) (newPtr newCap : Usize w)
    (fields : List Field) : Prop :=
  ∀ offset < endOffset types state.cap.toNat fields,
    endOffset types newCap.toNat fields ≤ (state.ptr + BitVec.ofNat w offset - newPtr).toNat

/-- The first `len` elements of every array have the same bytes in the old and in the
new layout. -/
def ArraysMoved (types : Types w) (state : SoaState w) (newPtr newCap : Usize w)
    (fields : List Field) (memory after : Memory w) : Prop :=
  ∀ before field rest, fields = before ++ field :: rest →
    ∀ byte < state.len.toNat * (types.size field.ty).toNat,
      after (newPtr + BitVec.ofNat w (startOf types newCap.toNat before field + byte)) =
        memory (state.ptr + BitVec.ofNat w (startOf types state.cap.toNat before field + byte))

/-- The first `len` elements of every array have the bytes at the start of the buffer. -/
def ArraysAlike (types : Types w) (state : SoaState w) (fields : List Field)
    (memory : Memory w) : Prop :=
  ∀ before field rest, fields = before ++ field :: rest →
    ∀ byte < state.len.toNat * (types.size field.ty).toNat,
      memory (state.ptr + BitVec.ofNat w (startOf types state.cap.toNat before field + byte)) =
        memory (state.ptr + BitVec.ofNat w byte)

/-- Of any two fields one has no size. -/
def OneSized (types : Types w) (fields : List Field) : Prop :=
  fields.Pairwise fun first second =>
    (types.size first.ty).toNat = 0 ∨ (types.size second.ty).toNat = 0

variable {types : Types w} {state : SoaState w} {newPtr newCap : Usize w}
  {memory : Memory w} {field : Field} {fields before rest : List Field}

/-! ## The copies -/

/-- The copies of `resize`: all from the start of the old buffer. -/
def copiesFrom (types : Types w) (len newCap : Usize w) : Usize w → List Field → List (Effect w)
  | _, [] => []
  | cursor, field :: rest =>
      .copy 0 (maskUp cursor (types.align field.ty)) (len * types.size field.ty) ::
        copiesFrom types len newCap
          (maskUp cursor (types.align field.ty) + newCap * types.size field.ty) rest

theorem maskUp_zero {align : Usize w} (power : align.toNat.isPowerOfTwo) :
    maskUp 0 align = 0 := by
  rw [maskUp_eq_iff power, BitVec.sub_self]
  exact ⟨dvd_zero _, Nat.pos_of_isPowerOfTwo power⟩

/-- The cursor of the old buffer stays where it is. -/
theorem execute_resizeFields {cursors : Cursor → Usize w} (still : cursors .oldCursor = 0)
    (fields : List Field) :
    execute types state newCap cursors (fields.flatMap resizeField) =
      copiesFrom types state.len newCap (cursors .cursor) fields := by
  induction fields generalizing cursors with
  | nil => rfl
  | cons field rest ih =>
      have start : alignUp (cursors .oldCursor) (types.align field.ty) = 0 := by
        rw [still, alignUp_eq_maskUp]
        exact maskUp_zero (types.power field.ty)
      rw [List.flatMap_cons, resizeField]
      simp only [List.cons_append, List.nil_append, execute, Statement.effects, Statement.next,
        start]
      rw [ih (by simp [Function.update])]
      simp [copiesFrom, alignUp_eq_maskUp, Operand.value, Function.update]

/-- What `resize` does. -/
theorem resize_eq_copies (types : Types w) (state : SoaState w) (newCap : Usize w)
    (name : String) (fields : List Field) :
    (derive name fields).resize types state newCap =
      copiesFrom types state.len newCap 0 fields := by
  have body : (derive name fields).resizeBody = fields.flatMap resizeField :=
    resizeBody_addField .start fields
  rw [Generated.resize, body]
  exact execute_resizeFields rfl fields

/-- A copy into a buffer writes the bytes of its span, counted from the buffer's start. -/
theorem copy_eq (ptr newPtr target bytes address : Usize w)
    (fits : target.toNat + bytes.toNat ≤ 2 ^ w) :
    copyNonoverlapping memory ptr (newPtr + target) bytes address =
      if target.toNat ≤ (address - newPtr).toNat ∧
          (address - newPtr).toNat < target.toNat + bytes.toNat then
        memory (ptr + (address - newPtr - target))
      else
        memory address := by
  have shift : address - (newPtr + target) = address - newPtr - target := by
    rw [sub_sub]
  have below := (address - newPtr).isLt
  have span : address - newPtr - target < bytes ↔ target.toNat ≤ (address - newPtr).toNat ∧
      (address - newPtr).toNat < target.toNat + bytes.toNat := by
    rw [BitVec.lt_def, BitVec.toNat_sub]
    by_cases behind : target.toNat ≤ (address - newPtr).toNat
    · have wraps : 2 ^ w - target.toNat + (address - newPtr).toNat =
          (address - newPtr).toNat - target.toNat + 2 ^ w := by omega
      rw [wraps, Nat.add_mod_right, Nat.mod_eq_of_lt (by omega)]
      omega
    · rw [Nat.mod_eq_of_lt (by omega)]
      omega
  unfold copyNonoverlapping
  rw [shift]
  exact if_congr span rfl rfl

theorem toNat_add_sub (base : Usize w) {offset : Nat} (small : offset < 2 ^ w) :
    (base + BitVec.ofNat w offset - base).toNat = offset := by
  rw [add_sub_cancel_left, BitVec.toNat_ofNat, Nat.mod_eq_of_lt small]

/-- Outside its span a copy leaves the memory as it is. -/
theorem copy_outside {ptr target bytes address : Usize w}
    (fits : target.toNat + bytes.toNat ≤ 2 ^ w)
    (outside : (address - newPtr).toNat < target.toNat ∨
      target.toNat + bytes.toNat ≤ (address - newPtr).toNat) :
    copyNonoverlapping memory ptr (newPtr + target) bytes address = memory address := by
  rw [copy_eq ptr newPtr target bytes address fits, if_neg (by omega)]

/-- Inside its span a copy has the bytes of the source. -/
theorem copy_inside {ptr target bytes : Usize w} {byte : Nat}
    (fits : target.toNat + bytes.toNat ≤ 2 ^ w) (inside : byte < bytes.toNat) :
    copyNonoverlapping memory ptr (newPtr + target) bytes
        (newPtr + BitVec.ofNat w (target.toNat + byte)) = memory (ptr + BitVec.ofNat w byte) := by
  have place := toNat_add_sub newPtr (show target.toNat + byte < 2 ^ w by omega)
  have source : newPtr + BitVec.ofNat w (target.toNat + byte) - newPtr - target =
      BitVec.ofNat w byte := by
    rw [add_sub_cancel_left, BitVec.ofNat_add, BitVec.ofNat_toNat, BitVec.setWidth_eq,
      add_sub_cancel_left]
  rw [copy_eq ptr newPtr target bytes _ fits, place, if_pos (by omega), source]

/-- A copy is as long as the elements, and ends before the cursor behind its array. -/
theorem toNat_copy {cursor : Usize w} (few : state.len ≤ newCap)
    (fits : endFrom types newCap.toNat cursor.toNat (field :: rest) < 2 ^ w) :
    (state.len * types.size field.ty).toNat =
        state.len.toNat * (types.size field.ty).toNat ∧
      (maskUp cursor (types.align field.ty)).toNat +
          (state.len * types.size field.ty).toNat ≤
        (maskUp cursor (types.align field.ty) + newCap * types.size field.ty).toNat := by
  have room : state.len.toNat * (types.size field.ty).toNat ≤
      newCap.toNat * (types.size field.ty).toNat :=
    Nat.mul_le_mul_right _ (BitVec.le_def.mp few)
  obtain ⟨start, next⟩ := toNat_advance fits
  have inside := le_endFrom types newCap.toNat
    (Foundation.alignUp cursor.toNat (types.align field.ty).toNat +
      newCap.toNat * (types.size field.ty).toNat) rest
  rw [endFrom] at fits
  have bytes : (state.len * types.size field.ty).toNat =
      state.len.toNat * (types.size field.ty).toNat := by
    rw [BitVec.toNat_mul, Nat.mod_eq_of_lt (by omega)]
  refine ⟨bytes, ?_⟩
  rw [start, next, bytes]
  omega

/-- Outside the arrays that are copied the memory stays. -/
theorem applyAll_outside {cursor address : Usize w} (few : state.len ≤ newCap)
    (fits : endFrom types newCap.toNat cursor.toNat fields < 2 ^ w)
    (outside : (address - newPtr).toNat < cursor.toNat ∨
      endFrom types newCap.toNat cursor.toNat fields ≤ (address - newPtr).toNat) :
    applyAll state.ptr newPtr memory (copiesFrom types state.len newCap cursor fields) address =
      memory address := by
  induction fields generalizing cursor memory with
  | nil => rfl
  | cons field rest ih =>
      obtain ⟨_, ends⟩ := toNat_copy few fits
      obtain ⟨start, next⟩ := toNat_advance fits
      have above := le_alignUp cursor.toNat (align_pos types field.ty)
      rw [endFrom, ← next] at fits outside
      have later := le_endFrom types newCap.toNat
        (maskUp cursor (types.align field.ty) + newCap * types.size field.ty).toNat rest
      have first : copyNonoverlapping memory (state.ptr + 0)
          (newPtr + maskUp cursor (types.align field.ty)) (state.len * types.size field.ty)
            address = memory address :=
        copy_outside (by omega) (by omega)
      rw [copiesFrom]
      refine (ih fits ?_).trans first
      rcases outside with before | behind
      · exact .inl (by omega)
      · exact .inr behind

/-- Every array of the new buffer begins with the bytes at the start of the old one. -/
theorem applyAll_array (cursor : Usize w) {reach byte : Nat} (few : state.len ≤ newCap)
    (fits : endFrom types newCap.toNat cursor.toNat fields < 2 ^ w)
    (apart : ∀ offset < reach, endFrom types newCap.toNat cursor.toNat fields ≤
      (state.ptr + BitVec.ofNat w offset - newPtr).toNat)
    (short : byte < reach) (split : fields = before ++ field :: rest)
    (inside : byte < state.len.toNat * (types.size field.ty).toNat) :
    applyAll state.ptr newPtr memory (copiesFrom types state.len newCap cursor fields)
        (newPtr + BitVec.ofNat w (Foundation.alignUp
          (endFrom types newCap.toNat cursor.toNat before) (types.align field.ty).toNat + byte)) =
      memory (state.ptr + BitVec.ofNat w byte) := by
  induction before generalizing fields cursor memory with
  | nil =>
      subst split
      obtain ⟨bytes, ends⟩ := toNat_copy few fits
      obtain ⟨start, next⟩ := toNat_advance fits
      have later := le_endFrom types newCap.toNat
        (maskUp cursor (types.align field.ty) + newCap * types.size field.ty).toNat rest
      rw [List.nil_append, endFrom, ← next] at fits
      rw [endFrom, ← start]
      have first : copyNonoverlapping memory (state.ptr + 0)
          (newPtr + maskUp cursor (types.align field.ty)) (state.len * types.size field.ty)
            (newPtr + BitVec.ofNat w ((maskUp cursor (types.align field.ty)).toNat + byte)) =
              memory (state.ptr + BitVec.ofNat w byte) := by
        rw [add_zero]
        exact copy_inside (by omega) (by omega)
      rw [List.nil_append, copiesFrom]
      refine (applyAll_outside few fits (.inl ?_)).trans first
      rw [toNat_add_sub newPtr (by omega)]
      omega
  | cons head before ih =>
      subst split
      obtain ⟨_, ends⟩ := toNat_copy few fits
      obtain ⟨start, next⟩ := toNat_advance fits
      rw [List.cons_append, endFrom, ← next] at fits apart
      have later := le_endFrom types newCap.toNat
        (maskUp cursor (types.align head.ty) + newCap * types.size head.ty).toNat
          (before ++ field :: rest)
      have old := apart byte short
      have first : copyNonoverlapping memory (state.ptr + 0)
          (newPtr + maskUp cursor (types.align head.ty)) (state.len * types.size head.ty)
            (state.ptr + BitVec.ofNat w byte) = memory (state.ptr + BitVec.ofNat w byte) :=
        copy_outside (by omega) (.inr (by omega))
      rw [List.cons_append, copiesFrom, endFrom, ← next]
      exact (ih _ fits apart rfl).trans first

/-! ## The arrays -/

/-- The first elements of an array that is held lie in the old buffer. -/
theorem lt_endOffset {byte : Nat} (held : state.len ≤ state.cap)
    (split : fields = before ++ field :: rest)
    (inside : byte < state.len.toNat * (types.size field.ty).toNat) :
    startOf types state.cap.toNat before field + byte <
      endOffset types state.cap.toNat fields := by
  have room := Nat.mul_le_mul_right (types.size field.ty).toNat (BitVec.le_def.mp held)
  have ends := startOf_add_le types state.cap.toNat before field rest
  rw [← split] at ends
  omega

/-- After `resize` every array of the new buffer begins with the bytes at the start of
the old one. -/
theorem resized_array {name : String} {byte : Nat} (held : state.len ≤ state.cap)
    (grows : state.cap < newCap) (fresh : Fresh types state newPtr newCap fields)
    (split : fields = before ++ field :: rest)
    (inside : byte < state.len.toNat * (types.size field.ty).toNat) :
    applyAll state.ptr newPtr memory ((derive name fields).resize types state newCap)
        (newPtr + BitVec.ofNat w (startOf types newCap.toNat before field + byte)) =
      memory (state.ptr + BitVec.ofNat w byte) := by
  have place := lt_endOffset held split inside
  have short : byte < endOffset types state.cap.toNat fields :=
    lt_of_le_of_lt (Nat.le_add_left byte _) place
  have fits : endOffset types newCap.toNat fields < 2 ^ w :=
    lt_of_le_of_lt (fresh byte short) (state.ptr + BitVec.ofNat w byte - newPtr).isLt
  have few : state.len ≤ newCap :=
    BitVec.le_def.mpr ((BitVec.le_def.mp held).trans (BitVec.lt_def.mp grows).le)
  rw [resize_eq_copies]
  exact applyAll_array 0 few fits fresh short split inside

/-- So the arrays arrive when all of them were alike. -/
theorem arraysMoved_iff {name : String} (held : state.len ≤ state.cap)
    (grows : state.cap < newCap) (fresh : Fresh types state newPtr newCap fields) :
    ArraysMoved types state newPtr newCap fields memory
        (applyAll state.ptr newPtr memory ((derive name fields).resize types state newCap)) ↔
      ArraysAlike types state fields memory := by
  refine forall_congr' fun before => forall_congr' fun field => forall_congr' fun rest =>
    forall_congr' fun split => forall_congr' fun byte => forall_congr' fun inside => ?_
  rw [resized_array held grows fresh split inside]
  exact eq_comm

/-! ## All contents -/

/-- A field with a size has none before it. -/
theorem oneSized_iff :
    OneSized types fields ↔ ∀ before field rest, fields = before ++ field :: rest →
      elementSize types before = 0 ∨ (types.size field.ty).toNat = 0 := by
  constructor
  · rintro pairs before field rest rfl
    have others := (List.pairwise_append.mp pairs).2.2
    by_cases noSize : (types.size field.ty).toNat = 0
    · exact .inr noSize
    · refine .inl (List.sum_eq_zero_iff_forall_eq_nat.mpr fun size member => ?_)
      obtain ⟨other, earlier, rfl⟩ := List.mem_map.mp member
      exact (others other earlier field List.mem_cons_self).resolve_right noSize
  · intro splits
    induction fields with
    | nil => exact .nil
    | cons first fields ih =>
        refine .cons (fun other member => ?_) (ih fun before field rest split => ?_)
        · obtain ⟨before, rest, rfl⟩ := List.append_of_mem member
          rcases splits (first :: before) other rest rfl with none | none
          · rw [elementSize_cons] at none
            exact .inl (Nat.add_eq_zero_iff.mp none).1
          · exact .inr none
        · rcases splits (first :: before) field rest (by rw [split]; rfl) with none | none
          · rw [elementSize_cons] at none
            exact .inl (Nat.add_eq_zero_iff.mp none).2
          · exact .inr none

/-- Behind fields without a size an array begins at the start of the buffer. -/
theorem startOf_eq_zero {cap : Nat} (none : elementSize types before = 0) :
    startOf types cap before field = 0 := by
  have ends : endOffset types cap before = 0 :=
    endOffset_eq_zero_iff.mpr (by rw [none, Nat.mul_zero])
  rw [startOf, ends]
  exact alignUp_of_dvd (align_pos types field.ty) (dvd_zero _)

/-- If the arrays are alike in every buffer, one with a byte begins where the buffer does. -/
theorem startOf_of_alike (held : state.len ≤ state.cap)
    (fits : endOffset types state.cap.toNat fields < 2 ^ w)
    (alike : ∀ memory, ArraysAlike types state fields memory)
    (split : fields = before ++ field :: rest)
    (first : 0 < state.len.toNat * (types.size field.ty).toNat) :
    startOf types state.cap.toNat before field = 0 := by
  -- a memory with one byte at the start of the buffer that is found nowhere else
  have same := alike (fun address => if address = state.ptr then 1 else 0) before field rest
    split 0 first
  dsimp only at same
  rw [Nat.add_zero, BitVec.add_zero, if_pos rfl] at same
  have zero : BitVec.ofNat w (startOf types state.cap.toNat before field) = 0 := by
    by_contra elsewhere
    rw [if_neg fun here => elsewhere (add_eq_left.mp here)] at same
    exact absurd same (by decide)
  have inside := lt_endOffset held split first
  have value := congrArg BitVec.toNat zero
  rw [BitVec.toNat_ofNat, Nat.mod_eq_of_lt (by omega)] at value
  exact value

/-- Arrays are alike in every memory when there are no elements or no two fields have a
size. -/
theorem arraysAlike_iff (held : state.len ≤ state.cap)
    (fits : endOffset types state.cap.toNat fields < 2 ^ w) :
    (∀ memory, ArraysAlike types state fields memory) ↔
      state.len.toNat = 0 ∨ OneSized types fields := by
  constructor
  · intro alike
    by_contra both
    obtain ⟨some, notOne⟩ := not_or.mp both
    refine notOne (oneSized_iff.mpr fun before field rest split => ?_)
    by_contra sized
    obtain ⟨earlier, size⟩ := not_or.mp sized
    have first : 0 < state.len.toNat * (types.size field.ty).toNat :=
      Nat.mul_pos (Nat.pos_of_ne_zero some) (Nat.pos_of_ne_zero size)
    have start := startOf_of_alike held fits alike split first
    have above := le_alignUp (endOffset types state.cap.toNat before) (align_pos types field.ty)
    have ends : endOffset types state.cap.toNat before = 0 := by
      unfold startOf at start
      omega
    have order := BitVec.le_def.mp held
    rcases Nat.mul_eq_zero.mp (endOffset_eq_zero_iff.mp ends) with noRoom | none
    · omega
    · exact earlier none
  · intro either memory before field rest split byte inside
    have start : startOf types state.cap.toNat before field = 0 := by
      rcases either with none | one
      · rw [none, Nat.zero_mul] at inside
        exact absurd inside (Nat.not_lt_zero _)
      · rcases oneSized_iff.mp one before field rest split with none | none
        · exact startOf_eq_zero none
        · rw [none, Nat.mul_zero] at inside
          exact absurd inside (Nat.not_lt_zero _)
    rw [start, Nat.zero_add]

/-- **Arrays that move.** In a fresh buffer the arrays arrive exactly when those of the
old one were alike; whatever the old one holds, when there are no elements or no two
fields have a size. -/
theorem resize_moves_iff (types : Types w) (state : SoaState w) (newPtr newCap : Usize w)
    (name : String) (fields : List Field) (held : state.len ≤ state.cap)
    (grows : state.cap < newCap) (fresh : Fresh types state newPtr newCap fields) :
    (∀ memory, ArraysMoved types state newPtr newCap fields memory
        (applyAll state.ptr newPtr memory ((derive name fields).resize types state newCap)) ↔
      ArraysAlike types state fields memory) ∧
    ((∀ memory, ArraysMoved types state newPtr newCap fields memory
        (applyAll state.ptr newPtr memory ((derive name fields).resize types state newCap))) ↔
      state.len.toNat = 0 ∨ OneSized types fields) := by
  have each := fun memory : Memory w =>
    (arraysMoved_iff held grows fresh : ArraysMoved types state newPtr newCap fields memory
      (applyAll state.ptr newPtr memory ((derive name fields).resize types state newCap)) ↔ _)
  have fits : endOffset types state.cap.toNat fields < 2 ^ w := by
    by_cases empty : endOffset types state.cap.toNat fields = 0
    · rw [empty]
      exact Nat.two_pow_pos w
    · have rooms := endFrom_mono types (BitVec.lt_def.mp grows).le (Nat.le_refl 0) fields
      have inside := (fresh 0 (Nat.pos_of_ne_zero empty)).trans_lt
        (state.ptr + BitVec.ofNat w 0 - newPtr).isLt
      exact lt_of_le_of_lt rooms inside
  exact ⟨each, (forall_congr' each).trans (arraysAlike_iff held fits)⟩

/-- One field of `u32`: its array moves to a buffer behind the old one. -/
theorem one_field_moves :
    (∀ memory, ArraysMoved wordTypes ⟨1, 2, 0x1000⟩ 0x2000 4 [⟨"x", "u32"⟩] memory
        (applyAll 0x1000 0x2000 memory
          ((derive "One" [⟨"x", "u32"⟩]).resize wordTypes ⟨1, 2, 0x1000⟩ 4)) ↔
      ArraysAlike wordTypes ⟨1, 2, 0x1000⟩ [⟨"x", "u32"⟩] memory) ∧
    ((∀ memory, ArraysMoved wordTypes ⟨1, 2, 0x1000⟩ 0x2000 4 [⟨"x", "u32"⟩] memory
        (applyAll 0x1000 0x2000 memory
          ((derive "One" [⟨"x", "u32"⟩]).resize wordTypes ⟨1, 2, 0x1000⟩ 4))) ↔
      (1 : Usize 64).toNat = 0 ∨ OneSized wordTypes [⟨"x", "u32"⟩]) :=
  resize_moves_iff wordTypes ⟨1, 2, 0x1000⟩ 0x2000 4 "One" [⟨"x", "u32"⟩] (by decide) (by decide)
    (by unfold Fresh; decide)

/-- Two fields of `u32`: the second array arrives with the bytes of the first. -/
theorem second_array_lost :
    ¬ ∀ (types : Types 64) (state : SoaState 64) (newPtr newCap : Usize 64) (name : String)
      (fields : List Field), state.len ≤ state.cap → state.cap < newCap →
        Fresh types state newPtr newCap fields → ∀ memory,
          ArraysMoved types state newPtr newCap fields memory (applyAll state.ptr newPtr memory
            ((derive name fields).resize types state newCap)) := by
  intro claim
  have moved := claim wordTypes ⟨1, 2, 0x1000⟩ 0x2000 4 "Pair" [⟨"x", "u32"⟩, ⟨"y", "u32"⟩]
    (by decide) (by decide) (by unfold Fresh; decide)
    (fun address => if address = 0x1008 then 1 else 0) [⟨"x", "u32"⟩] ⟨"y", "u32"⟩ [] rfl 0
    (by decide)
  exact absurd moved (by decide)

end Soa

end Stdx
