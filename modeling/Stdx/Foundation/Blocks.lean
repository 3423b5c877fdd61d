import Mathlib.Data.List.Infix

/-! # Texts made of blocks

A code writes every symbol as a block of units. An index into a text is a boundary where
the blocks of the first symbols end, and lies inside a block otherwise
(`Foundation.not_isBoundary_iff`). Where the first units of the blocks are marked and no
others are, the unit at an index tells which of the two it is
(`Foundation.Marked.isBoundary_iff`).
-/

namespace Foundation

variable {α β : Type*} {code : α → List β} {isHead : β → Bool} {symbol : α} {symbols : List α}
  {index : Nat}

/-- The blocks of the first symbols end at the index. -/
def IsBoundary (code : α → List β) (symbols : List α) (index : Nat) : Prop :=
  ∃ front, front <+: symbols ∧ (front.flatMap code).length = index

/-- The index is behind the first unit of a block and in front of its end. -/
def IsInside (code : α → List β) (symbols : List α) (index : Nat) : Prop :=
  ∃ before symbol after, symbols = before ++ symbol :: after ∧
    (before.flatMap code).length < index ∧
      index < (before.flatMap code).length + (code symbol).length

/-- Every block begins with a marked unit, and no other unit of it is marked. -/
def Marked (code : α → List β) (isHead : β → Bool) : Prop :=
  ∀ symbol, ∃ first rest, code symbol = first :: rest ∧ isHead first = true ∧
    ∀ unit ∈ rest, isHead unit = false

/-! ## Boundaries and insides -/

theorem isBoundary_zero (code : α → List β) (symbols : List α) : IsBoundary code symbols 0 :=
  ⟨[], List.nil_prefix, rfl⟩

theorem isBoundary_length (code : α → List β) (symbols : List α) :
    IsBoundary code symbols (symbols.flatMap code).length :=
  ⟨symbols, List.prefix_rfl, rfl⟩

theorem IsBoundary.le_length (boundary : IsBoundary code symbols index) :
    index ≤ (symbols.flatMap code).length := by
  obtain ⟨front, ⟨back, rfl⟩, rfl⟩ := boundary
  rw [List.flatMap_append, List.length_append]
  exact Nat.le_add_right _ _

/-- Up to a boundary a text is the text of the first symbols. -/
theorem IsBoundary.take (boundary : IsBoundary code symbols index) :
    ∃ front, front <+: symbols ∧ (front.flatMap code).length = index ∧
      (symbols.flatMap code).take index = front.flatMap code := by
  obtain ⟨front, ⟨back, rfl⟩, rfl⟩ := boundary
  refine ⟨front, List.prefix_append _ _, rfl, ?_⟩
  rw [List.flatMap_append, List.take_left]

theorem not_isInside_zero : ¬ IsInside code symbols 0 := by
  rintro ⟨before, symbol, after, _, above, _⟩
  exact absurd above (Nat.not_lt_zero _)

theorem IsInside.lt_length (inside : IsInside code symbols index) :
    index < (symbols.flatMap code).length := by
  obtain ⟨before, symbol, after, rfl, _, below⟩ := inside
  rw [List.flatMap_append, List.flatMap_cons, List.length_append, List.length_append]
  omega

/-- The boundaries behind the first symbol are those of the others. -/
theorem isBoundary_cons_iff :
    IsBoundary code (symbol :: symbols) index ↔
      index = 0 ∨ (code symbol).length ≤ index ∧
        IsBoundary code symbols (index - (code symbol).length) := by
  constructor
  · rintro ⟨front, prefixed, rfl⟩
    cases front with
    | nil => exact .inl rfl
    | cons first front =>
        obtain ⟨rfl, others⟩ := List.cons_prefix_cons.mp prefixed
        rw [List.flatMap_cons, List.length_append]
        exact .inr ⟨Nat.le_add_right _ _, front, others, (Nat.add_sub_cancel_left _ _).symm⟩
  · rintro (rfl | ⟨behind, front, prefixed, same⟩)
    · exact isBoundary_zero code _
    · refine ⟨symbol :: front, List.cons_prefix_cons.mpr ⟨rfl, prefixed⟩, ?_⟩
      rw [List.flatMap_cons, List.length_append, same]
      exact Nat.add_sub_cancel' behind

/-- An index is inside the first block or behind it inside another one. -/
theorem isInside_cons_iff :
    IsInside code (symbol :: symbols) index ↔
      (0 < index ∧ index < (code symbol).length) ∨
        (code symbol).length ≤ index ∧
          IsInside code symbols (index - (code symbol).length) := by
  constructor
  · rintro ⟨before, other, after, same, above, below⟩
    cases before with
    | nil =>
        obtain ⟨rfl, rfl⟩ := List.cons.inj same
        rw [List.flatMap_nil, List.length_nil, Nat.zero_add] at below
        exact .inl ⟨above, below⟩
    | cons first before =>
        obtain ⟨rfl, rfl⟩ := List.cons.inj same
        rw [List.flatMap_cons, List.length_append] at above below
        exact .inr ⟨by omega, before, other, after, rfl, by omega, by omega⟩
  · rintro (⟨above, below⟩ | ⟨behind, before, other, after, rfl, above, below⟩)
    · refine ⟨[], symbol, symbols, rfl, above, ?_⟩
      rw [List.flatMap_nil, List.length_nil, Nat.zero_add]
      exact below
    · refine ⟨symbol :: before, other, after, rfl, ?_, ?_⟩
      · rw [List.flatMap_cons, List.length_append]
        omega
      · rw [List.flatMap_cons, List.length_append]
        omega

/-- **Boundaries and insides.** An index into a text is no boundary exactly when it is
inside a block. -/
theorem not_isBoundary_iff (within : index ≤ (symbols.flatMap code).length) :
    ¬ IsBoundary code symbols index ↔ IsInside code symbols index := by
  induction symbols generalizing index with
  | nil =>
      obtain rfl : index = 0 := Nat.eq_zero_of_le_zero within
      exact iff_of_false (not_not.mpr (isBoundary_zero code [])) not_isInside_zero
  | cons symbol symbols ih =>
      rw [List.flatMap_cons, List.length_append] at within
      by_cases zero : index = 0
      · subst zero
        exact iff_of_false (not_not.mpr (isBoundary_zero code _)) not_isInside_zero
      · rw [isBoundary_cons_iff, isInside_cons_iff, ← ih (by omega), or_iff_right zero]
        by_cases behind : (code symbol).length ≤ index
        · simp only [behind, true_and, not_lt.mpr behind, and_false, false_or]
        · simp only [behind, false_and, not_false_iff, not_le.mp behind,
            Nat.pos_of_ne_zero zero, and_self, or_false]

/-! ## Marked codes -/

/-- **Boundaries are marked.** Inside a text of a marked code the boundaries are the indices
of the marked units. -/
theorem Marked.isBoundary_iff (marked : Marked code isHead)
    (inside : index < (symbols.flatMap code).length) :
    isHead (symbols.flatMap code)[index] = true ↔ IsBoundary code symbols index := by
  induction symbols generalizing index with
  | nil => exact absurd inside (Nat.not_lt_zero index)
  | cons symbol symbols ih =>
      obtain ⟨first, rest, block, isFirst, others⟩ := marked symbol
      rw [isBoundary_cons_iff]
      simp only [List.flatMap_cons, List.length_append] at inside ⊢
      by_cases behind : (code symbol).length ≤ index
      · have later : index ≠ 0 := by
          rintro rfl
          rw [block] at behind
          exact absurd behind (Nat.not_succ_le_zero _)
        rw [List.getElem_append_right behind, ih (by omega), or_iff_right later,
          and_iff_right behind]
      · rw [List.getElem_append_left (not_le.mp behind),
          or_iff_left fun later => behind later.1]
        simp only [block]
        cases index with
        | zero => exact iff_of_true isFirst rfl
        | succ index =>
            refine iff_of_false ?_ (Nat.succ_ne_zero index)
            rw [List.getElem_cons_succ, others _ (List.getElem_mem _)]
            exact Bool.false_ne_true

end Foundation
