import Mathlib.Algebra.BigOperators.Group.List.Basic
import Mathlib.Algebra.Order.Ring.Nat
import Stdx.Rust.FieldGrammar

/-! # Fields piece by piece

Outside the groups a comma always ends what is being read, so the parsers of fields
read the pieces between commas one by one. A piece is a field when its first
identifier has a colon behind it, nothing when it has no identifier, and an error
otherwise (`Stdx.Rust.countOf_consume`).
-/

namespace Stdx

namespace Rust

open Foundation

/-- The pieces between the commas of a stream. -/
def pieces (tokens : TokenStream) : List TokenStream := tokens.splitOnP (TokenTree.isPunct ',')

/-- The piece has an identifier. -/
def hasName (piece : TokenStream) : Bool := piece.any TokenTree.isName

/-- The first identifier of the piece, if it has one, has a colon behind it. -/
def readable : TokenStream → Bool
  | [] => true
  | .ident _ :: rest => rest.head?.any (TokenTree.isPunct ':')
  | _ :: rest => readable rest

/-- Entries separated by commas, with a trailing one or not. -/
def separated (trailing : Bool) : List TokenStream → TokenStream
  | [] => []
  | entry :: rest =>
      entry ++ (if rest.isEmpty && !trailing then [] else [.punct ',']) ++ separated trailing rest

/-- The pieces of a stream are read, as the given number of fields. -/
def ReadsAs (tokens : TokenStream) (count : Nat) : Prop :=
  (∀ piece ∈ pieces tokens, readable piece = true) ∧ (pieces tokens).countP hasName = count

instance (tokens : TokenStream) (count : Nat) : Decidable (ReadsAs tokens count) :=
  inferInstanceAs (Decidable (_ ∧ _))

variable {tokens rest front : TokenStream} {token : TokenTree} {what : String} {count : Nat}

/-! ## Pieces -/

/-- A comma separates the pieces before it from those behind it. -/
theorem pieces_comma (first second : TokenStream) :
    pieces (first ++ .punct ',' :: second) = pieces first ++ pieces second :=
  List.splitOnP_append_cons first second (by decide)

theorem pieces_of_plain (plain : ∀ token ∈ tokens, token.isPunct ',' = false) :
    pieces tokens = [tokens] :=
  List.splitOnP_eq_singleton plain

/-- Tokens without a comma belong to the first piece. -/
theorem pieces_append (plain : ∀ token ∈ front, token.isPunct ',' = false)
    (tokens : TokenStream) :
    pieces (front ++ tokens) = (pieces tokens).modifyHead (front ++ ·) := by
  induction front with
  | nil =>
      rw [List.nil_append]
      cases pieces tokens <;> rfl
  | cons token front ih =>
      obtain ⟨here, others⟩ := List.forall_mem_cons.mp plain
      unfold pieces at ih ⊢
      rw [List.cons_append, List.splitOnP_cons_eq_if_modifyHead, here, ih others]
      cases List.splitOnP (TokenTree.isPunct ',') tokens <;> rfl

theorem pieces_ne_nil (tokens : TokenStream) : pieces tokens ≠ [] :=
  List.splitOnP_ne_nil _ _

/-- A piece without an identifier is read. -/
theorem readable_of_no_name (noName : hasName tokens = false) : readable tokens = true := by
  induction tokens with
  | nil => rfl
  | cons token tokens ih =>
      rw [hasName, List.any_cons, Bool.or_eq_false_iff] at noName
      cases token with
      | ident text => exact absurd noName.1 (by simp [TokenTree.isName])
      | group | punct | literal => exact ih noName.2

/-! ## Reading them -/

/-- The number of the fields that are read. -/
def countOf (result : Except String (List Field)) : Option Nat :=
  match result with
  | .ok fields => some fields.length
  | .error _ => none

theorem countOf_eq_some {result : Except String (List Field)} :
    countOf result = some count ↔ ∃ fields, result = .ok fields ∧ fields.length = count := by
  cases result with
  | error error => simp [countOf]
  | ok fields => simp [countOf]

/-- A name without a colon behind it is not read. -/
theorem fieldRound_error {name : String}
    (noColon : rest.head?.any (TokenTree.isPunct ':') = false) :
    fieldRound what (.ident name) rest =
      .error ("Expected ':' after " ++ what ++ " name '" ++ name ++ "'") := by
  cases rest with
  | nil => rfl
  | cons token rest =>
      cases token with
      | punct p => exact if_neg (of_decide_eq_false noColon)
      | group | ident | literal => rfl

/-- A token is junk, or a name without a colon behind it, or begins a field. -/
theorem begin_cases (token : TokenTree) (rest : TokenStream) :
    token.isName = false ∨
      (∃ name, token = .ident name ∧ rest.head?.any (TokenTree.isPunct ':') = false) ∨
        ∃ name after, token = .ident name ∧ rest = .punct ':' :: after := by
  cases token with
  | group | punct | literal => exact .inl rfl
  | ident name =>
      cases rest with
      | nil => exact .inr (.inl ⟨name, rfl, rfl⟩)
      | cons head rest =>
          cases colon : head.isPunct ':' with
          | false => exact .inr (.inl ⟨name, rfl, colon⟩)
          | true => exact .inr (.inr ⟨name, rest, rfl, by rw [TokenTree.eq_punct colon]⟩)

/-- Fields that are read one after the other add up. -/
theorem countOf_bind (first second : Except String (List Field)) :
    countOf (first.bind fun fields => second.map (fields ++ ·)) =
      (countOf first).bind fun before => (countOf second).map (before + ·) := by
  cases first with
  | error error => rfl
  | ok fields =>
      cases second with
      | error error => rfl
      | ok more => exact congrArg some List.length_append

/-- What is read before a comma and what is read behind it do not depend on each other. -/
theorem consume_comma (first second : TokenStream) :
    consume (fieldRound what) (first ++ .punct ',' :: second) =
      (consume (fieldRound what) first).bind fun fields =>
        (consume (fieldRound what) second).map (fields ++ ·) := by
  induction length : first.length using Nat.strong_induction_on generalizing first with
  | _ size ih =>
      cases first with
      | nil =>
          have step : fieldRound what (.punct ',') second = .ok ([], second) := rfl
          exact consume_cons (fieldRound_advances what) step
      | cons token rest =>
          rw [List.cons_append]
          rcases begin_cases token rest with noName | ⟨name, rfl, noColon⟩ | ⟨name, after, rfl, rfl⟩
          · have skips := consume_junk what (List.forall_mem_singleton.mpr noName)
            have shorter : rest.length < size := by
              rw [← length]
              exact Nat.lt_succ_self _
            refine (skips _).trans ((ih rest.length shorter rest rfl).trans ?_)
            exact congrArg (Except.bind · _) (skips rest).symm
          · have longer : (rest ++ .punct ',' :: second).head?.any (TokenTree.isPunct ':') =
                false := by
              cases rest with
              | nil => rfl
              | cons token rest => exact noColon
            rw [consume_cons_error (fieldRound_error longer),
              consume_cons_error (fieldRound_error noColon)]
            rfl
          · rw [List.cons_append, consume_field, consume_field]
            rcases collectType_cases after with
              ⟨ty, left, rfl, plain, collected⟩ | ⟨plain, collected⟩
            · -- the type ends before, so what is left is shorter
              have shorter : left.length < size := by
                rw [← length]
                simp only [List.length_cons, List.length_append]
                omega
              rw [List.append_assoc, List.cons_append, collectType_comma plain, collected,
                ih left.length shorter left rfl]
              cases consume (fieldRound what) left with
              | error error => rfl
              | ok fields => cases consume (fieldRound what) second <;> rfl
            · rw [collectType_comma plain, collected]
              rfl

/-- A stream without a comma is a field, nothing or an error. -/
theorem countOf_piece {piece : TokenStream} (plain : ∀ token ∈ piece, token.isPunct ',' = false) :
    countOf (consume (fieldRound what) piece) =
      if readable piece then some (if hasName piece then 1 else 0) else none := by
  induction piece with
  | nil => rfl
  | cons token rest ih =>
      obtain ⟨_, others⟩ := List.forall_mem_cons.mp plain
      rcases begin_cases token rest with noName | ⟨name, rfl, noColon⟩ | ⟨name, after, rfl, rfl⟩
      · have skipped := consume_junk what (List.forall_mem_singleton.mpr noName) rest
        have same : readable (token :: rest) = readable rest ∧
            hasName (token :: rest) = hasName rest := by
          cases token with
          | ident name => cases noName
          | group | punct | literal => exact ⟨rfl, rfl⟩
        rw [← List.singleton_append, skipped, List.singleton_append, same.1, same.2]
        exact ih others
      · rw [consume_cons_error (fieldRound_error noColon), readable, noColon]
        rfl
      · rw [consume_field, collectType_end (List.forall_mem_cons.mp others).2]
        rfl

/-- **Fields piece by piece.** -/
theorem countOf_consume (tokens : TokenStream) :
    countOf (consume (fieldRound what) tokens) =
      if (pieces tokens).all readable then some ((pieces tokens).countP hasName) else none := by
  induction length : tokens.length using Nat.strong_induction_on generalizing tokens with
  | _ size ih =>
      by_cases plain : ∀ token ∈ tokens, token.isPunct ',' = false
      · rw [countOf_piece plain, pieces_of_plain plain]
        simp [List.countP_cons]
      · obtain ⟨first, second, rfl, firstPlain⟩ := exists_first_comma plain
        have shorter : second.length < size := by
          rw [← length]
          simp only [List.length_append, List.length_cons]
          omega
        rw [consume_comma, countOf_bind, countOf_piece firstPlain,
          ih second.length shorter second rfl, pieces_comma, pieces_of_plain firstPlain,
          List.singleton_append, List.all_cons, List.countP_cons]
        cases readable first with
        | false => rfl
        | true =>
            cases (pieces second).all readable with
            | false => rfl
            | true => exact congrArg some (Nat.add_comm _ _)

/-- A stream is read as so many fields when its pieces are. -/
theorem readsAs_iff (what : String) :
    (∃ fields, consume (fieldRound what) tokens = .ok fields ∧ fields.length = count) ↔
      ReadsAs tokens count := by
  rw [← countOf_eq_some, countOf_consume, ReadsAs, ← List.all_eq_true]
  cases (pieces tokens).all readable with
  | false => simp
  | true => simp

/-! ## Declared fields -/

theorem renderFields_eq_separated (trailing : Bool) (decls : List FieldDecl) :
    renderFields trailing decls = separated trailing (decls.map FieldDecl.tokens) := by
  induction decls with
  | nil => rfl
  | cons decl decls ih => rw [renderFields, List.map_cons, separated, List.isEmpty_map, ih]

/-- Separated entries are read as the sum of what the entries are read as. -/
theorem readsAs_separated (trailing : Bool) (entries : List TokenStream) :
    ReadsAs (separated trailing entries) count ↔
      (∀ entry ∈ entries, ∀ piece ∈ pieces entry, readable piece = true) ∧
        (entries.map fun entry => (pieces entry).countP hasName).sum = count := by
  induction entries generalizing count with
  | nil =>
      have blank : pieces [] = [[]] :=
        pieces_of_plain (List.forall_mem_nil _)
      rw [separated, ReadsAs, blank]
      refine and_congr ⟨fun _ => List.forall_mem_nil _, fun _ => ?_⟩ Iff.rfl
      exact List.forall_mem_singleton.mpr rfl
  | cons entry rest ih =>
      rw [separated, List.map_cons, List.sum_cons, List.forall_mem_cons]
      split
      · rename_i last
        obtain ⟨empty, _⟩ := Bool.and_eq_true_iff.mp last
        obtain rfl := List.isEmpty_iff.mp empty
        rw [separated, List.append_nil, List.append_nil, List.map_nil, List.sum_nil, Nat.add_zero]
        exact and_congr_left fun _ =>
          ⟨fun here => ⟨here, List.forall_mem_nil _⟩, And.left⟩
      · rw [List.append_assoc, List.singleton_append, ReadsAs, pieces_comma, List.countP_append,
          List.forall_mem_append]
        constructor
        · rintro ⟨⟨here, later⟩, sum⟩
          obtain ⟨others, total⟩ := ih.mp ⟨later, rfl⟩
          exact ⟨⟨here, others⟩, by rw [total]; exact sum⟩
        · rintro ⟨⟨here, others⟩, sum⟩
          obtain ⟨later, total⟩ := ih.mpr ⟨others, rfl⟩
          exact ⟨⟨here, later⟩, by rw [total]; exact sum⟩

namespace FieldDecl

/-- No identifier stands behind a comma in the type, outside the groups, and the field
has no visibility. -/
def Single (decl : FieldDecl) : Prop :=
  decl.vis = none ∧ ∀ piece ∈ (pieces decl.ty).tail, hasName piece = false

instance (decl : FieldDecl) : Decidable decl.Single :=
  inferInstanceAs (Decidable (_ = none ∧ _))

/-- What stands before the name of a field has no comma. -/
theorem lead_plain (attrs : List TokenStream) (vis : Option (Option TokenStream)) :
    ∀ token ∈ attrTokens attrs ++ visTokens vis, token.isPunct ',' = false := by
  refine List.forall_mem_append.mpr ⟨fun token member => ?_, ?_⟩
  · obtain ⟨stream, _, inside⟩ := List.mem_flatMap.mp member
    simp only [List.mem_cons, List.not_mem_nil, or_false] at inside
    rcases inside with rfl | rfl
    · decide
    · rfl
  · rcases vis with _ | _ | restriction
    · exact List.forall_mem_nil _
    · decide
    · exact List.forall_mem_cons.mpr ⟨rfl, List.forall_mem_cons.mpr
        ⟨rfl, List.forall_mem_nil _⟩⟩

/-- The pieces of a declared field: what stands before its name is in the first one. -/
theorem exists_pieces (decl : FieldDecl) :
    ∃ first, pieces decl.tokens =
      (attrTokens decl.attrs ++ visTokens decl.vis ++
        .ident decl.name :: .punct ':' :: first) :: (pieces decl.ty).tail := by
  obtain ⟨first, others, split⟩ := List.exists_cons_of_ne_nil (pieces_ne_nil decl.ty)
  have name : pieces (.ident decl.name :: .punct ':' :: decl.ty) =
      (.ident decl.name :: .punct ':' :: first) :: others := by
    have front : pieces ([.ident decl.name, .punct ':'] ++ decl.ty) = _ :=
      pieces_append (by simp [TokenTree.isPunct]) decl.ty
    rw [split] at front
    exact front
  refine ⟨first, ?_⟩
  rw [FieldDecl.tokens, pieces_append (lead_plain decl.attrs decl.vis), name, split]
  rfl

/-- A declared field is read as one field at least. -/
theorem one_le_count (decl : FieldDecl) : 1 ≤ (pieces decl.tokens).countP hasName := by
  obtain ⟨first, split⟩ := decl.exists_pieces
  have named : hasName (attrTokens decl.attrs ++ visTokens decl.vis ++
      .ident decl.name :: .punct ':' :: first) = true := by
    simp [hasName, TokenTree.isName]
  rw [split, List.countP_cons_of_pos named]
  exact Nat.le_add_left 1 _

/-- Before the name of a field without a visibility there is no identifier. -/
theorem readable_attrs (attrs : List TokenStream) (tokens : TokenStream) :
    readable (attrTokens attrs ++ tokens) = readable tokens := by
  induction attrs with
  | nil => rfl
  | cons stream attrs ih => exact ih

/-- A declared field is read as one field when it is single. -/
theorem single_iff (decl : FieldDecl) :
    decl.Single ↔ (∀ piece ∈ pieces decl.tokens, readable piece = true) ∧
      (pieces decl.tokens).countP hasName = 1 := by
  obtain ⟨attrs, vis, name, ty⟩ := decl
  obtain ⟨first, split⟩ := exists_pieces ⟨attrs, vis, name, ty⟩
  have named : hasName (attrTokens attrs ++ visTokens vis ++
      .ident name :: .punct ':' :: first) = true := by
    simp [hasName, TokenTree.isName]
  rw [split, List.countP_cons_of_pos named, List.forall_mem_cons, List.append_assoc,
    readable_attrs, FieldDecl.Single]
  cases vis with
  | some restriction =>
      have stops : readable (visTokens (some restriction) ++ .ident name :: .punct ':' :: first) =
          false := by
        cases restriction <;> rfl
      rw [stops]
      simp
  | none =>
      constructor
      · rintro ⟨_, single⟩
        have none : ((pieces ty).tail).countP hasName = 0 :=
          List.countP_eq_zero.mpr fun piece member => Bool.eq_false_iff.mp (single piece member)
        exact ⟨⟨rfl, fun piece member => readable_of_no_name (single piece member)⟩, by rw [none]⟩
      · rintro ⟨_, one⟩
        have none : ((pieces ty).tail).countP hasName = 0 := Nat.succ.inj one
        exact ⟨rfl, fun piece member =>
          Bool.eq_false_iff.mpr (List.countP_eq_zero.mp none piece member)⟩

end FieldDecl

/-- Numbers that are not zero add up to their number when each of them is one. -/
theorem sum_eq_length_iff {α : Type*} {entries : List α} {size : α → Nat}
    (positive : ∀ entry ∈ entries, 1 ≤ size entry) :
    (entries.map size).sum = entries.length ↔ ∀ entry ∈ entries, size entry = 1 := by
  induction entries with
  | nil => exact ⟨fun _ => List.forall_mem_nil _, fun _ => rfl⟩
  | cons entry rest ih =>
      obtain ⟨here, others⟩ := List.forall_mem_cons.mp positive
      have least : rest.length ≤ (rest.map size).sum := by
        have bound := List.length_le_sum_of_one_le (rest.map size) (List.forall_mem_map.mpr others)
        rwa [List.length_map] at bound
      rw [List.map_cons, List.sum_cons, List.length_cons, List.forall_mem_cons, ← ih others]
      omega

/-- Declared fields are read as so many fields when each of them is single. -/
theorem readsAs_renderFields (trailing : Bool) (decls : List FieldDecl) :
    ReadsAs (renderFields trailing decls) decls.length ↔ ∀ decl ∈ decls, decl.Single := by
  have count : (decls.map fun decl => (pieces decl.tokens).countP hasName).sum = decls.length ↔
      ∀ decl ∈ decls, (pieces decl.tokens).countP hasName = 1 :=
    sum_eq_length_iff fun decl _ => decl.one_le_count
  rw [renderFields_eq_separated, readsAs_separated, List.map_map, List.forall_mem_map]
  constructor
  · rintro ⟨reads, sum⟩ decl member
    exact decl.single_iff.mpr ⟨reads decl member, count.mp sum decl member⟩
  · intro single
    exact ⟨fun decl member => (decl.single_iff.mp (single decl member)).1,
      count.mpr fun decl member => (decl.single_iff.mp (single decl member)).2⟩

end Rust

end Stdx
