import Stdx.Foundation.Split
import Stdx.Rust.StructFields

/-! # The grammar of named fields

The streams that `parse_struct_fields` and `parse_fn_args` accept are those of the
grammar `(field ',')* (field | junk*)`, where a field is `junk* identifier ':' type*`,
junk is any token but an identifier, and a type has any tokens but a comma. A stream
has one derivation at most, and the fields are read off it
(`Stdx.Rust.fields_iff_derivation`).
-/

namespace Stdx

namespace Rust

open Foundation

/-- `junk* identifier ':' type*`. -/
structure FieldTokens where
  junk : TokenStream
  name : String
  ty : TokenStream
  junk_plain : ∀ token ∈ junk, token.isName = false
  ty_plain : ∀ token ∈ ty, token.isPunct ',' = false

namespace FieldTokens

/-- The tokens of a field. -/
def tokens (field : FieldTokens) : TokenStream :=
  field.junk ++ .ident field.name :: .punct ':' :: field.ty

/-- What is read for a field: its identifier and the text of its type. -/
def field (field : FieldTokens) : Field := ⟨field.name, trim (textOf field.ty)⟩

end FieldTokens

/-- `field | junk*`. -/
inductive FieldsEnd
  | field (last : FieldTokens)
  | junk (tokens : TokenStream) (plain : ∀ token ∈ tokens, token.isName = false)

namespace FieldsEnd

/-- The tokens behind the last comma of a field. -/
def tokens : FieldsEnd → TokenStream
  | .field last => last.tokens
  | .junk tokens _ => tokens

/-- The field behind the last comma, if there is one. -/
def fields : FieldsEnd → List Field
  | .field last => [last.field]
  | .junk _ _ => []

end FieldsEnd

/-- `(field ',')* (field | junk*)`. -/
structure Derivation where
  closed : List FieldTokens
  last : FieldsEnd

namespace Derivation

/-- The tokens that are derived. -/
def tokens (derivation : Derivation) : TokenStream :=
  derivation.closed.foldr (fun field rest => field.tokens ++ .punct ',' :: rest)
    derivation.last.tokens

/-- The fields of a derivation, in order. -/
def fields (derivation : Derivation) : List Field :=
  derivation.closed.map FieldTokens.field ++ derivation.last.fields

end Derivation

variable {tokens rest left : TokenStream} {token : TokenTree} {what : String}
  {fields items : List Field}

/-! ## Rounds -/

/-- The successful rounds of the parsers of fields. -/
theorem fieldRound_eq_ok :
    fieldRound what token rest = .ok (items, left) ↔
      (token.isName = false ∧ items = [] ∧ left = rest) ∨
        ∃ name after, token = .ident name ∧ rest = .punct ':' :: after ∧
          items = [⟨name, trim (collectType after).1⟩] ∧ left = (collectType after).2 := by
  constructor
  · intro step
    cases token with
    | ident name =>
        unfold fieldRound at step
        split at step
        · rename_i same
          cases same
          split at step
          · rename_i colon
            cases step
            exact .inr ⟨_, _, rfl, by rw [colon], rfl, rfl⟩
          · cases step
        · cases step
        · rename_i noName _
          exact (noName name rfl).elim
    | group | punct | literal =>
        cases step
        exact .inl ⟨rfl, rfl, rfl⟩
  · rintro (⟨noName, rfl, rfl⟩ | ⟨name, after, rfl, rfl, rfl, rfl⟩)
    · cases token with
      | ident name => cases noName
      | group | punct | literal => rfl
    · rfl

/-- Junk is skipped. -/
theorem consume_junk (what : String) {junk : TokenStream}
    (plain : ∀ token ∈ junk, token.isName = false) (tokens : TokenStream) :
    consume (fieldRound what) (junk ++ tokens) = consume (fieldRound what) tokens := by
  induction junk with
  | nil => rfl
  | cons token junk ih =>
      obtain ⟨here, others⟩ := List.forall_mem_cons.mp plain
      have step : fieldRound what token (junk ++ tokens) = .ok ([], junk ++ tokens) :=
        fieldRound_eq_ok.mpr (.inl ⟨here, rfl, rfl⟩)
      rw [List.cons_append, consume_cons (fieldRound_advances what) step, map_nil_append]
      exact ih others

/-- A type ends at its first comma or with the stream. -/
theorem collectType_cases (tokens : TokenStream) :
    (∃ ty left, tokens = ty ++ .punct ',' :: left ∧
        (∀ token ∈ ty, token.isPunct ',' = false) ∧ collectType tokens = (textOf ty, left)) ∨
      ((∀ token ∈ tokens, token.isPunct ',' = false) ∧
        collectType tokens = (textOf tokens, [])) := by
  by_cases plain : ∀ token ∈ tokens, token.isPunct ',' = false
  · exact .inr ⟨plain, collectType_end plain⟩
  · obtain ⟨ty, left, rfl, tyPlain⟩ := exists_first_comma plain
    exact .inl ⟨ty, left, rfl, tyPlain, collectType_comma tyPlain left⟩

/-! ## Derivations are read -/

/-- A field and the comma behind it are read in front of what follows. -/
theorem FieldTokens.consume_comma (what : String) (field : FieldTokens) (rest : TokenStream) :
    consume (fieldRound what) (field.tokens ++ .punct ',' :: rest) =
      (consume (fieldRound what) rest).map ([field.field] ++ ·) := by
  rw [FieldTokens.tokens, List.append_assoc, consume_junk what field.junk_plain, List.cons_append,
    List.cons_append, consume_field, collectType_comma field.ty_plain]
  rfl

/-- What is behind the last comma is read. -/
theorem FieldsEnd.consume_tokens (last : FieldsEnd) :
    consume (fieldRound what) last.tokens = .ok last.fields := by
  cases last with
  | field last =>
      rw [FieldsEnd.tokens, FieldTokens.tokens, consume_junk what last.junk_plain, consume_field,
        collectType_end last.ty_plain]
      rfl
  | junk tokens plain =>
      have skipped := consume_junk what plain []
      rw [List.append_nil] at skipped
      exact skipped

/-- The fields of a derivation are read from its tokens. -/
theorem Derivation.consume_tokens (derivation : Derivation) :
    consume (fieldRound what) derivation.tokens = .ok derivation.fields := by
  obtain ⟨closed, last⟩ := derivation
  induction closed with
  | nil => exact last.consume_tokens
  | cons field closed ih =>
      have step := field.consume_comma what (Derivation.tokens ⟨closed, last⟩)
      rw [ih] at step
      exact step

/-! ## Streams that are read are derived -/

/-- One more token of junk in front. -/
def FieldTokens.skip (token : TokenTree) (noName : token.isName = false) (field : FieldTokens) :
    FieldTokens :=
  { field with
    junk := token :: field.junk
    junk_plain := List.forall_mem_cons.mpr ⟨noName, field.junk_plain⟩ }

/-- One more token of junk in front of what is derived. -/
theorem Derivation.exists_skip (noName : token.isName = false) (derivation : Derivation) :
    ∃ longer : Derivation, longer.tokens = token :: derivation.tokens ∧
      longer.fields = derivation.fields := by
  rcases derivation with ⟨_ | ⟨field, closed⟩, last⟩
  · cases last with
    | field last => exact ⟨⟨[], .field (last.skip token noName)⟩, rfl, rfl⟩
    | junk tokens plain =>
        exact ⟨⟨[], .junk (token :: tokens) (List.forall_mem_cons.mpr ⟨noName, plain⟩)⟩, rfl, rfl⟩
  · exact ⟨⟨field.skip token noName :: closed, last⟩, rfl, rfl⟩

/-- A stream that is read has a derivation of the fields. -/
theorem exists_derivation (parsed : consume (fieldRound what) tokens = .ok fields) :
    ∃ derivation : Derivation, derivation.tokens = tokens ∧ derivation.fields = fields := by
  refine consume_induction (fieldRound_advances what) (motive := fun tokens fields =>
    ∃ derivation : Derivation, derivation.tokens = tokens ∧ derivation.fields = fields)
    ⟨⟨[], .junk [] (List.forall_mem_nil _)⟩, rfl, rfl⟩ ?_ parsed
  rintro token rest items left more step later ⟨derivation, rfl, rfl⟩
  rcases fieldRound_eq_ok.mp step with ⟨noName, rfl, rfl⟩ | ⟨name, after, rfl, rfl, rfl, leaves⟩
  · exact derivation.exists_skip noName
  · rcases collectType_cases after with ⟨ty, next, rfl, plain, collected⟩ | ⟨plain, collected⟩
    · rw [collected] at leaves ⊢
      refine ⟨⟨⟨[], name, ty, List.forall_mem_nil _, plain⟩ ::
        derivation.closed, derivation.last⟩, ?_, rfl⟩
      have rest : derivation.tokens = next := leaves
      rw [← rest]
      rfl
    · rw [collected] at leaves ⊢
      rw [leaves] at later
      -- the stream is used up, so this is the last field
      have done : derivation.fields = [] := (Except.ok.inj later).symm
      rw [done]
      exact ⟨⟨[], .field ⟨[], name, after, List.forall_mem_nil _,
        plain⟩⟩, rfl, rfl⟩

/-! ## Derivations are unique -/

/-- A field is determined by its tokens, up to what follows its type. -/
theorem FieldTokens.eq_of_append {first second : FieldTokens}
    (same : first.tokens ++ rest = second.tokens ++ left) :
    first.junk = second.junk ∧ first.name = second.name ∧
      first.ty ++ rest = second.ty ++ left := by
  simp only [FieldTokens.tokens, List.append_assoc, List.cons_append] at same
  obtain ⟨junk, name, types⟩ :=
    first_unique first.junk_plain second.junk_plain rfl rfl same
  exact ⟨junk, TokenTree.ident.inj name, (List.cons.inj types).2⟩

theorem FieldTokens.ext_parts {first second : FieldTokens} (junk : first.junk = second.junk)
    (name : first.name = second.name) (ty : first.ty = second.ty) : first = second := by
  cases first
  cases second
  cases junk
  cases name
  cases ty
  rfl

/-- A field is not junk. -/
theorem FieldTokens.append_ne {junk : TokenStream}
    (plain : ∀ token ∈ junk, token.isName = false) (field : FieldTokens) (rest : TokenStream) :
    junk ≠ field.tokens ++ rest := by
  rw [FieldTokens.tokens, List.append_assoc]
  exact ne_of_unmarked plain rfl

/-- A field with a comma behind it is not the end. -/
theorem FieldsEnd.tokens_ne (last : FieldsEnd) (field : FieldTokens) (rest : TokenStream) :
    last.tokens ≠ field.tokens ++ .punct ',' :: rest := by
  cases last with
  | junk tokens plain => exact field.append_ne plain _
  | field last =>
      intro same
      rw [FieldsEnd.tokens, ← List.append_nil last.tokens] at same
      have types := (FieldTokens.eq_of_append same).2.2
      rw [List.append_nil] at types
      exact ne_of_unmarked last.ty_plain (by decide) types

theorem FieldsEnd.tokens_injective {first second : FieldsEnd}
    (same : first.tokens = second.tokens) : first = second := by
  cases first with
  | field first =>
      cases second with
      | field second =>
          have parts := FieldTokens.eq_of_append (congrArg (· ++ []) same)
          rw [List.append_nil, List.append_nil] at parts
          rw [FieldTokens.ext_parts parts.1 parts.2.1 parts.2.2]
      | junk tokens plain =>
          rw [FieldsEnd.tokens, ← List.append_nil first.tokens] at same
          exact (first.append_ne plain [] same.symm).elim
  | junk tokens plain =>
      cases second with
      | field second =>
          rw [FieldsEnd.tokens, FieldsEnd.tokens, ← List.append_nil second.tokens] at same
          exact (second.append_ne plain [] same).elim
      | junk others otherPlain =>
          obtain rfl : tokens = others := same
          rfl

/-- A stream has at most one derivation. -/
theorem Derivation.tokens_injective {first second : Derivation}
    (same : first.tokens = second.tokens) : first = second := by
  obtain ⟨closed, last⟩ := first
  obtain ⟨others, otherLast⟩ := second
  induction closed generalizing others with
  | nil =>
      cases others with
      | nil =>
          obtain rfl : last = otherLast := FieldsEnd.tokens_injective same
          rfl
      | cons field others => exact (last.tokens_ne field _ same).elim
  | cons field closed ih =>
      cases others with
      | nil => exact (otherLast.tokens_ne field _ same.symm).elim
      | cons other others =>
          obtain ⟨junk, name, types⟩ := FieldTokens.eq_of_append same
          obtain ⟨ty, _, later⟩ := first_unique field.ty_plain other.ty_plain
            (by decide : (TokenTree.punct ',').isPunct ',' = true) (by decide) types
          have equal := ih others later
          rw [FieldTokens.ext_parts junk name ty, (Derivation.mk.inj equal).1,
            (Derivation.mk.inj equal).2]

/-- A derivation is the one way to read a stream. -/
theorem consume_eq_ok_iff (what : String) :
    consume (fieldRound what) tokens = .ok fields ↔
      ∃ derivation : Derivation, derivation.tokens = tokens ∧ derivation.fields = fields := by
  refine ⟨exists_derivation, ?_⟩
  rintro ⟨derivation, rfl, rfl⟩
  exact derivation.consume_tokens

/-- **The grammar of fields.** Both parsers accept the streams that have a derivation,
with its fields, and no others; a stream has one derivation at most. -/
theorem fields_iff_derivation (tokens : TokenStream) :
    (∀ fields, parseStructFields tokens = .ok fields ↔
        ∃ derivation : Derivation, derivation.tokens = tokens ∧ derivation.fields = fields) ∧
      (∀ fields, parseFnArgs tokens = .ok fields ↔ parseStructFields tokens = .ok fields) ∧
        ((∃ error, parseStructFields tokens = .error error) ↔
          ¬ ∃ derivation : Derivation, derivation.tokens = tokens) ∧
          ∀ first second : Derivation, first.tokens = tokens → second.tokens = tokens →
            first = second := by
  refine ⟨fun fields => consume_eq_ok_iff "field", fun fields => ?_, ⟨?_, ?_⟩, ?_⟩
  · exact (consume_eq_ok_iff "argument").trans (consume_eq_ok_iff "field").symm
  · rintro ⟨error, refused⟩ ⟨derivation, rfl⟩
    have parsed : parseStructFields derivation.tokens = _ := derivation.consume_tokens
    rw [parsed] at refused
    cases refused
  · intro none
    cases parsed : parseStructFields tokens with
    | error error => exact ⟨error, rfl⟩
    | ok fields =>
        obtain ⟨derivation, derives, _⟩ := exists_derivation parsed
        exact absurd ⟨derivation, derives⟩ none
  · intro first second derives same
    exact Derivation.tokens_injective (derives.trans same.symm)

end Rust

end Stdx
