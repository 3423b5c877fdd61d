import Stdx.Rust.FieldPieces

/-! # Enum bodies

Between variants `parse_enum_variants` skips token by token, so every identifier of
an explicit discriminant becomes a variant; and it hands the types of a tuple variant
to the parser of named fields. A declared body is read back with its names and its
numbers of fields exactly when no discriminant has an identifier outside the groups
and every payload is read as so many fields as it has
(`Stdx.Rust.parseEnumVariants_iff`).
-/

namespace Stdx

namespace Rust

open Foundation

/-- What follows the name of a variant: nothing or an explicit discriminant, the types
of a tuple, or named fields. -/
inductive Payload
  | unit (discriminant : Option TokenStream)
  | tuple (trailing : Bool) (types : List TokenStream)
  | named (trailing : Bool) (decls : List FieldDecl)

namespace Payload

/-- The tokens of the payload. -/
def tokens : Payload → TokenStream
  | .unit none => []
  | .unit (some discriminant) => .punct '=' :: discriminant
  | .tuple trailing types => [.group .parenthesis (separated trailing types)]
  | .named trailing decls => [.group .brace (renderFields trailing decls)]

/-- The number of fields. -/
def count : Payload → Nat
  | .unit _ => 0
  | .tuple _ types => types.length
  | .named _ decls => decls.length

/-- No discriminant with an identifier outside the groups. -/
def Silent : Payload → Prop
  | .unit (some discriminant) => hasName discriminant = false
  | .unit none | .tuple _ _ | .named _ _ => True

/-- The payload is read as so many fields as it has: a type of a tuple only counts
when it begins like a named field. -/
def Counted : Payload → Prop
  | .unit none => True
  | .unit (some discriminant) => hasName discriminant = false
  | .tuple trailing types => ReadsAs (separated trailing types) types.length
  | .named _ decls => ∀ decl ∈ decls, decl.Single

instance : ∀ payload : Payload, Decidable payload.Counted
  | .unit none => inferInstanceAs (Decidable True)
  | .unit (some _) => inferInstanceAs (Decidable (_ = _))
  | .tuple _ _ => inferInstanceAs (Decidable (ReadsAs _ _))
  | .named _ _ => inferInstanceAs (Decidable (∀ _ ∈ _, _))

end Payload

/-- A declared variant. -/
structure VariantDecl where
  attrs : List TokenStream
  name : String
  payload : Payload

/-- The tokens of a variant. -/
def VariantDecl.tokens (decl : VariantDecl) : TokenStream :=
  attrTokens decl.attrs ++ .ident decl.name :: decl.payload.tokens

/-- The tokens of an enum body. -/
def renderVariants (trailing : Bool) (decls : List VariantDecl) : TokenStream :=
  separated trailing (decls.map VariantDecl.tokens)

/-- The body is read with one variant for each declared one, in order, with its name and
one field for each of its fields. -/
def VariantsReadBack (trailing : Bool) (decls : List VariantDecl) : Prop :=
  ∃ variants, parseEnumVariants (renderVariants trailing decls) = .ok variants ∧
    variants.map (fun variant => (variant.name, variant.fields.length)) =
      decls.map fun decl => (decl.name, decl.payload.count)

variable {tokens rest left : TokenStream} {token : TokenTree} {items : List EnumVariant}

/-! ## Names -/

/-- The text of an identifier. -/
def TokenTree.name? : TokenTree → Option String
  | .ident name => some name
  | .group _ _ | .punct _ | .literal _ => none

/-- The identifiers of a stream, outside the groups. -/
def names (tokens : TokenStream) : List String := tokens.filterMap TokenTree.name?

theorem names_append (first second : TokenStream) :
    names (first ++ second) = names first ++ names second :=
  List.filterMap_append

theorem names_eq_nil_iff : names tokens = [] ↔ hasName tokens = false := by
  induction tokens with
  | nil => exact ⟨fun _ => rfl, fun _ => rfl⟩
  | cons token tokens ih =>
      cases token with
      | ident name =>
          constructor
          · intro none
            cases none
          · intro noName
            cases noName
      | group | punct | literal => exact ih

theorem names_skipComma (tokens : TokenStream) : names (skipComma tokens) = names tokens := by
  fun_cases skipComma tokens with
  | case1 => rfl
  | case2 token rest comma =>
      cases token with
      | ident name => cases comma
      | group | punct | literal => rfl
  | case3 => rfl

/-- A round that reads no identifier skips its token. -/
theorem variantRound_skip (noName : token.isName = false) (rest : TokenStream) :
    variantRound token rest = .ok ([], rest) := by
  cases token with
  | ident name => cases noName
  | group | punct | literal => rfl

/-- An identifier begins a variant with the fields of the group behind it, if it is one
of parentheses or braces. -/
theorem variantRound_ident (name : String) (rest : TokenStream) :
    (∃ delimiter stream after, rest = .group delimiter stream :: after ∧
        variantRound (.ident name) rest =
          (parseStructFields stream).map fun fields => ([⟨name, fields⟩], skipComma after)) ∨
      variantRound (.ident name) rest = .ok ([⟨name, []⟩], skipComma rest) := by
  cases rest with
  | nil => exact .inr rfl
  | cons token rest =>
      cases token with
      | group delimiter stream =>
          cases delimiter with
          | parenthesis | brace => exact .inl ⟨_, stream, rest, rfl, rfl⟩
          | bracket | none => exact .inr rfl
      | ident | punct | literal => exact .inr rfl

/-- Every identifier begins a variant, and what its round takes has no identifier. -/
theorem names_of_round {name : String}
    (step : variantRound (.ident name) rest = .ok (items, left)) :
    items.map EnumVariant.name = [name] ∧ names left = names rest := by
  rcases variantRound_ident name rest with ⟨delimiter, stream, after, rfl, round⟩ | round
  · rw [round] at step
    obtain ⟨fields, _, same⟩ := map_eq_ok.mp step
    cases same
    exact ⟨rfl, names_skipComma after⟩
  · rw [round] at step
    cases step
    exact ⟨rfl, names_skipComma rest⟩

/-- The variants that are read have the names of the stream. -/
theorem names_of_parse {variants : List EnumVariant}
    (parsed : consume variantRound tokens = .ok variants) :
    variants.map EnumVariant.name = names tokens := by
  refine consume_induction variantRound_advances (motive := fun tokens variants =>
    variants.map EnumVariant.name = names tokens) rfl ?_ parsed
  intro token rest items left more step _ ih
  rw [List.map_append, ih]
  cases noName : token.isName with
  | false =>
      rw [variantRound_skip noName] at step
      cases step
      cases token with
      | ident name => cases noName
      | group | punct | literal => rfl
  | true =>
      cases token with
      | ident name =>
          obtain ⟨here, later⟩ := names_of_round step
          rw [here, later]
          rfl
      | group | punct | literal => cases noName

/-! ## Declared variants -/

/-- The fields that are read of a payload. -/
def Payload.read : Payload → Except String (List Field)
  | .unit _ => .ok []
  | .tuple trailing types => parseStructFields (separated trailing types)
  | .named trailing decls => parseStructFields (renderFields trailing decls)

/-- A payload counts when its discriminant is silent and its fields are read. -/
theorem Payload.counted_iff (payload : Payload) :
    payload.Counted ↔ payload.Silent ∧
      ∃ fields, payload.read = .ok fields ∧ fields.length = payload.count := by
  cases payload with
  | unit discriminant =>
      cases discriminant with
      | none => exact ⟨fun _ => ⟨trivial, [], rfl, rfl⟩, fun _ => trivial⟩
      | some discriminant => exact ⟨fun silent => ⟨silent, [], rfl, rfl⟩, And.left⟩
  | tuple trailing types =>
      constructor
      · intro reads
        exact ⟨trivial, (readsAs_iff "field").mpr reads⟩
      · rintro ⟨_, fields⟩
        exact (readsAs_iff "field").mp fields
  | named trailing decls =>
      have fields := (readsAs_iff "field").trans (readsAs_renderFields trailing decls)
      exact ⟨fun single => ⟨trivial, fields.mpr single⟩, fun both => fields.mp both.2⟩

/-- Tokens without an identifier are skipped. -/
theorem consume_silent {front : TokenStream} (silent : hasName front = false)
    (tokens : TokenStream) :
    consume variantRound (front ++ tokens) = consume variantRound tokens := by
  induction front with
  | nil => rfl
  | cons token front ih =>
      rw [hasName, List.any_cons, Bool.or_eq_false_iff] at silent
      rw [List.cons_append, consume_cons variantRound_advances
        (variantRound_skip silent.1 (front ++ tokens)), map_nil_append]
      exact ih silent.2

/-- Where the round of a variant is the parser of its fields, the loop goes on behind it. -/
theorem consume_payload {name : String} {stream : TokenStream}
    (round : variantRound (.ident name) rest =
      (parseStructFields stream).map fun fields => ([⟨name, fields⟩], left)) :
    consume variantRound (.ident name :: rest) =
      (parseStructFields stream).bind fun fields =>
        (consume variantRound left).map ([⟨name, fields⟩] ++ ·) := by
  cases parsed : parseStructFields stream with
  | error error =>
      rw [parsed] at round
      exact consume_cons_error round
  | ok fields =>
      rw [parsed] at round
      exact consume_cons variantRound_advances round

/-- A variant with a silent payload is read in front of what follows the comma. -/
theorem VariantDecl.consume_tokens {decl : VariantDecl} (silent : decl.payload.Silent)
    {comma : TokenStream} (between : comma = [] ∧ rest = [] ∨ comma = [.punct ',']) :
    consume variantRound (decl.tokens ++ comma ++ rest) =
      decl.payload.read.bind fun fields =>
        (consume variantRound rest).map ([⟨decl.name, fields⟩] ++ ·) := by
  obtain ⟨attrs, name, payload⟩ := decl
  have ends : skipComma (comma ++ rest) = rest := by
    rcases between with ⟨rfl, rfl⟩ | rfl <;> rfl
  have quiet : hasName comma = false := by
    rcases between with ⟨rfl, _⟩ | rfl <;> rfl
  rw [VariantDecl.tokens, List.append_assoc, List.append_assoc,
    consume_attrTokens variantRound_advances (fun _ => rfl) (fun _ _ => rfl)]
  cases payload with
  | unit discriminant =>
      cases discriminant with
      | none =>
          have step : variantRound (.ident name) (comma ++ rest) = .ok ([⟨name, []⟩], rest) := by
            rcases between with ⟨rfl, rfl⟩ | rfl <;> rfl
          exact consume_cons variantRound_advances step
      | some discriminant =>
          have step : variantRound (.ident name) (.punct '=' :: (discriminant ++ (comma ++ rest))) =
            .ok ([⟨name, []⟩], .punct '=' :: (discriminant ++ (comma ++ rest))) := rfl
          have skipped : consume variantRound ([.punct '='] ++ (discriminant ++ (comma ++ rest))) =
              consume variantRound rest := by
            rw [consume_silent rfl, consume_silent silent, consume_silent quiet]
          refine (consume_cons variantRound_advances step).trans ?_
          exact congrArg _ skipped
  | tuple trailing types =>
      have step : variantRound (.ident name)
          (.group .parenthesis (separated trailing types) :: (comma ++ rest)) =
            (parseStructFields (separated trailing types)).map fun fields =>
              ([⟨name, fields⟩], skipComma (comma ++ rest)) := rfl
      rw [ends] at step
      exact consume_payload step
  | named trailing decls =>
      have step : variantRound (.ident name)
          (.group .brace (renderFields trailing decls) :: (comma ++ rest)) =
            (parseStructFields (renderFields trailing decls)).map fun fields =>
              ([⟨name, fields⟩], skipComma (comma ++ rest)) := rfl
      rw [ends] at step
      exact consume_payload step

/-! ## Declared bodies -/

theorem names_separated (trailing : Bool) (entries : List TokenStream) :
    names (separated trailing entries) = (entries.map names).flatten := by
  induction entries with
  | nil => rfl
  | cons entry rest ih =>
      have comma : names (if rest.isEmpty && !trailing then [] else [.punct ',']) = [] := by
        split <;> rfl
      rw [separated, names_append, names_append, comma, List.append_nil, ih]
      rfl

theorem names_attrTokens (attrs : List TokenStream) : names (attrTokens attrs) = [] := by
  induction attrs with
  | nil => rfl
  | cons stream attrs ih => exact ih

/-- A declared variant has its name, and others only in its discriminant. -/
theorem VariantDecl.names_length (decl : VariantDecl) :
    1 ≤ (names decl.tokens).length ∧
      ((names decl.tokens).length = 1 ↔ decl.payload.Silent) := by
  obtain ⟨attrs, name, payload⟩ := decl
  have split : (names (VariantDecl.tokens ⟨attrs, name, payload⟩)).length =
      (names payload.tokens).length + 1 := by
    rw [VariantDecl.tokens, names_append, names_attrTokens]
    rfl
  rw [split]
  refine ⟨Nat.le_add_left 1 _, ?_⟩
  rw [Nat.add_eq_right, List.length_eq_zero_iff]
  cases payload with
  | unit discriminant =>
      cases discriminant with
      | none => exact ⟨fun _ => trivial, fun _ => rfl⟩
      | some discriminant => exact names_eq_nil_iff
  | tuple | named => exact ⟨fun _ => trivial, fun _ => rfl⟩

/-- A body that is read back has silent discriminants. -/
theorem VariantsReadBack.silent {trailing : Bool} {decls : List VariantDecl}
    (reads : VariantsReadBack trailing decls) : ∀ decl ∈ decls, decl.payload.Silent := by
  obtain ⟨variants, parsed, same⟩ := reads
  have texts : (decls.map fun decl => names decl.tokens).flatten = decls.map VariantDecl.name := by
    have read := names_of_parse parsed
    rw [renderVariants, names_separated, List.map_map] at read
    have first := congrArg (List.map Prod.fst) same
    rw [List.map_map, List.map_map] at first
    exact read.symm.trans first
  have count := congrArg List.length texts
  rw [List.length_flatten, List.map_map, List.length_map] at count
  intro decl member
  have each := (sum_eq_length_iff fun decl _ => decl.names_length.1).mp count decl member
  exact decl.names_length.2.mp each

/-- Behind an entry comes a comma, or nothing at the end. -/
theorem comma_cases (trailing : Bool) (entries : List TokenStream) :
    (if entries.isEmpty && !trailing then [] else [TokenTree.punct ',']) = [] ∧
        separated trailing entries = [] ∨
      (if entries.isEmpty && !trailing then [] else [TokenTree.punct ',']) =
        [TokenTree.punct ','] := by
  split
  · rename_i last
    rw [List.isEmpty_iff.mp (Bool.and_eq_true_iff.mp last).1]
    exact .inl ⟨rfl, rfl⟩
  · exact .inr rfl

/-- A silent body is read back when the fields of its payloads are. -/
theorem variantsReadBack_iff_of_silent {trailing : Bool} {decls : List VariantDecl}
    (silent : ∀ decl ∈ decls, decl.payload.Silent) :
    VariantsReadBack trailing decls ↔ ∀ decl ∈ decls, decl.payload.Counted := by
  induction decls with
  | nil => exact ⟨fun _ => List.forall_mem_nil _, fun _ => ⟨[], rfl, rfl⟩⟩
  | cons decl decls ih =>
      obtain ⟨here, others⟩ := List.forall_mem_cons.mp silent
      have body := decl.consume_tokens here
        (comma_cases trailing (decls.map VariantDecl.tokens))
      rw [List.forall_mem_cons, ← ih others, decl.payload.counted_iff, VariantsReadBack,
        renderVariants, List.map_cons, separated, parseEnumVariants, body]
      constructor
      · rintro ⟨variants, parsed, same⟩
        obtain ⟨fields, read, later⟩ := bind_eq_ok.mp parsed
        obtain ⟨more, follows, rfl⟩ := map_eq_ok.mp later
        obtain ⟨first, rest⟩ := List.cons.inj same
        exact ⟨⟨here, fields, read, (Prod.mk.inj first).2⟩, more, follows, rest⟩
      · rintro ⟨⟨_, fields, read, length⟩, more, follows, rest⟩
        refine ⟨⟨decl.name, fields⟩ :: more, bind_eq_ok.mpr ⟨fields, read, map_eq_ok.mpr
          ⟨more, follows, rfl⟩⟩, ?_⟩
        rw [List.map_cons, List.map_cons, rest, length]

/-- **Enum bodies.** A declared body is read back exactly when every payload counts. -/
theorem parseEnumVariants_iff (trailing : Bool) (decls : List VariantDecl) :
    VariantsReadBack trailing decls ↔ ∀ decl ∈ decls, decl.payload.Counted := by
  constructor
  · intro reads
    exact (variantsReadBack_iff_of_silent reads.silent).mp reads
  · intro counted
    refine (variantsReadBack_iff_of_silent fun decl member => ?_).mpr counted
    exact (decl.payload.counted_iff.mp (counted decl member)).1

/-- The types of a tuple variant are not accepted. -/
theorem tuple_variant_refused :
    ¬ ∀ (trailing : Bool) (decls : List VariantDecl), VariantsReadBack trailing decls := by
  intro claim
  obtain ⟨variants, parsed, _⟩ := claim false [⟨[], "A", .tuple false [[.ident "u32"]]⟩]
  cases parsed

end Rust

end Stdx
