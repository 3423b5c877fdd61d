import Stdx.Foundation.Split
import Stdx.Rust.Parser

/-! # Named fields

`parse_struct_fields` reads a rendered list of field declarations back exactly
when no type has a comma outside the groups, as between generic arguments, and
no field has a visibility (`Stdx.Rust.parseStructFields_iff`).
-/

namespace Stdx

namespace Rust

open Foundation

/-- A field of a struct as it is declared: the streams of its attributes, `pub`
with its restriction if there is one, its name and the tokens of its type. -/
structure FieldDecl where
  attrs : List TokenStream
  vis : Option (Option TokenStream)
  name : String
  ty : TokenStream

/-- The tokens of a list of attributes. -/
def attrTokens (attrs : List TokenStream) : TokenStream :=
  attrs.flatMap fun stream => [.punct '#', .group .bracket stream]

/-- The tokens of a visibility. -/
def visTokens : Option (Option TokenStream) → TokenStream
  | none => []
  | some none => [.ident "pub"]
  | some (some restriction) => [.ident "pub", .group .parenthesis restriction]

namespace FieldDecl

/-- The tokens of the declaration. -/
def tokens (decl : FieldDecl) : TokenStream :=
  attrTokens decl.attrs ++ visTokens decl.vis ++ .ident decl.name :: .punct ':' :: decl.ty

/-- The field that is declared. -/
def field (decl : FieldDecl) : Field := ⟨decl.name, trim (textOf decl.ty)⟩

/-- The field has no visibility and no comma at the top of its type. -/
def Plain (decl : FieldDecl) : Prop :=
  decl.vis = none ∧ ∀ token ∈ decl.ty, token.isPunct ',' = false

instance (decl : FieldDecl) : Decidable decl.Plain :=
  inferInstanceAs (Decidable (_ = none ∧ _))

end FieldDecl

/-- Field declarations separated by commas, with a trailing one or not. -/
def renderFields (trailing : Bool) : List FieldDecl → TokenStream
  | [] => []
  | decl :: rest =>
      decl.tokens ++ (if rest.isEmpty && !trailing then [] else [.punct ',']) ++
        renderFields trailing rest

variable {tokens rest : TokenStream} {token : TokenTree} {what : String}

/-! ## Texts -/

@[simp] theorem textOf_nil : textOf [] = "" := rfl

@[simp] theorem textOf_cons (token : TokenTree) (tokens : TokenStream) :
    textOf (token :: tokens) = tokenToString token ++ textOf tokens := rfl

/-- The commas of a text. -/
def commas (text : String) : Nat := text.toList.count ','

theorem commas_append (first second : String) :
    commas (first ++ second) = commas first + commas second := by
  rw [commas, String.toList_append, List.count_append]
  rfl

section Trim

variable {visible : Char → Bool}

theorem countP_dropWhile (blank : ∀ char, isWhitespace char = true → visible char = false)
    (chars : List Char) :
    (chars.dropWhile isWhitespace).countP visible = chars.countP visible := by
  conv_rhs => rw [← List.takeWhile_append_dropWhile (p := isWhitespace) (l := chars)]
  have none : (chars.takeWhile isWhitespace).countP visible = 0 := by
    apply List.countP_eq_zero.mpr
    intro char member
    exact Bool.eq_false_iff.mp (blank char (List.mem_takeWhile_imp member))
  rw [List.countP_append, none, Nat.zero_add]

/-- Trimming takes whitespace away only. -/
theorem countP_trim (blank : ∀ char, isWhitespace char = true → visible char = false)
    (text : String) : (trim text).toList.countP visible = text.toList.countP visible := by
  rw [trim, String.toList_ofList, List.countP_reverse, countP_dropWhile blank,
    List.countP_reverse, countP_dropWhile blank]

end Trim

theorem commas_trim (text : String) : commas (trim text) = commas text := by
  have blank : ∀ char, isWhitespace char = true → (char == ',') = false := by
    intro char white
    rw [beq_eq_false_iff_ne]
    rintro rfl
    exact absurd white (by decide)
  rw [commas, commas, List.count_eq_countP, List.count_eq_countP, countP_trim blank]

/-- A text that goes on after a comma differs from what is before it. -/
theorem trim_ne_of_comma (before after : TokenStream) :
    trim (textOf before) ≠ trim (textOf (before ++ .punct ',' :: after)) := by
  have more : commas (textOf before) < commas (textOf (before ++ .punct ',' :: after)) := by
    induction before with
    | nil =>
        rw [List.nil_append, textOf_cons, commas_append]
        exact Nat.lt_add_right _ (by decide)
    | cons token rest ih =>
        rw [List.cons_append, textOf_cons, textOf_cons, commas_append, commas_append]
        exact Nat.add_lt_add_left ih _
  intro same
  have equal := congrArg commas same
  rw [commas_trim, commas_trim] at equal
  omega

/-! ## Rounds -/

/-- A type is read up to the first comma. -/
theorem collectType_comma {ty : TokenStream} (plain : ∀ token ∈ ty, token.isPunct ',' = false)
    (rest : TokenStream) : collectType (ty ++ .punct ',' :: rest) = (textOf ty, rest) := by
  induction ty with
  | nil => rfl
  | cons token ty ih =>
      rw [List.cons_append, collectType, plain token List.mem_cons_self,
        ih fun other member => plain other (List.mem_cons_of_mem _ member)]
      rfl

theorem collectType_end {ty : TokenStream} (plain : ∀ token ∈ ty, token.isPunct ',' = false) :
    collectType ty = (textOf ty, []) := by
  induction ty with
  | nil => rfl
  | cons token ty ih =>
      rw [collectType, plain token List.mem_cons_self,
        ih fun other member => plain other (List.mem_cons_of_mem _ member)]
      rfl

theorem map_nil_append {ε β : Type*} (result : Except ε (List β)) :
    result.map ([] ++ ·) = result := by
  cases result <;> rfl

/-- A loop whose round skips `#` and bracket groups skips attributes. -/
theorem consume_attrTokens {ε β : Type*} {round : Round TokenTree ε β}
    (advances : round.Advances) (hash : ∀ rest, round (.punct '#') rest = .ok ([], rest))
    (group : ∀ stream rest, round (.group .bracket stream) rest = .ok ([], rest))
    (attrs : List TokenStream) (tokens : TokenStream) :
    consume round (attrTokens attrs ++ tokens) = consume round tokens := by
  induction attrs with
  | nil => rfl
  | cons stream attrs ih =>
      change consume _ (.punct '#' :: .group .bracket stream :: (attrTokens attrs ++ tokens)) = _
      rw [consume_cons advances (hash _), map_nil_append, consume_cons advances (group _ _),
        map_nil_append]
      exact ih

/-- Attributes are skipped. -/
theorem consume_attrs (what : String) (attrs : List TokenStream) (tokens : TokenStream) :
    consume (fieldRound what) (attrTokens attrs ++ tokens) = consume (fieldRound what) tokens :=
  consume_attrTokens (fieldRound_advances _) (fun _ => rfl) (fun _ _ => rfl) attrs tokens

/-- A name and a colon begin a field, whose type is then collected. -/
theorem consume_field (what name : String) (rest : TokenStream) :
    consume (fieldRound what) (.ident name :: .punct ':' :: rest) =
      (consume (fieldRound what) (collectType rest).2).map
        ([⟨name, trim (collectType rest).1⟩] ++ ·) :=
  consume_cons (fieldRound_advances what) rfl

/-- Nothing but a colon may follow a name. -/
theorem consume_vis (what name : String) (restriction : Option TokenStream) (rest : TokenStream) :
    consume (fieldRound what) (visTokens (some restriction) ++ .ident name :: rest) =
      .error ("Expected ':' after " ++ what ++ " name '" ++ "pub" ++ "'") := by
  cases restriction <;> exact consume_cons_error rfl

/-- A type with a comma splits at the first one. -/
theorem exists_first_comma {ty : TokenStream} (comma : ¬ ∀ token ∈ ty, token.isPunct ',' = false) :
    ∃ before after, ty = before ++ .punct ',' :: after ∧
      ∀ token ∈ before, token.isPunct ',' = false := by
  obtain ⟨before, token, after, rfl, plain, isComma⟩ := exists_first comma
  exact ⟨before, after, by rw [TokenTree.eq_punct isComma], plain⟩

/-- A plain type is collected up to the next declaration. -/
theorem collectType_render {ty : TokenStream} (plain : ∀ token ∈ ty, token.isPunct ',' = false)
    (trailing : Bool) (decls : List FieldDecl) :
    collectType (ty ++ ((if decls.isEmpty && !trailing then [] else [.punct ',']) ++
      renderFields trailing decls)) = (textOf ty, renderFields trailing decls) := by
  split
  · rename_i last
    obtain ⟨empty, _⟩ := Bool.and_eq_true_iff.mp last
    rw [List.isEmpty_iff.mp empty]
    exact (congrArg collectType (List.append_nil ty)).trans (collectType_end plain)
  · exact collectType_comma plain _

/-- Both parsers of fields read a declared list back exactly when it is plain. -/
theorem consume_render_iff (what : String) (trailing : Bool) (decls : List FieldDecl) :
    consume (fieldRound what) (renderFields trailing decls) = .ok (decls.map FieldDecl.field) ↔
      ∀ decl ∈ decls, decl.Plain := by
  induction decls with
  | nil => exact ⟨fun _ => nofun, fun _ => rfl⟩
  | cons decl decls ih =>
      obtain ⟨attrs, vis, name, ty⟩ := decl
      rw [List.forall_mem_cons, ← ih, renderFields, FieldDecl.tokens, List.append_assoc,
        List.append_assoc, List.append_assoc, consume_attrs]
      cases vis with
      | some restriction =>
          rw [List.cons_append, consume_vis]
          exact ⟨nofun, fun plain => nomatch plain.1.1⟩
      | none =>
          rw [visTokens, List.nil_append, List.cons_append, List.cons_append, consume_field,
            map_eq_ok]
          by_cases plain : ∀ token ∈ ty, token.isPunct ',' = false
          · rw [collectType_render plain]
            constructor
            · rintro ⟨fields, parsed, same⟩
              cases same
              exact ⟨⟨rfl, plain⟩, parsed⟩
            · rintro ⟨_, parsed⟩
              exact ⟨_, parsed, rfl⟩
          · obtain ⟨before, after, rfl, beforePlain⟩ := exists_first_comma plain
            rw [List.append_assoc, List.cons_append, collectType_comma beforePlain]
            constructor
            · rintro ⟨fields, _, same⟩
              have text := congrArg (fun fields => fields.head?.map Field.ty) same
              exact (trim_ne_of_comma before after (by simpa [FieldDecl.field] using text)).elim
            · rintro ⟨plainDecl, _⟩
              exact (plain plainDecl.2).elim

/-- **Fields read back.** -/
theorem parseStructFields_iff (decls : List FieldDecl) (trailing : Bool) :
    parseStructFields (renderFields trailing decls) = .ok (decls.map FieldDecl.field) ↔
      ∀ decl ∈ decls, decl.Plain :=
  consume_render_iff "field" trailing decls

/-- A type with two generic arguments is split at the comma between them. -/
theorem generic_arguments_split :
    ¬ ∀ decls : List FieldDecl, (∀ decl ∈ decls, decl.vis = none) → ∀ trailing : Bool,
      parseStructFields (renderFields trailing decls) = .ok (decls.map FieldDecl.field) := by
  intro claim
  have parsed := claim [⟨[], none, "m", [.ident "HashMap", .punct '<', .ident "u8", .punct ',',
    .ident "u16", .punct '>']⟩] (by simp) false
  exact absurd parsed (by decide)

end Rust

end Stdx
