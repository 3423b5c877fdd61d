import Stdx.Foundation.Consume
import Stdx.Rust.TokenStream

/-! # The parser for type declarations

`parse_type_decls` and the parsers it hands its iterator to. An iterator is the
list of the tokens that are still to come; a function that takes tokens from it
returns what is left. Errors are the texts of the source.
-/

namespace Stdx

namespace Rust

open Foundation

/-- `Field`. -/
structure Field where
  name : String
  ty : String
deriving DecidableEq

/-- `EnumVariant`. -/
structure EnumVariant where
  name : String
  fields : List Field
deriving DecidableEq

/-- `FunctionSig`. -/
structure FunctionSig where
  vis : Option String
  isAsync : Bool
  isConst : Bool
  name : String
  args : List Field
  ret : Option String
deriving DecidableEq

/-- `TypeDecl`. -/
inductive TypeDecl
  | struct (name : String) (fields : List Field)
  | enum (name : String) (variants : List EnumVariant)
  | typeAlias (name : String)
  | function (sig : FunctionSig)
deriving DecidableEq

/-- The tokens of a type up to a comma, which is taken as well, or the end. -/
def collectType : TokenStream → String × TokenStream
  | [] => ("", [])
  | token :: rest =>
      if token.isPunct ',' then
        ("", rest)
      else
        let collected := collectType rest
        (tokenToString token ++ collected.1, collected.2)

/-- The tokens of a return type up to a brace group, a semicolon or the end. -/
def collectReturn : TokenStream → String × TokenStream
  | [] => ("", [])
  | token :: rest =>
      if token.isBrace || token.isPunct ';' then
        ("", token :: rest)
      else
        let collected := collectReturn rest
        (tokenToString token ++ collected.1, collected.2)

/-- The round that `parse_struct_fields` and `parse_fn_args` share; their errors
differ in what they call the name. -/
def fieldRound (what : String) : Round TokenTree String Field
  | .ident name, .punct p :: rest =>
      if p = ':' then
        let collected := collectType rest
        .ok ([⟨name, trim collected.1⟩], collected.2)
      else
        .error ("Expected ':' after " ++ what ++ " name '" ++ name ++ "'")
  | .ident name, _ => .error ("Expected ':' after " ++ what ++ " name '" ++ name ++ "'")
  | _, rest => .ok ([], rest)

/-- `parse_struct_fields`. -/
def parseStructFields (tokens : TokenStream) : Except String (List Field) :=
  consume (fieldRound "field") tokens

/-- `parse_fn_args`. -/
def parseFnArgs (tokens : TokenStream) : Except String (List Field) :=
  consume (fieldRound "argument") tokens

/-- Skip a trailing comma if present. -/
def skipComma : TokenStream → TokenStream
  | [] => []
  | token :: rest => if token.isPunct ',' then rest else token :: rest

/-- The round of `parse_enum_variants`: a tuple or struct variant, or a unit one. -/
def variantRound : Round TokenTree String EnumVariant
  | .ident name, .group .parenthesis stream :: rest
  | .ident name, .group .brace stream :: rest =>
      (parseStructFields stream).map fun fields => ([⟨name, fields⟩], skipComma rest)
  | .ident name, rest => .ok ([⟨name, []⟩], skipComma rest)
  | _, rest => .ok ([], rest)

/-- `parse_enum_variants`. -/
def parseEnumVariants (tokens : TokenStream) : Except String (List EnumVariant) :=
  consume variantRound tokens

/-- The search for the next brace group, and what follows it. -/
def findBrace : TokenStream → Option (TokenStream × TokenStream)
  | [] => none
  | .group .brace stream :: rest => some (stream, rest)
  | _ :: rest => findBrace rest

/-- The identifiers `parse_function_sig` looks for before a name. -/
def isModifier (text : String) : Bool :=
  text = "pub" || text = "async" || text = "const" || text = "fn"

/-- The first loop of `parse_function_sig`: a bounded number of modifiers. -/
def takeModifiers : Nat → TokenStream → List String × TokenStream
  | count + 1, .ident text :: rest =>
      if isModifier text then
        let taken := takeModifiers count rest
        (text :: taken.1, taken.2)
      else
        ([], .ident text :: rest)
  | _, rest => ([], rest)

/-- What the modifiers say. -/
structure Modifiers where
  vis : Option String
  isAsync : Bool
  isConst : Bool
  name : Option String

/-- The second loop of `parse_function_sig`; `fn` takes the name from the input. -/
def readModifiers : Modifiers → List String → TokenStream →
    Except String (Modifiers × TokenStream)
  | modifiers, [], rest => .ok (modifiers, rest)
  | modifiers, text :: texts, rest =>
      if text = "pub" then
        readModifiers { modifiers with vis := some "pub" } texts rest
      else if text = "async" then
        readModifiers { modifiers with isAsync := true } texts rest
      else if text = "const" then
        readModifiers { modifiers with isConst := true } texts rest
      else if text = "fn" then
        match rest with
        | .ident name :: rest => readModifiers { modifiers with name := some name } texts rest
        | _ => .error "Expected function name after 'fn'"
      else
        readModifiers modifiers texts rest

/-- The last loop of `parse_function_sig`: arguments and return type, up to and
including the body or a semicolon. -/
def signature : Nat → List Field → Option String → TokenStream →
    Except String (List Field × Option String × TokenStream)
  | 0, args, ret, tokens => .ok (args, ret, tokens)
  | _ + 1, args, ret, [] => .ok (args, ret, [])
  | fuel + 1, args, ret, token :: rest =>
      match token with
      | .group .parenthesis stream =>
          (parseFnArgs stream).bind fun args => signature fuel args ret rest
      | .group .brace _ => .ok (args, ret, rest)
      | .punct p =>
          if p = '-' then
            match rest with
            | .punct p2 :: rest =>
                if p2 = '>' then
                  let collected := collectReturn rest
                  signature fuel args (some (trim collected.1)) collected.2
                else
                  .error "Expected '->' for function return type"
            | _ => .error "Expected '->' for function return type"
          else if p = ';' then
            .ok (args, ret, rest)
          else
            signature fuel args ret rest
      | _ => signature fuel args ret rest

/-- `parse_function_sig`, given its first token. -/
def parseFunctionSig (firstToken : String) (rest : TokenStream) :
    Except String (FunctionSig × TokenStream) :=
  let taken := takeModifiers 3 rest
  (readModifiers ⟨none, false, false, none⟩ (firstToken :: taken.1) taken.2).bind fun read =>
    match read.1.name with
    | none => .error "Expected function name after 'fn'"
    | some name =>
        (signature read.2.length [] none read.2).map fun (args, ret, left) =>
          (⟨read.1.vis, read.1.isAsync, read.1.isConst, name, args, ret⟩, left)

/-- The round of `parse_type_decls`. -/
def declRound : Round TokenTree String TypeDecl
  | .ident text, rest =>
      if text = "struct" then
        match rest with
        | .ident name :: rest =>
            match findBrace rest with
            | none =>
                .error ("Expected '\x7b' with fields for struct '" ++ name ++ "'")
            | some (stream, rest) =>
                (parseStructFields stream).map fun fields => ([.struct name fields], rest)
        | _ => .error "Expected struct name after 'struct'"
      else if text = "enum" then
        match rest with
        | .ident name :: rest =>
            match findBrace rest with
            | none =>
                .error ("Expected '\x7b' with variants for enum '" ++ name ++ "'")
            | some (stream, rest) =>
                (parseEnumVariants stream).map fun variants => ([.enum name variants], rest)
        | _ => .error "Expected enum name after 'enum'"
      else if text = "type" then
        match rest with
        | .ident name :: rest => .ok ([.typeAlias name], rest)
        | _ => .error "Expected type alias name after 'type'"
      else if isModifier text then
        (parseFunctionSig text rest).map fun (sig, rest) => ([.function sig], rest)
      else
        .ok ([], rest)
  | _, rest => .ok ([], rest)

/-- The token begins a declaration. -/
def opensDecl : TokenTree → Bool
  | .ident text => text = "struct" || text = "enum" || text = "type" || isModifier text
  | .group _ _ | .punct _ | .literal _ => false

/-- `parse_type_decls`. -/
def parseTypeDecls (tokens : TokenStream) : Except String (List TypeDecl) :=
  consume declRound tokens

/-! ## What the parsers leave -/

variable {tokens rest left : TokenStream} {token : TokenTree} {what : String}

theorem collectType_suffix (tokens : TokenStream) : (collectType tokens).2 <:+ tokens := by
  induction tokens with
  | nil => exact List.suffix_refl _
  | cons token rest ih =>
      unfold collectType
      split
      · exact List.suffix_cons _ _
      · exact ih.trans (List.suffix_cons _ _)

theorem collectReturn_suffix (tokens : TokenStream) : (collectReturn tokens).2 <:+ tokens := by
  induction tokens with
  | nil => exact List.suffix_refl _
  | cons token rest ih =>
      unfold collectReturn
      split
      · exact List.suffix_refl _
      · exact ih.trans (List.suffix_cons _ _)

theorem skipComma_suffix (tokens : TokenStream) : skipComma tokens <:+ tokens := by
  fun_cases skipComma tokens with
  | case1 => exact List.suffix_refl _
  | case2 => exact List.suffix_cons _ _
  | case3 => exact List.suffix_refl _

theorem fieldRound_advances (what : String) : (fieldRound what).Advances := by
  intro token rest items left step
  unfold fieldRound at step
  split at step
  · split at step
    · cases step
      exact (collectType_suffix _).trans (List.suffix_cons _ _)
    · cases step
  · cases step
  · cases step
    exact List.suffix_refl _

/-- A successful map has a successful argument. -/
theorem map_eq_ok {ε α β : Type*} {f : α → β} {result : Except ε α} {value : β} :
    result.map f = .ok value ↔ ∃ first, result = .ok first ∧ f first = value := by
  cases result <;> simp [Except.map]

theorem bind_eq_ok {ε α β : Type*} {f : α → Except ε β} {result : Except ε α} {value : β} :
    result.bind f = .ok value ↔ ∃ first, result = .ok first ∧ f first = .ok value := by
  cases result <;> simp [Except.bind]

theorem variantRound_advances : variantRound.Advances := by
  intro token rest items left step
  unfold variantRound at step
  split at step
  · obtain ⟨fields, _, same⟩ := map_eq_ok.mp step
    cases same
    exact (skipComma_suffix _).trans (List.suffix_cons _ _)
  · obtain ⟨fields, _, same⟩ := map_eq_ok.mp step
    cases same
    exact (skipComma_suffix _).trans (List.suffix_cons _ _)
  · cases step
    exact skipComma_suffix _
  · cases step
    exact List.suffix_refl _

theorem findBrace_suffix {stream : TokenStream} (found : findBrace tokens = some (stream, left)) :
    left <:+ tokens := by
  induction tokens with
  | nil => cases found
  | cons token rest ih =>
      unfold findBrace at found
      split at found
      · cases found
      · rename_i same
        cases found
        cases same
        exact List.suffix_cons _ _
      · rename_i same
        cases same
        exact (ih found).trans (List.suffix_cons _ _)

theorem takeModifiers_suffix (count : Nat) (tokens : TokenStream) :
    (takeModifiers count tokens).2 <:+ tokens := by
  fun_induction takeModifiers count tokens with
  | case1 count text rest modifier taken ih => exact ih.trans (List.suffix_cons _ _)
  | case2 => exact List.suffix_refl _
  | case3 => exact List.suffix_refl _

theorem readModifiers_suffix {modifiers read : Modifiers} {texts : List String}
    (result : readModifiers modifiers texts tokens = .ok (read, left)) : left <:+ tokens := by
  fun_induction readModifiers modifiers texts tokens with
  | case1 => cases result; exact List.suffix_refl _
  | case2 _ _ _ ih => exact ih result
  | case3 _ _ _ _ ih => exact ih result
  | case4 _ _ _ _ _ ih => exact ih result
  | case5 _ _ _ _ _ _ _ ih => exact (ih result).trans (List.suffix_cons _ _)
  | case6 => cases result
  | case7 _ _ _ _ _ _ _ _ ih => exact ih result

theorem signature_suffix {fuel : Nat} {args : List Field} {ret : Option String}
    {argsOut : List Field} {retOut : Option String}
    (result : signature fuel args ret tokens = .ok (argsOut, retOut, left)) :
    left <:+ tokens := by
  fun_induction signature fuel args ret tokens with
  | case1 => cases result; exact List.suffix_refl _
  | case2 => cases result; exact List.suffix_refl _
  | case3 args ret fuel rest stream ih =>
      obtain ⟨parsed, _, later⟩ := bind_eq_ok.mp result
      exact (ih parsed later).trans (List.suffix_cons _ _)
  | case4 => cases result; exact List.suffix_cons _ _
  | case5 _ _ _ _ collected ih =>
      exact (ih result).trans
        ((collectReturn_suffix _).trans ((List.suffix_cons _ _).trans (List.suffix_cons _ _)))
  | case6 => cases result
  | case7 => cases result
  | case8 => cases result; exact List.suffix_cons _ _
  | case9 _ _ _ _ _ _ _ ih => exact (ih result).trans (List.suffix_cons _ _)
  | case10 _ _ _ _ _ _ _ _ ih => exact (ih result).trans (List.suffix_cons _ _)

/-- What a function signature is made of. -/
theorem parseFunctionSig_eq_ok {firstToken : String} {sig : FunctionSig} :
    parseFunctionSig firstToken tokens = .ok (sig, left) ↔
      ∃ modifiers rest name args ret,
        readModifiers ⟨none, false, false, none⟩ (firstToken :: (takeModifiers 3 tokens).1)
            (takeModifiers 3 tokens).2 = .ok (modifiers, rest) ∧
          modifiers.name = some name ∧
            signature rest.length [] none rest = .ok (args, ret, left) ∧
              sig = ⟨modifiers.vis, modifiers.isAsync, modifiers.isConst, name, args, ret⟩ := by
  unfold parseFunctionSig
  rw [bind_eq_ok]
  constructor
  · rintro ⟨⟨modifiers, rest⟩, read, step⟩
    cases named : modifiers.name with
    | none => simp [named] at step
    | some name =>
        simp only [named, map_eq_ok] at step
        obtain ⟨⟨args, ret, after⟩, scanned, same⟩ := step
        cases same
        exact ⟨modifiers, rest, name, args, ret, read, named, scanned, rfl⟩
  · rintro ⟨modifiers, rest, name, args, ret, read, named, scanned, rfl⟩
    refine ⟨(modifiers, rest), read, ?_⟩
    simp only [named, map_eq_ok]
    exact ⟨(args, ret, left), scanned, rfl⟩

theorem parseFunctionSig_suffix {firstToken : String} {sig : FunctionSig}
    (result : parseFunctionSig firstToken tokens = .ok (sig, left)) : left <:+ tokens := by
  obtain ⟨modifiers, rest, name, args, ret, read, named, scanned, rfl⟩ :=
    parseFunctionSig_eq_ok.mp result
  exact (signature_suffix scanned).trans
    ((readModifiers_suffix read).trans (takeModifiers_suffix 3 tokens))

/-- The successful rounds of `parse_type_decls`. -/
inductive DeclStep : TokenTree → TokenStream → List TypeDecl → TokenStream → Prop
  | struct {name : String} {after stream left : TokenStream} {fields : List Field}
      (found : findBrace after = some (stream, left))
      (parsed : parseStructFields stream = .ok fields) :
      DeclStep (.ident "struct") (.ident name :: after) [.struct name fields] left
  | enum {name : String} {after stream left : TokenStream} {variants : List EnumVariant}
      (found : findBrace after = some (stream, left))
      (parsed : parseEnumVariants stream = .ok variants) :
      DeclStep (.ident "enum") (.ident name :: after) [.enum name variants] left
  | typeAlias {name : String} {left : TokenStream} :
      DeclStep (.ident "type") (.ident name :: left) [.typeAlias name] left
  | function {text : String} {rest left : TokenStream} {sig : FunctionSig}
      (modifier : isModifier text = true)
      (parsed : parseFunctionSig text rest = .ok (sig, left)) :
      DeclStep (.ident text) rest [.function sig] left
  | skip {token : TokenTree} {rest : TokenStream} (skipped : opensDecl token = false) :
      DeclStep token rest [] rest

theorem ne_of_isModifier {text : String} (modifier : isModifier text = true) :
    text ≠ "struct" ∧ text ≠ "enum" ∧ text ≠ "type" := by
  refine ⟨?_, ?_, ?_⟩ <;> rintro rfl <;> exact absurd modifier (by decide)

theorem declRound_eq_ok {items : List TypeDecl} :
    declRound token rest = .ok (items, left) ↔ DeclStep token rest items left := by
  constructor
  · intro step
    fun_cases declRound token rest with
    | case1 name after missing => simp [declRound, missing] at step
    | case2 name after stream after' found =>
        simp only [declRound, found, if_true, map_eq_ok] at step
        obtain ⟨fields, parsed, same⟩ := step
        cases same
        exact .struct found parsed
    | case3 => simp [declRound] at step
    | case4 name after missing => simp [declRound, missing] at step
    | case5 name after stream after' found different =>
        simp only [declRound, found, different, if_true, if_false, map_eq_ok] at step
        obtain ⟨fields, parsed, same⟩ := step
        cases same
        exact .enum found parsed
    | case6 => simp [declRound] at step
    | case7 => cases step; exact .typeAlias
    | case8 => simp [declRound] at step
    | case9 text =>
        rename_i noStruct noEnum noType modifier
        simp only [declRound, noStruct, noEnum, noType, modifier, if_true, if_false,
          map_eq_ok] at step
        obtain ⟨⟨sig, after⟩, parsed, same⟩ := step
        cases same
        exact .function modifier parsed
    | case10 text =>
        rename_i noStruct noEnum noType noModifier
        simp only [declRound, noStruct, noEnum, noType, noModifier, if_false] at step
        cases step
        exact .skip (by simp [opensDecl, noStruct, noEnum, noType, noModifier])
    | case11 =>
        rename_i other
        cases token with
        | ident text => exact (other text rfl).elim
        | group | punct | literal => cases step; exact .skip rfl
  · rintro (⟨found, parsed⟩ | ⟨found, parsed⟩ | _ | ⟨modifier, parsed⟩ | ⟨skipped⟩)
    · simp [declRound, found, parsed, Except.map]
    · simp [declRound, found, parsed, Except.map]
    · simp [declRound]
    · obtain ⟨noStruct, noEnum, noType⟩ := ne_of_isModifier modifier
      simp [declRound, noStruct, noEnum, noType, modifier, parsed, Except.map]
    · cases token with
      | ident text =>
          simp only [opensDecl, Bool.or_eq_false_iff, decide_eq_false_iff_not] at skipped
          simp [declRound, skipped]
      | group | punct | literal => rfl

theorem declRound_advances : declRound.Advances := by
  intro token rest items left step
  cases declRound_eq_ok.mp step with
  | struct found _ => exact (findBrace_suffix found).trans (List.suffix_cons _ _)
  | enum found _ => exact (findBrace_suffix found).trans (List.suffix_cons _ _)
  | typeAlias => exact List.suffix_cons _ _
  | function _ parsed => exact parseFunctionSig_suffix parsed
  | skip _ => exact List.suffix_refl _

end Rust

end Stdx
