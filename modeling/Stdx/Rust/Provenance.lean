import Stdx.Rust.Parser

/-! # What is declared is written

Whatever tokens the parser accepts, also such that are no Rust, it makes up no names and changes
no order: the keywords, the names and the names of the fields, variants and arguments that it
returns are identifiers of the input, also in groups, in the order in which they stand there
(`Stdx.Rust.words_in_order`). So no identifier is used for two names. Where it does not accept
the input, its message is one of nine texts, and a name in it is an identifier of the input
(`Stdx.Rust.errors_name_identifiers`).
-/

namespace Stdx

namespace Rust

open Foundation

mutual

/-- The identifiers in a token, in their order. -/
def identsOf : TokenTree → List String
  | .group _ stream => idents stream
  | .ident text => [text]
  | .punct _ => []
  | .literal _ => []

/-- The identifiers of a stream and in its groups. -/
def idents : List TokenTree → List String
  | [] => []
  | token :: rest => identsOf token ++ idents rest

end

/-- The keyword and the names of a declaration. -/
def TypeDecl.words : TypeDecl → List String
  | .struct name fields => "struct" :: name :: fields.map Field.name
  | .enum name variants =>
      "enum" :: name :: variants.flatMap fun variant =>
        variant.name :: variant.fields.map Field.name
  | .typeAlias name => ["type", name]
  | .function sig => "fn" :: sig.name :: sig.args.map Field.name

variable {tokens rest left stream : TokenStream} {token : TokenTree}

/-! ## Identifiers -/

theorem idents_append (front back : TokenStream) :
    idents (front ++ back) = idents front ++ idents back := by
  induction front with
  | nil => rfl
  | cons token front ih =>
      rw [List.cons_append, idents, idents, ih, List.append_assoc]

/-- What is left of a stream has no other identifiers. -/
theorem idents_sublist (part : left <:+ tokens) : (idents left).Sublist (idents tokens) := by
  obtain ⟨front, rfl⟩ := part
  rw [idents_append]
  exact List.sublist_append_right _ _

/-- The first group in braces comes before what is left behind it. -/
theorem idents_findBrace (found : findBrace tokens = some (stream, left)) :
    (idents stream ++ idents left).Sublist (idents tokens) := by
  induction tokens with
  | nil => cases found
  | cons token rest ih =>
      unfold findBrace at found
      split at found
      · cases found
      · rename_i same
        cases found
        cases same
        exact List.Sublist.refl _
      · rename_i same
        cases same
        exact (ih found).trans (List.sublist_append_right _ _)

/-! ## Fields and variants -/

/-- The names of fields and arguments. -/
theorem fields_in_order {what : String} {fields : List Field}
    (parsed : consume (fieldRound what) tokens = .ok fields) :
    (fields.map Field.name).Sublist (idents tokens) := by
  refine consume_induction (fieldRound_advances what)
    (motive := fun tokens fields => (fields.map Field.name).Sublist (idents tokens))
    (List.Sublist.refl _) ?_ parsed
  intro token rest items left more step _ ih
  have part := idents_sublist (fieldRound_advances what _ _ _ _ step)
  rw [List.map_append, idents]
  refine List.Sublist.append ?_ (ih.trans part)
  unfold fieldRound at step
  split at step
  · split at step
    · cases step
      exact List.Sublist.refl _
    · cases step
  · cases step
  · cases step
    exact List.nil_sublist _

/-- The fields of a variant come before what is left behind their group. -/
theorem payload_in_order {fields : List Field} {words : List String}
    (read : parseStructFields stream = .ok fields)
    (behind : words.Sublist (idents (skipComma rest))) {delimiter : Delimiter} :
    (fields.map Field.name ++ [] ++ words).Sublist (idents (.group delimiter stream :: rest)) := by
  rw [List.append_nil]
  exact (fields_in_order read).append (behind.trans (idents_sublist (skipComma_suffix rest)))

/-- The names of variants and their fields. -/
theorem variants_in_order {variants : List EnumVariant}
    (parsed : parseEnumVariants tokens = .ok variants) :
    (variants.flatMap fun variant => variant.name :: variant.fields.map Field.name).Sublist
      (idents tokens) := by
  refine consume_induction variantRound_advances
    (motive := fun tokens variants =>
      (variants.flatMap fun variant => variant.name :: variant.fields.map Field.name).Sublist
        (idents tokens)) (List.Sublist.refl _) ?_ parsed
  intro token rest items left more step _ ih
  rw [List.flatMap_append, idents]
  unfold variantRound at step
  split at step
  · obtain ⟨fields, read, same⟩ := map_eq_ok.mp step
    cases same
    exact (payload_in_order read ih).cons_cons _
  · obtain ⟨fields, read, same⟩ := map_eq_ok.mp step
    cases same
    exact (payload_in_order read ih).cons_cons _
  · cases step
    exact (ih.trans (idents_sublist (skipComma_suffix _))).cons_cons _
  · cases step
    exact ih.trans (List.sublist_append_right _ _)

/-! ## Functions -/

/-- The modifiers are taken from the input. -/
theorem idents_takeModifiers (count : Nat) (tokens : TokenStream) :
    (takeModifiers count tokens).1 ++ idents (takeModifiers count tokens).2 = idents tokens := by
  fun_induction takeModifiers count tokens with
  | case1 count text rest modifier taken ih => exact congrArg (text :: ·) ih
  | case2 => rfl
  | case3 => rfl

/-- The name is read behind a `fn`. -/
theorem name_in_order {modifiers read : Modifiers} {texts : List String} {name : String}
    (result : readModifiers modifiers texts tokens = .ok (read, left))
    (named : read.name = some name) :
    modifiers.name = some name ∨
      ("fn" :: name :: idents left).Sublist (texts ++ idents tokens) := by
  fun_induction readModifiers modifiers texts tokens with
  | case1 => cases result; exact .inl named
  | case2 _ _ _ ih => exact (ih result).imp_right (·.cons _)
  | case3 _ _ _ _ ih => exact (ih result).imp_right (·.cons _)
  | case4 _ _ _ _ _ ih => exact (ih result).imp_right (·.cons _)
  | case5 modifiers texts first rest _ _ _ ih =>
      refine .inr ?_
      rcases ih result with taken | later
      · cases taken
        have behind := idents_sublist (readModifiers_suffix result)
        have both : (name :: idents left).Sublist (texts ++ name :: idents rest) :=
          (behind.cons_cons name).trans (List.sublist_append_right _ _)
        exact both.cons_cons "fn"
      · have widened : (texts ++ idents rest).Sublist (texts ++ first :: idents rest) :=
          List.Sublist.append_left (List.sublist_cons_self _ _) texts
        exact (later.trans widened).cons "fn"
  | case6 => cases result
  | case7 _ _ _ _ _ _ _ _ ih => exact (ih result).imp_right (·.cons _)

/-- The arguments are read in front of what is left. -/
theorem args_in_order {fuel : Nat} {args argsOut : List Field} {ret retOut : Option String}
    (result : signature fuel args ret tokens = .ok (argsOut, retOut, left)) :
    (argsOut.map Field.name ++ idents left).Sublist (args.map Field.name ++ idents tokens) := by
  fun_induction signature fuel args ret tokens with
  | case1 => cases result; exact List.Sublist.refl _
  | case2 => cases result; exact List.Sublist.refl _
  | case3 args ret fuel rest stream ih =>
      obtain ⟨read, parsed, later⟩ := bind_eq_ok.mp result
      have inside : (read.map Field.name ++ idents rest).Sublist (idents stream ++ idents rest) :=
        (fields_in_order parsed).append_right _
      exact ((ih read later).trans inside).trans (List.sublist_append_right _ _)
  | case4 => cases result; exact (List.sublist_append_right _ _).append_left _
  | case5 _ _ _ rest collected ih =>
      have behind := idents_sublist (collectReturn_suffix rest)
      exact (ih result).trans (behind.append_left _)
  | case6 => cases result
  | case7 => cases result
  | case8 => cases result; exact List.Sublist.refl _
  | case9 _ _ _ _ _ _ _ ih => exact ih result
  | case10 _ _ _ _ _ _ _ _ ih =>
      exact (ih result).trans ((List.sublist_append_right _ _).append_left _)

theorem function_in_order {firstToken : String} {sig : FunctionSig}
    (parsed : parseFunctionSig firstToken rest = .ok (sig, left)) :
    ((TypeDecl.function sig).words ++ idents left).Sublist (firstToken :: idents rest) := by
  obtain ⟨modifiers, behind, name, args, ret, read, named, scanned, rfl⟩ :=
    parseFunctionSig_eq_ok.mp parsed
  have arguments : (args.map Field.name ++ idents left).Sublist (idents behind) :=
    args_in_order scanned
  rw [← idents_takeModifiers 3 rest]
  rcases name_in_order read named with none | written
  · cases none
  · exact ((arguments.cons_cons name).cons_cons "fn").trans written

/-! ## Declarations -/

/-- The words of a declaration come before what is left behind it. -/
theorem words_of_step {items : List TypeDecl} (step : DeclStep token rest items left) :
    (items.flatMap TypeDecl.words ++ idents left).Sublist (idents (token :: rest)) := by
  cases step with
  | @struct name after stream left fields found parsed =>
      have body := (fields_in_order parsed).append_right (idents left)
      have words := (body.trans (idents_findBrace found)).cons_cons name
      rw [List.flatMap_singleton]
      exact words.cons_cons "struct"
  | @enum name after stream left variants found parsed =>
      have body := (variants_in_order parsed).append_right (idents left)
      have words := (body.trans (idents_findBrace found)).cons_cons name
      rw [List.flatMap_singleton]
      exact words.cons_cons "enum"
  | typeAlias => exact List.Sublist.refl _
  | function _ parsed =>
      rw [List.flatMap_singleton]
      exact function_in_order parsed
  | skip _ => exact List.sublist_append_right _ _

/-- **What is declared is written.** -/
theorem words_in_order (tokens : TokenStream) (decls : List TypeDecl)
    (parsed : parseTypeDecls tokens = .ok decls) :
    (decls.flatMap TypeDecl.words).Sublist (idents tokens) := by
  refine consume_induction declRound_advances
    (motive := fun tokens decls => (decls.flatMap TypeDecl.words).Sublist (idents tokens))
    (List.Sublist.refl _) ?_ parsed
  intro token rest items left more step _ ih
  rw [List.flatMap_append]
  exact (ih.append_left _).trans (words_of_step (declRound_eq_ok.mp step))

/-- A struct and a function, also where the modifiers are not in the order of the language. -/
theorem swapped_modifiers_written :
    ["struct", "P", "x", "fn", "f", "y"].Sublist
      (idents [.ident "struct", .ident "P", .group .brace [.ident "x", .punct ':', .ident "u8"],
        .ident "fn", .ident "const", .ident "f",
        .group .parenthesis [.ident "y", .punct ':', .ident "u8"], .punct ';']) :=
  words_in_order _ [.struct "P" [⟨"x", "u8"⟩],
    .function ⟨none, false, true, "f", [⟨"y", "u8"⟩], none⟩] rfl

/-! ## Errors -/

/-- The messages without a name. -/
def plainErrors : List String :=
  ["Expected struct name after 'struct'", "Expected enum name after 'enum'",
    "Expected type alias name after 'type'", "Expected function name after 'fn'",
    "Expected '->' for function return type"]

/-- The messages with a name. -/
def namedErrors (name : String) : List String :=
  ["Expected '\x7b' with fields for struct '" ++ name ++ "'",
    "Expected '\x7b' with variants for enum '" ++ name ++ "'",
    "Expected ':' after field name '" ++ name ++ "'",
    "Expected ':' after argument name '" ++ name ++ "'"]

/-- A message that a stream explains. -/
def Explains (tokens : TokenStream) (message : String) : Prop :=
  message ∈ plainErrors ∨ ∃ name ∈ idents tokens, message ∈ namedErrors name

variable {message : String}

/-- A stream explains what a part of it explains. -/
theorem Explains.mono (explains : Explains stream message)
    (part : (idents stream).Sublist (idents tokens)) : Explains tokens message := by
  rcases explains with plain | ⟨name, member, named⟩
  · exact .inl plain
  · exact .inr ⟨name, part.subset member, named⟩

theorem map_eq_error {α β : Type*} {f : α → β} {result : Except String α} :
    result.map f = .error message ↔ result = .error message := by
  cases result <;> simp [Except.map]

theorem bind_eq_error {α β : Type*} {f : α → Except String β} {result : Except String α} :
    result.bind f = .error message ↔
      result = .error message ∨ ∃ value, result = .ok value ∧ f value = .error message := by
  cases result <;> simp [Except.bind]

/-- A loop over a stream fails in one of its rounds. -/
theorem explains_of_consume {β : Type*} {round : Round TokenTree String β}
    (advances : round.Advances)
    (rounds : ∀ token rest, round token rest = .error message → Explains (token :: rest) message)
    (failed : consume round tokens = .error message) : Explains tokens message := by
  obtain ⟨token, rest, part, fails⟩ := exists_round_of_error advances failed
  exact (rounds token rest fails).mono (idents_sublist part)

/-- Errors of the fields and of the arguments. -/
theorem fields_error {what : String} (known : what = "field" ∨ what = "argument")
    (failed : consume (fieldRound what) tokens = .error message) : Explains tokens message := by
  refine explains_of_consume (fieldRound_advances what) (fun token rest fails => ?_) failed
  have named {name : String} (same : ("Expected ':' after " ++ what ++ " name '" ++ name ++ "'" :
      String) = message) : Explains (.ident name :: rest) message := by
    refine .inr ⟨name, List.mem_cons_self, ?_⟩
    rcases known with rfl | rfl
    · simp [namedErrors, ← same]
    · simp [namedErrors, ← same]
  unfold fieldRound at fails
  split at fails
  · split at fails
    · cases fails
    · exact named (Except.error.inj fails)
  · exact named (Except.error.inj fails)
  · cases fails

theorem variants_error (failed : parseEnumVariants tokens = .error message) :
    Explains tokens message := by
  refine explains_of_consume variantRound_advances (fun token rest fails => ?_) failed
  have inside {delimiter : Delimiter} {name : String} {stream rest : TokenStream}
      (fails : parseStructFields stream = .error message) :
      Explains (.ident name :: .group delimiter stream :: rest) message :=
    (fields_error (.inl rfl) fails).mono
      ((List.sublist_append_left _ _).trans (List.sublist_cons_self _ _))
  unfold variantRound at fails
  split at fails
  · exact inside (map_eq_error.mp fails)
  · exact inside (map_eq_error.mp fails)
  · cases fails
  · cases fails

theorem modifiers_error {modifiers : Modifiers} {texts : List String}
    (failed : readModifiers modifiers texts tokens = .error message) :
    message = "Expected function name after 'fn'" := by
  fun_induction readModifiers modifiers texts tokens with
  | case1 => cases failed
  | case2 _ _ _ ih => exact ih failed
  | case3 _ _ _ _ ih => exact ih failed
  | case4 _ _ _ _ _ ih => exact ih failed
  | case5 _ _ _ _ _ _ _ ih => exact ih failed
  | case6 => exact (Except.error.inj failed).symm
  | case7 _ _ _ _ _ _ _ _ ih => exact ih failed

theorem signature_error {fuel : Nat} {args : List Field} {ret : Option String}
    (failed : signature fuel args ret tokens = .error message) : Explains tokens message := by
  have noArrow {tokens : TokenStream}
      (same : (Except.error "Expected '->' for function return type" :
        Except String (List Field × Option String × TokenStream)) = .error message) :
      Explains tokens message := by
    cases same
    exact .inl (by simp [plainErrors])
  fun_induction signature fuel args ret tokens with
  | case1 => cases failed
  | case2 => cases failed
  | case3 args ret fuel rest stream ih =>
      rcases bind_eq_error.mp failed with here | ⟨read, _, later⟩
      · exact (fields_error (.inr rfl) here).mono (List.sublist_append_left _ _)
      · exact (ih read later).mono (List.sublist_append_right _ _)
  | case4 => cases failed
  | case5 _ _ _ rest collected ih =>
      have behind := idents_sublist (collectReturn_suffix rest)
      exact (ih failed).mono behind
  | case6 => exact noArrow failed
  | case7 => exact noArrow failed
  | case8 => cases failed
  | case9 _ _ _ _ _ _ _ ih => exact ih failed
  | case10 _ _ _ _ _ _ _ _ ih => exact (ih failed).mono (List.sublist_append_right _ _)

theorem function_error {text : String} (failed : parseFunctionSig text rest = .error message) :
    Explains rest message := by
  have noName : Explains rest "Expected function name after 'fn'" :=
    .inl (by simp [plainErrors])
  rcases bind_eq_error.mp failed with read | ⟨⟨modifiers, behind⟩, read, later⟩
  · rw [modifiers_error read]
    exact noName
  · cases named : modifiers.name with
    | none =>
        simp only [named] at later
        cases later
        exact noName
    | some name =>
        simp only [named] at later
        exact (signature_error (map_eq_error.mp later)).mono
          (idents_sublist ((readModifiers_suffix read).trans (takeModifiers_suffix 3 rest)))

/-- The tokens behind a name, up to a body with an error. -/
theorem explains_of_findBrace {text name : String} {after : TokenStream}
    (found : findBrace after = some (stream, left)) (explains : Explains stream message) :
    Explains (.ident text :: .ident name :: after) message :=
  explains.mono ((((List.sublist_append_left _ _).trans (idents_findBrace found)).cons name).cons
    text)

/-- A round fails without a name, without a body, or in one. -/
theorem declRound_error (failed : declRound token rest = .error message) :
    Explains (token :: rest) message := by
  have plain (text : String) (member : text ∈ plainErrors) (same : text = message) :
      Explains (token :: rest) message := .inl (same ▸ member)
  fun_cases declRound token rest with
  | case1 name after missing =>
      simp only [declRound, missing, if_true, Except.error.injEq] at failed
      exact .inr ⟨name, List.mem_cons_of_mem _ List.mem_cons_self, by simp [namedErrors, ← failed]⟩
  | case2 name after stream after' found =>
      simp only [declRound, found, if_true, map_eq_error] at failed
      exact explains_of_findBrace found (fields_error (.inl rfl) failed)
  | case3 =>
      simp only [declRound, if_true] at failed
      exact plain _ (by simp [plainErrors]) (Except.error.inj failed)
  | case4 name after missing different =>
      simp only [declRound, missing, different, if_true, if_false, Except.error.injEq] at failed
      exact .inr ⟨name, List.mem_cons_of_mem _ List.mem_cons_self, by simp [namedErrors, ← failed]⟩
  | case5 name after stream after' found different =>
      simp only [declRound, found, different, if_true, if_false, map_eq_error] at failed
      exact explains_of_findBrace found (variants_error failed)
  | case6 =>
      simp only [declRound] at failed
      exact plain _ (by simp [plainErrors]) (Except.error.inj failed)
  | case7 => cases failed
  | case8 =>
      simp only [declRound] at failed
      exact plain _ (by simp [plainErrors]) (Except.error.inj failed)
  | case9 text =>
      rename_i noStruct noEnum noType modifier
      simp only [declRound, noStruct, noEnum, noType, modifier, if_true, if_false,
        map_eq_error] at failed
      exact (function_error failed).mono (List.sublist_cons_self _ _)
  | case10 text =>
      rename_i noStruct noEnum noType noModifier
      simp only [declRound, noStruct, noEnum, noType, noModifier, if_false] at failed
      cases failed
  | case11 =>
      rename_i other
      cases token with
      | ident text => exact (other text rfl).elim
      | group | punct | literal => cases failed

/-- **Errors.** What is not accepted is refused with one of nine messages, and where one has a
name in it, the name is in the input. -/
theorem errors_name_identifiers (tokens : TokenStream) (message : String)
    (failed : parseTypeDecls tokens = .error message) :
    message ∈ plainErrors ∨ ∃ name ∈ idents tokens, message ∈ namedErrors name :=
  explains_of_consume declRound_advances (fun _ _ => declRound_error) failed

/-- A field without a type. -/
theorem untyped_field_named :
    "Expected ':' after field name 'x'" ∈ plainErrors ∨
      ∃ name ∈ idents [.ident "struct", .ident "P", .group .brace [.ident "x"]],
        "Expected ':' after field name 'x'" ∈ namedErrors name :=
  errors_name_identifiers _ _
    (Eq.refl (parseTypeDecls [.ident "struct", .ident "P", .group .brace [.ident "x"]]))

end Rust

end Stdx
