import Stdx.Rust.StructFields

/-! # Visibility qualifiers

`pub` sends an item to the parser for functions before the keyword of the item
is read, and that parser only looks past modifiers of functions. An item that is
accepted without a visibility is accepted with one, as the same declaration,
exactly when it is a function that is neither `unsafe` nor `extern` and the
visibility is `pub` without a restriction (`Stdx.Rust.parse_qualified_iff`).
-/

namespace Stdx

namespace Rust

open Foundation

/-- What stands from the qualifiers of a function up to its name, which is not a
keyword. -/
structure FunctionHead where
  isConst : Bool
  isAsync : Bool
  isUnsafe : Bool
  abi : Option (Option String)
  name : String
  name_plain : isModifier name = false

namespace FunctionHead

/-- The qualifiers that `parse_function_sig` knows, up to `fn`. -/
def words (head : FunctionHead) : List String :=
  (if head.isConst then ["const"] else []) ++ (if head.isAsync then ["async"] else [])

/-- The qualifiers that it does not know: `unsafe`, and `extern` with its ABI. -/
def foreign (head : FunctionHead) : TokenStream :=
  (if head.isUnsafe then [.ident "unsafe"] else []) ++
    match head.abi with
    | none => []
    | some none => [.ident "extern"]
    | some (some text) => [.ident "extern", .literal text]

/-- The tokens of the head. -/
def tokens (head : FunctionHead) : TokenStream :=
  head.words.map .ident ++ head.foreign ++ [.ident "fn", .ident head.name]

end FunctionHead

/-- The head of an item: its keyword and its name. -/
inductive ItemHead
  | struct (name : String)
  | enum (name : String)
  | typeAlias (name : String)
  | function (head : FunctionHead)

namespace ItemHead

/-- The tokens of the head. -/
def tokens : ItemHead → TokenStream
  | .struct name => [.ident "struct", .ident name]
  | .enum name => [.ident "enum", .ident name]
  | .typeAlias name => [.ident "type", .ident name]
  | .function head => head.tokens

/-- The head of a function that is neither `unsafe` nor `extern`. -/
def IsPlainFunction : ItemHead → Prop
  | .function head => head.isUnsafe = false ∧ head.abi = none
  | .struct _ | .enum _ | .typeAlias _ => False

end ItemHead

/-- An item: its attributes, its head, and whatever follows the name. -/
structure Item where
  attrs : List TokenStream
  head : ItemHead
  rest : TokenStream

/-- The tokens of the item with a visibility, which stands before its head. -/
def Item.tokens (item : Item) (vis : Option (Option TokenStream)) : TokenStream :=
  attrTokens item.attrs ++ (visTokens vis ++ (item.head.tokens ++ item.rest))

/-- The declaration without the visibility of a function. -/
def TypeDecl.withoutVis : TypeDecl → TypeDecl
  | .function sig => .function { sig with vis := none }
  | other => other

/-- A stream that does not begin with a modifier. -/
def NoModifier : TokenStream → Prop
  | .ident text :: _ => isModifier text = false
  | _ => True

variable {tokens rest : TokenStream} {words : List String}

/-- Attributes are skipped. -/
theorem parse_attrs (attrs : List TokenStream) (tokens : TokenStream) :
    parseTypeDecls (attrTokens attrs ++ tokens) = parseTypeDecls tokens :=
  consume_attrTokens declRound_advances (fun _ => rfl) (fun _ _ => rfl) attrs tokens

/-! ## Modifiers -/

theorem takeModifiers_of_noModifier (count : Nat) (stop : NoModifier rest) :
    takeModifiers count rest = ([], rest) := by
  fun_cases takeModifiers count rest with
  | case1 count text rest modifier => exact absurd modifier (Bool.eq_false_iff.mp stop)
  | case2 => rfl
  | case3 => rfl

/-- The modifiers in front are taken, if there are not too many. -/
theorem takeModifiers_words {count : Nat} (modifiers : ∀ text ∈ words, isModifier text = true)
    (few : words.length ≤ count) (stop : NoModifier rest) :
    takeModifiers count (words.map .ident ++ rest) = (words, rest) := by
  induction words generalizing count with
  | nil => exact takeModifiers_of_noModifier count stop
  | cons text words ih =>
      cases count with
      | zero => exact absurd few (Nat.not_succ_le_zero _)
      | succ count =>
          obtain ⟨modifier, others⟩ := List.forall_mem_cons.mp modifiers
          rw [List.map_cons, List.cons_append, takeModifiers, modifier, if_pos rfl,
            ih others (Nat.le_of_succ_le_succ few)]

/-- Without `fn` no name is read. -/
theorem readModifiers_of_no_fn (modifiers : Modifiers) (noFn : ∀ text ∈ words, text ≠ "fn") :
    ∃ read, readModifiers modifiers words rest = .ok (read, rest) ∧
      read.name = modifiers.name := by
  fun_induction readModifiers modifiers words rest with
  | case1 modifiers => exact ⟨modifiers, rfl, rfl⟩
  | case2 _ _ _ ih => exact ih (List.forall_mem_cons.mp noFn).2
  | case3 _ _ _ _ ih => exact ih (List.forall_mem_cons.mp noFn).2
  | case4 _ _ _ _ _ ih => exact ih (List.forall_mem_cons.mp noFn).2
  | case5 => exact absurd rfl (List.forall_mem_cons.mp noFn).1
  | case6 => exact absurd rfl (List.forall_mem_cons.mp noFn).1
  | case7 _ _ _ _ _ _ _ _ ih => exact ih (List.forall_mem_cons.mp noFn).2

/-- A visibility read before is kept by other modifiers. -/
theorem readModifiers_vis (modifiers : Modifiers) (vis : Option String)
    (noPub : ∀ text ∈ words, text ≠ "pub") :
    readModifiers { modifiers with vis } words tokens =
      (readModifiers modifiers words tokens).map fun (read, left) => ({ read with vis }, left) := by
  fun_induction readModifiers modifiers words tokens with
  | case1 => rfl
  | case2 => exact absurd rfl (List.forall_mem_cons.mp noPub).1
  | case3 modifiers texts rest _ ih => exact ih (List.forall_mem_cons.mp noPub).2
  | case4 modifiers texts rest _ _ ih => exact ih (List.forall_mem_cons.mp noPub).2
  | case5 modifiers texts _ _ _ name rest ih => exact ih (List.forall_mem_cons.mp noPub).2
  | case6 =>
      rw [readModifiers]
      · rfl
      · assumption
  | case7 modifiers text texts rest noPub' noAsync noConst noFn ih =>
      have skipped : readModifiers { modifiers with vis } (text :: texts) rest =
          readModifiers { modifiers with vis } texts rest := by
        conv_lhs => unfold readModifiers
        simp only [noPub', noAsync, noConst, noFn, if_false]
      rw [skipped]
      exact ih (List.forall_mem_cons.mp noPub).2

/-! ## Functions -/

/-- The signature with the visibility `pub`. -/
def FunctionSig.public (sig : FunctionSig) : FunctionSig := { sig with vis := some "pub" }

/-- Without `fn` among the modifiers there is no function. -/
theorem parseFunctionSig_of_no_fn {text : String}
    (modifiers : ∀ other ∈ words, isModifier other = true) (few : words.length ≤ 3)
    (stop : NoModifier rest) (noFn : ∀ other ∈ text :: words, other ≠ "fn") :
    parseFunctionSig text (words.map .ident ++ rest) =
      .error "Expected function name after 'fn'" := by
  obtain ⟨read, taken, none⟩ : ∃ read, readModifiers ⟨none, false, false, none⟩
      (text :: words) rest = .ok (read, rest) ∧ read.name = none :=
    readModifiers_of_no_fn ⟨none, false, false, none⟩ noFn
  unfold parseFunctionSig
  rw [takeModifiers_words modifiers few stop]
  dsimp only
  rw [taken]
  simp only [Except.bind, none]

/-- `pub` before a function whose modifiers are few adds the visibility. -/
theorem parseFunctionSig_pub {text : String}
    (modifiers : ∀ other ∈ text :: words, isModifier other = true) (few : words.length ≤ 2)
    (stop : NoModifier rest) (noPub : ∀ other ∈ text :: words, other ≠ "pub") :
    parseFunctionSig "pub" (.ident text :: (words.map .ident ++ rest)) =
      (parseFunctionSig text (words.map .ident ++ rest)).map fun (sig, left) =>
        (sig.public, left) := by
  have taken : takeModifiers 3 ((text :: words).map .ident ++ rest) = (text :: words, rest) :=
    takeModifiers_words modifiers (Nat.succ_le_succ few) stop
  rw [List.map_cons, List.cons_append] at taken
  unfold parseFunctionSig
  rw [taken, takeModifiers_words (List.forall_mem_cons.mp modifiers).2 (few.trans (by decide)) stop]
  dsimp only
  have read : readModifiers ⟨none, false, false, none⟩ ("pub" :: text :: words) rest =
      readModifiers ⟨some "pub", false, false, none⟩ (text :: words) rest := rfl
  rw [read, readModifiers_vis ⟨none, false, false, none⟩ (some "pub") noPub]
  cases readModifiers ⟨none, false, false, none⟩ (text :: words) rest with
  | error error => rfl
  | ok read =>
      obtain ⟨⟨vis, isAsync, isConst, name⟩, left⟩ := read
      cases name with
      | none => rfl
      | some name =>
          simp only [Except.map, Except.bind]
          cases signature left.length [] none left with
          | error error => rfl
          | ok scanned => rfl

/-! ## Items -/

/-- A modifier begins a function. -/
theorem declRound_of_modifier {text : String} (modifier : isModifier text = true)
    (rest : TokenStream) :
    declRound (.ident text) rest =
      (parseFunctionSig text rest).map fun (sig, left) => ([.function sig], left) := by
  obtain ⟨noStruct, noEnum, noType⟩ := ne_of_isModifier modifier
  simp only [declRound, noStruct, noEnum, noType, modifier, if_true, if_false]

/-- Without `fn` among its modifiers an item is not accepted. -/
theorem parse_of_no_fn {text : String}
    (modifiers : ∀ other ∈ text :: words, isModifier other = true) (few : words.length ≤ 3)
    (stop : NoModifier rest) (noFn : ∀ other ∈ text :: words, other ≠ "fn") :
    parseTypeDecls (.ident text :: (words.map .ident ++ rest)) =
      .error "Expected function name after 'fn'" := by
  obtain ⟨modifier, others⟩ := List.forall_mem_cons.mp modifiers
  apply consume_cons_error
  rw [declRound_of_modifier modifier, parseFunctionSig_of_no_fn others few stop noFn]
  rfl

/-- `pub` before anything but a modifier is not accepted. -/
theorem parse_pub_of_noModifier (stop : NoModifier rest) :
    parseTypeDecls (.ident "pub" :: rest) = .error "Expected function name after 'fn'" :=
  show parseTypeDecls (.ident "pub" :: (([] : List String).map .ident ++ rest)) = _ from
    parse_of_no_fn (by decide) (Nat.zero_le _) stop (by decide)

/-- `pub` before a function whose modifiers are few gives the same function. -/
theorem parse_pub {text : String} {decls : List TypeDecl}
    (modifiers : ∀ other ∈ text :: words, isModifier other = true) (few : words.length ≤ 2)
    (stop : NoModifier rest) (noPub : ∀ other ∈ text :: words, other ≠ "pub")
    (parsed : parseTypeDecls (.ident text :: (words.map .ident ++ rest)) = .ok decls) :
    ∃ sig more, decls = .function sig :: more ∧
      parseTypeDecls (.ident "pub" :: .ident text :: (words.map .ident ++ rest)) =
        .ok (.function sig.public :: more) := by
  have modifier := (List.forall_mem_cons.mp modifiers).1
  obtain ⟨items, left, more, step, later, rfl⟩ :=
    (consume_cons_eq_ok declRound_advances).mp parsed
  rw [declRound_of_modifier modifier] at step
  obtain ⟨⟨sig, after⟩, read, same⟩ := map_eq_ok.mp step
  cases same
  refine ⟨sig, more, rfl, (consume_cons_eq_ok declRound_advances).mpr
    ⟨[.function sig.public], left, more, ?_, later, rfl⟩⟩
  rw [declRound_of_modifier rfl, parseFunctionSig_pub modifiers few stop noPub, read]
  rfl

namespace FunctionHead

theorem words_modifiers (head : FunctionHead) :
    ∀ text ∈ head.words, isModifier text = true ∧ text ≠ "fn" ∧ text ≠ "pub" := by
  unfold FunctionHead.words
  cases head.isConst <;> cases head.isAsync <;> decide

theorem words_length (head : FunctionHead) : head.words.length ≤ 2 := by
  unfold FunctionHead.words
  cases head.isConst <;> cases head.isAsync <;> decide

/-- A qualifier that the parser does not know stops its search for modifiers. -/
theorem noModifier_foreign {head : FunctionHead} (foreign : head.foreign ≠ [])
    (rest : TokenStream) : NoModifier (head.foreign ++ rest) := by
  obtain ⟨isConst, isAsync, isUnsafe, abi, name, plain⟩ := head
  unfold FunctionHead.foreign at foreign ⊢
  rcases abi with _ | _ | text <;> cases isUnsafe <;> first | exact (foreign rfl).elim | rfl

theorem foreign_eq_nil_iff (head : FunctionHead) :
    head.foreign = [] ↔ head.isUnsafe = false ∧ head.abi = none := by
  obtain ⟨isConst, isAsync, isUnsafe, abi, name, plain⟩ := head
  unfold FunctionHead.foreign
  rcases abi with _ | _ | text <;> cases isUnsafe <;> simp

end FunctionHead

namespace ItemHead

/-- The item is accepted with `pub` as the same declaration, if it is a plain function. -/
theorem parse_pub {head : ItemHead} {decls : List TypeDecl} (plain : head.IsPlainFunction)
    (parsed : parseTypeDecls (head.tokens ++ rest) = .ok decls) :
    ∃ qualified, parseTypeDecls (.ident "pub" :: (head.tokens ++ rest)) = .ok qualified ∧
      qualified.map TypeDecl.withoutVis = decls.map TypeDecl.withoutVis := by
  cases head with
  | struct | enum | typeAlias => exact plain.elim
  | function head =>
      have stop : NoModifier (.ident head.name :: rest) := head.name_plain
      have shape : (ItemHead.function head).tokens ++ rest =
          (head.words ++ ["fn"]).map .ident ++ (.ident head.name :: rest) := by
        simp [ItemHead.tokens, FunctionHead.tokens, head.foreign_eq_nil_iff.mpr plain]
      have modifiers : ∀ text ∈ head.words ++ ["fn"], isModifier text = true ∧ text ≠ "pub" :=
        List.forall_mem_append.mpr ⟨fun text member =>
          ⟨(head.words_modifiers text member).1, (head.words_modifiers text member).2.2⟩, by decide⟩
      have few : (head.words ++ ["fn"]).length ≤ 3 := by
        rw [List.length_append, List.length_singleton]
        exact Nat.succ_le_succ head.words_length
      rw [shape] at parsed ⊢
      cases words : head.words ++ ["fn"] with
      | nil => simp at words
      | cons text others =>
          rw [words] at modifiers few parsed
          obtain ⟨sig, more, rfl, qualified⟩ := Rust.parse_pub (fun text member =>
            (modifiers text member).1) (Nat.le_of_succ_le_succ few) stop (fun text member =>
            (modifiers text member).2) parsed
          exact ⟨_, qualified, rfl⟩

/-- Before any other item `pub` is not accepted, if the item itself is. -/
theorem parse_pub_error {head : ItemHead} {decls : List TypeDecl} (other : ¬ head.IsPlainFunction)
    (parsed : parseTypeDecls (head.tokens ++ rest) = .ok decls) :
    parseTypeDecls (.ident "pub" :: (head.tokens ++ rest)) =
      .error "Expected function name after 'fn'" := by
  cases head with
  | struct name => exact parse_pub_of_noModifier rfl
  | enum name => exact parse_pub_of_noModifier rfl
  | typeAlias name => exact parse_pub_of_noModifier rfl
  | function head =>
      have foreign : head.foreign ≠ [] := head.foreign_eq_nil_iff.not.mpr other
      have stop := head.noModifier_foreign foreign (.ident "fn" :: .ident head.name :: rest)
      have shape : (ItemHead.function head).tokens ++ rest =
          head.words.map .ident ++ (head.foreign ++ (.ident "fn" :: .ident head.name :: rest)) := by
        simp [ItemHead.tokens, FunctionHead.tokens]
      have modifiers := head.words_modifiers
      have few := head.words_length
      rw [shape] at parsed ⊢
      cases words : head.words with
      | nil => exact parse_pub_of_noModifier stop
      | cons text others =>
          -- a known qualifier before an unknown one: already the item itself is refused
          rw [words] at modifiers few parsed
          have refused := parse_of_no_fn (fun text member => (modifiers text member).1)
            (by simp at few; omega) stop fun text member => (modifiers text member).2.1
          exact absurd (parsed.symm.trans refused) (by simp)

end ItemHead

/-- **Visibility qualifiers.** -/
theorem parse_qualified_iff (item : Item) (restriction : Option TokenStream)
    (decls : List TypeDecl) (parsed : parseTypeDecls (item.tokens none) = .ok decls) :
    (∃ qualified, parseTypeDecls (item.tokens (some restriction)) = .ok qualified ∧
        qualified.map TypeDecl.withoutVis = decls.map TypeDecl.withoutVis) ↔
      restriction = none ∧ item.head.IsPlainFunction := by
  obtain ⟨attrs, head, rest⟩ := item
  unfold Item.tokens at parsed ⊢
  rw [parse_attrs] at parsed ⊢
  cases restriction with
  | some restriction =>
      have stop : NoModifier (.group .parenthesis restriction :: (head.tokens ++ rest)) := trivial
      have refused : parseTypeDecls
          (visTokens (some (some restriction)) ++ (head.tokens ++ rest)) = _ :=
        parse_pub_of_noModifier stop
      rw [refused]
      exact ⟨nofun, nofun⟩
  | none =>
      by_cases plain : head.IsPlainFunction
      · exact ⟨fun _ => ⟨rfl, plain⟩, fun _ => head.parse_pub plain parsed⟩
      · have refused : parseTypeDecls (visTokens (some none) ++ (head.tokens ++ rest)) = _ :=
          head.parse_pub_error plain parsed
        rw [refused]
        exact ⟨nofun, fun function => (plain function.2).elim⟩

/-- `const fn answer() {}`. -/
def constFunction : Item where
  attrs := []
  head := .function ⟨true, false, false, none, "answer", by decide⟩
  rest := [.group .parenthesis [], .group .brace []]

theorem constFunction_qualified :
    ∃ qualified, parseTypeDecls (constFunction.tokens (some none)) = .ok qualified ∧
      qualified.map TypeDecl.withoutVis =
        [TypeDecl.function ⟨none, false, true, "answer", [], none⟩].map TypeDecl.withoutVis :=
  (parse_qualified_iff constFunction none
    [.function ⟨none, false, true, "answer", [], none⟩] rfl).mpr ⟨rfl, rfl, rfl⟩

/-- A struct is accepted, but not with `pub` in front of it. -/
theorem public_struct_refused :
    ¬ ∀ (item : Item) (decls : List TypeDecl), parseTypeDecls (item.tokens none) = .ok decls →
      ∀ restriction : Option TokenStream, ∃ qualified,
        parseTypeDecls (item.tokens (some restriction)) = .ok qualified ∧
          qualified.map TypeDecl.withoutVis = decls.map TypeDecl.withoutVis := by
  intro claim
  obtain ⟨qualified, parsed, _⟩ := claim
    ⟨[], .struct "S", [.group .brace [.ident "x", .punct ':', .ident "i32"]]⟩
    [.struct "S" [⟨"x", "i32"⟩]] rfl none
  cases parsed

end Rust

end Stdx
