import Stdx.Rust.FieldGrammar
import Stdx.Rust.Visibility

/-! # Function declarations

Behind the name of a function every group in parentheses is read as its arguments and
the first `-` as its arrow, wherever they stand before the first group in braces or
semicolon (`Stdx.Rust.signature_cases`). A declaration that is accepted is recorded as
it was written exactly when its generic parameters, its return type and its where
clause keep out of that scan (`Stdx.Rust.parse_function_iff`).
-/

namespace Stdx

namespace Rust

open Foundation

/-- The token ends a signature: a group in braces or a semicolon. -/
def TokenTree.endsSignature (token : TokenTree) : Bool := token.isBrace || token.isPunct ';'

/-- The tokens that are scanned: those before the end of the signature. -/
def shown (tokens : TokenStream) : TokenStream := tokens.takeWhile fun token => !token.endsSignature

/-- The stream of a group in parentheses. -/
def TokenTree.arguments? : TokenTree → Option TokenStream
  | .group .parenthesis stream => some stream
  | _ => none

/-- The stream of the last group in parentheses. -/
def lastGroup : TokenStream → Option TokenStream
  | [] => none
  | token :: rest => (lastGroup rest).or token.arguments?

/-- The last group in parentheses is derived with the given fields; without a group
there are none. -/
def Denotes (front : TokenStream) (fields : List Field) : Prop :=
  match lastGroup front with
  | none => fields = []
  | some stream => ∃ derivation : Derivation, derivation.tokens = stream ∧
      derivation.fields = fields

/-- A function as it is declared: its modifiers, its name, which is not a keyword, its
generic parameters, its parameters, its return type, its where clause, and its body
unless it ends with a semicolon. -/
structure FunctionDecl where
  isPub : Bool
  isConst : Bool
  isAsync : Bool
  name : String
  name_plain : isModifier name = false
  generics : Option TokenStream
  trailing : Bool
  params : List FieldDecl
  ret : Option TokenStream
  whereClause : Option TokenStream
  body : Option TokenStream

namespace FunctionDecl

/-- The modifiers, up to `fn`. -/
def words (decl : FunctionDecl) : List String :=
  (if decl.isPub then ["pub"] else []) ++ (if decl.isConst then ["const"] else []) ++
    (if decl.isAsync then ["async"] else []) ++ ["fn"]

/-- The generic parameters in their brackets. -/
def genericTokens (decl : FunctionDecl) : TokenStream :=
  match decl.generics with
  | none => []
  | some generics => .punct '<' :: (generics ++ [.punct '>'])

/-- The group of the parameters. -/
def paramGroup (decl : FunctionDecl) : TokenTree :=
  .group .parenthesis (renderFields decl.trailing decl.params)

/-- The arrow and the return type. -/
def retTokens (decl : FunctionDecl) : TokenStream :=
  match decl.ret with
  | none => []
  | some ty => .punct '-' :: .punct '>' :: ty

/-- The where clause. -/
def whereTokens (decl : FunctionDecl) : TokenStream :=
  match decl.whereClause with
  | none => []
  | some clause => .ident "where" :: clause

/-- The body or the semicolon. -/
def ending (decl : FunctionDecl) : TokenTree :=
  match decl.body with
  | none => .punct ';'
  | some stream => .group .brace stream

/-- The tokens behind the generic parameters. -/
def afterGenerics (decl : FunctionDecl) : TokenStream :=
  decl.paramGroup :: (decl.retTokens ++ (decl.whereTokens ++ [decl.ending]))

/-- The tokens behind the name. -/
def afterName (decl : FunctionDecl) : TokenStream := decl.genericTokens ++ decl.afterGenerics

/-- The tokens of the declaration. -/
def tokens (decl : FunctionDecl) : TokenStream :=
  decl.words.map .ident ++ .ident decl.name :: decl.afterName

/-- The parameters that are declared. -/
def fields (decl : FunctionDecl) : List Field := decl.params.map FieldDecl.field

/-- The signature that is declared. -/
def sig (decl : FunctionDecl) : FunctionSig where
  vis := if decl.isPub then some "pub" else none
  isAsync := decl.isAsync
  isConst := decl.isConst
  name := decl.name
  args := decl.fields
  ret := decl.ret.map fun ty => trim (textOf ty)

/-- Neither an arrow nor the end of a signature is in the generic parameters, no end is in
the return type, no where clause follows it, and no parameter has a visibility or a comma
at the top of its type. -/
structure Orderly (decl : FunctionDecl) (ty : TokenStream) : Prop where
  generics : ∀ token ∈ decl.genericTokens,
    token.endsSignature = false ∧ token.isPunct '-' = false
  ret : ∀ token ∈ ty, token.endsSignature = false
  noWhere : decl.whereClause = none
  params : ∀ param ∈ decl.params, param.Plain

/-- The generic parameters have an arrow, before it a group that is derived with the
declared parameters, and behind it the text of the return type. -/
def Coincides (decl : FunctionDecl) (ty : TokenStream) : Prop :=
  ∃ front behind, decl.genericTokens = front ++ .punct '-' :: .punct '>' :: behind ∧
    (∀ token ∈ front, token.endsSignature = false ∧ token.isPunct '-' = false) ∧
      Denotes front decl.fields ∧
        trim (textOf (shown (behind ++ decl.afterGenerics))) = trim (textOf ty)

/-- What is around the parameters and the return type keeps out of the scan: without a
return type there is no arrow, and the last group is derived with the parameters. -/
def Undisturbed (decl : FunctionDecl) : Prop :=
  match decl.ret with
  | none => (∀ token ∈ shown decl.afterName, token.isPunct '-' = false) ∧
      Denotes (shown decl.afterName) decl.fields
  | some ty => decl.Orderly ty ∨ decl.Coincides ty

end FunctionDecl

variable {tokens rest left front : TokenStream} {token : TokenTree} {decl : FunctionDecl}

/-! ## Texts -/

/-- The number of characters of a text that trimming cannot take away. -/
def ink (text : String) : Nat := text.toList.countP fun char => !isWhitespace char

theorem ink_append (first second : String) : ink (first ++ second) = ink first + ink second := by
  rw [ink, String.toList_append, List.countP_append]
  rfl

theorem ink_textOf_append (first second : TokenStream) :
    ink (textOf (first ++ second)) = ink (textOf first) + ink (textOf second) := by
  induction first with
  | nil => exact (Nat.zero_add _).symm
  | cons token first ih =>
      rw [List.cons_append, textOf_cons, textOf_cons, ink_append, ink_append, ih, Nat.add_assoc]

theorem ink_trim (text : String) : ink (trim text) = ink text :=
  countP_trim (fun char blank => by rw [blank]; rfl) text

/-- A text that goes on with a visible token differs from what is before it. -/
theorem trim_ne_of_ink (visible : 0 < ink (tokenToString token)) (before after : TokenStream) :
    trim (textOf before) ≠ trim (textOf (before ++ token :: after)) := by
  intro same
  have equal := congrArg ink same
  rw [ink_trim, ink_trim, ink_textOf_append, textOf_cons, ink_append] at equal
  omega

/-! ## What is scanned -/

/-- Tokens that do not end a signature are scanned. -/
theorem shown_append (goesOn : ∀ token ∈ front, token.endsSignature = false)
    (rest : TokenStream) : shown (front ++ rest) = front ++ shown rest :=
  List.takeWhile_append_of_pos fun token member => by rw [goesOn token member]; rfl

theorem shown_cons (goesOn : token.endsSignature = false) (rest : TokenStream) :
    shown (token :: rest) = token :: shown rest :=
  List.takeWhile_cons_of_pos (by rw [goesOn]; rfl)

/-- At the end of a signature nothing more is scanned. -/
theorem shown_of_end (ends : token.endsSignature = true) (rest : TokenStream) :
    shown (token :: rest) = [] :=
  List.takeWhile_cons_of_neg (by rw [ends]; decide)

/-- What is scanned first, if it is not what stands behind some tokens, is among them. -/
theorem exists_of_cons_eq_shown {first : TokenTree} {behind : TokenStream}
    (differs : first ≠ token) (same : token :: behind = shown (front ++ first :: rest)) :
    ∃ others, front = token :: others ∧ behind = shown (others ++ first :: rest) := by
  cases front with
  | nil =>
      cases ends : first.endsSignature with
      | true =>
          rw [List.nil_append, shown_of_end ends] at same
          cases same
      | false =>
          rw [List.nil_append, shown_cons ends] at same
          exact (differs (List.cons.inj same).1.symm).elim
  | cons head others =>
      cases ends : head.endsSignature with
      | true =>
          rw [List.cons_append, shown_of_end ends] at same
          cases same
      | false =>
          rw [List.cons_append, shown_cons ends] at same
          obtain ⟨rfl, later⟩ := List.cons.inj same
          exact ⟨others, rfl, later⟩

/-- A return type is collected up to the end of the signature. -/
theorem collectReturn_text (tokens : TokenStream) :
    (collectReturn tokens).1 = textOf (shown tokens) := by
  induction tokens with
  | nil => rfl
  | cons token rest ih =>
      unfold collectReturn
      split
      · rename_i ends
        rw [shown_of_end ends]
        rfl
      · rename_i goesOn
        rw [shown_cons (Bool.eq_false_iff.mpr goesOn), textOf_cons, ← ih]

theorem collectReturn_ends (same : (collectReturn tokens).2 = token :: rest) :
    token.endsSignature = true := by
  induction tokens with
  | nil => cases same
  | cons head tokens ih =>
      unfold collectReturn at same
      split at same
      · rename_i ends
        cases same
        exact ends
      · exact ih same

/-- The arguments that the last group in parentheses leaves. -/
def ArgsFrom (args : List Field) (front : TokenStream) (argsOut : List Field) : Prop :=
  match lastGroup front with
  | none => argsOut = args
  | some stream => parseFnArgs stream = .ok argsOut

variable {args middle argsOut : List Field} {ret retOut : Option String} {fields : List Field}

theorem ArgsFrom.cons (step : ArgsFrom args [token] middle)
    (later : ArgsFrom middle front argsOut) : ArgsFrom args (token :: front) argsOut := by
  unfold ArgsFrom at later ⊢
  rw [lastGroup]
  cases last : lastGroup front with
  | some stream =>
      rw [last] at later
      exact later
  | none =>
      rw [last] at later
      obtain rfl : argsOut = middle := later
      exact step

/-- From no arguments, those of the last group are the given ones when it denotes them. -/
theorem ArgsFrom.eq_iff (read : ArgsFrom [] front args) :
    args = fields ↔ Denotes front fields := by
  unfold ArgsFrom at read
  unfold Denotes
  cases last : lastGroup front with
  | none =>
      rw [last] at read
      obtain rfl : args = [] := read
      exact eq_comm
  | some stream =>
      rw [last] at read
      have parsed : parseFnArgs stream = .ok args := read
      refine Iff.trans ?_ (consume_eq_ok_iff "argument")
      constructor
      · rintro rfl
        exact parsed
      · intro same
        exact Except.ok.inj (parsed.symm.trans same)

/-- What a scan has read: the arguments of the last group before the arrow, and the text
behind it. -/
inductive Scanned (args : List Field) (ret : Option String) (tokens : TokenStream) :
    List Field → Option String → Prop
  | plain {argsOut : List Field} (noArrow : ∀ token ∈ shown tokens, token.isPunct '-' = false)
      (read : ArgsFrom args (shown tokens) argsOut) : Scanned args ret tokens argsOut ret
  | arrow {front behind : TokenStream} {argsOut : List Field}
      (split : shown tokens = front ++ .punct '-' :: .punct '>' :: behind)
      (noArrow : ∀ token ∈ front, token.isPunct '-' = false)
      (read : ArgsFrom args front argsOut) :
      Scanned args ret tokens argsOut (some (trim (textOf behind)))

/-- At the end of a signature the arguments stay. -/
theorem Scanned.of_end (ends : shown tokens = []) : Scanned args ret tokens args ret :=
  .plain (by rw [ends]; exact List.forall_mem_nil _)
    (by rw [ends]; exact rfl)

/-- One token more in front of a scan. -/
theorem Scanned.cons (goesOn : token.endsSignature = false) (noArrow : token.isPunct '-' = false)
    (step : ArgsFrom args [token] middle) (scanned : Scanned middle ret tokens argsOut retOut) :
    Scanned args ret (token :: tokens) argsOut retOut := by
  have first := shown_cons goesOn tokens
  cases scanned with
  | plain later read =>
      refine .plain ?_ ?_
      · rw [first]
        exact List.forall_mem_cons.mpr ⟨noArrow, later⟩
      · rw [first]
        exact step.cons read
  | @arrow front behind _ split later read =>
      have longer : shown (token :: tokens) =
          (token :: front) ++ .punct '-' :: .punct '>' :: behind := by
        rw [first, split]
        rfl
      exact .arrow longer (List.forall_mem_cons.mpr ⟨noArrow, later⟩) (step.cons read)

/-- A scan that is at the end of the signature leaves what was read. -/
theorem signature_of_end {fuel : Nat} (ends : token.endsSignature = true)
    (scanned : signature fuel args ret (token :: rest) = .ok (argsOut, retOut, left)) :
    argsOut = args ∧ retOut = ret := by
  cases fuel with
  | zero =>
      cases scanned
      exact ⟨rfl, rfl⟩
  | succ fuel =>
      cases token with
      | group delimiter stream =>
          cases delimiter with
          | brace =>
              cases scanned
              exact ⟨rfl, rfl⟩
          | parenthesis | bracket | none => cases ends
      | punct p =>
          obtain rfl : p = ';' := of_decide_eq_true ends
          cases scanned
          exact ⟨rfl, rfl⟩
      | ident | literal => cases ends

/-- **The scan of a signature.** -/
theorem signature_cases {fuel : Nat} (enough : tokens.length ≤ fuel)
    (scanned : signature fuel args ret tokens = .ok (argsOut, retOut, left)) :
    Scanned args ret tokens argsOut retOut := by
  fun_induction signature fuel args ret tokens with
  | case1 args ret tokens =>
      obtain rfl := List.eq_nil_of_length_eq_zero (Nat.le_zero.mp enough)
      cases scanned
      exact .of_end rfl
  | case2 =>
      cases scanned
      exact .of_end rfl
  | case3 fuel args ret rest stream ih =>
      obtain ⟨parsed, read, later⟩ := bind_eq_ok.mp scanned
      exact .cons rfl rfl read (ih parsed (Nat.le_of_succ_le_succ enough) later)
  | case4 =>
      cases scanned
      exact .of_end (shown_of_end rfl _)
  | case5 fuel args ret rest collected ih =>
      obtain ⟨rfl, rfl⟩ : argsOut = args ∧ retOut = some (trim collected.1) := by
        cases stopped : collected.2 with
        | nil =>
            rw [stopped] at scanned
            cases fuel <;> cases scanned <;> exact ⟨rfl, rfl⟩
        | cons token after =>
            rw [stopped] at scanned
            exact signature_of_end (collectReturn_ends stopped) scanned
      have shows : shown (.punct '-' :: .punct '>' :: rest) =
          [] ++ .punct '-' :: .punct '>' :: shown rest := rfl
      rw [show collected.1 = textOf (shown rest) from collectReturn_text rest]
      exact .arrow shows (List.forall_mem_nil _) rfl
  | case6 => cases scanned
  | case7 => cases scanned
  | case8 =>
      cases scanned
      exact .of_end (shown_of_end rfl _)
  | case9 fuel args ret rest p noArrow noEnd ih =>
      exact .cons (decide_eq_false noEnd) (decide_eq_false noArrow) rfl
        (ih (Nat.le_of_succ_le_succ enough) scanned)
  | case10 fuel args ret token rest noGroup noBody noPunct ih =>
      have other : token.endsSignature = false ∧ token.isPunct '-' = false ∧
          token.arguments? = none := by
        cases token with
        | group delimiter stream =>
            cases delimiter with
            | parenthesis => exact (noGroup _ rfl).elim
            | brace => exact (noBody _ rfl).elim
            | bracket | none => exact ⟨rfl, rfl, rfl⟩
        | punct p => exact (noPunct p rfl).elim
        | ident | literal => exact ⟨rfl, rfl, rfl⟩
      have step : ArgsFrom args [token] args := by
        unfold ArgsFrom lastGroup
        rw [other.2.2]
        rfl
      exact .cons other.1 other.2.1 step (ih (Nat.le_of_succ_le_succ enough) scanned)

/-! ## Declared functions -/

namespace FunctionDecl

theorem words_modifiers (decl : FunctionDecl) : ∀ text ∈ decl.words, isModifier text = true := by
  unfold FunctionDecl.words
  cases decl.isPub <;> cases decl.isConst <;> cases decl.isAsync <;> decide

theorem words_length (decl : FunctionDecl) : decl.words.length ≤ 4 := by
  unfold FunctionDecl.words
  cases decl.isPub <;> cases decl.isConst <;> cases decl.isAsync <;> decide

/-- The modifiers and the name are read as they are declared. -/
theorem readModifiers_words (decl : FunctionDecl) (rest : TokenStream) :
    readModifiers ⟨none, false, false, none⟩ decl.words (.ident decl.name :: rest) =
      .ok (⟨decl.sig.vis, decl.isAsync, decl.isConst, some decl.name⟩, rest) := by
  unfold FunctionDecl.words FunctionDecl.sig
  cases decl.isPub <;> cases decl.isConst <;> cases decl.isAsync <;> rfl

/-- What is read of a declaration: its modifiers, its name, and the scan behind them. -/
theorem exists_scan {decls : List TypeDecl} (parsed : parseTypeDecls decl.tokens = .ok decls) :
    ∃ args ret more, Scanned [] none decl.afterName args ret ∧
      decls = .function { decl.sig with args, ret } :: more := by
  cases words : decl.words with
  | nil =>
      have last : "fn" ∈ decl.words := List.mem_append_right _ (List.mem_singleton_self _)
      rw [words] at last
      exact absurd last List.not_mem_nil
  | cons text others =>
      have modifiers := decl.words_modifiers
      have few := decl.words_length
      have read := decl.readModifiers_words decl.afterName
      rw [words] at modifiers few read
      obtain ⟨modifier, othersModify⟩ := List.forall_mem_cons.mp modifiers
      have taken : takeModifiers 3 (others.map .ident ++ .ident decl.name :: decl.afterName) =
          (others, .ident decl.name :: decl.afterName) :=
        takeModifiers_words othersModify (Nat.le_of_succ_le_succ few) decl.name_plain
      rw [FunctionDecl.tokens, words, List.map_cons, List.cons_append] at parsed
      obtain ⟨items, left, more, step, _, rfl⟩ :=
        (consume_cons_eq_ok declRound_advances).mp parsed
      rw [declRound_of_modifier modifier] at step
      obtain ⟨⟨sig, after⟩, isFunction, same⟩ := map_eq_ok.mp step
      cases same
      obtain ⟨found, behind, name, args, ret, modified, named, scanned, rfl⟩ :=
        parseFunctionSig_eq_ok.mp isFunction
      rw [taken, read] at modified
      cases modified
      cases named
      exact ⟨args, ret, more, signature_cases le_rfl scanned, rfl⟩

theorem sig_eq_iff {args : List Field} {ret : Option String} :
    { decl.sig with args, ret } = decl.sig ↔
      args = decl.fields ∧ ret = decl.ret.map fun ty => trim (textOf ty) := by
  constructor
  · intro same
    exact ⟨congrArg FunctionSig.args same, congrArg FunctionSig.ret same⟩
  · rintro ⟨rfl, rfl⟩
    rfl

theorem ending_ends (decl : FunctionDecl) : decl.ending.endsSignature = true := by
  unfold FunctionDecl.ending
  cases decl.body <;> rfl

/-- The group of the parameters denotes them when each of them is plain. -/
theorem denotes_paramGroup (decl : FunctionDecl) (front : TokenStream) :
    Denotes (front ++ [decl.paramGroup]) decl.fields ↔ ∀ param ∈ decl.params, param.Plain := by
  have last : lastGroup (front ++ [decl.paramGroup]) =
      some (renderFields decl.trailing decl.params) := by
    induction front with
    | nil => rfl
    | cons token front ih => rw [List.cons_append, lastGroup, ih]; rfl
  unfold Denotes
  rw [last]
  exact (consume_eq_ok_iff "argument").symm.trans
    (consume_render_iff "argument" decl.trailing decl.params)

/-- Behind an arrow before the end of the declaration the text is that of the type when the
type has no end of a signature and no where clause follows. -/
theorem text_eq_iff (decl : FunctionDecl) (ty : TokenStream) :
    trim (textOf (shown (ty ++ (decl.whereTokens ++ [decl.ending])))) = trim (textOf ty) ↔
      (∀ token ∈ ty, token.endsSignature = false) ∧ decl.whereClause = none := by
  by_cases goesOn : ∀ token ∈ ty, token.endsSignature = false
  · rw [shown_append goesOn]
    unfold FunctionDecl.whereTokens
    cases clause : decl.whereClause with
    | none =>
        rw [List.nil_append, shown_of_end decl.ending_ends, List.append_nil]
        exact ⟨fun _ => ⟨goesOn, rfl⟩, fun _ => rfl⟩
    | some tokens =>
        rw [List.cons_append, shown_cons rfl]
        have differs : trim (textOf ty) ≠
            trim (textOf (ty ++ .ident "where" :: shown (tokens ++ [decl.ending]))) :=
          trim_ne_of_ink (by decide) ty _
        constructor
        · intro same
          exact (differs same.symm).elim
        · rintro ⟨_, none⟩
          cases none
  · obtain ⟨before, token, after, rfl, plain, ends⟩ := exists_first goesOn
    have visible : 0 < ink (tokenToString token) := by
      cases token with
      | group => exact (by decide : 0 < ink "<group>")
      | punct p =>
          obtain rfl : p = ';' := of_decide_eq_true ends
          decide
      | ident | literal => cases ends
    rw [List.append_assoc, shown_append plain, List.cons_append, shown_of_end ends,
      List.append_nil]
    constructor
    · intro same
      exact (trim_ne_of_ink visible before after same).elim
    · intro both
      exact (goesOn both.1).elim

/-- Without a return type a scan is the declared one when it meets no arrow and its last
group denotes the parameters. -/
theorem scanned_none_iff {args : List Field} {ret : Option String}
    (scanned : Scanned [] none tokens args ret) :
    (args = decl.fields ∧ ret = none) ↔
      (∀ token ∈ shown tokens, token.isPunct '-' = false) ∧ Denotes (shown tokens) decl.fields := by
  cases scanned with
  | plain noArrow read =>
      rw [read.eq_iff]
      exact ⟨fun both => ⟨noArrow, both.1⟩, fun both => ⟨both.2, rfl⟩⟩
  | arrow split _ _ =>
      constructor
      · rintro ⟨_, none⟩
        cases none
      · rintro ⟨noArrow, _⟩
        exact (ne_of_unmarked noArrow rfl split).elim

/-- The token ends what a scan can pass: an arrow or the end of the signature. -/
def halts (token : TokenTree) : Bool := token.endsSignature || token.isPunct '-'

theorem halts_eq_false : halts token = false ↔
    token.endsSignature = false ∧ token.isPunct '-' = false :=
  Bool.or_eq_false_iff

/-- What is scanned of a declaration whose generic parameters can be passed. -/
theorem shown_of_passed {ty : TokenStream} (returns : decl.ret = some ty)
    (passed : ∀ token ∈ decl.genericTokens, halts token = false) :
    shown decl.afterName = (decl.genericTokens ++ [decl.paramGroup]) ++
      .punct '-' :: .punct '>' :: shown (ty ++ (decl.whereTokens ++ [decl.ending])) := by
  unfold FunctionDecl.afterName FunctionDecl.afterGenerics FunctionDecl.retTokens
  rw [returns, shown_append fun token member => (halts_eq_false.mp (passed token member)).1,
    List.append_assoc]
  rfl

/-- Generic parameters that can be passed: the declaration is read as it is written when it
is orderly. -/
theorem scanned_some_iff_orderly {ty : TokenStream} {args : List Field} {ret : Option String}
    (returns : decl.ret = some ty) (passed : ∀ token ∈ decl.genericTokens, halts token = false)
    (scanned : Scanned [] none decl.afterName args ret) :
    (args = decl.fields ∧ ret = some (trim (textOf ty))) ↔ decl.Orderly ty := by
  have shows := shown_of_passed returns passed
  have free : ∀ token ∈ decl.genericTokens ++ [decl.paramGroup], token.isPunct '-' = false :=
    List.forall_mem_append.mpr ⟨fun token member => (halts_eq_false.mp (passed token member)).2,
      List.forall_mem_singleton.mpr rfl⟩
  cases scanned with
  | plain noArrow _ => exact (ne_of_unmarked noArrow rfl shows).elim
  | arrow split noArrow read =>
      obtain ⟨rfl, _, behind⟩ := first_unique noArrow free rfl rfl (split.symm.trans shows)
      obtain rfl := (List.cons.inj behind).2
      rw [read.eq_iff, decl.denotes_paramGroup, Option.some_inj, decl.text_eq_iff]
      constructor
      · rintro ⟨plain, goesOn, noWhere⟩
        exact ⟨fun token member => halts_eq_false.mp (passed token member), goesOn, noWhere, plain⟩
      · intro orderly
        exact ⟨orderly.params, orderly.ret, orderly.noWhere⟩

/-- A coincidence begins at the first token that a scan cannot pass. -/
theorem coincides_iff {before after ty : TokenStream}
    (generics : decl.genericTokens = before ++ token :: after)
    (passed : ∀ token ∈ before, halts token = false) (halt : halts token = true) :
    decl.Coincides ty ↔ ∃ behind, token = .punct '-' ∧ after = .punct '>' :: behind ∧
      Denotes before decl.fields ∧
        trim (textOf (shown (behind ++ decl.afterGenerics))) = trim (textOf ty) := by
  constructor
  · rintro ⟨front, behind, same, plain, both⟩
    have free : ∀ token ∈ front, halts token = false :=
      fun token member => halts_eq_false.mpr (plain token member)
    obtain ⟨rfl, rfl, rfl⟩ := first_unique passed free halt rfl (generics.symm.trans same)
    exact ⟨behind, rfl, rfl, both⟩
  · rintro ⟨behind, rfl, rfl, both⟩
    exact ⟨before, behind, generics, fun token member => halts_eq_false.mp (passed token member),
      both⟩

/-- Generic parameters that a scan cannot pass: the declaration is read as it is written by
coincidence only. -/
theorem scanned_some_iff_coincides {ty : TokenStream} {args : List Field} {ret : Option String}
    (stopped : ¬ ∀ token ∈ decl.genericTokens, halts token = false)
    (scanned : Scanned [] none decl.afterName args ret) :
    (args = decl.fields ∧ ret = some (trim (textOf ty))) ↔ decl.Coincides ty := by
  obtain ⟨before, token, after, generics, passed, halt⟩ := exists_first stopped
  have free : ∀ token ∈ before, token.isPunct '-' = false :=
    fun token member => (halts_eq_false.mp (passed token member)).2
  have shows : shown decl.afterName = before ++ shown (token :: (after ++ decl.afterGenerics)) := by
    rw [FunctionDecl.afterName, generics, List.append_assoc,
      shown_append fun token member => (halts_eq_false.mp (passed token member)).1]
    rfl
  rw [coincides_iff generics passed halt]
  cases scanned with
  | plain noArrow _ =>
      constructor
      · rintro ⟨_, none⟩
        cases none
      · rintro ⟨behind, rfl, rfl, _⟩
        exact (ne_of_unmarked noArrow rfl shows).elim
  | @arrow front behind _ split noArrow read =>
      cases ends : token.endsSignature with
      | true =>
          rw [shown_of_end ends, List.append_nil] at shows
          rw [← shows] at free
          exact (ne_of_unmarked free rfl split).elim
      | false =>
          have isArrow : token.isPunct '-' = true := by
            unfold halts at halt
            rwa [ends, Bool.false_or] at halt
          obtain rfl := TokenTree.eq_punct isArrow
          rw [shown_cons rfl] at shows
          obtain ⟨rfl, _, later⟩ := first_unique noArrow free rfl rfl (split.symm.trans shows)
          -- the arrow is whole inside the generic parameters: behind them stands a group
          obtain ⟨rest, rfl, rfl⟩ := exists_of_cons_eq_shown (by rintro ⟨⟩) later
          rw [read.eq_iff, Option.some_inj]
          refine ⟨fun both => ⟨rest, rfl, rfl, both⟩, ?_⟩
          rintro ⟨other, _, same, both⟩
          obtain rfl := (List.cons.inj same).2
          exact both

end FunctionDecl

/-- **Function declarations.** A declaration that is accepted is recorded with its own
modifiers, name, parameters and return type exactly when it is undisturbed. -/
theorem parse_function_iff (decl : FunctionDecl) (decls : List TypeDecl)
    (parsed : parseTypeDecls decl.tokens = .ok decls) :
    (∃ more, decls = .function decl.sig :: more) ↔ decl.Undisturbed := by
  obtain ⟨args, ret, others, scanned, rfl⟩ := decl.exists_scan parsed
  have recorded : (∃ more, TypeDecl.function { decl.sig with args, ret } :: others =
      .function decl.sig :: more) ↔
        args = decl.fields ∧ ret = decl.ret.map fun ty => trim (textOf ty) := by
    rw [← FunctionDecl.sig_eq_iff]
    constructor
    · rintro ⟨more, same⟩
      exact TypeDecl.function.inj (List.cons.inj same).1
    · intro same
      exact ⟨others, by rw [same]⟩
  rw [recorded]
  unfold FunctionDecl.Undisturbed
  cases returns : decl.ret with
  | none => exact FunctionDecl.scanned_none_iff scanned
  | some ty =>
      by_cases passed : ∀ token ∈ decl.genericTokens, FunctionDecl.halts token = false
      · refine (FunctionDecl.scanned_some_iff_orderly returns passed scanned).trans ?_
        refine ⟨Or.inl, ?_⟩
        rintro (orderly | ⟨front, behind, same, _⟩)
        · exact orderly
        · exact (ne_of_unmarked passed rfl same).elim
      · refine (FunctionDecl.scanned_some_iff_coincides passed scanned).trans ?_
        refine ⟨Or.inr, ?_⟩
        rintro (orderly | coincides)
        · exact (passed fun token member =>
            FunctionDecl.halts_eq_false.mpr (orderly.generics token member)).elim
        · exact coincides

/-- `fn f<T>(x: u8) -> T {}`. -/
def genericFunction : FunctionDecl where
  isPub := false
  isConst := false
  isAsync := false
  name := "f"
  name_plain := by decide
  generics := some [.ident "T"]
  trailing := false
  params := [⟨[], none, "x", [.ident "u8"]⟩]
  ret := some [.ident "T"]
  whereClause := none
  body := some []

theorem genericFunction_recorded :
    parseTypeDecls genericFunction.tokens = .ok [.function genericFunction.sig] ∧
      genericFunction.Undisturbed :=
  ⟨rfl, (parse_function_iff genericFunction [.function genericFunction.sig] rfl).mp ⟨[], rfl⟩⟩

/-- `fn f<F: Fn() -> u8>(x: u8) {}` is read without arguments and with a return type. -/
theorem bound_recorded :
    ¬ ∀ (decl : FunctionDecl) (decls : List TypeDecl), parseTypeDecls decl.tokens = .ok decls →
      ∃ more, decls = .function decl.sig :: more := by
  intro claim
  obtain ⟨more, same⟩ := claim
    { genericFunction with
      generics := some [.ident "F", .punct ':', .ident "Fn", .group .parenthesis [],
        .punct '-', .punct '>', .ident "u8"]
      ret := none }
    [.function ⟨none, false, false, "f", [], some "u8><group>"⟩] rfl
  have text := congrArg FunctionSig.ret (TypeDecl.function.inj (List.cons.inj same).1)
  cases text

end Rust

end Stdx
