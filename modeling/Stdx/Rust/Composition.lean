import Stdx.Rust.Parser

/-! # Declarations one after the other

Every parser that `parse_type_decls` hands its iterator to stops at a brace group
or a semicolon at the latest. A stream that ends with one of these is therefore
parsed independently of what follows it (`Stdx.Rust.parseTypeDecls_append`).
-/

namespace Stdx

namespace Rust

open Foundation

/-- The tokens that end a declaration: a brace group and a semicolon. -/
def TokenTree.isEnd (token : TokenTree) : Bool := token.isBrace || token.isPunct ';'

/-- The stream has a last token, which ends a declaration. -/
def Ends (tokens : TokenStream) : Prop := ∃ last ∈ tokens.getLast?, last.isEnd = true

/-- The stream is empty or ends with the end of a declaration. -/
def Terminated (tokens : TokenStream) : Prop := tokens = [] ∨ Ends tokens

variable {tokens rest left suffix : TokenStream} {token : TokenTree}

theorem Ends.ne_nil (ends : Ends tokens) : tokens ≠ [] := by
  rintro rfl
  obtain ⟨last, impossible, _⟩ := ends
  cases impossible

/-- What a suffix that is not empty ends with. -/
theorem Ends.of_suffix (ends : Ends tokens) (part : left <:+ tokens) : Terminated left := by
  obtain ⟨front, rfl⟩ := part
  obtain ⟨last, final, isEnd⟩ := ends
  rcases List.eq_nil_or_concat' left with rfl | ⟨init, other, rfl⟩
  · exact .inl rfl
  · rw [← List.append_assoc, List.getLast?_concat] at final
    exact .inr ⟨last, by rwa [List.getLast?_concat], isEnd⟩

theorem Ends.tail (ends : Ends (token :: rest)) : Terminated rest :=
  ends.of_suffix (List.suffix_cons _ _)

/-- After a token that ends nothing there is more. -/
theorem Ends.tail_of_not_end (ends : Ends (token :: rest)) (noEnd : token.isEnd = false) :
    Ends rest := by
  rcases ends.tail with rfl | more
  · obtain ⟨last, final, isEnd⟩ := ends
    cases final
    exact absurd isEnd (by simp [noEnd])
  · exact more

/-! ## The parsers on a longer input -/

theorem findBrace_append {stream : TokenStream} (found : findBrace tokens = some (stream, left))
    (suffix : TokenStream) : findBrace (tokens ++ suffix) = some (stream, left ++ suffix) := by
  fun_induction findBrace tokens with
  | case1 => cases found
  | case2 stream rest => cases found; rfl
  | case3 token rest other ih =>
      rw [List.cons_append, findBrace]
      · exact ih found
      · exact other

theorem collectReturn_append (ends : Ends tokens) (suffix : TokenStream) :
    collectReturn (tokens ++ suffix) =
        ((collectReturn tokens).1, (collectReturn tokens).2 ++ suffix) ∧
      Ends (collectReturn tokens).2 := by
  induction tokens with
  | nil => exact (ends.ne_nil rfl).elim
  | cons token rest ih =>
      unfold collectReturn
      rw [List.cons_append]
      cases isEnd : token.isEnd with
      | true =>
          unfold TokenTree.isEnd at isEnd
          simp only [isEnd, if_true]
          exact ⟨rfl, ends⟩
      | false =>
          obtain ⟨same, more⟩ := ih (ends.tail_of_not_end isEnd)
          unfold TokenTree.isEnd at isEnd
          simp only [isEnd, same, Bool.false_eq_true, if_false, true_and]
          exact more

theorem takeModifiers_append (count : Nat) (ends : Ends tokens) (suffix : TokenStream) :
    takeModifiers count (tokens ++ suffix) =
        ((takeModifiers count tokens).1, (takeModifiers count tokens).2 ++ suffix) ∧
      Ends (takeModifiers count tokens).2 := by
  fun_induction takeModifiers count tokens with
  | case1 count text rest modifier taken ih =>
      obtain ⟨same, more⟩ := ih (ends.tail_of_not_end rfl)
      simp only [List.cons_append, takeModifiers, modifier, if_true, same]
      exact ⟨rfl, more⟩
  | case2 count text rest noModifier =>
      simp only [List.cons_append, takeModifiers, noModifier]
      exact ⟨rfl, ends⟩
  | case3 count tokens other =>
      cases count with
      | zero => exact ⟨by rw [takeModifiers]; simp, ends⟩
      | succ count =>
          cases tokens with
          | nil => exact (ends.ne_nil rfl).elim
          | cons token rest =>
              cases token with
              | ident text => exact (other _ _ _ rfl rfl).elim
              | group | punct | literal => exact ⟨rfl, ends⟩

theorem readModifiers_append {modifiers read : Modifiers} {texts : List String}
    (ends : Ends tokens) (result : readModifiers modifiers texts tokens = .ok (read, left))
    (suffix : TokenStream) :
    readModifiers modifiers texts (tokens ++ suffix) = .ok (read, left ++ suffix) ∧
      Ends left := by
  fun_induction readModifiers modifiers texts tokens with
  | case1 => cases result; exact ⟨rfl, ends⟩
  | case2 _ _ _ ih => exact ih ends result
  | case3 _ _ _ _ ih => exact ih ends result
  | case4 _ _ _ _ _ ih => exact ih ends result
  | case5 _ _ _ _ _ name rest ih => exact ih (ends.tail_of_not_end rfl) result
  | case6 => cases result
  | case7 _ _ _ _ noPub noAsync noConst noFn ih =>
      unfold readModifiers
      rw [if_neg noPub, if_neg noAsync, if_neg noConst, if_neg noFn]
      exact ih ends result

theorem signature_skip_punct {p : Char} {fuel : Nat} {args : List Field} {ret : Option String}
    (noArrow : p ≠ '-') (noSemicolon : p ≠ ';') :
    signature (fuel + 1) args ret (.punct p :: rest) = signature fuel args ret rest := by
  rw [signature.eq_def]
  simp only [noArrow, noSemicolon, if_false]

theorem signature_skip {fuel : Nat} {args : List Field} {ret : Option String}
    (noParenthesis : ∀ stream, token = .group .parenthesis stream → False)
    (noBrace : ∀ stream, token = .group .brace stream → False)
    (noPunct : ∀ p, token = .punct p → False) :
    signature (fuel + 1) args ret (token :: rest) = signature fuel args ret rest := by
  cases token with
  | group delimiter stream =>
      cases delimiter with
      | parenthesis => exact (noParenthesis _ rfl).elim
      | brace => exact (noBrace _ rfl).elim
      | bracket | none => rfl
  | punct p => exact (noPunct p rfl).elim
  | ident | literal => rfl

/-- What the signature passes over does not end it. -/
theorem isEnd_of_skip (noBrace : ∀ stream, token = .group .brace stream → False)
    (noPunct : ∀ p, token = .punct p → False) : token.isEnd = false := by
  cases token with
  | group delimiter stream =>
      cases delimiter with
      | brace => exact (noBrace _ rfl).elim
      | parenthesis | bracket | none => rfl
  | punct p => exact (noPunct p rfl).elim
  | ident | literal => rfl

theorem signature_append {fuel more : Nat} {args argsOut : List Field}
    {ret retOut : Option String} (enough : tokens.length ≤ fuel) (enoughMore : tokens.length ≤ more)
    (ends : Ends tokens) (result : signature fuel args ret tokens = .ok (argsOut, retOut, left))
    (suffix : TokenStream) :
    signature more args ret (tokens ++ suffix) = .ok (argsOut, retOut, left ++ suffix) := by
  fun_induction signature fuel args ret tokens generalizing more with
  | case1 args ret tokens =>
      exact (ends.ne_nil (List.eq_nil_of_length_eq_zero (Nat.le_zero.mp enough))).elim
  | case2 => exact (ends.ne_nil rfl).elim
  | case3 fuel args ret rest stream ih =>
      obtain ⟨parsed, inner, later⟩ := bind_eq_ok.mp result
      obtain ⟨more, rfl⟩ := Nat.exists_eq_succ_of_ne_zero (Nat.ne_zero_of_lt enoughMore)
      have same := ih parsed (Nat.le_of_succ_le_succ enough) (Nat.le_of_succ_le_succ enoughMore)
        (ends.tail_of_not_end rfl) later
      rw [List.cons_append, signature, inner]
      exact same
  | case4 fuel args ret rest stream =>
      obtain ⟨more, rfl⟩ := Nat.exists_eq_succ_of_ne_zero (Nat.ne_zero_of_lt enoughMore)
      cases result
      rfl
  | case5 fuel args ret rest =>
      rename_i collected ih
      obtain ⟨more, rfl⟩ := Nat.exists_eq_succ_of_ne_zero (Nat.ne_zero_of_lt enoughMore)
      have inside : Ends rest := (ends.tail_of_not_end rfl).tail_of_not_end rfl
      obtain ⟨same, later⟩ := collectReturn_append inside suffix
      have shorter : collected.2.length ≤ rest.length := (collectReturn_suffix rest).length_le
      simp only [List.length_cons] at enough enoughMore
      rw [List.cons_append, List.cons_append, signature]
      simp only [if_true, same]
      exact ih (by omega) (by omega) later result
  | case6 => cases result
  | case7 => cases result
  | case8 fuel args ret rest =>
      obtain ⟨more, rfl⟩ := Nat.exists_eq_succ_of_ne_zero (Nat.ne_zero_of_lt enoughMore)
      cases result
      rfl
  | case9 fuel args ret rest p noArrow noSemicolon ih =>
      obtain ⟨more, rfl⟩ := Nat.exists_eq_succ_of_ne_zero (Nat.ne_zero_of_lt enoughMore)
      have noEnd : (TokenTree.punct p).isEnd = false := by
        simp [TokenTree.isEnd, TokenTree.isBrace, TokenTree.isPunct, noSemicolon]
      rw [List.cons_append, signature_skip_punct noArrow noSemicolon]
      exact ih (Nat.le_of_succ_le_succ enough) (Nat.le_of_succ_le_succ enoughMore)
        (ends.tail_of_not_end noEnd) result
  | case10 fuel args ret token rest noParenthesis noBrace noPunct ih =>
      obtain ⟨more, rfl⟩ := Nat.exists_eq_succ_of_ne_zero (Nat.ne_zero_of_lt enoughMore)
      rw [List.cons_append, signature_skip noParenthesis noBrace noPunct]
      exact ih (Nat.le_of_succ_le_succ enough) (Nat.le_of_succ_le_succ enoughMore)
        (ends.tail_of_not_end (isEnd_of_skip noBrace noPunct)) result

/-- A function signature is read from the declaration it belongs to. -/
theorem parseFunctionSig_append {firstToken : String} {sig : FunctionSig} (ends : Ends tokens)
    (result : parseFunctionSig firstToken tokens = .ok (sig, left)) (suffix : TokenStream) :
    parseFunctionSig firstToken (tokens ++ suffix) = .ok (sig, left ++ suffix) := by
  obtain ⟨modifiers, rest, name, args, ret, read, named, scanned, rfl⟩ :=
    parseFunctionSig_eq_ok.mp result
  obtain ⟨taken, more⟩ := takeModifiers_append 3 ends suffix
  obtain ⟨readMore, final⟩ := readModifiers_append more read suffix
  refine parseFunctionSig_eq_ok.mpr ⟨modifiers, rest ++ suffix, name, args, ret, ?_, named, ?_, rfl⟩
  · rw [taken]
    exact readMore
  · exact signature_append le_rfl (by simp) final scanned suffix

/-- A round on a terminated stream does the same when more follows. -/
theorem declRound_append {items : List TypeDecl} (terminated : Terminated (token :: rest))
    (step : declRound token rest = .ok (items, left)) :
    Terminated left ∧ ∀ suffix, declRound token (rest ++ suffix) = .ok (items, left ++ suffix) := by
  have ends : Ends (token :: rest) := terminated.resolve_left (List.cons_ne_nil _ _)
  refine ⟨ends.of_suffix ((declRound_advances _ _ _ _ step).trans (List.suffix_cons _ _)), ?_⟩
  intro suffix
  rw [declRound_eq_ok] at step ⊢
  cases step with
  | struct found parsed => exact .struct (findBrace_append found suffix) parsed
  | enum found parsed => exact .enum (findBrace_append found suffix) parsed
  | typeAlias => exact .typeAlias
  | function modifier parsed =>
      exact .function modifier (parseFunctionSig_append (ends.tail_of_not_end rfl) parsed suffix)
  | skip skipped => exact .skip skipped

/-- **Composition of declarations.** -/
theorem parseTypeDecls_append (first second : TokenStream) (decls : List TypeDecl)
    (terminated : Terminated first) (parsed : parseTypeDecls first = .ok decls) :
    (∀ more, parseTypeDecls second = .ok more →
        parseTypeDecls (first ++ second) = .ok (decls ++ more)) ∧
      ∀ error, parseTypeDecls second = .error error →
        parseTypeDecls (first ++ second) = .error error := by
  have composed := consume_append declRound_advances Terminated
    (fun _ _ _ _ closed step => declRound_append closed step) terminated parsed second
  change parseTypeDecls (first ++ second) = (parseTypeDecls second).map (decls ++ ·) at composed
  constructor
  · intro more result
    rw [composed, result]
    rfl
  · intro error result
    rw [composed, result]
    rfl

/-- A constant function, whose modifiers are read two tokens ahead. -/
def constantFn : TokenStream :=
  [.ident "pub", .ident "const", .ident "fn", .ident "one", .group .parenthesis [],
    .punct '-', .punct '>', .ident "u8", .group .brace [.literal "1"]]

theorem constantFn_append_alias :
    parseTypeDecls (constantFn ++ [.ident "type", .ident "Byte"]) =
      .ok [.function ⟨some "pub", false, true, "one", [], some "u8"⟩, .typeAlias "Byte"] :=
  (parseTypeDecls_append constantFn [.ident "type", .ident "Byte"]
    [.function ⟨some "pub", false, true, "one", [], some "u8"⟩]
    (.inr ⟨_, rfl, rfl⟩) (by decide)).1 [.typeAlias "Byte"] (by decide)

end Rust

end Stdx
