import Stdx.Foundation.Words
import Stdx.Rust.StructFields

/-! # The text of a type

The type of a field becomes a text by writing its tokens one after the other
without anything between them, and a group of any kind as `<group>`. Types of
separate tokens without groups have different texts, whatever tokens they
differ in. Beyond these, two types can have different texts only when they
differ as sequences of words and marks, in which a group is a `<`, a word
and a `>`, and neighbouring words are one (`Stdx.Rust.type_text_differs`).
-/

namespace Stdx

namespace Rust

open Foundation

/-- `LEGAL_CHARS`: the characters a punctuation may be. -/
def legalChars : List Char :=
  ['=', '<', '>', '!', '~', '+', '-', '*', '/', '%', '^', '&', '|', '@', '.', ',', ';', ':', '#',
    '$', '?', '\'']

/-- The character is that of a punctuation. -/
def isPunctuation (char : Char) : Bool := legalChars.contains char

/-- The letters are those of a literal, which begins with a digit or has quotes. -/
def isLiteral (letters : List Char) : Bool :=
  letters.head?.any Char.isDigit || letters.contains '"'

/-- The letters are those of a word: there are some, none of which is white
space or a punctuation. -/
def IsWord (letters : List Char) : Prop :=
  letters ≠ [] ∧ ∀ letter ∈ letters, isWhitespace letter = false ∧ isPunctuation letter = false

instance (letters : List Char) : Decidable (IsWord letters) :=
  -- not by going through all characters
  have := List.decidableBAll (fun letter => isWhitespace letter = false ∧
    isPunctuation letter = false) letters
  inferInstanceAs (Decidable (_ ∧ _))

namespace TokenTree

/-- The token is an identifier or a literal of one word, a punctuation, or a group. -/
def Lexed : TokenTree → Prop
  | .group _ _ => True
  | .ident text => IsWord text.toList ∧ isLiteral text.toList = false
  | .punct char => isPunctuation char = true
  | .literal text => IsWord text.toList ∧ isLiteral text.toList = true

instance : (token : TokenTree) → Decidable token.Lexed
  | .group _ _ => inferInstanceAs (Decidable True)
  | .ident _ | .literal _ => inferInstanceAs (Decidable (_ ∧ _))
  | .punct _ => inferInstanceAs (Decidable (_ = true))

end TokenTree

/-- The words and marks of a type. -/
def signs : TokenStream → List (Sign Char)
  | [] => []
  | .group _ _ :: rest => .mark '<' :: joinWord "group".toList (.mark '>' :: signs rest)
  | .ident text :: rest => joinWord text.toList (signs rest)
  | .punct char :: rest => .mark char :: signs rest
  | .literal text :: rest => joinWord text.toList (signs rest)

/-- A type without groups, in which no two words are neighbours. -/
def Separate : TokenStream → Prop
  | [] => True
  | .group _ _ :: _ => False
  | .punct _ :: rest => Separate rest
  | .ident _ :: rest | .literal _ :: rest =>
      (∀ next ∈ rest.head?, ∃ char, next = .punct char) ∧ Separate rest

variable {tokens first second : TokenStream}

/-! ## Signs and texts -/

/-- The letters written for a group. -/
theorem group_letters (rest : List Char) :
    "<group>".toList ++ rest = '<' :: ("group".toList ++ '>' :: rest) := by
  have letters : "<group>".toList = '<' :: ("group".toList ++ ['>']) := by decide
  rw [letters, List.cons_append, List.append_assoc, List.singleton_append]

theorem group_isWord : IsWord "group".toList := by decide

/-- The signs of a type spell its text. -/
theorem spell_signs (tokens : TokenStream) : spell (signs tokens) = (textOf tokens).toList := by
  induction tokens with
  | nil => rfl
  | cons token rest ih =>
      rw [textOf_cons, String.toList_append, ← ih]
      cases token with
      | group delimiter stream =>
          rw [signs, spell, spell_joinWord, spell, tokenToString, group_letters]
      | ident text => exact spell_joinWord _ _
      | punct char =>
          rw [signs, spell, tokenToString, String.toList_ofList]
          rfl
      | literal text => exact spell_joinWord _ _

theorem isWhitespace_of_isPunctuation {char : Char} (mark : isPunctuation char = true) :
    isWhitespace char = false := by
  have blank : legalChars.all (fun char => !isWhitespace char) = true := by decide
  exact (Bool.not_eq_true' _).mp (List.all_eq_true.mp blank char (List.contains_iff_mem.mp mark))

/-- No token has white space. -/
theorem TokenTree.Lexed.visible {token : TokenTree} (lexed : token.Lexed) :
    ∀ char ∈ (tokenToString token).toList, isWhitespace char = false := by
  cases token with
  | group delimiter stream =>
      rw [tokenToString, ← List.append_nil "<group>".toList, group_letters]
      refine List.forall_mem_cons.mpr ⟨by decide, List.forall_mem_append.mpr ⟨?_, ?_⟩⟩
      · exact fun char member => (group_isWord.2 char member).1
      · exact List.forall_mem_singleton.mpr (by decide)
  | ident text => exact fun char member => (lexed.1.2 char member).1
  | literal text => exact fun char member => (lexed.1.2 char member).1
  | punct char =>
      rw [tokenToString, String.toList_ofList]
      exact List.forall_mem_singleton.mpr (isWhitespace_of_isPunctuation lexed)

theorem textOf_visible (lexed : ∀ token ∈ tokens, token.Lexed) :
    ∀ char ∈ (textOf tokens).toList, isWhitespace char = false := by
  induction tokens with
  | nil => exact List.forall_mem_nil _
  | cons token rest ih =>
      obtain ⟨here, later⟩ := List.forall_mem_cons.mp lexed
      rw [textOf_cons, String.toList_append]
      exact List.forall_mem_append.mpr ⟨here.visible, ih later⟩

theorem dropWhile_of_visible {chars : List Char}
    (visible : ∀ char ∈ chars, isWhitespace char = false) :
    chars.dropWhile isWhitespace = chars := by
  cases chars with
  | nil => rfl
  | cons char chars =>
      exact List.dropWhile_cons_of_neg (Bool.eq_false_iff.mp (visible char List.mem_cons_self))

/-- There is nothing to trim. -/
theorem trim_textOf (lexed : ∀ token ∈ tokens, token.Lexed) :
    trim (textOf tokens) = textOf tokens := by
  have visible := textOf_visible lexed
  have reversed : ∀ char ∈ (textOf tokens).toList.reverse, isWhitespace char = false :=
    fun char member => visible char (List.mem_reverse.mp member)
  rw [trim, dropWhile_of_visible visible, dropWhile_of_visible reversed, List.reverse_reverse,
    String.ofList_toList]

/-- The text of a type is read into its signs. -/
theorem scan_textOf (lexed : ∀ token ∈ tokens, token.Lexed) :
    scan isPunctuation (textOf tokens).toList = signs tokens := by
  induction tokens with
  | nil => rfl
  | cons token rest ih =>
      obtain ⟨here, later⟩ := List.forall_mem_cons.mp lexed
      rw [textOf_cons, String.toList_append]
      cases token with
      | group delimiter stream =>
          have plain := fun letter member => (group_isWord.2 letter member).2
          rw [tokenToString, group_letters, scan_mark (by decide),
            scan_append_word group_isWord.1 plain, scan_mark (by decide), ih later, signs]
      | punct char =>
          rw [tokenToString, String.toList_ofList, List.singleton_append, scan_mark here, ih later,
            signs]
      | ident text | literal text =>
          have plain := fun letter member => (here.1.2 letter member).2
          rw [tokenToString, scan_append_word here.1.1 plain, ih later, signs]

/-- Lexed types of different signs have different texts. -/
theorem trim_ne_of_signs (firstLexed : ∀ token ∈ first, token.Lexed)
    (secondLexed : ∀ token ∈ second, token.Lexed) (differ : signs first ≠ signs second) :
    trim (textOf first) ≠ trim (textOf second) := by
  rw [trim_textOf firstLexed, trim_textOf secondLexed]
  intro same
  have texts := congrArg (fun text => scan isPunctuation text.toList) same
  exact differ (by rwa [scan_textOf firstLexed, scan_textOf secondLexed] at texts)

/-! ## Separate tokens -/

/-- The token that is one sign. -/
def signToken : Sign Char → TokenTree
  | .word letters =>
      match isLiteral letters with
      | true => .literal (.ofList letters)
      | false => .ident (.ofList letters)
  | .mark letter => .punct letter

/-- A word before something else is a sign of its own. -/
theorem joinWord_signs (letters : List Char)
    (apart : ∀ next ∈ tokens.head?, ∃ char, next = .punct char) :
    joinWord letters (signs tokens) = .word letters :: signs tokens := by
  cases tokens with
  | nil => rfl
  | cons next rest =>
      obtain ⟨char, rfl⟩ := apart next rfl
      rfl

/-- Separate tokens are their signs. -/
theorem map_signToken (lexed : ∀ token ∈ tokens, token.Lexed) (separate : Separate tokens) :
    (signs tokens).map signToken = tokens := by
  induction tokens with
  | nil => rfl
  | cons token rest ih =>
      obtain ⟨here, later⟩ := List.forall_mem_cons.mp lexed
      cases token with
      | group delimiter stream => exact separate.elim
      | punct char => exact congrArg (.punct char :: ·) (ih later separate)
      | ident text | literal text =>
          rw [signs, joinWord_signs _ separate.1, List.map_cons, ih later separate.2, signToken,
            here.2, String.ofList_toList]

/-- Separate types are the same when their signs are. -/
theorem Separate.eq_of_signs (firstLexed : ∀ token ∈ first, token.Lexed)
    (secondLexed : ∀ token ∈ second, token.Lexed) (firstSeparate : Separate first)
    (secondSeparate : Separate second) (same : signs first = signs second) : first = second := by
  rw [← map_signToken firstLexed firstSeparate, same, map_signToken secondLexed secondSeparate]

/-! ## Fields -/

/-- The texts read for the types of a field, which is declared in one place with
the one type and with the other, differ. -/
def TextsDiffer (trailing : Bool) (before after : List FieldDecl) (first second : FieldDecl) :
    Prop :=
  ∃ firstTy secondTy,
    parseStructFields (renderFields trailing (before ++ first :: after)) =
        .ok (before.map FieldDecl.field ++ ⟨first.name, firstTy⟩ :: after.map FieldDecl.field) ∧
      parseStructFields (renderFields trailing (before ++ second :: after)) =
          .ok (before.map FieldDecl.field ++ ⟨second.name, secondTy⟩ ::
            after.map FieldDecl.field) ∧
        firstTy ≠ secondTy

theorem textsDiffer_iff (trailing : Bool) {before after : List FieldDecl} {first second : FieldDecl}
    (context : ∀ decl ∈ before ++ after, decl.Plain) (firstPlain : first.Plain)
    (secondPlain : second.Plain) :
    TextsDiffer trailing before after first second ↔
      trim (textOf first.ty) ≠ trim (textOf second.ty) := by
  have read : ∀ decl : FieldDecl, decl.Plain →
      parseStructFields (renderFields trailing (before ++ decl :: after)) =
        .ok (before.map FieldDecl.field ++ decl.field :: after.map FieldDecl.field) := by
    intro decl plain
    obtain ⟨front, back⟩ := List.forall_mem_append.mp context
    have parsed := (consume_render_iff "field" trailing (before ++ decl :: after)).mpr
      (List.forall_mem_append.mpr ⟨front, List.forall_mem_cons.mpr ⟨plain, back⟩⟩)
    rwa [List.map_append, List.map_cons] at parsed
  rw [TextsDiffer, read first firstPlain, read second secondPlain]
  constructor
  · rintro ⟨firstTy, secondTy, firstRead, secondRead, differ⟩
    simp only [Except.ok.injEq, List.append_cancel_left_eq, List.cons.injEq, and_true]
      at firstRead secondRead
    have firstText : trim (textOf first.ty) = firstTy := congrArg Field.ty firstRead
    have secondText : trim (textOf second.ty) = secondTy := congrArg Field.ty secondRead
    rwa [firstText, secondText]
  · intro differ
    exact ⟨_, _, rfl, rfl, differ⟩

/-- **Texts of types.** One field of a plain list is declared with one of two
types. The texts read for them differ only when the types have different words and
marks. When the tokens are lexed this is enough, and when they are separate, too, it is
enough that the types are not the same. -/
theorem type_text_differs (trailing : Bool) (before after : List FieldDecl)
    (first second : FieldDecl) (context : ∀ decl ∈ before ++ after, decl.Plain)
    (firstPlain : first.Plain) (secondPlain : second.Plain) :
    (TextsDiffer trailing before after first second → signs first.ty ≠ signs second.ty) ∧
      ((∀ token ∈ first.ty ++ second.ty, token.Lexed) →
        (signs first.ty ≠ signs second.ty → TextsDiffer trailing before after first second) ∧
          (Separate first.ty → Separate second.ty → first.ty ≠ second.ty →
            TextsDiffer trailing before after first second)) := by
  rw [textsDiffer_iff trailing context firstPlain secondPlain]
  constructor
  · intro differ same
    have letters : (textOf first.ty).toList = (textOf second.ty).toList := by
      rw [← spell_signs, same, spell_signs]
    exact differ (congrArg trim (String.toList_inj.mp letters))
  · intro lexed
    obtain ⟨firstLexed, secondLexed⟩ := List.forall_mem_append.mp lexed
    refine ⟨trim_ne_of_signs firstLexed secondLexed, fun firstSeparate secondSeparate differ => ?_⟩
    exact trim_ne_of_signs firstLexed secondLexed fun same =>
      differ (Separate.eq_of_signs firstLexed secondLexed firstSeparate secondSeparate same)

/-- The types of vectors of two widths. -/
theorem widths_differ :
    TextsDiffer false [] []
      ⟨[], none, "x", [.ident "Vec", .punct '<', .ident "u8", .punct '>']⟩
      ⟨[], none, "x", [.ident "Vec", .punct '<', .ident "u16", .punct '>']⟩ :=
  ((type_text_differs false [] []
    ⟨[], none, "x", [.ident "Vec", .punct '<', .ident "u8", .punct '>']⟩
    ⟨[], none, "x", [.ident "Vec", .punct '<', .ident "u16", .punct '>']⟩
    (by simp) (by decide) (by decide)).2 (by decide)).2 (by simp [Separate]) (by simp [Separate])
    (by simp)

/-- Arrays of different elements and lengths have the same text. -/
theorem array_types_confused :
    ¬ ∀ (trailing : Bool) (before after : List FieldDecl) (first second : FieldDecl),
      (∀ decl ∈ before ++ after, decl.Plain) → first.Plain → second.Plain →
        first.ty ≠ second.ty → TextsDiffer trailing before after first second := by
  intro claim
  obtain ⟨firstTy, secondTy, firstRead, secondRead, differ⟩ := claim false [] []
    ⟨[], none, "x", [.group .bracket [.ident "u8", .punct ';', .literal "4"]]⟩
    ⟨[], none, "x", [.group .bracket [.ident "u16", .punct ';', .literal "2"]]⟩
    (by simp) (by decide) (by decide) (by simp)
  cases firstRead
  cases secondRead
  exact differ rfl

end Rust

end Stdx
