import Stdx.Foundation.Bracketed
import Stdx.Rust.TokenStream

/-! # Token streams as text

A token stream is written with a space between its tokens, and a group in the brackets of its
delimiter. The text does not show what a token is, nor a group without a delimiter: its tokens
stand for themselves, and where it is empty nothing stands. It shows everything else. Two streams
have one text exactly when they have one shape, as long as the texts of their tokens can be told
apart (`Stdx.Rust.display_eq_iff`).
-/

namespace Stdx

namespace Rust

open Foundation

mutual

/-- `Display` of `TokenTree`, `Group`, `Ident`, `Punct` and `Literal`. -/
def displayTree : TokenTree → String
  | .group .parenthesis stream => "(" ++ displayStream stream ++ ")"
  | .group .brace stream => "\x7b" ++ displayStream stream ++ "\x7d"
  | .group .bracket stream => "[" ++ displayStream stream ++ "]"
  | .group .none stream => displayStream stream
  | .ident text => text
  | .punct char => String.ofList [char]
  | .literal text => text

/-- `Display` of `TokenStream`. -/
def displayStream : List TokenTree → String
  | [] => ""
  | token :: rest =>
      displayTree token ++ (if rest.isEmpty then "" else " ") ++ displayStream rest

end

/-- The delimiters that are written. -/
inductive Bracket
  | parenthesis
  | brace
  | bracket
deriving DecidableEq

/-- The brackets of a delimiter. -/
def Delimiter.bracket? : Delimiter → Option Bracket
  | .parenthesis => some .parenthesis
  | .brace => some .brace
  | .bracket => some .bracket
  | .none => Option.none

def Bracket.opening : Bracket → Char
  | .parenthesis => '('
  | .brace => '\x7b'
  | .bracket => '['

def Bracket.closing : Bracket → Char
  | .parenthesis => ')'
  | .brace => '\x7d'
  | .bracket => ']'

/-- The marks of a token stream. -/
def marks : Marks Bracket Char where
  opening := Bracket.opening
  closing := Bracket.closing
  between := ' '
  opening_injective first second same := by
    cases first <;> cases second <;> first | rfl | exact absurd same (by decide)
  opening_ne_closing first second := by
    cases first <;> cases second <;> decide
  opening_ne_between kind := by cases kind <;> decide
  closing_ne_between kind := by cases kind <;> decide

/-- Trees one after the other, at least one. -/
abbrev Forest := Bracketed Bracket Char × List (Bracketed Bracket Char)

namespace Forest

/-- The text of a forest. -/
def text (forest : Forest) : List Char :=
  forest.1.print marks ++ Bracketed.printRest marks forest.2

/-- Two forests one after the other. -/
def append (first second : Forest) : Forest := (first.1, first.2 ++ second.1 :: second.2)

/-- The words of a forest are in a lexicon. -/
def Over (lexicon : Set (List Char)) (forest : Forest) : Prop :=
  forest.1.Over lexicon ∧ Bracketed.AllOver lexicon forest.2

theorem text_append (first second : Forest) :
    (first.append second).text = first.text ++ ' ' :: second.text := by
  unfold text append
  rw [Bracketed.printRest_append, List.append_assoc]
  rfl

theorem over_append {lexicon : Set (List Char)} {first second : Forest} :
    (first.append second).Over lexicon ↔ first.Over lexicon ∧ second.Over lexicon := by
  unfold Over append
  rw [Bracketed.allOver_append, Bracketed.AllOver, and_assoc]

/-- A forest is read from its text. -/
theorem text_inj {lexicon : Set (List Char)} (separates : marks.Separates lexicon)
    {first second : Forest} (known : first.Over lexicon) (otherKnown : second.Over lexicon)
    (same : first.text = second.text) : first = second := by
  obtain ⟨heads, tails⟩ := Bracketed.parts_inj separates known.1 known.2 otherKnown.1
    otherKnown.2 same
  exact Prod.ext heads tails

/-- The text of a block. -/
theorem text_block (kind : Bracket) (inner : Forest) :
    text (.block kind inner.1 inner.2, []) = kind.opening :: (inner.text ++ [kind.closing]) := by
  rw [text, Bracketed.print, Bracketed.printRest, List.append_nil, ← List.append_assoc]
  rfl

end Forest

mutual

/-- What the text of a token shows. -/
def shape : TokenTree → Forest
  | .group delimiter stream =>
      match delimiter.bracket? with
      | some kind => (.block kind (shapes stream).1 (shapes stream).2, [])
      | none => shapes stream
  | .ident text => (.word text.toList, [])
  | .punct char => (.word [char], [])
  | .literal text => (.word text.toList, [])

/-- What the text of a stream shows; an empty stream is an empty word. -/
def shapes : List TokenTree → Forest
  | [] => (.word [], [])
  | [token] => shape token
  | token :: next :: rest => (shape token).append (shapes (next :: rest))

end

mutual

/-- The texts of the tokens, also in groups, are in a lexicon. -/
def Spelled (lexicon : Set (List Char)) : TokenTree → Prop
  | .group _ stream => AllSpelled lexicon stream
  | .ident text => text.toList ∈ lexicon
  | .punct char => [char] ∈ lexicon
  | .literal text => text.toList ∈ lexicon

/-- The texts of the tokens of a stream are in a lexicon. -/
def AllSpelled (lexicon : Set (List Char)) : List TokenTree → Prop
  | [] => True
  | token :: rest => Spelled lexicon token ∧ AllSpelled lexicon rest

end

variable {lexicon : Set (List Char)}

mutual

theorem toList_displayTree : ∀ token, (displayTree token).toList = (shape token).text
  | .group .parenthesis stream => by
      rw [displayTree, String.toList_append, String.toList_append, toList_displayStream stream]
      exact (Forest.text_block .parenthesis (shapes stream)).symm
  | .group .brace stream => by
      rw [displayTree, String.toList_append, String.toList_append, toList_displayStream stream]
      exact (Forest.text_block .brace (shapes stream)).symm
  | .group .bracket stream => by
      rw [displayTree, String.toList_append, String.toList_append, toList_displayStream stream]
      exact (Forest.text_block .bracket (shapes stream)).symm
  | .group .none stream => toList_displayStream stream
  | .ident text => (List.append_nil _).symm
  | .punct char => by
      rw [displayTree, String.toList_ofList]
      rfl
  | .literal text => (List.append_nil _).symm

theorem toList_displayStream : ∀ stream, (displayStream stream).toList = (shapes stream).text
  | [] => rfl
  | [token] => by
      rw [displayStream, displayStream, String.append_empty, List.isEmpty_nil, if_pos rfl,
        String.append_empty]
      exact toList_displayTree token
  | token :: next :: rest => by
      rw [displayStream, shapes, Forest.text_append, ← toList_displayTree token,
        ← toList_displayStream (next :: rest), List.isEmpty_cons, if_neg Bool.false_ne_true,
        String.toList_append, String.toList_append, List.append_assoc]
      rfl

end

mutual

theorem over_shape (blank : [] ∈ lexicon) :
    ∀ token, Spelled lexicon token → (shape token).Over lexicon
  | .group .parenthesis stream, spelled => ⟨over_shapes blank stream spelled, trivial⟩
  | .group .brace stream, spelled => ⟨over_shapes blank stream spelled, trivial⟩
  | .group .bracket stream, spelled => ⟨over_shapes blank stream spelled, trivial⟩
  | .group .none stream, spelled => over_shapes blank stream spelled
  | .ident _, spelled => ⟨spelled, trivial⟩
  | .punct _, spelled => ⟨spelled, trivial⟩
  | .literal _, spelled => ⟨spelled, trivial⟩

theorem over_shapes (blank : [] ∈ lexicon) :
    ∀ stream, AllSpelled lexicon stream → (shapes stream).Over lexicon
  | [], _ => ⟨blank, trivial⟩
  | [token], spelled => over_shape blank token spelled.1
  | token :: next :: rest, spelled =>
      Forest.over_append.mpr
        ⟨over_shape blank token spelled.1, over_shapes blank (next :: rest) spelled.2⟩

end

/-- **Texts of token streams.** Where the texts of the tokens can be told apart, two streams have
one text exactly when they have one shape. -/
theorem display_eq_iff (separates : marks.Separates lexicon) (blank : [] ∈ lexicon)
    {first second : TokenStream} (spelled : AllSpelled lexicon first)
    (otherSpelled : AllSpelled lexicon second) :
    displayStream first = displayStream second ↔ shapes first = shapes second := by
  rw [← String.toList_inj, toList_displayStream, toList_displayStream]
  constructor
  · exact Forest.text_inj separates (over_shapes blank first spelled)
      (over_shapes blank second otherSpelled)
  · exact congrArg Forest.text

/-- The characters of the marks. -/
def markChars : List Char := [' ', '(', ')', '\x7b', '\x7d', '[', ']']

theorem free_of_all {word : List Char} (others : ∀ char ∈ word, char ∉ markChars) :
    marks.Free word := by
  intro char member
  have other := others char member
  refine ⟨fun same => other (same ▸ List.mem_cons_self), fun kind => ⟨?_, ?_⟩⟩
  · rintro rfl
    exact other (by cases kind <;> decide)
  · rintro rfl
    exact other (by cases kind <;> decide)

/-- Arguments have one text with and without a group around them, and another one without a
comma. -/
theorem arguments_text :
    displayStream [.ident "f", .group .parenthesis [.group .none [.ident "x", .punct ',']]] =
        displayStream [.ident "f", .group .parenthesis [.literal "x", .punct ',']] ∧
      displayStream [.ident "f", .group .parenthesis [.literal "x", .punct ',']] ≠
        displayStream [.ident "f", .group .parenthesis [.ident "x"]] := by
  have f : marks.Free ['f'] := free_of_all (by simp [markChars])
  have x : marks.Free ['x'] := free_of_all (by simp [markChars])
  have comma : marks.Free [','] := free_of_all (by simp [markChars])
  have blank : marks.Free [] := free_of_all (by simp [markChars])
  have grouped : AllSpelled {word | marks.Free word}
      [.ident "f", .group .parenthesis [.group .none [.ident "x", .punct ',']]] :=
    ⟨f, ⟨⟨x, comma, trivial⟩, trivial⟩, trivial⟩
  have plain : AllSpelled {word | marks.Free word}
      [.ident "f", .group .parenthesis [.literal "x", .punct ',']] :=
    ⟨f, ⟨x, comma, trivial⟩, trivial⟩
  have short : AllSpelled {word | marks.Free word}
      [.ident "f", .group .parenthesis [.ident "x"]] := ⟨f, ⟨x, trivial⟩, trivial⟩
  refine ⟨(display_eq_iff (Marks.separates_free marks) blank grouped plain).mpr rfl,
    (display_eq_iff (Marks.separates_free marks) blank plain short).not.mpr ?_⟩
  simp [shapes, shape, Delimiter.bracket?, Forest.append]

end Rust

end Stdx
