import Mathlib.Data.Set.Defs
import Mathlib.Logic.Function.Basic

/-! # Texts in brackets

A tree is a word or a block of trees, and is written with a mark at both ends of a block and one
between its parts. Where the words can be told apart from what stands behind them, a text in
brackets can be read in one way only, whatever follows it
(`Foundation.Bracketed.print_append_inj`, `Foundation.Bracketed.parts_inj`). Words in which no
mark occurs can be told apart (`Foundation.Marks.separates_free`).
-/

namespace Foundation

/-- The marks of a text: one to open and one to close each kind of block, and one between the
parts of a block. -/
structure Marks (κ γ : Type*) where
  opening : κ → γ
  closing : κ → γ
  between : γ
  opening_injective : Function.Injective opening
  opening_ne_closing : ∀ kind other, opening kind ≠ closing other
  opening_ne_between : ∀ kind, opening kind ≠ between
  closing_ne_between : ∀ kind, closing kind ≠ between

/-- Words and blocks; a block has a first part. -/
inductive Bracketed (κ γ : Type*)
  | word (text : List γ)
  | block (kind : κ) (first : Bracketed κ γ) (rest : List (Bracketed κ γ))

variable {κ γ : Type*} (marks : Marks κ γ)

namespace Bracketed

mutual

/-- The text of a tree. -/
def print : Bracketed κ γ → List γ
  | .word text => text
  | .block kind first rest =>
      marks.opening kind :: (print first ++ (printRest rest ++ [marks.closing kind]))

/-- The text of the trees behind another one. -/
def printRest : List (Bracketed κ γ) → List γ
  | [] => []
  | tree :: rest => marks.between :: (print tree ++ printRest rest)

end

mutual

/-- The words of a tree are in a lexicon. -/
def Over (lexicon : Set (List γ)) : Bracketed κ γ → Prop
  | .word text => text ∈ lexicon
  | .block _ first rest => Over lexicon first ∧ AllOver lexicon rest

/-- The words of some trees are in a lexicon. -/
def AllOver (lexicon : Set (List γ)) : List (Bracketed κ γ) → Prop
  | [] => True
  | tree :: rest => Over lexicon tree ∧ AllOver lexicon rest

end

theorem printRest_append (front back : List (Bracketed κ γ)) :
    printRest marks (front ++ back) = printRest marks front ++ printRest marks back := by
  induction front with
  | nil => rfl
  | cons tree front ih =>
      rw [List.cons_append, printRest, printRest, ih, List.cons_append, List.append_assoc]

theorem allOver_append {lexicon : Set (List γ)} {front back : List (Bracketed κ γ)} :
    AllOver lexicon (front ++ back) ↔ AllOver lexicon front ∧ AllOver lexicon back := by
  induction front with
  | nil => exact (iff_of_eq (true_and _)).symm
  | cons tree front ih =>
      rw [List.cons_append, AllOver, AllOver, ih, and_assoc]

end Bracketed

namespace Marks

variable {marks}

/-- A text that can follow a tree: it is empty or goes on with a mark that opens nothing. -/
def Stops (marks : Marks κ γ) (text : List γ) : Prop :=
  ∀ next rest, text = next :: rest → next = marks.between ∨ ∃ kind, next = marks.closing kind

/-- A text that can follow the last part of a block. -/
def Ends (marks : Marks κ γ) (text : List γ) : Prop :=
  ∀ next rest, text = next :: rest → ∃ kind, next = marks.closing kind

/-- Words that begin no block and can be told apart from what stands behind them. -/
structure Separates (marks : Marks κ γ) (lexicon : Set (List γ)) : Prop where
  no_opening : ∀ word ∈ lexicon, ∀ kind rest, word ≠ marks.opening kind :: rest
  apart : ∀ first ∈ lexicon, ∀ second ∈ lexicon, ∀ front back, marks.Stops front →
    marks.Stops back → first ++ front = second ++ back → first = second

/-- A word without marks. -/
def Free (marks : Marks κ γ) (word : List γ) : Prop :=
  ∀ char ∈ word, char ≠ marks.between ∧
    ∀ kind, char ≠ marks.opening kind ∧ char ≠ marks.closing kind

theorem Ends.stops {text : List γ} (ends : marks.Ends text) : marks.Stops text :=
  fun next rest same => .inr (ends next rest same)

theorem ends_nil : marks.Ends [] := fun _ _ same => (List.cons_ne_nil _ _ same.symm).elim

theorem ends_closing (kind : κ) (text : List γ) : marks.Ends (marks.closing kind :: text) :=
  fun _ _ same => ⟨kind, (List.cons.inj same).1.symm⟩

theorem stops_between (text : List γ) : marks.Stops (marks.between :: text) :=
  fun _ _ same => .inl (List.cons.inj same).1.symm

theorem not_stops_opening (kind : κ) (text : List γ) :
    ¬ marks.Stops (marks.opening kind :: text) := by
  intro stops
  rcases stops _ _ rfl with between | ⟨other, closing⟩
  · exact marks.opening_ne_between kind between
  · exact marks.opening_ne_closing kind other closing

theorem not_ends_between (text : List γ) : ¬ marks.Ends (marks.between :: text) := by
  intro ends
  obtain ⟨kind, closing⟩ := ends _ _ rfl
  exact marks.closing_ne_between kind closing.symm

/-- What follows the first part of a block. -/
theorem stops_printRest (rest : List (Bracketed κ γ)) {text : List γ} (stops : marks.Stops text) :
    marks.Stops (Bracketed.printRest marks rest ++ text) := by
  cases rest with
  | nil => exact stops
  | cons tree rest => exact stops_between _

/-- No character of a word without marks follows a tree. -/
theorem Free.not_stops {char : γ} {word text : List γ} (isFree : marks.Free (char :: word)) :
    ¬ marks.Stops (char :: text) := by
  intro stops
  obtain ⟨between, kinds⟩ := isFree char List.mem_cons_self
  rcases stops _ _ rfl with same | ⟨kind, same⟩
  · exact between same
  · exact (kinds kind).2 same

/-- Words without marks can be told apart. -/
theorem separates_free (marks : Marks κ γ) : marks.Separates {word | marks.Free word} where
  no_opening word isFree kind rest := by
    rintro rfl
    exact ((isFree _ List.mem_cons_self).2 kind).1 rfl
  apart first firstFree second secondFree front back frontStops backStops same := by
    induction first generalizing second with
    | nil =>
        cases second with
        | nil => rfl
        | cons char second =>
            rw [List.nil_append, List.cons_append] at same
            rw [same] at frontStops
            exact (Free.not_stops secondFree frontStops).elim
    | cons char first ih =>
        cases second with
        | nil =>
            rw [List.nil_append, List.cons_append] at same
            rw [← same] at backStops
            exact (Free.not_stops firstFree backStops).elim
        | cons other second =>
            obtain ⟨rfl, later⟩ := List.cons.inj same
            have firsts : marks.Free first := fun next member =>
              firstFree next (List.mem_cons_of_mem _ member)
            have seconds : marks.Free second := fun next member =>
              secondFree next (List.mem_cons_of_mem _ member)
            rw [ih firsts second seconds later]

end Marks

namespace Bracketed

variable {marks} {lexicon : Set (List γ)}

/-- A word is not written like the beginning of a block. -/
theorem word_append_ne (separates : marks.Separates lexicon) {word : List γ}
    (known : word ∈ lexicon) {text : List γ} (stops : marks.Stops text) (kind : κ)
    (block : List γ) :
    word ++ text ≠ marks.opening kind :: block := by
  intro same
  cases word with
  | nil =>
      rw [List.nil_append] at same
      rw [same] at stops
      exact Marks.not_stops_opening kind block stops
  | cons char word =>
      obtain ⟨rfl, _⟩ := List.cons.inj same
      exact separates.no_opening _ known kind word rfl

mutual

/-- **Reading back.** Trees whose texts agree up to what can follow them are equal. -/
theorem print_append_inj (separates : marks.Separates lexicon) :
    ∀ (first second : Bracketed κ γ) (front back : List γ), first.Over lexicon →
      second.Over lexicon → marks.Stops front → marks.Stops back →
      print marks first ++ front = print marks second ++ back → first = second ∧ front = back
  | .word text, .word other, front, back, known, otherKnown, frontStops, backStops, same => by
      obtain rfl := separates.apart _ known _ otherKnown _ _ frontStops backStops same
      exact ⟨rfl, List.append_cancel_left same⟩
  | .word text, .block kind head rest, front, back, known, _, frontStops, _, same =>
      (word_append_ne separates known frontStops kind _ same).elim
  | .block kind head rest, .word text, front, back, _, known, _, backStops, same =>
      (word_append_ne separates known backStops kind _ same.symm).elim
  | .block kind head rest, .block other lead later, front, back, known, otherKnown, _, _, same => by
      obtain rfl := marks.opening_injective (List.cons.inj same).1
      have inside : print marks head ++ (printRest marks rest ++ marks.closing kind :: front) =
          print marks lead ++ (printRest marks later ++ marks.closing kind :: back) := by
        simp only [print, List.cons_append, List.append_assoc, List.nil_append] at same
        exact (List.cons.inj same).2
      obtain ⟨rfl, behind⟩ := print_append_inj separates head lead _ _ known.1 otherKnown.1
        (Marks.stops_printRest rest (Marks.ends_closing kind front).stops)
        (Marks.stops_printRest later (Marks.ends_closing kind back).stops) inside
      obtain ⟨rfl, closed⟩ := printRest_append_inj separates rest later _ _ known.2 otherKnown.2
        (Marks.ends_closing kind front) (Marks.ends_closing kind back) behind
      exact ⟨rfl, (List.cons.inj closed).2⟩

theorem printRest_append_inj (separates : marks.Separates lexicon) :
    ∀ (first second : List (Bracketed κ γ)) (front back : List γ), AllOver lexicon first →
      AllOver lexicon second → marks.Ends front → marks.Ends back →
      printRest marks first ++ front = printRest marks second ++ back →
        first = second ∧ front = back
  | [], [], front, back, _, _, _, _, same => ⟨rfl, same⟩
  | [], tree :: rest, front, back, _, _, frontEnds, _, same => by
      have goesOn : front = marks.between :: _ := same
      rw [goesOn] at frontEnds
      exact (Marks.not_ends_between _ frontEnds).elim
  | tree :: rest, [], front, back, _, _, _, backEnds, same => by
      have goesOn : back = marks.between :: _ := same.symm
      rw [goesOn] at backEnds
      exact (Marks.not_ends_between _ backEnds).elim
  | tree :: rest, other :: later, front, back, known, otherKnown, frontEnds, backEnds, same => by
      have inside : print marks tree ++ (printRest marks rest ++ front) =
          print marks other ++ (printRest marks later ++ back) := by
        simp only [printRest, List.cons_append, List.append_assoc] at same
        exact (List.cons.inj same).2
      obtain ⟨rfl, behind⟩ := print_append_inj separates tree other _ _ known.1 otherKnown.1
        (Marks.stops_printRest rest frontEnds.stops) (Marks.stops_printRest later backEnds.stops)
        inside
      obtain ⟨rfl, closed⟩ := printRest_append_inj separates rest later _ _ known.2 otherKnown.2
        frontEnds backEnds behind
      exact ⟨rfl, closed⟩

end

/-- Trees one after the other are read from their text. -/
theorem parts_inj (separates : marks.Separates lexicon) {first second : Bracketed κ γ}
    {rest later : List (Bracketed κ γ)} (known : first.Over lexicon)
    (restKnown : AllOver lexicon rest) (otherKnown : second.Over lexicon)
    (laterKnown : AllOver lexicon later)
    (same : print marks first ++ printRest marks rest =
      print marks second ++ printRest marks later) : first = second ∧ rest = later := by
  have none : marks.Ends [] := Marks.ends_nil
  rw [← List.append_nil (printRest marks rest), ← List.append_nil (printRest marks later)] at same
  obtain ⟨heads, behind⟩ := print_append_inj separates first second _ _ known otherKnown
    (Marks.stops_printRest rest none.stops) (Marks.stops_printRest later none.stops) same
  exact ⟨heads,
    (printRest_append_inj separates rest later [] [] restKnown laterKnown none none behind).1⟩

end Bracketed

end Foundation
