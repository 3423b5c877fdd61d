import Mathlib.Data.List.Basic

/-! # Words and marks

A text whose characters are of two kinds is a sequence of words and marks. Words
that are written next to each other are one word, for the writer
(`Foundation.spell_joinWord`) as for the reader (`Foundation.scan_append_word`).
-/

namespace Foundation

/-- A sign of a text. -/
inductive Sign (α : Type*)
  | word (letters : List α)
  | mark (letter : α)

variable {α : Type*}

/-- Letters in front of the signs of a text: a word there gets longer. -/
def joinWord (letters : List α) : List (Sign α) → List (Sign α)
  | [] => [.word letters]
  | .word others :: signs => .word (letters ++ others) :: signs
  | .mark letter :: signs => .word letters :: .mark letter :: signs

/-- The text of a sequence of signs. -/
def spell : List (Sign α) → List α
  | [] => []
  | .word letters :: signs => letters ++ spell signs
  | .mark letter :: signs => letter :: spell signs

/-- The signs of a text. -/
def scan (isMark : α → Bool) : List α → List (Sign α)
  | [] => []
  | letter :: text =>
      match isMark letter with
      | true => .mark letter :: scan isMark text
      | false => joinWord [letter] (scan isMark text)

variable {isMark : α → Bool}

@[simp] theorem spell_joinWord (letters : List α) (signs : List (Sign α)) :
    spell (joinWord letters signs) = letters ++ spell signs := by
  rcases signs with _ | ⟨others | letter, signs⟩
  · rfl
  · exact List.append_assoc _ _ _
  · rfl

theorem joinWord_joinWord (first second : List α) (signs : List (Sign α)) :
    joinWord first (joinWord second signs) = joinWord (first ++ second) signs := by
  rcases signs with _ | ⟨others | letter, signs⟩
  · rfl
  · exact congrArg (fun letters => .word letters :: signs) (List.append_assoc _ _ _).symm
  · rfl

theorem scan_mark {letter : α} (mark : isMark letter = true) (text : List α) :
    scan isMark (letter :: text) = .mark letter :: scan isMark text := by
  rw [scan, mark]

theorem scan_letter {letter : α} (plain : isMark letter = false) (text : List α) :
    scan isMark (letter :: text) = joinWord [letter] (scan isMark text) := by
  rw [scan, plain]

/-- A word is read into the word behind it. -/
theorem scan_append_word {letters : List α} (nonempty : letters ≠ [])
    (plain : ∀ letter ∈ letters, isMark letter = false) (text : List α) :
    scan isMark (letters ++ text) = joinWord letters (scan isMark text) := by
  induction letters with
  | nil => exact (nonempty rfl).elim
  | cons letter letters ih =>
      obtain ⟨here, later⟩ := List.forall_mem_cons.mp plain
      rw [List.cons_append, scan_letter here]
      cases letters with
      | nil => rfl
      | cons next letters =>
          rw [ih (List.cons_ne_nil _ _) later, joinWord_joinWord, List.singleton_append]

end Foundation
