import Mathlib.Data.List.Infix

/-! # Loops over an iterator

A parser takes one token from its iterator and hands the rest to a round, which
adds items to the result and may take further tokens itself. Rounds that leave a
suffix of their input make the loop total. What a loop does on an input
continues unchanged with whatever follows it, as long as no round of it looks
past the end (`Foundation.consume_append`).
-/

namespace Foundation

variable {τ ε β : Type*}

/-- One round of a loop: the items it adds and the input it leaves, or an error. -/
abbrev Round (τ ε β : Type*) := τ → List τ → Except ε (List β × List τ)

/-- A bounded number of rounds. -/
def rounds (round : Round τ ε β) : Nat → List τ → Except ε (List β)
  | 0, _ => .ok []
  | _ + 1, [] => .ok []
  | fuel + 1, token :: rest =>
      (round token rest).bind fun out => (rounds round fuel out.2).map (out.1 ++ ·)

/-- The loop: rounds until the input is used up. -/
def consume (round : Round τ ε β) (tokens : List τ) : Except ε (List β) :=
  rounds round tokens.length tokens

/-- A round leaves a suffix of its input. -/
def Round.Advances (round : Round τ ε β) : Prop :=
  ∀ token rest items left, round token rest = .ok (items, left) → left <:+ rest

variable {round : Round τ ε β} {token : τ} {rest left tokens : List τ} {items more : List β}

/-- As many rounds as there are tokens are enough. -/
theorem rounds_congr (advances : round.Advances) {fuel other : Nat}
    (enough : tokens.length ≤ fuel) (otherEnough : tokens.length ≤ other) :
    rounds round fuel tokens = rounds round other tokens := by
  induction fuel generalizing other tokens with
  | zero =>
      obtain rfl := List.eq_nil_of_length_eq_zero (Nat.le_zero.mp enough)
      cases other <;> rfl
  | succ fuel ih =>
      cases tokens with
      | nil => cases other <;> rfl
      | cons token rest =>
          rw [List.length_cons] at enough otherEnough
          obtain ⟨other, rfl⟩ := Nat.exists_eq_succ_of_ne_zero (show other ≠ 0 by omega)
          unfold rounds
          cases step : round token rest with
          | error error => rfl
          | ok out =>
              have shorter := (advances _ _ _ _ step).length_le
              exact congrArg (Except.map (out.1 ++ ·)) (ih (by omega) (by omega))

@[simp] theorem consume_nil : consume round [] = .ok [] := rfl

theorem consume_cons_error {error : ε} (step : round token rest = .error error) :
    consume round (token :: rest) = .error error := by
  simp only [consume, List.length_cons, rounds, step]
  rfl

theorem consume_cons (advances : round.Advances) (step : round token rest = .ok (items, left)) :
    consume round (token :: rest) = (consume round left).map (items ++ ·) := by
  simp only [consume, List.length_cons, rounds, step]
  exact congrArg (Except.map (items ++ ·))
    (rounds_congr advances (advances _ _ _ _ step).length_le le_rfl)

/-- A loop that succeeds on a nonempty input begins with a round that does. -/
theorem consume_cons_eq_ok (advances : round.Advances) :
    consume round (token :: rest) = .ok items ↔
      ∃ first left more, round token rest = .ok (first, left) ∧
        consume round left = .ok more ∧ items = first ++ more := by
  cases step : round token rest with
  | error error => simp [consume_cons_error step]
  | ok out =>
      obtain ⟨first, left⟩ := out
      rw [consume_cons advances step]
      cases loop : consume round left with
      | error error => simp [Except.map, loop]
      | ok more => simp [Except.map, loop, eq_comm]

/-- **Induction along a loop.** What holds of no input and is kept from the
input that a round leaves holds of every input on which the loop succeeds. -/
theorem consume_induction (advances : round.Advances)
    {motive : List τ → List β → Prop} (nil : motive [] [])
    (cons : ∀ token rest items left more, round token rest = .ok (items, left) →
      consume round left = .ok more → motive left more →
        motive (token :: rest) (items ++ more))
    {tokens : List τ} {all : List β} (loop : consume round tokens = .ok all) :
    motive tokens all := by
  induction length : tokens.length using Nat.strong_induction_on generalizing tokens all with
  | _ length ih =>
      cases tokens with
      | nil =>
          cases loop
          exact nil
      | cons token rest =>
          obtain ⟨items, left, more, step, later, rfl⟩ :=
            (consume_cons_eq_ok advances).mp loop
          have shorter := (advances _ _ _ _ step).length_le
          refine cons token rest items left more step later (ih left.length ?_ later rfl)
          rw [← length, List.length_cons]
          omega

/-- A loop that fails does so in one of its rounds. -/
theorem exists_round_of_error (advances : round.Advances) {error : ε}
    (failed : consume round tokens = .error error) :
    ∃ token rest, token :: rest <:+ tokens ∧ round token rest = .error error := by
  induction length : tokens.length using Nat.strong_induction_on generalizing tokens with
  | _ size ih =>
      cases tokens with
      | nil => cases failed
      | cons token rest =>
          cases step : round token rest with
          | error other =>
              rw [consume_cons_error step] at failed
              cases failed
              exact ⟨token, rest, List.suffix_refl _, step⟩
          | ok out =>
              obtain ⟨items, left⟩ := out
              have part := advances _ _ _ _ step
              rw [consume_cons advances step] at failed
              cases later : consume round left with
              | ok more =>
                  rw [later] at failed
                  cases failed
              | error other =>
                  rw [later] at failed
                  cases failed
                  have shorter : left.length < size := by
                    rw [← length, List.length_cons]
                    exact Nat.lt_succ_of_le part.length_le
                  obtain ⟨found, behind, inside, fails⟩ := ih left.length shorter later rfl
                  exact ⟨found, behind, inside.trans (part.trans (List.suffix_cons _ _)), fails⟩

/-- **Composition.** If rounds on a closed input do the same when more input
follows, and leave a closed input, then a loop that succeeds on a closed input
goes on with what follows. -/
theorem consume_append (advances : round.Advances) (closed : List τ → Prop)
    (extend : ∀ token rest items left, closed (token :: rest) →
      round token rest = .ok (items, left) →
        closed left ∧ ∀ suffix, round token (rest ++ suffix) = .ok (items, left ++ suffix))
    {first : List τ} (firstClosed : closed first)
    (loop : consume round first = .ok items) (second : List τ) :
    consume round (first ++ second) = (consume round second).map (items ++ ·) := by
  refine consume_induction advances (motive := fun first items => closed first →
    consume round (first ++ second) = (consume round second).map (items ++ ·))
    ?_ ?_ loop firstClosed
  · intro _
    rw [List.nil_append]
    cases consume round second <;> rfl
  · intro token rest items left more step _ ih restClosed
    obtain ⟨leftClosed, extended⟩ := extend token rest items left restClosed step
    rw [List.cons_append, consume_cons advances (extended second), ih leftClosed]
    cases consume round second with
    | error error => rfl
    | ok last => simp only [Except.map, List.append_assoc]

end Foundation
