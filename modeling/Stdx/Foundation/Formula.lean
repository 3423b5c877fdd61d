import Mathlib.Algebra.Notation.Defs

/-! # Formulas without brackets

A formula is a sequence of operands with sums and products between them, as a
program that builds text appends them one after the other. Its value follows
the usual precedence, so a product that is appended to a formula is added to
its value (`Foundation.Formula.value_append_product`).
-/

namespace Foundation

/-- What stands between two operands. -/
inductive Operator
  | plus
  | times
deriving DecidableEq

/-- An operand and the operators and operands that follow it. -/
structure Formula (α : Type*) where
  first : α
  rest : List (Operator × α)
deriving DecidableEq

namespace Formula

variable {α R : Type*}

/-- The formula with more operators and operands behind it. -/
def append (formula : Formula α) (more : List (Operator × α)) : Formula α :=
  { formula with rest := formula.rest ++ more }

/-- The formula with a factor written in front of it. -/
def scale (factor : α) (formula : Formula α) : Formula α :=
  ⟨factor, (.times, formula.first) :: formula.rest⟩

variable [Add R] [Mul R] (operand : α → R)

/-- The value of what is still to be read after the sum of the products before
and the factors of the product that is being read. -/
def valueFrom (total product : R) : List (Operator × α) → R
  | [] => total + product
  | (.plus, next) :: rest => valueFrom (total + product) (operand next) rest
  | (.times, next) :: rest => valueFrom total (product * operand next) rest

theorem valueFrom_append_product (rest : List (Operator × α)) (left right : α)
    (total product : R) :
    valueFrom operand total product (rest ++ [(.plus, left), (.times, right)]) =
      valueFrom operand total product rest + operand left * operand right := by
  induction rest generalizing total product with
  | nil => rfl
  | cons head rest ih =>
      obtain ⟨operator, next⟩ := head
      cases operator with
      | plus => exact ih _ _
      | times => exact ih _ _

theorem valueFrom_append_plus (rest : List (Operator × α)) (next : α) (total product : R) :
    valueFrom operand total product (rest ++ [(.plus, next)]) =
      valueFrom operand total product rest + operand next := by
  induction rest generalizing total product with
  | nil => rfl
  | cons head rest ih =>
      obtain ⟨operator, other⟩ := head
      cases operator with
      | plus => exact ih _ _
      | times => exact ih _ _

variable [Zero R]

/-- The value of the formula; a product binds tighter than a sum. -/
def value (formula : Formula α) : R :=
  valueFrom operand 0 (operand formula.first) formula.rest

/-- A product that is appended to a formula is added to its value. -/
theorem value_append_product (formula : Formula α) (left right : α) :
    (formula.append [(.plus, left), (.times, right)]).value operand =
      formula.value operand + operand left * operand right :=
  valueFrom_append_product operand formula.rest left right 0 _

/-- A summand that is appended to a formula is added to its value. -/
theorem value_append_plus (formula : Formula α) (next : α) :
    (formula.append [(.plus, next)]).value operand = formula.value operand + operand next :=
  valueFrom_append_plus operand formula.rest next 0 _

end Formula

end Foundation
