/-!
# Operators and how tightly they bind

There are four binary operators on two levels, sums below products, and one sign, which
binds tighter than both. Operators of one level associate to the left.
-/

namespace ExprLang

/-- How tightly an operator binds; a greater strength binds tighter. -/
abbrev Strength := Nat

namespace Strength

/-- Weaker than every operator: the strength around a whole expression. -/
def loosest : Strength := 0

def sum : Strength := 1

def product : Strength := 2

/-- Tighter than every binary operator: the strength of a sign. -/
def sign : Strength := 3

end Strength

inductive BinaryOp where
  | add
  | sub
  | mul
  | div
  deriving DecidableEq, Repr

namespace BinaryOp

def symbol : BinaryOp → Char
  | add => '+'
  | sub => '-'
  | mul => '*'
  | div => '/'

def strength : BinaryOp → Strength
  | add | sub => .sum
  | mul | div => .product

theorem loosest_lt_strength (op : BinaryOp) : Strength.loosest < op.strength := by
  cases op <;> decide

theorem strength_lt_sign (op : BinaryOp) : op.strength < Strength.sign := by
  cases op <;> decide

end BinaryOp

/-- The only prefix operator is the sign. -/
inductive UnaryOp where
  | negate
  deriving DecidableEq, Repr

def UnaryOp.symbol : UnaryOp → Char
  | negate => '-'

end ExprLang
