import ExprLang.Grammar.Parse
import ExprLang.Number.Rounding
import ExprLang.Tree.Basic

/-!
# Expressions

An expression is an operand, followed by operators with their own operands. An operand is
a literal, a signed operand or an expression in parentheses. An operator takes the
operators after it into its right side only if they bind tighter than itself.

Nesting is limited by a budget. Each operand costs one, and so does each operator that the
expression it stands in goes on with; what is left is the budget of everything inside.
-/

namespace ExprLang

open Parse

/-! ## Operands and operators -/

/-- The binary operator of a token, if it has one that binds tighter than `min`. -/
def Token.operator? (min : Strength) (t : Token) : Option BinaryOp :=
  match t.kind with
  | .operator op => if min < op.strength then some op else none
  | _ => none

/-- An operand, whose inner expressions are read by `nested`. -/
def operand (nested : Strength → Parse Expr) : Parse Expr := do
  let t ← current
  match t.kind with
  | .number =>
    advance
    match Binary64.ofNumeral? t.lexeme with
    | some value => return .number value t.span
    | none => throw ⟨.invalidNumber t.lexeme, t.span⟩
  | .string =>
    advance
    return .string t.lexeme t.span
  | .keyword (.bool value) =>
    advance
    return .bool value t.span
  | .operator .sub =>
    advance
    let e ← nested .sign
    return .unary .negate e (t.span.union e.span)
  | .openParen =>
    advance
    let e ← nested .loosest
    let close ← expect .closeParen "expression"
    return e.withSpan (t.span.union close.span)
  | .invalid => failHere fun t => .unexpectedCharacter t.lexeme
  | .unterminatedString => failHere fun _ => .unterminatedString
  | _ => failHere fun t => .expectedExpression t.describe

mutual

/-- An expression whose operators all bind tighter than `min`. -/
def expression : Nat → Strength → Parse Expr
  | 0, _ => failHere fun _ => .tooDeep
  | budget + 1, min => do
    let e ← operand (expression budget)
    operations budget min e

/-- The operators after a left side, as long as they bind tighter than `min`. -/
def operations : Nat → Strength → Expr → Parse Expr
  | 0, min, lhs => do
    match (← current).operator? min with
    | none => return lhs
    | some _ =>
      advance
      failHere fun _ => .tooDeep
  | budget + 1, min, lhs => do
    match (← current).operator? min with
    | none => return lhs
    | some op =>
      advance
      let rhs ← expression budget op.strength
      operations budget min (.binary op lhs rhs (lhs.span.union rhs.span))

end

/-- The budget of a whole expression. -/
def nestingLimit : Nat := 256

end ExprLang
