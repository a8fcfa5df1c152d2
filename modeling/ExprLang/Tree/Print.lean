import ExprLang.Number.Shortest
import ExprLang.Token.Basic
import ExprLang.Tree.Basic

/-!
# Trees as text

The text of an expression puts parentheses around every operation, so it shows the shape
of the tree. A program has one line per statement.
-/

namespace ExprLang

def Expr.chars : Expr → List Char
  | number value _ => value.text.toList
  | string text _ => text.toList
  | bool value _ => (Keyword.bool value).word.toList
  | unary op operand _ => '(' :: op.symbol :: (operand.chars ++ [')'])
  | binary op lhs rhs _ => '(' :: (lhs.chars ++ ' ' :: op.symbol :: ' ' :: (rhs.chars ++ [')']))

def Stmt.chars (s : Stmt) : List Char :=
  match s.kind with
  | .expr => s.expr.chars ++ [';']
  | .print => Keyword.print.word.toList ++ ' ' :: (s.expr.chars ++ [';'])

def Program.chars (p : Program) : List Char := p.statements.flatMap fun s => s.chars ++ ['\n']

def Expr.text (e : Expr) : String := String.ofList e.chars

def Stmt.text (s : Stmt) : String := String.ofList s.chars

def Program.text (p : Program) : String := String.ofList p.chars

/-! ## Spans are not shown -/

theorem Expr.chars_mapSpan (f : Text.Span → Text.Span) (e : Expr) :
    (e.mapSpan f).chars = e.chars := by
  induction e <;> simp_all [mapSpan, chars]

theorem Stmt.chars_mapSpan (f : Text.Span → Text.Span) (s : Stmt) :
    (s.mapSpan f).chars = s.chars := by
  simp [Stmt.chars, Stmt.mapSpan, Expr.chars_mapSpan]

theorem Program.chars_mapSpan (f : Text.Span → Text.Span) (p : Program) :
    (p.mapSpan f).chars = p.chars := by
  simp [Program.chars, Program.mapSpan, List.flatMap_map, Stmt.chars_mapSpan]

end ExprLang
