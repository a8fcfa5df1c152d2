import ExprLang.Number.Binary64
import ExprLang.Operator
import ExprLang.Text.Span

/-!
# Syntax trees

A program is a list of statements; a statement evaluates an expression, and may print it.
Every expression and every statement carries the span of the text it was read from.
Parentheses are not kept, they only widen the span of the expression inside.

* `mapSpan f` changes every span of a tree and nothing else.
* `==` compares trees node by node, spans included, and numbers by IEEE comparison. It is
  reflexive exactly on trees without a NaN (`Expr.beq_self_iff`).
-/

namespace ExprLang

open Text

/-! ## Expressions -/

inductive Expr where
  | number (value : Binary64) (span : Span)
  /-- A string as it was written, quotes included. -/
  | string (text : String) (span : Span)
  | bool (value : Bool) (span : Span)
  | unary (op : UnaryOp) (operand : Expr) (span : Span)
  | binary (op : BinaryOp) (lhs rhs : Expr) (span : Span)
  deriving DecidableEq, Repr

namespace Expr

def span : Expr → Span
  | number _ s | string _ s | bool _ s | unary _ _ s | binary _ _ _ s => s

/-- The same expression with another span at its root. -/
def withSpan (s : Span) : Expr → Expr
  | number value _ => number value s
  | string text _ => string text s
  | bool value _ => bool value s
  | unary op operand _ => unary op operand s
  | binary op lhs rhs _ => binary op lhs rhs s

def mapSpan (f : Span → Span) : Expr → Expr
  | number value s => number value (f s)
  | string text s => string text (f s)
  | bool value s => bool value (f s)
  | unary op operand s => unary op (operand.mapSpan f) (f s)
  | binary op lhs rhs s => binary op (lhs.mapSpan f) (rhs.mapSpan f) (f s)

/-- The number of nodes on a longest path from the root to a leaf. -/
def height : Expr → Nat
  | number .. | string .. | bool .. => 1
  | unary _ operand _ => operand.height + 1
  | binary _ lhs rhs _ => max lhs.height rhs.height + 1

@[simp] theorem span_withSpan (s : Span) (e : Expr) : (e.withSpan s).span = s := by
  cases e <;> rfl

@[simp] theorem span_mapSpan (f : Span → Span) (e : Expr) : (e.mapSpan f).span = f e.span := by
  cases e <;> rfl

@[simp] theorem height_withSpan (s : Span) (e : Expr) : (e.withSpan s).height = e.height := by
  cases e <;> rfl

theorem mapSpan_withSpan (f : Span → Span) (s : Span) (e : Expr) :
    (e.withSpan s).mapSpan f = (e.mapSpan f).withSpan (f s) := by
  cases e <;> rfl

theorem mapSpan_mapSpan (f g : Span → Span) (e : Expr) :
    (e.mapSpan f).mapSpan g = e.mapSpan (g ∘ f) := by
  induction e <;> simp_all [mapSpan]

theorem mapSpan_id (e : Expr) : e.mapSpan id = e := by
  induction e <;> simp_all [mapSpan]

end Expr

/-! ## Statements and programs -/

inductive StmtKind where
  | expr
  | print
  deriving DecidableEq, Repr

structure Stmt where
  kind : StmtKind
  expr : Expr
  span : Span
  deriving DecidableEq, Repr

def Stmt.mapSpan (f : Span → Span) (s : Stmt) : Stmt := ⟨s.kind, s.expr.mapSpan f, f s.span⟩

structure Program where
  statements : List Stmt
  deriving DecidableEq, Repr

def Program.mapSpan (f : Span → Span) (p : Program) : Program :=
  ⟨p.statements.map (Stmt.mapSpan f)⟩

/-! ## Comparison -/

namespace Expr

protected def beq : Expr → Expr → Bool
  | number v s, number w t => v == w && s == t
  | string v s, string w t => v == w && s == t
  | bool v s, bool w t => v == w && s == t
  | unary op e s, unary op' e' t => op == op' && e.beq e' && s == t
  | binary op l r s, binary op' l' r' t => op == op' && l.beq l' && r.beq r' && s == t
  | _, _ => false

instance : BEq Expr := ⟨Expr.beq⟩

/-- Whether a number of the tree is a NaN. -/
def hasNaN : Expr → Bool
  | number value _ => value.isNaN
  | string .. | bool .. => false
  | unary _ operand _ => operand.hasNaN
  | binary _ lhs rhs _ => lhs.hasNaN || rhs.hasNaN

theorem beq_self_iff (e : Expr) : (e == e) = true ↔ e.hasNaN = false := by
  change e.beq e = true ↔ _
  induction e with
  | number value s => simp [Expr.beq, hasNaN, Binary64.beq_self_iff]
  | string | bool => simp [Expr.beq, hasNaN]
  | unary op operand s ih => simp [Expr.beq, hasNaN, ih]
  | binary op lhs rhs s ihl ihr => simp [Expr.beq, hasNaN, ihl, ihr]

end Expr

instance : BEq Stmt := ⟨fun s t => s.kind == t.kind && s.expr == t.expr && s.span == t.span⟩

instance : BEq Program := ⟨fun p q => p.statements == q.statements⟩

end ExprLang
