import ExprLang.Grammar.Progress

/-!
# Statements and programs

A program is read statement by statement up to the end of input. A missing semicolon is
an error, but the statement counts; the token found in its place begins the next one.
Where a statement cannot be read, everything through the next semicolon is skipped.

* `attempts` lists what became of each statement, in order; `parseStream` collects the
  statements that were read and the issues.
* `length_attempt_lt`: every attempt reads at least one token, so there are only so many.
-/

namespace ExprLang

open Parse

/-! ## One statement -/

/-- What became of a statement. -/
inductive Attempt where
  | complete (stmt : Stmt)
  /-- A statement without its semicolon. -/
  | unterminated (stmt : Stmt) (error : SyntaxError)
  | failed (error : SyntaxError)
  deriving DecidableEq, Repr

namespace Attempt

def stmt? : Attempt → Option Stmt
  | complete stmt | unterminated stmt _ => some stmt
  | failed _ => none

def error? : Attempt → Option SyntaxError
  | complete _ => none
  | unterminated _ error | failed error => some error

end Attempt

/-- The keyword at the front of a statement that prints. -/
def stmtKind : Parse StmtKind := do
  if (← current).kind = .keyword .print then
    advance
    return .print
  else
    return .expr

/-- A statement; its span starts at its first token and ends at its last one. -/
def statement : Parse Attempt := do
  let first ← current
  let kind ← stmtKind
  let e ← expression nestingLimit .loosest
  let t ← current
  if t.kind = .semicolon then
    advance
    return .complete ⟨kind, e, first.span.union t.span⟩
  else
    let error := ⟨.expectedAfter TokenKind.semicolon.name "expression" t.describe, t.span⟩
    return .unterminated ⟨kind, e, first.span.union e.span⟩ error

/-- A statement, or the error that kept it from being read; the stream after either. -/
def attempt (ts : TokenStream) : Attempt × TokenStream :=
  match statement ts with
  | .ok result ts' => (result, ts')
  | .error error ts' => (.failed error, ts'.afterSemicolon)

theorem reads_stmtKind : Reads 0 stmtKind := by
  refine reads_current_then fun t => ?_
  split
  · exact reads_advance.bind fun _ => reads_pure _
  · exact reads_pure _

theorem reads_statement : Reads 1 statement := by
  refine reads_current_then fun first => ?_
  refine reads_stmtKind.bind (n := 1) fun kind => ?_
  refine (reads_expression _ _).bind (n := 0) fun e => ?_
  refine reads_current_then fun t => ?_
  split
  · exact reads_advance.bind fun _ => reads_pure _
  · exact reads_pure _

theorem length_attempt_lt {ts : TokenStream} (h : ts.pending ≠ []) :
    (attempt ts).2.pending.length < ts.pending.length := by
  have hpos := List.length_pos_iff.mpr h
  unfold attempt
  cases hs : statement ts with
  | ok result ts' =>
    have := reads_statement.ok _ _ _ hs
    dsimp only
    omega
  | error error ts' =>
    have := reads_statement.error _ _ _ hs
    dsimp only
    by_cases h' : ts'.pending = []
    · simpa [TokenStream.afterSemicolon, h'] using hpos
    · have := TokenStream.length_afterSemicolon_lt h'
      omega

/-! ## All statements -/

def attempts (ts : TokenStream) : List Attempt :=
  if _h : ts.pending = [] then [] else (attempt ts).1 :: attempts (attempt ts).2
termination_by ts.pending.length
decreasing_by exact length_attempt_lt _h

theorem attempts_of_nil {ts : TokenStream} (h : ts.pending = []) : attempts ts = [] := by
  rw [attempts, dif_pos h]

theorem attempts_of_ne_nil {ts : TokenStream} (h : ts.pending ≠ []) :
    attempts ts = (attempt ts).1 :: attempts (attempt ts).2 := by
  rw [attempts, dif_neg h]

/-- A program with the issues met while reading it. -/
structure Parsed where
  program : Program
  issues : List Issue
  deriving DecidableEq, Repr

def Parsed.ofAttempts (as : List Attempt) : Parsed :=
  ⟨⟨as.filterMap Attempt.stmt?⟩, (as.filterMap Attempt.error?).map SyntaxError.toIssue⟩

def parseStream (ts : TokenStream) : Parsed := .ofAttempts (attempts ts)

/-- The program that a text holds, and the issues of the text. -/
def parse (source : String) : Parsed := parseStream (.ofLexer (.ofSource source))

end ExprLang
