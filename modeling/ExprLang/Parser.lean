import ExprLang.Grammar.Statement
import ExprLang.Reporter

/-!
# Parsers that report

A parser reads a program from a stream of tokens and reports the issues it meets to a
reporter. What it reads never depends on the reporter.

* `parseProgram` reads up to the end of input. It also answers whether any issue was met
  so far, by this parser, in this program or in one before it.
-/

namespace ExprLang

structure Parser (ρ : Type) where
  stream : TokenStream
  reporter : ρ
  hadErrors : Bool := false

namespace Parser

variable {ρ : Type} [Reporter ρ]

/-- A parser of all that a lexer still has to read. -/
def ofLexer (l : Lexer) (reporter : ρ) : Parser ρ := { stream := .ofLexer l, reporter }

/-- Reports to the reporter of a parser. -/
def report (is : List Issue) : EStateM RenderError (Parser ρ) Unit := fun p =>
  match Reporter.reportAll is p.reporter with
  | .ok () reporter => .ok () { p with reporter }
  | .error e reporter => .error e { p with reporter }

/-- Reads a program; answers whether there were errors, and the program. -/
def parseProgram : EStateM RenderError (Parser ρ) (Bool × Program) := do
  let parsed := parseStream (← get).stream
  report parsed.issues
  modify fun p =>
    { p with stream := p.stream.finish, hadErrors := p.hadErrors || !parsed.issues.isEmpty }
  return ((← get).hadErrors, parsed.program)

end Parser

end ExprLang
