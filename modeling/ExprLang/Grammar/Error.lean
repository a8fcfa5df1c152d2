import ExprLang.Text.Span

/-!
# Syntax errors

A syntax error has a cause and a place. `Cause.message` is its wording; an issue is a
syntax error as it is reported, wording and place.
-/

namespace ExprLang

open Text

/-- What is wrong with a text. Tokens and places are named as in messages. -/
inductive Cause where
  | unexpectedCharacter (text : String)
  | unterminatedString
  | expectedExpression (found : String)
  | expectedAfter (expected after found : String)
  | invalidNumber (text : String)
  | tooDeep
  deriving DecidableEq, Repr

def Cause.message : Cause → String
  | unexpectedCharacter text => "Unexpected character '" ++ text ++ "'."
  | unterminatedString => "Unterminated string."
  | expectedExpression found => "Expected an expression, found " ++ found ++ "."
  | expectedAfter expected after found =>
    "Expected " ++ expected ++ " after " ++ after ++ ", found " ++ found ++ "."
  | invalidNumber text => "Invalid number literal '" ++ text ++ "'."
  | tooDeep => "Expression nested too deeply."

/-- A problem of a text, as it is reported. -/
structure Issue where
  message : String
  span : Span
  deriving DecidableEq, Repr

structure SyntaxError where
  cause : Cause
  span : Span
  deriving DecidableEq, Repr

def SyntaxError.toIssue (e : SyntaxError) : Issue := ⟨e.cause.message, e.span⟩

def Issue.mapSpan (f : Span → Span) (i : Issue) : Issue := { i with span := f i.span }

def SyntaxError.mapSpan (f : Span → Span) (e : SyntaxError) : SyntaxError :=
  { e with span := f e.span }

@[simp] theorem SyntaxError.toIssue_mapSpan (f : Span → Span) (e : SyntaxError) :
    (e.mapSpan f).toIssue = e.toIssue.mapSpan f := rfl

end ExprLang
