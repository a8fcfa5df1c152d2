import ExprLang.Operator
import ExprLang.Text.Span

/-!
# Tokens

A token is a piece of source text together with its kind and its span. Kinds have names
for use in messages; where the name alone would be ambiguous, `Token.describe` adds the
text of the token.
-/

namespace ExprLang

open Text

inductive Keyword where
  | print
  | bool (value : Bool)
  deriving DecidableEq, Repr

namespace Keyword

/-- The keyword a word spells, if it spells one. -/
def ofWord? : String → Option Keyword
  | "print" => some print
  | "true" => some (bool true)
  | "false" => some (bool false)
  | _ => none

def word : Keyword → String
  | print => "print"
  | bool true => "true"
  | bool false => "false"

theorem ofWord?_word (k : Keyword) : ofWord? k.word = some k := by
  rcases k with _ | _ | _ <;> rfl

theorem ofWord?_eq_some_iff {s : String} {k : Keyword} : ofWord? s = some k ↔ s = k.word := by
  constructor
  · intro h
    unfold ofWord? at h
    split at h <;> first | cases h; rfl | cases h
  · rintro rfl
    exact ofWord?_word k

end Keyword

inductive TokenKind where
  | keyword (word : Keyword)
  | identifier
  | number
  | string
  /-- A string without its closing quote. -/
  | unterminatedString
  | openParen
  | closeParen
  | semicolon
  | operator (op : BinaryOp)
  /-- A character that starts no token. -/
  | invalid
  | endOfInput
  deriving DecidableEq, Repr

/-- The name of a kind of token in messages. -/
def TokenKind.name : TokenKind → String
  | keyword word => "keyword '" ++ word.word ++ "'"
  | identifier => "identifier"
  | number => "number"
  | string => "string"
  | unterminatedString => "unterminated string"
  | openParen => "'('"
  | closeParen => "')'"
  | semicolon => "';'"
  | operator op => "'" ++ String.singleton op.symbol ++ "'"
  | invalid => "character"
  | endOfInput => "end of input"

structure Token where
  kind : TokenKind
  /-- The source text of the token. -/
  lexeme : String
  span : Span
  deriving DecidableEq, Repr

namespace Token

/-- The token that stands at the end of every text; it has no text of its own. -/
def endOfInput (span : Span) : Token := ⟨.endOfInput, "", span⟩

/-- What a message says was found. -/
def describe (t : Token) : String :=
  match t.kind with
  | .identifier | .number | .invalid => t.kind.name ++ " '" ++ t.lexeme ++ "'"
  | .string => "string " ++ t.lexeme
  | kind => kind.name

/-- Moves the span of a token. -/
def mapSpan (f : Span → Span) (t : Token) : Token := { t with span := f t.span }

@[simp] theorem mapSpan_endOfInput (f : Span → Span) (span : Span) :
    (endOfInput span).mapSpan f = endOfInput (f span) := rfl

@[simp] theorem describe_mapSpan (f : Span → Span) (t : Token) :
    (t.mapSpan f).describe = t.describe := rfl

end Token

end ExprLang
