import ExprLang.Text.Cursor
import ExprLang.Token.Scan

/-!
# Lexers

A lexer reads the tokens of a source text one by one. After the last token it answers the
end of input, again and again.

* `Lexer.next` reads one token, `Lexer.tokens` all that are left, `Lexer.finish` is the
  lexer after them.
* `length_rest_lt_of_token?`: a token consumes at least one character, which is why
  `tokens` ends.
* `next_of_token?_eq_none`: once there is no token left, the answer no longer changes.
-/

namespace ExprLang

open Text

/-! ## Tokens at a cursor -/

/-- The next token after trivia; `none` when only trivia is left. -/
def nextToken? (c : Cursor) : Option (Token × Cursor) :=
  let (trivia, rest) := Scan.splitTrivia false c.rest
  match rest with
  | [] => none
  | first :: more =>
    let start := c.skip trivia rest
    let scanned := Scan.scan first more
    let stop := start.skip scanned.lexeme scanned.rest
    some (⟨scanned.kind, String.ofList scanned.lexeme, ⟨start.position, stop.position⟩⟩, stop)

theorem length_rest_lt_of_token? {c c' : Cursor} {t : Token} (h : nextToken? c = some (t, c')) :
    c'.rest.length < c.rest.length := by
  have happ := congrArg List.length (Scan.splitTrivia_append false c.rest)
  rw [List.length_append] at happ
  unfold nextToken? at h
  dsimp only at h
  split at h
  · cases h
  · rename_i first more hrest
    cases h
    have := Scan.length_scan_rest_lt first more
    rw [hrest] at happ
    simp only [Cursor.rest_skip]
    omega

theorem kind_ne_endOfInput_of_token? {c c' : Cursor} {t : Token}
    (h : nextToken? c = some (t, c')) : t.kind ≠ .endOfInput := by
  unfold nextToken? at h
  dsimp only at h
  split at h
  · cases h
  · cases h
    exact Scan.scan_kind_ne_endOfInput _ _

/-- All tokens after a cursor. -/
def tokensFrom (c : Cursor) : List Token :=
  match _h : nextToken? c with
  | none => []
  | some (t, c') => t :: tokensFrom c'
termination_by c.rest.length
decreasing_by exact length_rest_lt_of_token? _h

theorem tokensFrom_of_none {c : Cursor} (h : nextToken? c = none) : tokensFrom c = [] := by
  rw [tokensFrom]
  split
  · rfl
  · simp_all

theorem tokensFrom_of_some {c c' : Cursor} {t : Token} (h : nextToken? c = some (t, c')) :
    tokensFrom c = t :: tokensFrom c' := by
  rw [tokensFrom]
  split
  · simp_all
  · rename_i h'
    rw [h] at h'
    cases h'
    rfl

/-! ## Lexers -/

structure Lexer where
  /-- The whole text, of which the cursor has read a part. -/
  source : String
  cursor : Cursor
  deriving DecidableEq, Repr

namespace Lexer

def ofSource (source : String) : Lexer := ⟨source, .ofString source⟩

/-- A lexer that starts at a byte offset; `none` past the end of the text or inside a
character. Spans stay relative to the whole text. -/
def startingAt? (source : String) (offset : Nat) : Option Lexer :=
  (Cursor.startingAt? source offset).map fun cursor => ⟨source, cursor⟩

/-- The byte offset of the next unread character. -/
def position (l : Lexer) : Nat := l.cursor.position

/-- The lexer at the end of its text. -/
def finish (l : Lexer) : Lexer := { l with cursor := l.cursor.skip l.cursor.rest [] }

/-- Reads the next token; at the end that is the end of input. -/
def next (l : Lexer) : Token × Lexer :=
  match nextToken? l.cursor with
  | some (t, cursor) => (t, { l with cursor })
  | none => (.endOfInput (.empty l.finish.position), l.finish)

/-- The tokens still to be read, without the end of input. -/
def tokens (l : Lexer) : List Token := tokensFrom l.cursor

/-- The lexer after `n` more tokens. -/
def drop : Nat → Lexer → Lexer
  | 0, l => l
  | n + 1, l => drop n l.next.2

/-! ## At the end -/

theorem nextToken?_finish (l : Lexer) : nextToken? l.finish.cursor = none := rfl

theorem finish_finish (l : Lexer) : l.finish.finish = l.finish := rfl

theorem next_of_token?_eq_none {l : Lexer} (h : nextToken? l.cursor = none) :
    l.next = (.endOfInput (.empty l.finish.position), l.finish) ∧ l.finish.next = l.next := by
  have : l.next = (.endOfInput (.empty l.finish.position), l.finish) := by simp [next, h]
  exact ⟨this, this ▸ rfl⟩

end Lexer

/-- The tokens of a text. -/
def lex (source : String) : List Token := (Lexer.ofSource source).tokens

end ExprLang
