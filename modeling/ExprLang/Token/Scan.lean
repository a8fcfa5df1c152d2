import ExprLang.Text.CharClass
import ExprLang.Token.Basic

/-!
# Cutting one token off a text

Between tokens stands trivia: blanks, and comments from `//` through the end of the line.
`splitTrivia` cuts off all trivia, and `scan` cuts off the one token that the first
character after it selects.

* `splitTrivia_append`, `scan_append`: cutting loses nothing.
* `scan_lexeme_ne_nil`: a token is never empty.
* `splitTrivia_rest`: what follows trivia starts neither with a blank nor with a comment.
-/

namespace ExprLang.Scan

open Text

/-! ## Trivia -/

/-- Cuts off the longest stretch of trivia. Inside a comment everything up to the next
newline belongs to it. -/
def splitTrivia (inComment : Bool) : List Char → List Char × List Char
  | [] => ([], [])
  | c :: cs =>
    if inComment then
      let (trivia, rest) := splitTrivia (c != '\n') cs
      (c :: trivia, rest)
    else if isBlank c then
      let (trivia, rest) := splitTrivia false cs
      (c :: trivia, rest)
    else if c = '/' ∧ cs.head? = some '/' then
      let (trivia, rest) := splitTrivia true cs
      (c :: trivia, rest)
    else
      ([], c :: cs)

theorem splitTrivia_append (inComment : Bool) (cs : List Char) :
    (splitTrivia inComment cs).1 ++ (splitTrivia inComment cs).2 = cs := by
  induction cs generalizing inComment with
  | nil => rfl
  | cons c cs ih =>
    rw [splitTrivia]
    split
    · simp [ih]
    · split
      · simp [ih]
      · split
        · simp [ih]
        · rfl

theorem splitTrivia_rest {inComment : Bool} {cs rest : List Char} {c : Char}
    (h : (splitTrivia inComment cs).2 = c :: rest) :
    isBlank c = false ∧ ¬ (c = '/' ∧ rest.head? = some '/') := by
  induction cs generalizing inComment with
  | nil => cases h
  | cons d cs ih =>
    rw [splitTrivia] at h
    split at h
    · exact ih h
    · split at h
      · exact ih h
      · split at h
        · exact ih h
        · rename_i hblank hcomment
          cases h
          exact ⟨by simpa using hblank, hcomment⟩

/-! ## Tokens -/

/-- A token cut off the front of a text. -/
structure Scanned where
  kind : TokenKind
  lexeme : List Char
  rest : List Char
  deriving DecidableEq, Repr

/-- The kinds of the tokens of a single character. -/
def punctuation? : Char → Option TokenKind
  | '(' => some .openParen
  | ')' => some .closeParen
  | ';' => some .semicolon
  | '+' => some (.operator .add)
  | '-' => some (.operator .sub)
  | '*' => some (.operator .mul)
  | '/' => some (.operator .div)
  | _ => none

/-- A string after its opening quote. It has no escapes and may run over lines. -/
def scanString (cs : List Char) : Scanned :=
  match cs.dropWhile (· != '"') with
  | [] => ⟨.unterminatedString, '"' :: cs, []⟩
  | quote :: rest => ⟨.string, '"' :: (cs.takeWhile (· != '"') ++ [quote]), rest⟩

/-- The fractional part at the front of a text: a point with at least one digit. -/
def splitFraction (cs : List Char) : List Char × List Char :=
  match cs with
  | '.' :: digits =>
    if digits.head?.any isDigit then
      ('.' :: digits.takeWhile isDigit, digits.dropWhile isDigit)
    else
      ([], cs)
  | _ => ([], cs)

/-- A number: digits, then a fractional part if there is one. -/
def scanNumber (cs : List Char) : Scanned :=
  let (fraction, rest) := splitFraction (cs.dropWhile isDigit)
  ⟨.number, cs.takeWhile isDigit ++ fraction, rest⟩

def wordKind (word : List Char) : TokenKind :=
  match Keyword.ofWord? (String.ofList word) with
  | some keyword => .keyword keyword
  | none => .identifier

def scanWord (cs : List Char) : Scanned :=
  let word := cs.takeWhile isWordRest
  ⟨wordKind word, word, cs.dropWhile isWordRest⟩

/-- Cuts off the token that starts with `c`. -/
def scan (c : Char) (cs : List Char) : Scanned :=
  match punctuation? c with
  | some kind => ⟨kind, [c], cs⟩
  | none =>
    if c = '"' then scanString cs
    else if isDigit c then scanNumber (c :: cs)
    else if isWordStart c then scanWord (c :: cs)
    else ⟨.invalid, [c], cs⟩

/-! ## Nothing is lost -/

theorem splitFraction_append (cs : List Char) :
    (splitFraction cs).1 ++ (splitFraction cs).2 = cs := by
  unfold splitFraction
  split
  · split
    · simp
    · rfl
  · rfl

theorem scanString_append (cs : List Char) :
    (scanString cs).lexeme ++ (scanString cs).rest = '"' :: cs := by
  unfold scanString
  split
  · simp
  · rename_i quote rest h
    have := List.takeWhile_append_dropWhile (p := (· != '"')) (l := cs)
    rw [h] at this
    simp [this]

theorem scanNumber_append (cs : List Char) :
    (scanNumber cs).lexeme ++ (scanNumber cs).rest = cs := by
  simp [scanNumber, splitFraction_append]

theorem scanWord_append (cs : List Char) :
    (scanWord cs).lexeme ++ (scanWord cs).rest = cs := by
  simp [scanWord]

theorem scan_append (c : Char) (cs : List Char) :
    (scan c cs).lexeme ++ (scan c cs).rest = c :: cs := by
  unfold scan
  split
  · rfl
  · split
    · rename_i h
      rw [h, scanString_append]
    · split
      · exact scanNumber_append _
      · split
        · exact scanWord_append _
        · rfl

theorem scan_lexeme_ne_nil (c : Char) (cs : List Char) : (scan c cs).lexeme ≠ [] := by
  unfold scan
  split
  · simp
  · split
    · unfold scanString
      split <;> simp
    · split
      · rename_i h
        simp [scanNumber, h]
      · split
        · rename_i h
          simp [scanWord, isWordRest_of_isWordStart h]
        · simp

theorem length_scan_rest_lt (c : Char) (cs : List Char) :
    (scan c cs).rest.length < (c :: cs).length := by
  have h := congrArg List.length (scan_append c cs)
  have := List.length_pos_iff.mpr (scan_lexeme_ne_nil c cs)
  rw [List.length_append] at h
  omega

/-- The end of input is no text. -/
theorem scan_kind_ne_endOfInput (c : Char) (cs : List Char) :
    (scan c cs).kind ≠ .endOfInput := by
  unfold scan
  split
  · rename_i kind h
    rintro rfl
    unfold punctuation? at h
    split at h <;> cases h
  · split
    · unfold scanString
      split <;> simp
    · split
      · simp [scanNumber]
      · split
        · simp only [scanWord, wordKind]
          split <;> simp
        · simp

end ExprLang.Scan
