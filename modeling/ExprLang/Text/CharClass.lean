/-!
# Classes of characters

A class of characters is a list of closed ranges of code points.

* `isBlank` is the class of blanks: the 25 characters with the Unicode property
  `White_Space`. It contains the blanks of `Char.isWhitespace` (`isBlank_of_isWhitespace`).
* `isDigit`, `isWordStart` and `isWordRest` are classes of ASCII characters.
-/

namespace ExprLang.Text

/-- A class of characters, as closed ranges of code points. -/
abbrev CharClass := List (Nat × Nat)

def CharClass.contains (ranges : CharClass) (c : Char) : Bool :=
  ranges.any fun r => r.1 ≤ c.toNat && c.toNat ≤ r.2

/-! ## Blanks -/

def blanks : CharClass :=
  [(0x9, 0xD), (0x20, 0x20), (0x85, 0x85), (0xA0, 0xA0), (0x1680, 0x1680),
   (0x2000, 0x200A), (0x2028, 0x2029), (0x202F, 0x202F), (0x205F, 0x205F), (0x3000, 0x3000)]

def isBlank (c : Char) : Bool := blanks.contains c

theorem isBlank_of_isWhitespace {c : Char} (h : c.isWhitespace = true) : isBlank c = true := by
  simp only [Char.isWhitespace, Bool.or_eq_true, decide_eq_true_eq] at h
  rcases h with ((rfl | rfl) | rfl) | rfl <;> decide

/-! ## Digits and words -/

def isDigit (c : Char) : Bool := c.isDigit

/-- Words are ASCII: a letter or an underscore starts one. -/
def isWordStart (c : Char) : Bool := c.isAlpha || c == '_'

def isWordRest (c : Char) : Bool := c.isAlphanum || c == '_'

theorem isWordRest_of_isWordStart {c : Char} (h : isWordStart c = true) : isWordRest c = true := by
  simp only [isWordStart, isWordRest, Char.isAlphanum, Bool.or_eq_true] at *
  rcases h with h | h
  · exact Or.inl (Or.inl h)
  · exact Or.inr h

end ExprLang.Text
