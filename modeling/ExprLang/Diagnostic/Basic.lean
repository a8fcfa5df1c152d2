import ExprLang.Diagnostic.Style
import ExprLang.Text.Lines
import ExprLang.Text.Span

/-!
# Diagnostics

A diagnostic is a message with snippets, regions of source texts that have a label each.
A snippet names its source by an index of some type `ι`; rendering looks sources up.

* `Source.place?` counts lines and columns from zero, `Source.lineColumn?` as they are shown.
-/

namespace ExprLang

open Text

/-- A text with the name it is shown under. -/
structure Source where
  name : String
  text : String
  deriving DecidableEq, Repr

namespace Source

def lines (s : Source) : List (List Char) := Text.lines s.text.toList

/-- The place of a byte offset, counted from zero. -/
def place? (s : Source) (offset : Nat) : Option Place := Text.place? s.text.toList offset

/-- The number of the line of an offset, counted from zero. -/
def lineIndex? (s : Source) (b : Nat) : Option Nat := (s.place? b).map Place.line

/-- Line and column of an offset as they are shown, both counted from one. -/
def lineColumn? (s : Source) (b : Nat) : Option (Nat × Nat) := (s.place? b).map Place.shown

/-- The byte offset at which a line starts. -/
def lineStart? (s : Source) (line : Nat) : Option Nat := Text.lineStart? s.text.toList line

/-- The text of a line without its line ending. -/
def lineText? (s : Source) (line : Nat) : Option String :=
  (Text.lineText? s.text.toList line).map String.ofList

theorem lineText?_eq (s : Source) (line : Nat) :
    s.lineText? line = s.lines[line]?.map fun text => String.ofList (dropReturn text) :=
  Option.map_map _ _ _

end Source

structure Snippet (ι : Type) where
  label : String
  source : ι
  span : Span
  deriving DecidableEq, Repr

structure Diagnostic (ι : Type) where
  message? : Option String
  snippets : List (Snippet ι)
  deriving DecidableEq, Repr

/-- How diagnostics look. -/
structure Config where
  /-- The number of lines shown before and after the line of a snippet. It is added to the number
  of that line, and the sum is taken to stay below `2 ^ 64`. -/
  contextSize : Nat := 2
  errorStyle : Style := { foreground := some (.named .red), bold := true }
  subtleStyle : Style := { italic := true, dimmed := true }
  /-- Stands between line numbers and lines. -/
  gutter : String := "│"
  underline : String := "^"
  /-- Stands between an underline and the label after it. -/
  underlineGap : String := "  "
  deriving DecidableEq, Repr

end ExprLang
