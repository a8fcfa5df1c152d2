import ExprLang.Diagnostic.Basic
import ExprLang.Diagnostic.Rendering
import ExprLang.Text.Width

/-!
# Rendering diagnostics

A diagnostic is rendered as a header and a block for each snippet. A block says where the
snippet starts and shows the lines around that place, each after its number and a gutter.
Under the line itself goes an underline with the label.

* The underline covers the part of the span that lies on its line; it is at least one
  column wide, and lines are measured with their tabs expanded, as they are printed.
* `window` is the part of a text that a block shows.
* `block_of_place?`, `block_of_none`: a block, by the place at which its span starts.
-/

namespace ExprLang

open Text

/-! ## Rows -/

/-- Text at the right end of a field of `width` characters. -/
def alignRight (width : Nat) (text : List Char) : List Char :=
  List.replicate (width - text.length) ' ' ++ text

def digitCount (n : Nat) : Nat := (Nat.toDigits 10 n).length

/-- The front of a row: a line number or blanks, and the gutter. -/
def gutterEvents (config : Config) (width : Nat) (number? : Option Nat) : List Event :=
  let number := match number? with
    | some n => Nat.toDigits 10 n
    | none => []
  [.setStyle config.subtleStyle, .write (String.ofList (alignRight width number)),
    .write (" " ++ config.gutter ++ " "), .reset]

def lineEvents (line : List Char) : List Event := [.write (String.ofList (expandTabs line) ++ "\n")]

/-- The part of a line before a column, and the part of the given length from there on,
both cut off at the end of the line. -/
def underlined? (line : List Char) (column length : Nat) : Option (List Char × List Char) := do
  let size := byteSize line
  let start := min column size
  let stop := max start (min (column + length) size)
  let (before, rest) ← splitBytes? start line
  let (under, _) ← splitBytes? (stop - start) rest
  return (before, under)

def repeatText (n : Nat) (text : String) : String :=
  String.ofList (List.replicate n text.toList).flatten

/-- The row below a line, with the underline and the label. -/
def underlineRow (config : Config) (width : Nat) (line : List Char) (column length : Nat)
    (label : String) : Rendering :=
  .ofEvents (gutterEvents config width none) ++
    match underlined? line column length with
    | none => .ofError .splitCharacter
    | some (before, under) =>
      let offset := displayWidth (expandTabs before)
      let underline := repeatText (max 1 (displayWidth (expandTabs under))) config.underline
      .ofEvents [.setStyle config.errorStyle, .write (repeatText offset " "), .write underline,
        .write (config.underlineGap ++ label ++ "\n"), .reset]

/-! ## Blocks -/

/-- The lines from `contextSize` before line `line` to `contextSize` after it, as far as
they exist, with their numbers counted from zero. -/
def window (lines : List (List Char)) (contextSize line : Nat) : List (List Char × Nat) :=
  let first := line - contextSize
  let stop := min (line + 1 + contextSize) lines.length
  (lines.zipIdx.drop first).take (stop - first)

/-- The width of the line numbers of a block: that of the last one. -/
def numberWidth (lines : List (List Char)) (contextSize line : Nat) : Nat :=
  digitCount (min (line + 1 + contextSize) lines.length)

/-- The lines of a snippet that starts at `place`, and the underline. -/
def rows (config : Config) (source : Source) (place : Place) (length : Nat) (label : String) :
    List Rendering :=
  let width := numberWidth source.lines config.contextSize place.line
  (window source.lines config.contextSize place.line).map fun (text, index) =>
    let line := dropReturn text
    .ofEvents (gutterEvents config width (some (index + 1)) ++ lineEvents line) ++
      if index = place.line then
        underlineRow config width line place.column length label
      else
        .ofEvents []

/-- Where a snippet starts, by the line and the column that are shown. -/
def locationEvents (config : Config) (source : Source) : Nat × Nat → List Event
  | (line, column) =>
    let location := source.name ++ ":" ++ line.repr ++ ":" ++ column.repr
    [.setStyle config.subtleStyle, .write ("In " ++ location ++ "\n"), .reset]

def block (config : Config) (source : Source) (span : Span) (label : String) : Rendering :=
  match source.lineColumn? span.start with
  | none => .ofError .spanOutOfBounds
  | some (line, column) =>
    .ofEvents (locationEvents config source (line, column)) ++
      .concat (rows config source ⟨line - 1, column - 1⟩ span.length label) ++
      .ofEvents [.write "\n"]

theorem block_of_none {config : Config} {source : Source} {span : Span}
    (h : source.place? span.start = none) (label : String) :
    block config source span label = .ofError .spanOutOfBounds := by
  rw [block, Source.lineColumn?, h, Option.map_none]

theorem block_of_place? {config : Config} {source : Source} {span : Span} {place : Place}
    (h : source.place? span.start = some place) (label : String) :
    block config source span label =
      .ofEvents (locationEvents config source place.shown) ++
        .concat (rows config source place span.length label) ++ .ofEvents [.write "\n"] := by
  rw [block, Source.lineColumn?, h, Option.map_some]
  rfl

/-! ## Diagnostics -/

def headerEvents (config : Config) (message? : Option String) : List Event :=
  let message := match message? with
    | some message => " " ++ message
    | none => ""
  [.setStyle config.errorStyle, .write "Error:", .reset, .write (message ++ "\n")]

def Snippet.render {ι : Type} (config : Config) (sources : ι → Option Source) (s : Snippet ι) :
    Rendering :=
  match sources s.source with
  | none => .ofError .sourceMissing
  | some source => block config source s.span s.label

def Diagnostic.render {ι : Type} (config : Config) (sources : ι → Option Source)
    (d : Diagnostic ι) : Rendering :=
  .ofEvents (headerEvents config d.message?) ++
    .concat (d.snippets.map (Snippet.render config sources))

end ExprLang
