import ExprLang.Diagnostic.Render
import ExprLang.Proofs.Places
import Mathlib.Data.List.Intervals

/-!
# Complete blocks

A block can break off in two ways: its span starts behind the end of the text, or the underline
would cut a character. Neither happens where the span is a part of the text.

* `Underlines`: which part of a line is underlined.
* `window_eq`: the line of a block, those above it and those below.
* `window_eq_map`: the lines of a block by their numbers.
* `CompleteBlock`: what a block consists of that is drawn to its end.
* `exists_completeBlock`: the block of a part of a text is complete.
-/

namespace ExprLang

open Text

/-! ## Renderings without errors -/

namespace Rendering

theorem ofEvents_append (xs ys : List Event) : ofEvents xs ++ ofEvents ys = ofEvents (xs ++ ys) :=
  append_of_none (r := ofEvents xs) rfl _

theorem concat_append (rs ss : List Rendering) : concat (rs ++ ss) = concat rs ++ concat ss := by
  induction rs with
  | nil => exact (append_of_none (r := ofEvents []) rfl _).symm
  | cons r rs ih => rw [List.cons_append, concat, concat, ih, append_assoc]

theorem concat_map_ofEvents {α : Type} (f : α → List Event) (xs : List α) :
    concat (xs.map fun x => ofEvents (f x)) = ofEvents (xs.flatMap f) := by
  induction xs with
  | nil => rfl
  | cons x xs ih => rw [List.map_cons, concat, ih, ofEvents_append, List.flatMap_cons]

end Rendering

/-! ## Underlines -/

/-- From a column on, `length` bytes of a line are underlined, as far as the line goes. -/
structure Underlines (line : List Char) (column length : Nat) (before under : List Char) :
    Prop where
  front : before ++ under <+: line
  start : byteSize before = min column (byteSize line)
  stop : byteSize (before ++ under) = min (column + length) (byteSize line)

theorem Underlines.underlined?_eq {line before under : List Char} {column length : Nat}
    (h : Underlines line column length before under) :
    underlined? line column length = some (before, under) := by
  obtain ⟨after, rfl⟩ := h.front
  have hstart := h.start
  have hstop := h.stop
  have hunder : max (byteSize before)
      (min (column + length) (byteSize (before ++ under ++ after))) - byteSize before =
        byteSize under := by
    rw [byteSize_append before under] at hstop
    omega
  unfold underlined?
  dsimp only
  rw [← hstart, hunder, List.append_assoc, splitBytes?_byteSize]
  exact congrArg (fun split => split.bind fun p => some (before, p.1))
    (splitBytes?_byteSize under after)

/-- A part of a text marks a part of a line of the text, if only an empty one. -/
theorem exists_underlines {line text start middle : List Char} (hline : line <+: text)
    (hmiddle : start ++ middle <+: text) :
    ∃ before under, Underlines line (byteSize start) (byteSize middle) before under := by
  have hstart : start <+: text := (List.prefix_append start middle).trans hmiddle
  obtain ⟨before, hbefore, -, hsize⟩ := exists_front_min hstart hline
  obtain ⟨front, hfront, -, hsize'⟩ := exists_front_min hmiddle hline
  have hle : byteSize before ≤ byteSize front := by
    rw [byteSize_append] at hsize'
    omega
  obtain ⟨under, rfl⟩ := prefix_of_byteSize_le hbefore hfront hle
  rw [byteSize_append start] at hsize'
  exact ⟨before, under, hfront, hsize, hsize'⟩

/-- The underline and the label below a line. -/
def underlineEvents (config : Config) (before under : List Char) (label : String) : List Event :=
  [.setStyle config.errorStyle, .write (repeatText (displayWidth (expandTabs before)) " "),
    .write (repeatText (max 1 (displayWidth (expandTabs under))) config.underline),
    .write (config.underlineGap ++ label ++ "\n"), .reset]

theorem Underlines.underlineRow_eq {line before under : List Char} {column length : Nat}
    (h : Underlines line column length before under) (config : Config) (width : Nat)
    (label : String) :
    underlineRow config width line column length label =
      .ofEvents (gutterEvents config width none ++ underlineEvents config before under label) := by
  rw [underlineRow, h.underlined?_eq, ← Rendering.ofEvents_append]
  rfl

/-! ## Rows -/

/-- The lines that a block shows above its line, with their numbers. -/
def linesAbove (lines : List (List Char)) (contextSize line : Nat) : List (List Char × Nat) :=
  (lines.take line).zipIdx.drop (line - contextSize)

/-- The lines that a block shows below its line, with their numbers. -/
def linesBelow (lines : List (List Char)) (contextSize line : Nat) : List (List Char × Nat) :=
  ((lines.drop (line + 1)).zipIdx (line + 1)).take contextSize

theorem take_drop_append {α : Type} (xs ys : List α) {i : Nat} (hi : i ≤ xs.length) (n : Nat) :
    ((xs ++ ys).drop i).take (xs.length + n - i) = xs.drop i ++ ys.take n := by
  have hfront : (xs.drop i).take (xs.length + n - i) = xs.drop i := by
    apply List.take_of_length_le
    rw [List.length_drop]
    omega
  have hback : xs.length + n - i - (xs.length - i) = n := by omega
  rw [List.drop_append_of_le_length hi, List.take_append, List.length_drop, hfront, hback]

section

variable {lines : List (List Char)} {text : List Char} {line contextSize : Nat}
  {row : List Char × Nat}

theorem window_eq (h : lines[line]? = some text) (contextSize : Nat) :
    window lines contextSize line =
      linesAbove lines contextSize line ++ (text, line) :: linesBelow lines contextSize line := by
  obtain ⟨hlt, rfl⟩ := List.getElem?_eq_some_iff.mp h
  have hline : (lines.take line).length = line := List.length_take_of_le (Nat.le_of_lt hlt)
  have hsplit : lines.zipIdx = (lines.take line).zipIdx ++
      (lines[line], line) :: (lines.drop (line + 1)).zipIdx (line + 1) := by
    conv_lhs => rw [← List.take_append_drop line lines, List.drop_eq_getElem_cons hlt,
      List.zipIdx_append, List.zipIdx_cons, Nat.zero_add, hline]
  have habove : (lines.take line).zipIdx.length = line := by rw [List.length_zipIdx, hline]
  -- The window ends behind the line itself, and not behind the last line.
  have hstop : min (line + 1 + contextSize) lines.length =
      (lines.take line).zipIdx.length + (min contextSize (lines.length - (line + 1)) + 1) := by
    omega
  have hbelow : ((lines.drop (line + 1)).zipIdx (line + 1)).take
      (min contextSize (lines.length - (line + 1))) = linesBelow lines contextSize line := by
    apply List.take_eq_take_iff.mpr
    rw [List.length_zipIdx, List.length_drop]
    omega
  unfold window
  dsimp only
  rw [hsplit, hstop, take_drop_append _ _ (by omega), List.take_succ_cons, hbelow]
  rfl

theorem ne_of_mem_linesAbove (h : row ∈ linesAbove lines contextSize line) : row.2 ≠ line := by
  have hlt := List.snd_lt_of_mem_zipIdx (List.mem_of_mem_drop h)
  rw [List.length_take] at hlt
  omega

theorem ne_of_mem_linesBelow (h : row ∈ linesBelow lines contextSize line) : row.2 ≠ line := by
  have hle := List.le_snd_of_mem_zipIdx (List.mem_of_mem_take h)
  omega

end

/-- A window holds the lines with the numbers of an interval, each once and in order. -/
theorem window_eq_map (lines : List (List Char)) (contextSize line : Nat) :
    window lines contextSize line =
      (List.Ico (line - contextSize) (min lines.length (line + 1 + contextSize))).map
        fun i => (lines[i]?.getD [], i) := by
  unfold window List.Ico
  dsimp only
  rw [Nat.min_comm lines.length]
  apply List.ext_getElem?
  intro j
  rw [List.getElem?_map]
  -- Both sides have as many entries, and entry `j` is line `line - contextSize + j`.
  by_cases hj : j < min (line + 1 + contextSize) lines.length - (line - contextSize)
  · have hlt : line - contextSize + j < lines.length := by omega
    rw [List.getElem?_take_of_lt hj, List.getElem?_drop, List.getElem?_zipIdx,
      List.getElem?_range' hj]
    simp [List.getElem?_eq_getElem hlt]
  · have hle := Nat.le_of_not_lt hj
    rw [List.getElem?_eq_none (by rw [List.length_take]; omega),
      List.getElem?_eq_none (by rw [List.length_range']; omega)]
    rfl

theorem getElem?_of_mem_window {lines : List (List Char)} {contextSize line i : Nat}
    {text : List Char} (h : (text, i) ∈ window lines contextSize line) : lines[i]? = some text :=
  List.mem_zipIdx_iff_getElem?.mp (List.mem_of_mem_drop (List.mem_of_mem_take h))

/-- The row of a line: its number, the gutter and the line without its line ending. -/
def rowEvents (config : Config) (width : Nat) (row : List Char × Nat) : List Event :=
  gutterEvents config width (some (row.2 + 1)) ++ lineEvents (dropReturn row.1)

/-- The rows of a block: those above its line, the line with its underline, those below. -/
def rowsEvents (config : Config) (source : Source) (line : Nat) (text before under : List Char)
    (label : String) : List Event :=
  let width := numberWidth source.lines config.contextSize line
  (linesAbove source.lines config.contextSize line).flatMap (rowEvents config width) ++
    (rowEvents config width (text, line) ++
      (gutterEvents config width none ++ underlineEvents config before under label)) ++
    (linesBelow source.lines config.contextSize line).flatMap (rowEvents config width)

section

variable {config : Config} {source : Source} {place : Place} {text before under : List Char}
  {length : Nat}

/-- Only the row of the line itself can break off. -/
theorem rows_eq (hline : source.lines[place.line]? = some text) (length : Nat) (label : String) :
    let width := numberWidth source.lines config.contextSize place.line
    rows config source place length label =
      (linesAbove source.lines config.contextSize place.line).map
          (fun row => .ofEvents (rowEvents config width row)) ++
        (.ofEvents (rowEvents config width (text, place.line)) ++
          underlineRow config width (dropReturn text) place.column length label) ::
        (linesBelow source.lines config.contextSize place.line).map
          (fun row => .ofEvents (rowEvents config width row)) := by
  unfold rows
  dsimp only
  generalize numberWidth source.lines config.contextSize place.line = width
  have hrow : ∀ row : List Char × Nat, row.2 ≠ place.line →
      Rendering.ofEvents (gutterEvents config width (some (row.2 + 1)) ++
          lineEvents (dropReturn row.1)) ++
        (if row.2 = place.line then
          underlineRow config width (dropReturn row.1) place.column length label
        else .ofEvents []) = .ofEvents (rowEvents config width row) := by
    intro row h
    rw [if_neg h, Rendering.ofEvents_append, List.append_nil]
    rfl
  have habove : ∀ row ∈ linesAbove source.lines config.contextSize place.line,
      row.2 ≠ place.line := fun row h => ne_of_mem_linesAbove h
  have hbelow : ∀ row ∈ linesBelow source.lines config.contextSize place.line,
      row.2 ≠ place.line := fun row h => ne_of_mem_linesBelow h
  rw [window_eq hline, List.map_append, List.map_cons,
    List.map_congr_left fun row h => hrow row (habove row h),
    List.map_congr_left fun row h => hrow row (hbelow row h), if_pos rfl]
  rfl

theorem concat_rows (hline : source.lines[place.line]? = some text)
    (hunder : Underlines (dropReturn text) place.column length before under) (label : String) :
    Rendering.concat (rows config source place length label) =
      .ofEvents (rowsEvents config source place.line text before under label) := by
  rw [rows_eq hline, Rendering.concat_append, Rendering.concat, Rendering.concat_map_ofEvents,
    Rendering.concat_map_ofEvents, hunder.underlineRow_eq]
  simp only [Rendering.ofEvents_append, List.append_assoc, rowsEvents]

end

/-- All that a block consists of. -/
def blockEvents (config : Config) (source : Source) (place : Place)
    (text before under : List Char) (label : String) : List Event :=
  locationEvents config source place.shown ++
    rowsEvents config source place.line text before under label ++ [.write "\n"]

/-- The block of a span that starts behind `front` is drawn to its end. The line of the block is
the one that `front` ends in, and the underline starts where `front` ends. -/
inductive CompleteBlock (config : Config) (source : Source) (span : Span) (label : String) :
    List Event → Prop
  | mk {front back text before under : List Char} (htext : source.text.toList = front ++ back)
      (hstart : span.start = byteSize front)
      (hline : source.lines[front.count '\n']? = some text)
      (hunder : Underlines (dropReturn text) (byteSize (lastLine front)) span.length before under) :
      CompleteBlock config source span label
        (blockEvents config source ⟨front.count '\n', byteSize (lastLine front)⟩ text before under
          label)

theorem CompleteBlock.block_eq {config : Config} {source : Source} {span : Span} {label : String}
    {events : List Event} (h : CompleteBlock config source span label events) :
    block config source span label = .ofEvents events := by
  cases h with
  | @mk front back text before under htext hstart hline hunder =>
    have hplace : source.place? span.start =
        some ⟨front.count '\n', byteSize (lastLine front)⟩ := by
      rw [Source.place?, htext, hstart, place?_byteSize]
    rw [block_of_place? hplace, concat_rows hline hunder, Rendering.ofEvents_append,
      Rendering.ofEvents_append]
    rfl

/-- The block of a part of a text is complete. -/
theorem exists_completeBlock (config : Config) {source : Source} {span : Span} (label : String)
    (h : span.PartOf source.text.toList) :
    ∃ events, CompleteBlock config source span label events := by
  obtain ⟨front, middle, back, htext, rfl⟩ := h
  rw [List.append_assoc] at htext
  obtain ⟨hline, -⟩ := getElem?_lines front (middle ++ back)
  rw [← htext] at hline
  have hfront : dropReturn (lastLine front ++ (middle ++ back).takeWhile (· != '\n')) <+:
      lastLine front ++ (middle ++ back) :=
    (dropReturn_front _).trans
      (List.prefix_append_right_inj _ |>.mpr (List.takeWhile_prefix _))
  have hmiddle : lastLine front ++ middle <+: lastLine front ++ (middle ++ back) := by
    rw [← List.append_assoc]
    exact List.prefix_append _ back
  obtain ⟨before, under, hunder⟩ := exists_underlines hfront hmiddle
  have hlength : (⟨byteSize front, byteSize front + byteSize middle⟩ : Span).length =
      byteSize middle := Nat.add_sub_cancel_left _ _
  rw [← hlength] at hunder
  exact ⟨_, .mk htext rfl hline hunder⟩

end ExprLang
