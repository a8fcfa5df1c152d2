import ExprLang.Proofs.BadSnippets
import ExprLang.Proofs.LineEndings
import Mathlib.Data.Nat.Log

/-!
# Blocks as plain text

As plain text a block is its location, the rows of the lines around its line, one underline row,
and an empty line. All rows have their gutters in the same column.

* `rowFront`, `rowText`: the number field and the gutter of a row, and the row.
* `digitCount_eq_log`, `length_numberField`: how wide a number is, and that it fits into its field.
* `rowsEvents_eq`: the rows of a block in the order of its window.
* `blockText`, `CompleteBlock.exists_blockText`: a complete block as plain text.
* `block_rows`: the blocks that do not break off.
-/

namespace ExprLang

open Text

/-! ## Text of events -/

section

variable (palette : Palette) {style : Style} {text : String} {events : List Event}

@[simp] theorem eventsText_nil : eventsText palette [] = "" := rfl

theorem eventsText_cons (e : Event) (events : List Event) :
    eventsText palette (e :: events) = e.text palette ++ eventsText palette events := by
  apply String.toList_injective
  simp [eventsText]

@[simp] theorem eventsText_write :
    eventsText palette (.write text :: events) = text ++ eventsText palette events :=
  eventsText_cons palette (.write text) events

@[simp] theorem eventsText_plain_setStyle :
    eventsText .plain (.setStyle style :: events) = eventsText .plain events := rfl

@[simp] theorem eventsText_plain_reset :
    eventsText .plain (.reset :: events) = eventsText .plain events := rfl

end

/-! ## Number fields -/

/-- A number has one digit more than its logarithm says. -/
theorem digitCount_eq_log (n : Nat) : digitCount n = 1 + Nat.log 10 n := by
  unfold digitCount
  apply Nat.le_antisymm
  · apply (Nat.length_toDigits_le_iff (by omega) (by omega)).mpr
    rw [Nat.add_comm]
    exact Nat.lt_pow_succ_log_self (by omega) n
  · have hpos : 0 < (Nat.toDigits 10 n).length := Nat.length_toDigits_pos
    have hlt : n < 10 ^ (Nat.toDigits 10 n).length :=
      (Nat.length_toDigits_le_iff (by omega) hpos).mp (Nat.le_refl _)
    have hlog := Nat.log_lt_of_lt_pow' (by omega) hlt
    omega

theorem length_repr_eq_digitCount (n : Nat) : n.repr.length = digitCount n := by
  rw [Nat.repr_eq_ofList_toDigits, String.length_ofList]
  rfl

theorem digitCount_mono {m n : Nat} (h : m ≤ n) : digitCount m ≤ digitCount n := by
  rw [digitCount_eq_log, digitCount_eq_log]
  exact Nat.add_le_add_left (Nat.log_mono_right h) 1

/-- The front of a row: a number at the right end of a field, and the gutter. -/
def rowFront (config : Config) (width : Nat) (number : String) : String :=
  String.ofList (number.toList.leftpad width ' ') ++ " " ++ config.gutter ++ " "

/-- A row of a block, with what it shows behind the gutter. -/
def rowText (config : Config) (width : Nat) (number shown : String) : String :=
  rowFront config width number ++ shown ++ "\n"

/-- A number field is as wide as the largest number needs. -/
theorem length_numberField {m n : Nat} (h : m ≤ n) :
    (m.repr.toList.leftpad (digitCount n) ' ').length = digitCount n := by
  have hfits := digitCount_mono h
  rw [← length_repr_eq_digitCount m] at hfits
  rw [List.length_leftpad, String.length_toList]
  exact Nat.max_eq_left hfits

theorem eventsText_gutterEvents (config : Config) (width n : Nat) :
    eventsText .plain (gutterEvents config width (some n)) = rowFront config width n.repr := by
  rw [Nat.repr_eq_ofList_toDigits]
  simp [gutterEvents, rowFront, alignRight, List.leftpad, String.append_assoc]

theorem eventsText_blank_gutterEvents (config : Config) (width : Nat) :
    eventsText .plain (gutterEvents config width none) = rowFront config width "" := by
  simp [gutterEvents, rowFront, alignRight, List.leftpad, String.append_assoc]

/-! ## Rows -/

/-- The number, counted from one, of the last line that a block shows. -/
def lastShown (config : Config) (source : Source) (line : Nat) : Nat :=
  min source.lines.length (line + 1 + config.contextSize)

/-- The rows of a block in the order of its window. Only the line itself has an underline. -/
theorem rowsEvents_eq {source : Source} {line : Nat} {text : List Char}
    (hline : source.lines[line]? = some text) (config : Config) (before under : List Char)
    (label : String) :
    let width := numberWidth source.lines config.contextSize line
    rowsEvents config source line text before under label =
      (window source.lines config.contextSize line).flatMap fun row =>
        rowEvents config width row ++
          if row.2 = line then
            gutterEvents config width none ++ underlineEvents config before under label
          else [] := by
  unfold rowsEvents
  dsimp only
  generalize numberWidth source.lines config.contextSize line = width
  have hrow : ∀ row : List Char × Nat, row.2 ≠ line → rowEvents config width row ++
      (if row.2 = line then
        gutterEvents config width none ++ underlineEvents config before under label
      else []) = rowEvents config width row := by
    intro row h
    rw [if_neg h, List.append_nil]
  rw [window_eq hline, List.flatMap_append, List.flatMap_cons, if_pos rfl,
    List.flatMap_congr fun row h => hrow row (ne_of_mem_linesAbove h),
    List.flatMap_congr fun row h => hrow row (ne_of_mem_linesBelow h), List.append_assoc]

/-! ## Blocks -/

/-- A line as a block shows it. -/
def shownLine (source : Source) (i : Nat) : String :=
  String.ofList (expandTabs ((source.lineText? i).getD "").toList)

/-- What an underline row shows: `offset` blanks, `size` underlines and the label. -/
def underlineText (config : Config) (offset size : Nat) (label : String) : String :=
  repeatText offset " " ++ repeatText size config.underline ++ config.underlineGap ++ label

/-- A block as plain text. Its underline row shows `underline` and stands below line `line`. -/
def blockText (config : Config) (source : Source) (line column width : Nat) (underline : String) :
    String :=
  "In " ++ source.name ++ ":" ++ (line + 1).repr ++ ":" ++ (column + 1).repr ++ "\n" ++
    String.join
      ((List.Ico (line - config.contextSize) (lastShown config source line)).map fun i =>
        rowText config width (i + 1).repr (shownLine source i) ++
          if i = line then rowText config width "" underline else "") ++ "\n"

theorem eventsText_underlineEvents (config : Config) (before under : List Char) (label : String) :
    eventsText .plain (underlineEvents config before under label) =
      underlineText config (displayWidth (expandTabs before))
        (max 1 (displayWidth (expandTabs under))) label ++ "\n" := by
  simp [underlineEvents, underlineText, String.append_assoc]

theorem eventsText_rowEvents (config : Config) (source : Source) (width i : Nat) :
    eventsText .plain (rowEvents config width (source.lines[i]?.getD [], i)) =
      rowText config width (i + 1).repr (shownLine source i) := by
  have hshown : String.ofList (expandTabs (dropReturn (source.lines[i]?.getD []))) =
      shownLine source i := by
    rw [shownLine, Source.lineText?_eq]
    cases source.lines[i]? <;> simp [dropReturn]
  rw [rowEvents, eventsText_append, eventsText_gutterEvents, rowText, ← hshown]
  simp [lineEvents, String.append_assoc]

/-- The row of a line and, below line `line`, the underline row. -/
theorem eventsText_row (config : Config) (source : Source) (line width i : Nat)
    (before under : List Char) (label : String) :
    eventsText .plain (rowEvents config width (source.lines[i]?.getD [], i) ++
        if i = line then gutterEvents config width none ++ underlineEvents config before under label
        else []) =
      rowText config width (i + 1).repr (shownLine source i) ++
        if i = line then
          rowText config width "" (underlineText config (displayWidth (expandTabs before))
            (max 1 (displayWidth (expandTabs under))) label)
        else "" := by
  rw [eventsText_append, eventsText_rowEvents]
  apply congrArg (rowText config width (i + 1).repr (shownLine source i) ++ ·)
  split
  · rw [eventsText_append, eventsText_blank_gutterEvents, eventsText_underlineEvents, rowText,
      String.append_assoc]
  · rfl

theorem eventsText_blockEvents {source : Source} {place : Place} {text : List Char}
    (hline : source.lines[place.line]? = some text) (config : Config) (before under : List Char)
    (label : String) :
    eventsText .plain (blockEvents config source place text before under label) =
      blockText config source place.line place.column
        (digitCount (lastShown config source place.line))
        (underlineText config (displayWidth (expandTabs before))
          (max 1 (displayWidth (expandTabs under))) label) := by
  have hwidth : numberWidth source.lines config.contextSize place.line =
      digitCount (lastShown config source place.line) := by
    rw [numberWidth, lastShown, Nat.min_comm]
  have hlocation : eventsText .plain (locationEvents config source place.shown) =
      "In " ++ source.name ++ ":" ++ (place.line + 1).repr ++ ":" ++
        (place.column + 1).repr ++ "\n" := by
    simp [locationEvents, Place.shown, String.append_assoc]
  unfold blockEvents blockText
  rw [eventsText_append, eventsText_append, hlocation, rowsEvents_eq hline, window_eq_map,
    List.flatMap_map, eventsText_flatMap, hwidth, eventsText_write, eventsText_nil,
    String.append_empty]
  simp only [eventsText_row, lastShown]

/-- The span starts on line `line`, which itself starts at `start`. -/
structure StartsOn (source : Source) (span : Span) (line start : Nat) : Prop where
  line_eq : line = newlinesBefore source.text span.start
  lineStart_eq : source.lineStart? line = some start
  le : start ≤ span.start

theorem startsOn_of_place? {source : Source} {span : Span} {place : Place}
    (h : source.place? span.start = some place) :
    StartsOn source span place.line (span.start - place.column) := by
  obtain ⟨text, hline, -, hoffset⟩ := place?_eq_some_iff.mp h
  change lineStart source.lines place.line + place.column = span.start at hoffset
  have hstart : lineStart source.lines place.line = span.start - place.column := by omega
  refine ⟨line_eq_newlinesBefore h, ?_, Nat.sub_le _ _⟩
  rw [← hstart]
  exact Source.lineStart?_of_lt (List.getElem?_eq_some_iff.mp hline).1

theorem CompleteBlock.exists_blockText {config : Config} {source : Source} {span : Span}
    {label : String} {events : List Event} (h : CompleteBlock config source span label events) :
    ∃ line start text before under, StartsOn source span line start ∧
      source.lines[line]? = some text ∧
      Underlines (dropReturn text) (span.start - start) span.length before under ∧
      eventsText .plain events =
        blockText config source line (span.start - start)
          (digitCount (lastShown config source line))
          (underlineText config (displayWidth (expandTabs before))
            (max 1 (displayWidth (expandTabs under))) label) := by
  cases h with
  | @mk front back text before under htext hstart hline hunder =>
    have hplace : source.place? span.start =
        some ⟨front.count '\n', byteSize (lastLine front)⟩ := by
      rw [Source.place?, htext, hstart, place?_byteSize]
    have hon := startsOn_of_place? hplace
    have hle : byteSize (lastLine front) ≤ span.start := by
      obtain ⟨-, -, -, hoffset⟩ := place?_eq_some_iff.mp hplace
      omega
    have hcolumn : span.start - (span.start - byteSize (lastLine front)) =
        byteSize (lastLine front) := by
      omega
    refine ⟨_, _, text, before, under, hon, hline, ?_, ?_⟩
    · rw [hcolumn]
      exact hunder
    · rw [hcolumn]
      exact eventsText_blockEvents hline config before under label

/-- A block whose span starts in the text is complete, or would cut a character. -/
theorem completeBlock_or_split (config : Config) {source : Source} {span : Span} (label : String)
    (hstart : span.start ≤ source.text.utf8ByteSize) :
    (∃ events, CompleteBlock config source span label events) ∨
      ∃ place text, SplitsCharacter source span place text := by
  rcases Snippet.drawn_or_bad config (fun () => some source) ⟨label, (), span⟩ with
    ⟨events, source', hsource, hblock⟩ | ⟨error, hbad⟩
  · cases hsource
    exact Or.inl ⟨events, hblock⟩
  · cases hbad with
    | missing hsource => cases hsource
    | outside hsource hlt =>
      cases hsource
      exact absurd hstart (Nat.not_le_of_lt hlt)
    | split hsource h =>
      cases hsource
      exact Or.inr ⟨_, _, h⟩

/-- **Rows of a block.** A block whose span starts in the text is drawn to its end, unless its
underline would cut a character. It shows the lines of an interval around the line that the span
starts on, which are all there, each once and in order. Behind that line, and behind no other,
stands one underline row. The number fields are as wide as the last number that is shown, into
which all numbers fit, so the gutters of all rows are in the same column. -/
theorem block_rows {config : Config} {source : Source} {span : Span} {label : String}
    (hstart : span.start ≤ source.text.utf8ByteSize)
    (hwhole : (block config source span label).error? ≠ some .splitCharacter) :
    (block config source span label).error? = none ∧
    ∃ line start width offset size, StartsOn source span line start ∧
      line < lastShown config source line ∧
      (∀ i < lastShown config source line, (source.lineText? i).isSome = true) ∧
      width = (lastShown config source line).repr.length ∧
      width = 1 + Nat.log 10 (lastShown config source line) ∧
      (∀ i < lastShown config source line,
        ((i + 1).repr.toList.leftpad width ' ').length = width) ∧
      1 ≤ size ∧
      (block config source span label).output .plain =
        blockText config source line (span.start - start) width
          (underlineText config offset size label) := by
  rcases completeBlock_or_split config label hstart with ⟨events, hblock⟩ | ⟨place, text, hsplit⟩
  · obtain ⟨line, start, text, before, under, hon, hline, -, htext⟩ := hblock.exists_blockText
    have hlt : line < source.lines.length := (List.getElem?_eq_some_iff.mp hline).1
    have hshown : lastShown config source line ≤ source.lines.length := Nat.min_le_left _ _
    rw [hblock.block_eq]
    refine ⟨rfl, line, start, _, _, _, hon, ?_, ?_, ?_, ?_, ?_, Nat.le_max_left 1 _, htext⟩
    · exact Nat.lt_min.mpr ⟨hlt, by omega⟩
    · intro i hi
      exact (source.lineText?_isSome_iff i).mpr (hi.trans_le hshown)
    · exact (length_repr_eq_digitCount _).symm
    · exact digitCount_eq_log _
    · intro i hi
      exact length_numberField hi
  · rw [hsplit.block_eq] at hwhole
    exact absurd rfl hwhole

/-- A text whose last line number is wider than those before. -/
def tenLines : Source := ⟨"main", "1\n2\n3\n4\n5\n6\n7\n8\n\t+;\r\n10"⟩

/-- The block of the plus sign shows the last three lines. -/
theorem block_rows_ten_lines :
    17 ≤ tenLines.text.utf8ByteSize ∧
    (block { contextSize := 1 } tenLines ⟨17, 18⟩ "here").error? ≠ some .splitCharacter ∧
    (block { contextSize := 1 } tenLines ⟨17, 18⟩ "here").error? = none ∧
    ∃ offset size, 1 ≤ size ∧
      (block { contextSize := 1 } tenLines ⟨17, 18⟩ "here").output .plain =
        blockText { contextSize := 1 } tenLines 8 1 2
          (underlineText { contextSize := 1 } offset size "here") := by
  have hstart : 17 ≤ tenLines.text.utf8ByteSize := by decide
  have hwhole : (block { contextSize := 1 } tenLines ⟨17, 18⟩ "here").error? ≠
      some .splitCharacter := by decide
  obtain ⟨hnone, line, start, width, offset, size, hon, -, -, hwidth, -, -, hsize, htext⟩ :=
    @block_rows { contextSize := 1 } tenLines ⟨17, 18⟩ "here" hstart hwhole
  obtain rfl : line = 8 := hon.line_eq.trans (by decide)
  obtain rfl : 16 = start := Option.some.inj (Eq.trans (by decide) hon.lineStart_eq)
  obtain rfl : width = 2 := hwidth.trans (by decide)
  exact ⟨hstart, hwhole, hnone, offset, size, hsize, htext⟩

example :
    (block { contextSize := 1 } ⟨"main", "1\n2\n3\n4\n5\n6\n7\n8\n\t+;\r\n10"⟩ ⟨17, 18⟩
        "here").output .plain =
      "In main:9:2\n 8 │ 8\n 9 │     +;\n   │     ^  here\n10 │ 10\n\n" := by
  decide

end ExprLang
