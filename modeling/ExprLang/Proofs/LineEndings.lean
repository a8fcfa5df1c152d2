import ExprLang.Proofs.LineColumn

/-!
# Lines and their endings

A line is shown without its ending: its newline, which only the last line does not have, and one
carriage return before it, if there is one. Lines with their endings, one behind the other, are the
text again.

* `endsInReturn_iff`: a line ends in a carriage return if its last byte is one.
* `Source.lineEnding`: the ending of a line, read from the bytes of the text.
* `Source.lines_rebuild`: lines with their endings, and where they stand.
-/

namespace ExprLang

namespace Text

/-! ## Carriage returns -/

/-- The bytes of a text from `start` up to `stop` end in a carriage return. -/
def EndsInReturn (text : String) (start stop : Nat) : Prop :=
  start < stop ∧ text.toUTF8.data.toList[stop - 1]? = some '\r'.toUInt8

instance (text : String) (start stop : Nat) : Decidable (EndsInReturn text start stop) :=
  inferInstanceAs (Decidable (_ ∧ _))

theorem dropReturn_append (line : List Char) :
    dropReturn line ++ (if line.getLast? = some '\r' then ['\r'] else []) = line := by
  by_cases h : line.getLast? = some '\r'
  · obtain ⟨front, rfl⟩ := List.getLast?_eq_some_iff.mp h
    rw [dropReturn_append_return, if_pos h]
  · rw [dropReturn_of_getLast?_ne h, if_neg h, List.append_nil]

/-- The last byte of a character is that of a carriage return only for a carriage return. -/
theorem getLast_byte_eq_return_iff (c : Char) :
    (String.utf8EncodeChar c)[c.utf8Size - 1]? = some '\r'.toUInt8 ↔ c = '\r' := by
  constructor
  · intro h
    exact eq_of_mem_utf8EncodeChar (by decide) (List.mem_of_getElem? h)
  · rintro rfl
    rfl

theorem endsInReturn_iff {text : String} {front line back : List Char}
    (htext : text.toList = front ++ line ++ back) :
    EndsInReturn text (byteSize front) (byteSize front + byteSize line) ↔
      line.getLast? = some '\r' := by
  unfold EndsInReturn
  rw [data_toUTF8, htext]
  rcases List.eq_nil_or_concat' line with rfl | ⟨init, c, rfl⟩
  · simp
  · -- The byte before the end of the line is the last byte of its last character.
    have hpos := c.utf8Size_pos
    have hindex : byteSize front + byteSize (init ++ [c]) - 1 =
        (bytes (front ++ init)).length + (c.utf8Size - 1) := by
      rw [length_bytes, byteSize_append, byteSize_append, byteSize_cons, byteSize_nil]
      omega
    have hbytes : bytes (front ++ (init ++ [c]) ++ back) =
        bytes (front ++ init) ++ (String.utf8EncodeChar c ++ bytes back) := by
      simp [bytes]
    have hlast : c.utf8Size - 1 < (String.utf8EncodeChar c).length := by
      rw [String.length_utf8EncodeChar]
      omega
    have hstart : byteSize front < byteSize front + byteSize (init ++ [c]) := by
      rw [byteSize_append, byteSize_cons]
      omega
    rw [hindex, hbytes, List.getElem?_append_right (Nat.le_add_right _ _), Nat.add_sub_cancel_left,
      List.getElem?_append_left hlast, getLast_byte_eq_return_iff, List.getLast?_concat,
      Option.some_inj]
    exact and_iff_right hstart

end Text

open Text

/-! ## Endings of lines -/

namespace Source

/-- Where a line with its ending stops: where the next line starts, or at the end of the text. -/
def lineStop (s : Source) (i : Nat) : Nat := (s.lineStart? (i + 1)).getD s.text.utf8ByteSize

/-- What stands in the text behind line `i` as it is shown, before the next line. -/
def lineEnding (s : Source) (i : Nat) : String :=
  let start := (s.lineStart? i).getD 0
  match s.lineStart? (i + 1) with
  | some next => if EndsInReturn s.text start (next - 1) then "\r\n" else "\n"
  | none => if EndsInReturn s.text start s.text.utf8ByteSize then "\r" else ""

section

variable {s : Source} {i : Nat} {line : List Char}

theorem lineText?_of_getElem? (h : s.lines[i]? = some line) :
    s.lineText? i = some (String.ofList (dropReturn line)) := by
  rw [lineText?_eq, h, Option.map_some]

/-- The line behind line `i` starts behind the newline of line `i`. -/
theorem lineStart?_succ (h : s.lines[i]? = some line) :
    s.lineStart? (i + 1) =
      if i + 1 < s.lines.length then some (Text.lineStart s.lines i + byteSize line + 1)
      else none := by
  rw [← lineStart_succ h]
  rfl

theorem lineStop_eq (h : s.lines[i]? = some line) :
    s.lineStop i = Text.lineStart s.lines i +
      byteSize (line ++ if i + 1 < s.lines.length then ['\n'] else []) := by
  have hn : '\n'.utf8Size = 1 := by decide
  have hi : i < s.lines.length := (List.getElem?_eq_some_iff.mp h).1
  rw [lineStop, lineStart?_succ h, byteSize_append]
  by_cases hnext : i + 1 < s.lines.length
  · rw [if_pos hnext, if_pos hnext, byteSize_cons, byteSize_nil, hn]
    rfl
  · have hend : Text.lineStart s.lines s.lines.length = byteSize s.text.toList + 1 :=
      lineStart_length_lines s.text.toList
    have hlast : s.lines.length = i + 1 := by omega
    rw [hlast, lineStart_succ h, byteSize_toList] at hend
    rw [if_neg hnext, if_neg hnext, byteSize_nil]
    change s.text.utf8ByteSize = _
    omega

theorem endsInReturn_line_iff (h : s.lines[i]? = some line) :
    EndsInReturn s.text (Text.lineStart s.lines i) (Text.lineStart s.lines i + byteSize line) ↔
      line.getLast? = some '\r' := by
  obtain ⟨front, back, htext, hfront⟩ := exists_eq_append_withNewlines h
  change byteSize front = Text.lineStart s.lines i at hfront
  rw [← List.append_assoc, List.append_assoc] at htext
  rw [← hfront]
  exact endsInReturn_iff htext

theorem toList_lineEnding (h : s.lines[i]? = some line) :
    (s.lineEnding i).toList = (if line.getLast? = some '\r' then ['\r'] else []) ++
      if i + 1 < s.lines.length then ['\n'] else [] := by
  have hi : i < s.lines.length := (List.getElem?_eq_some_iff.mp h).1
  have hreturn := endsInReturn_line_iff h
  have hstop := lineStop_eq h
  unfold lineStop at hstop
  unfold lineEnding
  rw [lineStart?_succ h] at hstop ⊢
  rw [lineStart?_of_lt hi]
  dsimp only [Option.getD_some]
  -- The last line stops where the text stops, and all others before their newlines.
  by_cases hnext : i + 1 < s.lines.length
  · simp only [if_pos hnext, Nat.add_sub_cancel, hreturn]
    split <;> rfl
  · simp only [if_neg hnext, List.append_nil, Option.getD_none] at hstop ⊢
    simp only [hstop, hreturn]
    split <;> rfl

/-- A line as it is shown, with its ending, is the line with its newline. -/
theorem dropReturn_append_lineEnding (h : s.lines[i]? = some line) :
    dropReturn line ++ (s.lineEnding i).toList =
      line ++ if i + 1 < s.lines.length then ['\n'] else [] := by
  rw [toList_lineEnding h, ← List.append_assoc, dropReturn_append]

/-- The text around a line as it is shown and its ending. -/
theorem exists_eq_append_lineEnding (h : s.lines[i]? = some line) :
    ∃ front back, s.text.toList = front ++ (dropReturn line ++ (s.lineEnding i).toList) ++ back ∧
      byteSize front = Text.lineStart s.lines i := by
  rw [dropReturn_append_lineEnding h]
  exact exists_eq_append_withNewlines h

theorem slice?_lineStop (h : s.lines[i]? = some line) :
    slice? (Text.lineStart s.lines i) (s.lineStop i) s.text.toList =
      some (dropReturn line ++ (s.lineEnding i).toList) := by
  obtain ⟨front, back, htext, hfront⟩ := exists_eq_append_lineEnding h
  rw [lineStop_eq h, ← dropReturn_append_lineEnding h, ← hfront, htext]
  exact slice?_append _ _ _

theorem slice?_line (h : s.lines[i]? = some line) :
    slice? (Text.lineStart s.lines i) (Text.lineStart s.lines i + byteSize (dropReturn line))
      s.text.toList = some (dropReturn line) := by
  obtain ⟨front, back, htext, hfront⟩ := exists_eq_append_lineEnding h
  rw [← List.append_assoc, List.append_assoc] at htext
  rw [← hfront, htext]
  exact slice?_append _ _ _

theorem place?_lineStart_add (h : s.lines[i]? = some line) {column : Nat}
    (hcolumn : column ≤ byteSize (dropReturn line)) :
    s.place? (Text.lineStart s.lines i + column) = some ⟨i, column⟩ := by
  obtain ⟨rest, hrest⟩ := dropReturn_front line
  refine place?_eq_some_iff.mpr ⟨line, h, ?_, rfl⟩
  rw [← hrest, byteSize_append]
  omega

end

theorem lineText?_isSome_iff (s : Source) (i : Nat) :
    (s.lineText? i).isSome = true ↔ i < s.lines.length := by
  rw [lineText?, Option.isSome_map]
  exact Text.lineText?_isSome_iff

/-- All lines as they are shown, with their endings. -/
theorem map_line_append_lineEnding (s : Source) :
    (List.range s.lines.length).map
        (fun i => ((s.lineText? i).getD "" ++ s.lineEnding i).toList) = withNewlines s.lines := by
  apply List.ext_getElem
  · rw [List.length_map, List.length_range, length_withNewlines]
  · intro i _ hi
    rw [length_withNewlines] at hi
    have hline : s.lines[i]? = some s.lines[i] := List.getElem?_eq_getElem hi
    obtain ⟨_, hnewline⟩ := List.getElem?_eq_some_iff.mp (getElem?_withNewlines hline)
    rw [List.getElem_map, List.getElem_range, hnewline, ← dropReturn_append_lineEnding hline,
      lineText?_of_getElem? hline, Option.getD_some, String.toList_append, String.toList_ofList]

/-- **Lines and their endings.** A text has one line more than newlines, and a number below that,
and no other, is the number of a line. A line is shown without any newline, and what is shown of it
stands in the text at the start of the line, each column that many bytes behind the start. Between
there and the next line stands the ending of the line. All lines with their endings, one behind the
other, are the text. -/
theorem lines_rebuild (s : Source) :
    s.lines.length = s.text.toList.count '\n' + 1 ∧
    (∀ i, (s.lineText? i).isSome = true ↔ i < s.lines.length) ∧
    (∀ i < s.lines.length, ∃ start line, s.lineStart? i = some start ∧
      s.lineText? i = some line ∧ '\n' ∉ line.toList ∧
      slice? start (s.lineStop i) s.text.toList = some (line ++ s.lineEnding i).toList ∧
      slice? start (start + line.utf8ByteSize) s.text.toList = some line.toList ∧
      ∀ column ≤ line.utf8ByteSize, s.place? (start + column) = some ⟨i, column⟩) ∧
    s.text = String.join
      ((List.range s.lines.length).map fun i => (s.lineText? i).getD "" ++ s.lineEnding i) := by
  refine ⟨length_lines s.text.toList, s.lineText?_isSome_iff, ?_, ?_⟩
  · intro i hi
    have hline : s.lines[i]? = some s.lines[i] := List.getElem?_eq_getElem hi
    refine ⟨_, _, lineStart?_of_lt hi, lineText?_of_getElem? hline, ?_, ?_, ?_, ?_⟩
    · rw [String.toList_ofList]
      intro hmem
      exact newline_notMem_of_mem_lines (List.getElem_mem hi) ((dropReturn_front _).subset hmem)
    · rw [String.toList_append, String.toList_ofList]
      exact slice?_lineStop hline
    · rw [utf8ByteSize_ofList, String.toList_ofList]
      exact slice?_line hline
    · intro column hcolumn
      rw [utf8ByteSize_ofList] at hcolumn
      exact place?_lineStart_add hline hcolumn
  · apply String.toList_injective
    rw [String.toList_join, List.flatMap_map, List.flatMap_def, map_line_append_lineEnding,
      flatten_withNewlines]
    exact (intersperse_lines s.text.toList).symm

/-- Of the carriage returns before a newline or the end only the last is not shown. -/
example :
    (List.range 4).map (Source.lineText? ⟨"main", "1;\r\r\n\r\n2;\r"⟩) =
      [some "1;\r", some "", some "2;", none] := by
  decide

end Source

end ExprLang
