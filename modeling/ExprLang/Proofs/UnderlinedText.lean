import ExprLang.Proofs.BlockText

/-!
# Underlines below text

Below a line of ASCII characters the underline stands under the part of the line that lies in the
span, as it is printed with its tabs expanded. If no part of the line does, one column is
underlined, behind the text before the span.

* `byteSize_eq_length`, `Underlines.eq_of_ascii`: bytes and characters of such a line agree.
* `Marks`: what blanks and underlines below a printed line have to do with the line.
* `block_underline`: the underline row of a block.
-/

namespace ExprLang

open Text

/-! ## Lines of ASCII characters -/

namespace Text

variable {cs : List Char} {n : Nat}

theorem byteSize_eq_length (h : ∀ c ∈ cs, c.toNat < 128) : byteSize cs = cs.length := by
  induction cs with
  | nil => rfl
  | cons c cs ih =>
    obtain ⟨hc, hcs⟩ := List.forall_mem_cons.mp h
    have hsize : c.utf8Size = 1 := by
      apply Char.utf8Size_eq_one_iff.mpr
      apply UInt32.le_iff_toNat_le.mpr
      change c.toNat ≤ 127
      omega
    rw [byteSize_cons, hsize, ih hcs, List.length_cons, Nat.add_comm]

theorem isBoundary_of_ascii (h : ∀ c ∈ cs, c.toNat < 128) (hn : n ≤ byteSize cs) :
    IsBoundary cs n := by
  rw [byteSize_eq_length h] at hn
  refine ⟨cs.take n, List.take_prefix n cs, ?_⟩
  rw [byteSize_eq_length fun c hc => h c (List.mem_of_mem_take hc), List.length_take]
  exact Nat.min_eq_left hn

/-- A front of so many bytes has as many characters. -/
theorem eq_take_of_prefix {front : List Char} (h : ∀ c ∈ cs, c.toNat < 128) (hfront : front <+: cs)
    (hsize : byteSize front = min n (byteSize cs)) : front = cs.take n := by
  rw [byteSize_eq_length h, byteSize_eq_length fun c hc => h c (hfront.subset hc)] at hsize
  rw [List.prefix_iff_eq_take.mp hfront, hsize, List.take_eq_take_iff]
  omega

/-! ## Expanded tabs -/

theorem expandTabs_append (cs ds : List Char) :
    expandTabs (cs ++ ds) = expandTabs cs ++ expandTabs ds :=
  List.flatMap_append

theorem length_le_expandTabs (cs : List Char) : cs.length ≤ (expandTabs cs).length := by
  induction cs with
  | nil => exact Nat.le_refl _
  | cons c cs ih =>
    have hcons : expandTabs (c :: cs) = expandTabs [c] ++ expandTabs cs :=
      expandTabs_append [c] cs
    have hone : 1 ≤ (expandTabs [c]).length := by
      by_cases hc : c = '\t' <;> simp [expandTabs, hc]
    rw [hcons, List.length_append, List.length_cons]
    omega

theorem ascii_expandTabs {cs : List Char} (h : ∀ c ∈ cs, c.toNat < 128) :
    ∀ c ∈ expandTabs cs, c.toNat < 128 := by
  intro d hd
  obtain ⟨c, hc, hd⟩ := List.mem_flatMap.mp hd
  split at hd
  · simp only [List.mem_cons, List.not_mem_nil, or_false, or_self] at hd
    rw [hd]
    decide
  · rw [List.mem_singleton.mp hd]
    exact h c hc

end Text

section

variable {line before under : List Char} {column length k m : Nat}

/-- Of a line of ASCII characters the underlined part is found by counting characters. -/
theorem Underlines.eq_of_ascii (hline : ∀ c ∈ line, c.toNat < 128)
    (h : Underlines line column length before under) :
    before = line.take column ∧ under = (line.drop column).take length := by
  have hbefore : before = line.take column :=
    eq_take_of_prefix hline ((List.prefix_append before under).trans h.front) h.start
  have hall : before ++ under = line.take (column + length) :=
    eq_take_of_prefix hline h.front h.stop
  refine ⟨hbefore, ?_⟩
  rw [List.take_add, ← hbefore] at hall
  exact List.append_cancel_left hall

/-! ## Marks -/

/-- Below a printed line, `k` blanks and `m` underlines mark the `length` characters of the line
from `column` on, as far as the line goes: the blanks stand below what is printed of the line
before them, and the underlines below what is printed of them. -/
structure Marks (line : List Char) (column length k m : Nat) : Prop where
  before : (expandTabs line).take k = expandTabs (line.take column)
  part : (line.drop column).take length ≠ [] →
    ((expandTabs line).drop k).take m = expandTabs ((line.drop column).take length) ∧
      m = (expandTabs ((line.drop column).take length)).length
  none : (line.drop column).take length = [] → m = 1
  pos : 1 ≤ m
  bound : k + m ≤ (expandTabs line).length + 1

/-- The numbers of blanks and underlines of an underline row, where columns are characters. -/
theorem marks_of_length (line : List Char) (column length : Nat) :
    Marks line column length (expandTabs (line.take column)).length
      (max 1 (expandTabs ((line.drop column).take length)).length) := by
  generalize hpart : (line.drop column).take length = part
  have hprinted : expandTabs line = expandTabs (line.take column) ++ (expandTabs part ++
      expandTabs ((line.drop column).drop length)) := by
    rw [← hpart, ← expandTabs_append, List.take_append_drop, ← expandTabs_append,
      List.take_append_drop]
  refine ⟨?_, ?_, ?_, Nat.le_max_left 1 _, ?_⟩
  · rw [hprinted, List.take_left]
  · intro hne
    rw [hpart] at hne ⊢
    have hpos : 1 ≤ (expandTabs part).length :=
      (List.length_pos_iff.mpr hne).trans_le (length_le_expandTabs part)
    rw [Nat.max_eq_right hpos, hprinted, List.drop_left, List.take_left]
    exact ⟨rfl, rfl⟩
  · intro hnil
    rw [← hpart, hnil]
    rfl
  · rw [hprinted, List.length_append, List.length_append]
    omega

theorem Underlines.marks (hline : ∀ c ∈ line, c.toNat < 128)
    (h : Underlines line column length before under) :
    Marks line column length (displayWidth (expandTabs before))
      (max 1 (displayWidth (expandTabs under))) := by
  obtain ⟨rfl, rfl⟩ := h.eq_of_ascii hline
  rw [displayWidth_eq_length (ascii_expandTabs fun c hc => hline c (List.mem_of_mem_take hc)),
    displayWidth_eq_length (ascii_expandTabs fun c hc =>
      hline c (List.mem_of_mem_drop (List.mem_of_mem_take hc)))]
  exact marks_of_length line column length

end

/-! ## Underline rows -/

theorem repeatText_singleton (n : Nat) (c : Char) :
    repeatText n (String.singleton c) = String.ofList (List.replicate n c) := by
  rw [repeatText, String.toList_singleton, List.flatten_replicate_singleton]

theorem underlineText_singleton {config : Config} {glyph : Char}
    (hglyph : config.underline = String.singleton glyph) (k m : Nat) (label : String) :
    underlineText config k m label =
      String.ofList (List.replicate k ' ' ++ List.replicate m glyph) ++ config.underlineGap ++
        label := by
  rw [underlineText, hglyph, repeatText_singleton, String.ofList_append]
  exact congrArg (· ++ _ ++ _ ++ _) (repeatText_singleton k ' ')

/-- A row with a number that fits has a front as long as that of a row without a number. -/
theorem length_rowFront (config : Config) {m n : Nat} (h : m ≤ n) :
    (rowFront config (digitCount n) m.repr).length =
      (rowFront config (digitCount n) "").length := by
  have hblank : ("".toList.leftpad (digitCount n) ' ').length = digitCount n := by
    rw [List.length_leftpad]
    exact Nat.max_eq_left (Nat.zero_le _)
  simp only [rowFront, String.length_append, String.length_ofList, length_numberField h, hblank]

/-- No underline cuts a character of a line of ASCII characters. -/
theorem not_splitsCharacter {source : Source} {span : Span} {place : Place} {text : List Char}
    (hascii : ∀ c ∈ dropReturn text, c.toNat < 128) : ¬ SplitsCharacter source span place text := by
  intro h
  have hboundary : ∀ n ≤ byteSize (dropReturn text), IsBoundary (dropReturn text) n :=
    fun n => isBoundary_of_ascii hascii
  rcases h.split with hstart | hstop
  · exact hstart (hboundary _ (Nat.min_le_right _ _))
  · refine hstop (hboundary _ (Nat.max_le.mpr ⟨Nat.min_le_right _ _, Nat.min_le_right _ _⟩))

/-- **Underlines.** The block of a span that starts in the text, on a line of ASCII characters, is
drawn to its end. Its underline row shows blanks and underlines, which mark the part of the line
that lies in the span, and the label. They stand behind a front that is as long as that of the row
with the line above. -/
theorem block_underline {config : Config} {source : Source} {span : Span} {label line : String}
    {glyph : Char} (hstart : span.start ≤ source.text.utf8ByteSize)
    (hline : source.lineText? (newlinesBefore source.text span.start) = some line)
    (hascii : ∀ c ∈ line.toList, c.toNat < 128)
    (hglyph : config.underline = String.singleton glyph) :
    (block config source span label).error? = none ∧
    ∃ number start width k m, StartsOn source span number start ∧
      (rowFront config width (number + 1).repr).length = (rowFront config width "").length ∧
      (block config source span label).output .plain =
        blockText config source number (span.start - start) width
          (String.ofList (List.replicate k ' ' ++ List.replicate m glyph) ++
            config.underlineGap ++ label) ∧
      Marks line.toList (span.start - start) (span.stop - span.start) k m := by
  have htext : ∀ {number : Nat} {text : List Char}, source.lines[number]? = some text →
      number = newlinesBefore source.text span.start → dropReturn text = line.toList := by
    rintro number text h rfl
    rw [Source.lineText?_of_getElem? h, Option.some_inj] at hline
    rw [← hline, String.toList_ofList]
  rcases completeBlock_or_split config label hstart with ⟨events, hblock⟩ | ⟨place, text, hsplit⟩
  · obtain ⟨number, start, text, before, under, hon, hnumber, hunder, hplain⟩ :=
      hblock.exists_blockText
    have hlt : number < source.lines.length := (List.getElem?_eq_some_iff.mp hnumber).1
    have hshown : number + 1 ≤ lastShown config source number := Nat.le_min.mpr ⟨hlt, by omega⟩
    rw [htext hnumber hon.line_eq] at hunder
    rw [underlineText_singleton hglyph] at hplain
    rw [hblock.block_eq]
    exact ⟨rfl, number, start, _, _, _, hon, length_rowFront config hshown, hplain,
      hunder.marks hascii⟩
  · have hplace : source.place? span.start = some place :=
      place?_eq_some_iff.mpr ⟨text, hsplit.line, hsplit.column, hsplit.start⟩
    rw [← htext hsplit.line (line_eq_newlinesBefore hplace)] at hascii
    exact absurd hsplit (not_splitsCharacter hascii)

/-- A span from a line with tabs into the next line. -/
theorem block_underline_two_lines :
    7 ≤ (Source.mk "main" "1;\r\n\t1 +\t;\r\n2;").text.utf8ByteSize ∧
    Source.lineText? ⟨"main", "1;\r\n\t1 +\t;\r\n2;"⟩
      (newlinesBefore "1;\r\n\t1 +\t;\r\n2;" 7) = some "\t1 +\t;" ∧
    (∀ c ∈ "\t1 +\t;".toList, c.toNat < 128) ∧
    ({} : Config).underline = String.singleton '^' ∧
    (block {} ⟨"main", "1;\r\n\t1 +\t;\r\n2;"⟩ ⟨7, 13⟩ "here").error? = none ∧
    ∃ width, (block {} ⟨"main", "1;\r\n\t1 +\t;\r\n2;"⟩ ⟨7, 13⟩ "here").output .plain =
        blockText {} ⟨"main", "1;\r\n\t1 +\t;\r\n2;"⟩ 1 3 width "      ^^^^^^  here" := by
  have hstart : 7 ≤ (Source.mk "main" "1;\r\n\t1 +\t;\r\n2;").text.utf8ByteSize := by decide
  have hline : Source.lineText? ⟨"main", "1;\r\n\t1 +\t;\r\n2;"⟩
      (newlinesBefore "1;\r\n\t1 +\t;\r\n2;" 7) = some "\t1 +\t;" := by decide
  have hascii : ∀ c ∈ "\t1 +\t;".toList, c.toNat < 128 := by
    have hall : ("\t1 +\t;".toList.all fun c => decide (c.toNat < 128)) = true := by decide
    simpa only [List.all_eq_true, decide_eq_true_eq] using hall
  have hglyph : ({} : Config).underline = String.singleton '^' := by decide
  obtain ⟨hnone, number, start, width, k, m, hon, -, htext, hmarks⟩ :=
    @block_underline {} ⟨"main", "1;\r\n\t1 +\t;\r\n2;"⟩ ⟨7, 13⟩ "here" "\t1 +\t;" '^'
      hstart hline hascii hglyph
  obtain rfl : number = 1 := hon.line_eq.trans (by decide)
  obtain rfl : 4 = start := Option.some.inj (Eq.trans (by decide) hon.lineStart_eq)
  obtain rfl : m = 6 := (hmarks.part (by decide)).2
  have hbefore : min k 12 = 6 := by
    have hlength := congrArg List.length hmarks.before
    rw [List.length_take] at hlength
    exact hlength
  obtain rfl : k = 6 := by omega
  exact ⟨hstart, hline, hascii, hglyph, hnone, width, htext⟩

end ExprLang
