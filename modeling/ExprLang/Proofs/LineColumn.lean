import ExprLang.Diagnostic.Basic
import ExprLang.Proofs.Places

/-!
# Lines and columns

An offset is shown as a line and a column, both counted from one. The line tells how many newline
bytes stand before the offset and the column how far it is from the start of the line, so offsets
up to the end of a text and places in the text are in bijection, in the order of the text.

* `newlinesBefore`: newlines, counted in the bytes of a text.
* `line_eq_newlinesBefore`: the line of a place is their number.
* `column_le_iff`: the columns of a line are those up to where the next line starts.
* `offset_lt_iff`: places are ordered as their offsets are.
* `Source.lineColumn?_bijective`: offsets and shown places, both ways.
-/

namespace ExprLang

namespace Text

/-! ## Newline bytes -/

/-- The bytes of a text in UTF-8. -/
def bytes (cs : List Char) : List UInt8 := cs.flatMap String.utf8EncodeChar

/-- The number of newline bytes of a text strictly before an offset. -/
def newlinesBefore (text : String) (b : Nat) : Nat :=
  (text.toUTF8.data.toList.take b).count '\n'.toUInt8

theorem data_toUTF8 (text : String) : text.toUTF8.data.toList = bytes text.toList := by
  change text.toByteArray.data.toList = _
  rw [← String.utf8Encode_toList]
  exact List.toList_data_toByteArray

@[simp] theorem bytes_append (cs ds : List Char) : bytes (cs ++ ds) = bytes cs ++ bytes ds :=
  List.flatMap_append

theorem length_bytes (cs : List Char) : (bytes cs).length = byteSize cs := by
  induction cs with
  | nil => rfl
  | cons c cs ih =>
    change (String.utf8EncodeChar c ++ bytes cs).length = _
    rw [List.length_append, String.length_utf8EncodeChar, ih, byteSize_cons]

/-- Only an ASCII character itself has its byte. -/
theorem eq_of_mem_utf8EncodeChar {a c : Char} (ha : a.toNat < 128)
    (h : a.toUInt8 ∈ String.utf8EncodeChar c) : c = a := by
  have hbyte : ∀ n, a.toUInt8 = UInt8.ofNat n → n % 256 = a.toNat := by
    intro n hn
    have hvalue : a.toUInt8.toNat = a.toNat := by
      change a.toNat % 256 = a.toNat
      omega
    rw [← hvalue, hn, UInt8.toNat_ofNat']
  unfold String.utf8EncodeChar at h
  dsimp only at h
  -- Every byte of a character of several bytes is at least 128.
  split at h
  · have hval := hbyte _ (List.mem_singleton.mp h)
    apply Char.ext
    apply UInt32.toNat_inj.mp
    change c.val.toNat = a.toNat
    omega
  · split at h
    · simp only [List.mem_cons, List.not_mem_nil, or_false] at h
      rcases h with h | h <;> have := hbyte _ h <;> omega
    · split at h
      · simp only [List.mem_cons, List.not_mem_nil, or_false] at h
        rcases h with h | h | h <;> have := hbyte _ h <;> omega
      · simp only [List.mem_cons, List.not_mem_nil, or_false] at h
        rcases h with h | h | h | h <;> have := hbyte _ h <;> omega

theorem count_bytes_of_notMem {line : List Char} (h : '\n' ∉ line) :
    (bytes line).count '\n'.toUInt8 = 0 := by
  apply List.count_eq_zero.mpr
  intro hmem
  obtain ⟨c, hc, hbyte⟩ := List.mem_flatMap.mp hmem
  rw [eq_of_mem_utf8EncodeChar (by decide) hbyte] at hc
  exact h hc

/-- Before a place on line `l` among lines that are joined by newlines stand `l` newline bytes. -/
theorem count_take_bytes {ls : List (List Char)} {l c : Nat} {line : List Char}
    (hls : ∀ line ∈ ls, '\n' ∉ line) (hline : ls[l]? = some line) (hc : c ≤ byteSize line) :
    ((bytes (ls.intersperse ['\n']).flatten).take (lineStart ls l + c)).count '\n'.toUInt8 = l := by
  induction l generalizing ls with
  | zero =>
    cases ls with
    | nil => cases hline
    | cons first rest =>
      obtain rfl : first = line := Option.some.inj hline
      obtain ⟨back, hjoin, -⟩ := exists_intersperse_cons first rest
      have hfirst : c ≤ (bytes first).length := by rwa [length_bytes]
      rw [hjoin, bytes_append, lineStart_zero, Nat.zero_add, List.take_append_of_le_length hfirst]
      have hzero := count_bytes_of_notMem (hls first List.mem_cons_self)
      have hle := (List.take_sublist c (bytes first)).count_le '\n'.toUInt8
      omega
  | succ l ih =>
    cases ls with
    | nil => cases hline
    | cons first rest =>
      rw [List.getElem?_cons_succ] at hline
      have hrest : rest ≠ [] := by
        rintro rfl
        cases hline
      obtain ⟨hfirst, hls⟩ := List.forall_mem_cons.mp hls
      obtain ⟨back, hjoin, hback⟩ := exists_intersperse_cons first rest
      have hbytes : bytes ((first :: rest).intersperse ['\n']).flatten =
          bytes first ++ '\n'.toUInt8 :: bytes (rest.intersperse ['\n']).flatten := by
        rw [hjoin, hback hrest, bytes_append]
        rfl
      have hoffset : lineStart (first :: rest) (l + 1) + c =
          (bytes first).length + (lineStart rest l + c + 1) := by
        rw [lineStart_cons_succ, length_bytes]
        omega
      rw [hbytes, hoffset, List.take_length_add_append, List.take_succ_cons, List.count_append,
        count_bytes_of_notMem hfirst, List.count_cons_self, ih hls hline, Nat.zero_add]

theorem line_eq_newlinesBefore {text : String} {b : Nat} {p : Place}
    (h : place? text.toList b = some p) : p.line = newlinesBefore text b := by
  obtain ⟨line, hline, hc, rfl⟩ := place?_eq_some_iff.mp h
  have hcount := count_take_bytes (fun _ => newline_notMem_of_mem_lines) hline hc
  rw [intersperse_lines] at hcount
  rw [newlinesBefore, data_toUTF8, hcount]

/-! ## Columns of a line -/

theorem lineStart_succ {ls : List (List Char)} {l : Nat} {line : List Char}
    (h : ls[l]? = some line) : lineStart ls (l + 1) = lineStart ls l + byteSize line + 1 := by
  induction l generalizing ls with
  | zero =>
    cases ls with
    | nil => cases h
    | cons first rest =>
      obtain rfl : first = line := Option.some.inj h
      rw [lineStart_cons_succ, lineStart_zero, lineStart_zero]
      omega
  | succ l ih =>
    cases ls with
    | nil => cases h
    | cons first rest =>
      rw [lineStart_cons_succ, lineStart_cons_succ, ih h]
      omega

theorem lineStart_le_succ (ls : List (List Char)) (l : Nat) :
    lineStart ls l ≤ lineStart ls (l + 1) := by
  cases h : ls[l]? with
  | some line =>
    rw [lineStart_succ h]
    omega
  | none =>
    have hlength := List.getElem?_eq_none_iff.mp h
    rw [lineStart, lineStart, List.take_of_length_le hlength,
      List.take_of_length_le (Nat.le_succ_of_le hlength)]

theorem lineStart_mono (ls : List (List Char)) {l l' : Nat} (h : l ≤ l') :
    lineStart ls l ≤ lineStart ls l' := by
  induction h with
  | refl => exact Nat.le_refl _
  | step h ih => exact ih.trans (lineStart_le_succ ls _)

/-- The offset lies before line `l`, or is not past the end of a text that has no line `l`. -/
def BeforeLine (cs : List Char) (l b : Nat) : Prop :=
  (∃ next, lineStart? cs l = some next ∧ b < next) ∨ lineStart? cs l = none ∧ b ≤ byteSize cs

/-- The columns of a line are those before the next line, the last one being its newline. -/
theorem column_le_iff {cs line : List Char} {l : Nat} (h : (lines cs)[l]? = some line) (c : Nat) :
    c ≤ byteSize line ↔ BeforeLine cs (l + 1) (lineStart (lines cs) l + c) := by
  have hnext := lineStart_succ h
  unfold BeforeLine lineStart?
  by_cases hl : l + 1 < (lines cs).length
  · simp only [if_pos hl, Option.some.injEq, exists_eq_left', reduceCtorEq, false_and, or_false]
    omega
  · have hlength : (lines cs).length = l + 1 := by
      have := (List.getElem?_eq_some_iff.mp h).1
      omega
    have hend := lineStart_length_lines cs
    rw [hlength, hnext] at hend
    simp only [if_neg hl, reduceCtorEq, false_and, exists_false, true_and, false_or]
    omega

/-! ## The order of places -/

theorem offset_lt_of_line_lt {cs : List Char} {b b' : Nat} {p p' : Place}
    (h : place? cs b = some p) (h' : place? cs b' = some p') (hlt : p.line < p'.line) : b < b' := by
  obtain ⟨line, hline, hc, hb⟩ := place?_eq_some_iff.mp h
  obtain ⟨line', -, -, hb'⟩ := place?_eq_some_iff.mp h'
  have hnext := lineStart_succ hline
  have hmono := lineStart_mono (lines cs) hlt
  change lineStart (lines cs) (p.line + 1) ≤ _ at hmono
  omega

theorem offset_lt_iff {cs : List Char} {b b' : Nat} {p p' : Place} (h : place? cs b = some p)
    (h' : place? cs b' = some p') :
    b < b' ↔ p.line < p'.line ∨ p.line = p'.line ∧ p.column < p'.column := by
  rcases Nat.lt_trichotomy p.line p'.line with hlt | heq | hgt
  · have := offset_lt_of_line_lt h h' hlt
    omega
  · obtain ⟨-, -, -, hb⟩ := place?_eq_some_iff.mp h
    obtain ⟨-, -, -, hb'⟩ := place?_eq_some_iff.mp h'
    rw [heq] at hb
    omega
  · have := offset_lt_of_line_lt h' h hgt
    omega

end Text

open Text

/-! ## Places as they are shown -/

namespace Source

theorem place?_isNone_iff (s : Source) (b : Nat) :
    s.place? b = none ↔ s.text.utf8ByteSize < b := by
  rw [← byteSize_toList, ← Nat.not_le, ← place?_isSome_iff]
  exact Option.not_isSome_iff_eq_none.symm

theorem lineColumn?_eq_some_iff {s : Source} {b l c : Nat} :
    s.lineColumn? b = some (l, c) ↔
      ∃ p, s.place? b = some p ∧ p.line + 1 = l ∧ p.column + 1 = c := by
  unfold lineColumn?
  rw [Option.map_eq_some_iff]
  simp only [Place.shown, Prod.mk.injEq]

theorem lineStart?_of_lt {s : Source} {l : Nat} (h : l < s.lines.length) :
    s.lineStart? l = some (Text.lineStart s.lines l) :=
  if_pos h

/-- The line and the column of an offset lead back to it. -/
theorem exists_lineColumn? {s : Source} {b : Nat} (hb : b ≤ s.text.utf8ByteSize) :
    ∃ l c start, s.lineColumn? b = some (l, c) ∧ 1 ≤ l ∧ l ≤ s.lines.length ∧ 1 ≤ c ∧
      s.lineStart? (l - 1) = some start ∧ start + (c - 1) = b := by
  rw [← byteSize_toList] at hb
  obtain ⟨p, hp⟩ := Option.isSome_iff_exists.mp (place?_isSome_iff.mpr hb)
  obtain ⟨line, hline, -, hoffset⟩ := place?_eq_some_iff.mp hp
  have hlt : p.line < s.lines.length := (List.getElem?_eq_some_iff.mp hline).1
  refine ⟨p.line + 1, p.column + 1, Text.lineStart s.lines p.line, ?_, ?_, hlt, ?_, ?_, hoffset⟩
  · exact lineColumn?_eq_some_iff.mpr ⟨p, hp, rfl, rfl⟩
  · omega
  · omega
  · exact lineStart?_of_lt hlt

/-- A line and one of its columns are those of the offset that they lead to. -/
theorem lineColumn?_lineStart {s : Source} {l c : Nat} (hl : l < s.lines.length)
    (hc : BeforeLine s.text.toList (l + 1) (Text.lineStart s.lines l + c)) :
    s.lineColumn? (Text.lineStart s.lines l + c) = some (l + 1, c + 1) := by
  have hline : (Text.lines s.text.toList)[l]? = some s.lines[l] := List.getElem?_eq_getElem hl
  have hcolumn := (column_le_iff hline c).mpr hc
  have hplace : s.place? (Text.lineStart s.lines l + c) = some ⟨l, c⟩ :=
    place?_eq_some_iff.mpr ⟨_, hline, hcolumn, rfl⟩
  exact lineColumn?_eq_some_iff.mpr ⟨_, hplace, rfl, rfl⟩

/-- **Lines and columns.** The offsets up to the end of a text, and no others, have a line and a
column. The index of the line is the number of newline bytes before the offset, and the line and
the column lead back to the offset. Conversely, each column of each line leads to an offset that
has this line and this column. So two offsets are ordered as their lines and columns are, and no
two offsets have the same. -/
theorem lineColumn?_bijective (s : Source) :
    (∀ b, (s.lineIndex? b = none ↔ s.text.utf8ByteSize < b) ∧
      (s.lineColumn? b = none ↔ s.text.utf8ByteSize < b)) ∧
    (∀ b ≤ s.text.utf8ByteSize, s.lineIndex? b = some (newlinesBefore s.text b) ∧
      ∃ l c start, s.lineColumn? b = some (l, c) ∧ 1 ≤ l ∧ l ≤ s.lines.length ∧ 1 ≤ c ∧
        s.lineStart? (l - 1) = some start ∧ start + (c - 1) = b) ∧
    (∀ l, 1 ≤ l → l ≤ s.lines.length → ∃ start, s.lineStart? (l - 1) = some start ∧
      ∀ c, 1 ≤ c → BeforeLine s.text.toList l (start + (c - 1)) →
        s.lineColumn? (start + (c - 1)) = some (l, c)) ∧
    ∀ b b' l c l' c', s.lineColumn? b = some (l, c) → s.lineColumn? b' = some (l', c') →
      (b < b' ↔ l < l' ∨ l = l' ∧ c < c') ∧ ((l, c) = (l', c') → b = b') := by
  refine ⟨?_, ?_, ?_, ?_⟩
  · intro b
    unfold lineIndex? lineColumn?
    rw [Option.map_eq_none_iff, Option.map_eq_none_iff]
    exact ⟨s.place?_isNone_iff b, s.place?_isNone_iff b⟩
  · intro b hb
    refine ⟨?_, exists_lineColumn? hb⟩
    rw [← byteSize_toList] at hb
    obtain ⟨p, hp⟩ := Option.isSome_iff_exists.mp (place?_isSome_iff.mpr hb)
    rw [← line_eq_newlinesBefore hp]
    exact congrArg (Option.map Place.line) hp
  · intro l hl hlast
    obtain ⟨l, rfl⟩ : ∃ i, l = i + 1 := ⟨l - 1, by omega⟩
    refine ⟨Text.lineStart s.lines l, lineStart?_of_lt hlast, ?_⟩
    intro c hc hbefore
    obtain ⟨c, rfl⟩ : ∃ i, c = i + 1 := ⟨c - 1, by omega⟩
    exact lineColumn?_lineStart hlast hbefore
  · intro b b' l c l' c' h h'
    obtain ⟨p, hp, rfl, rfl⟩ := lineColumn?_eq_some_iff.mp h
    obtain ⟨p', hp', rfl, rfl⟩ := lineColumn?_eq_some_iff.mp h'
    have hlt := offset_lt_iff hp hp'
    have hgt := offset_lt_iff hp' hp
    simp only [Prod.mk.injEq]
    omega

end Source

end ExprLang
