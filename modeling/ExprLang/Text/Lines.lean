import ExprLang.Text.Bytes

/-!
# Lines of a text

A text is cut into lines at its newlines; there is one line more than there are newlines.
A byte offset is then a line and a column, both counted from zero, the newline itself
being the last column of its line.

* `intersperse_lines`: the lines joined by newlines are the text, and no line holds a
  newline (`newline_notMem_of_mem_lines`).
* `place?_eq_some_iff`: offset `b` has place `(l, c)` exactly when line `l` exists, `c` is
  at most its size, and line `l` starts `c` bytes before `b`.
* `place?_isSome_iff`: the offsets with a place are those not past the end.
* `dropReturn` takes exactly one trailing carriage return off a line.
-/

namespace ExprLang.Text

/-! ## Cutting at newlines -/

/-- The lines of a text, without their newlines. -/
def lines : List Char → List (List Char)
  | [] => [[]]
  | c :: cs => if c = '\n' then [] :: lines cs else (lines cs).modifyHead (c :: ·)

theorem lines_ne_nil (cs : List Char) : lines cs ≠ [] := by
  cases cs with
  | nil => simp [lines]
  | cons c cs =>
    have := lines_ne_nil cs
    rw [lines]
    split
    · simp
    · simpa using this

theorem lines_newline (cs : List Char) : lines ('\n' :: cs) = [] :: lines cs := by
  simp [lines]

theorem lines_cons_of_ne {c : Char} (hc : c ≠ '\n') (cs : List Char) :
    ∃ line rest, lines cs = line :: rest ∧ lines (c :: cs) = (c :: line) :: rest := by
  obtain ⟨line, rest, h⟩ := List.exists_cons_of_ne_nil (lines_ne_nil cs)
  exact ⟨line, rest, h, by simp [lines, hc, h]⟩

theorem newline_notMem_of_mem_lines {cs line : List Char} (h : line ∈ lines cs) :
    '\n' ∉ line := by
  induction cs generalizing line with
  | nil => simp_all [lines]
  | cons c cs ih =>
    by_cases hc : c = '\n'
    · subst hc
      rw [lines_newline] at h
      rcases List.mem_cons.mp h with rfl | h
      · simp
      · exact ih h
    · obtain ⟨first, rest, h₁, h₂⟩ := lines_cons_of_ne hc cs
      rw [h₂] at h
      rw [h₁] at ih
      rcases List.mem_cons.mp h with rfl | h
      · have hfirst : '\n' ∉ first := ih List.mem_cons_self
        simp [Ne.symm hc, hfirst]
      · exact ih (by simp [h])

/-- The lines joined by newlines are the text. -/
theorem intersperse_lines (cs : List Char) : ((lines cs).intersperse ['\n']).flatten = cs := by
  induction cs with
  | nil => rfl
  | cons c cs ih =>
    by_cases hc : c = '\n'
    · subst hc
      obtain ⟨line, rest, h⟩ := List.exists_cons_of_ne_nil (lines_ne_nil cs)
      rw [lines_newline, h, List.intersperse_cons_cons, ← h]
      simp [ih]
    · obtain ⟨line, rest, h₁, h₂⟩ := lines_cons_of_ne hc cs
      rw [h₁] at ih
      rw [h₂]
      cases rest <;> simp_all

theorem length_lines (cs : List Char) : (lines cs).length = cs.count '\n' + 1 := by
  induction cs with
  | nil => rfl
  | cons c cs ih =>
    by_cases hc : c = '\n'
    · subst hc
      simp [lines_newline, ih]
    · obtain ⟨line, rest, h₁, h₂⟩ := lines_cons_of_ne hc cs
      rw [h₁] at ih
      rw [h₂, List.count_cons_of_ne (by simpa using hc), ← ih]
      simp

/-! ## Carriage returns -/

/-- A line without the carriage return of its line ending, if it has one. -/
def dropReturn (line : List Char) : List Char :=
  if line.getLast? = some '\r' then line.dropLast else line

@[simp] theorem dropReturn_append_return (line : List Char) :
    dropReturn (line ++ ['\r']) = line := by
  simp [dropReturn]

theorem dropReturn_of_getLast?_ne {line : List Char} (h : line.getLast? ≠ some '\r') :
    dropReturn line = line := by
  simp [dropReturn, h]

theorem dropReturn_eq_or (line : List Char) :
    line = dropReturn line ∨ line = dropReturn line ++ ['\r'] := by
  by_cases h : line.getLast? = some '\r'
  · obtain ⟨front, rfl⟩ := List.getLast?_eq_some_iff.mp h
    exact Or.inr (by simp)
  · exact Or.inl (dropReturn_of_getLast?_ne h).symm

/-! ## Offsets and places -/

/-- A place in a text: line and byte column, both counted from zero. -/
structure Place where
  line : Nat
  column : Nat
  deriving DecidableEq, Repr

/-- Line and column as they are shown, both counted from one. -/
def Place.shown (p : Place) : Nat × Nat := (p.line + 1, p.column + 1)

/-- The offset at which line `i` starts, each line before it ending in a newline. -/
def lineStart (ls : List (List Char)) (i : Nat) : Nat :=
  (ls.take i).foldr (fun line n => byteSize line + 1 + n) 0

@[simp] theorem lineStart_zero (ls : List (List Char)) : lineStart ls 0 = 0 := rfl

@[simp] theorem lineStart_cons_succ (line : List Char) (ls : List (List Char)) (i : Nat) :
    lineStart (line :: ls) (i + 1) = byteSize line + 1 + lineStart ls i := rfl

/-- The place of an offset among lines; `none` past the end of the last one. -/
def locate? : List (List Char) → Nat → Option Place
  | [], _ => none
  | line :: ls, b =>
    if b ≤ byteSize line then
      some ⟨0, b⟩
    else
      (locate? ls (b - (byteSize line + 1))).map fun p => ⟨p.line + 1, p.column⟩

theorem locate?_eq_some_iff {ls : List (List Char)} {b l c : Nat} :
    locate? ls b = some ⟨l, c⟩ ↔
      ∃ line, ls[l]? = some line ∧ c ≤ byteSize line ∧ lineStart ls l + c = b := by
  induction ls generalizing b l with
  | nil => simp [locate?]
  | cons first ls ih =>
    rw [locate?]
    split
    · rename_i h
      cases l with
      | zero =>
        simp only [Option.some.injEq, Place.mk.injEq, true_and, List.getElem?_cons_zero,
          lineStart_zero, Nat.zero_add]
        constructor
        · rintro rfl
          exact ⟨first, rfl, h, rfl⟩
        · rintro ⟨_, _, _, rfl⟩
          rfl
      | succ l =>
        simp only [Option.some.injEq, Place.mk.injEq, lineStart_cons_succ]
        constructor
        · rintro ⟨h', _⟩
          omega
        · rintro ⟨_, _, _, hb⟩
          omega
    · rename_i h
      cases l with
      | zero =>
        simp only [Option.map_eq_some_iff, Place.mk.injEq, Nat.add_eq_zero_iff, lineStart_zero,
          Nat.zero_add, List.getElem?_cons_zero]
        constructor
        · rintro ⟨_, _, ⟨_, h'⟩, _⟩
          omega
        · rintro ⟨_, h', h₁, h₂⟩
          simp only [Option.some.injEq] at h'
          subst h'
          omega
      | succ l =>
        rw [Option.map_eq_some_iff]
        simp only [lineStart_cons_succ, List.getElem?_cons_succ]
        constructor
        · rintro ⟨⟨l', c'⟩, hp, he⟩
          simp only [Place.mk.injEq, Nat.add_right_cancel_iff] at he
          obtain ⟨rfl, rfl⟩ := he
          obtain ⟨line, hline, hc, hb⟩ := ih.mp hp
          exact ⟨line, hline, hc, by omega⟩
        · rintro ⟨line, hline, hc, hb⟩
          exact ⟨⟨l, c⟩, ih.mpr ⟨line, hline, hc, by omega⟩, rfl⟩

/-- The place of a byte offset; `none` past the end of the text. -/
def place? (cs : List Char) (b : Nat) : Option Place := locate? (lines cs) b

theorem place?_eq_some_iff {cs : List Char} {b l c : Nat} :
    place? cs b = some ⟨l, c⟩ ↔
      ∃ line, (lines cs)[l]? = some line ∧ c ≤ byteSize line ∧ lineStart (lines cs) l + c = b :=
  locate?_eq_some_iff

theorem place?_isSome_iff {cs : List Char} {b : Nat} :
    (place? cs b).isSome = true ↔ b ≤ byteSize cs := by
  have key : ∀ ls : List (List Char), ls ≠ [] → ∀ b,
      (locate? ls b).isSome = true ↔ b ≤ byteSize (ls.intersperse ['\n']).flatten := by
    intro ls
    induction ls with
    | nil => simp
    | cons line ls ih =>
      intro _ b
      rw [locate?]
      cases ls with
      | nil =>
        split <;> simp_all [locate?]
      | cons second ls =>
        rw [List.intersperse_cons_cons]
        have hn : ('\n').utf8Size = 1 := by decide
        split
        · simp
          omega
        · rw [Option.isSome_map, ih (by simp)]
          simp only [List.flatten_cons, byteSize_append, byteSize_cons, byteSize_nil, hn]
          omega
  have := key (lines cs) (lines_ne_nil cs) b
  rwa [intersperse_lines] at this

/-! ## Lines by number -/

/-- The offset of the first byte of line `i`. -/
def lineStart? (cs : List Char) (i : Nat) : Option Nat :=
  if i < (lines cs).length then some (lineStart (lines cs) i) else none

/-- Line `i` as it is shown: without its newline and one carriage return before it. -/
def lineText? (cs : List Char) (i : Nat) : Option (List Char) := (lines cs)[i]?.map dropReturn

theorem lineText?_isSome_iff {cs : List Char} {i : Nat} :
    (lineText? cs i).isSome = true ↔ i < (lines cs).length := by
  simp [lineText?]

end ExprLang.Text
