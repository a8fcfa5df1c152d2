import ExprLang.Text.Lines
import ExprLang.Text.Span
import Mathlib.Data.List.DropRight

/-!
# Places by what stands before them

The place of an offset tells how many newlines stand before the offset and how many bytes stand
between the last of them and the offset. The line is what stands around it, up to the newlines.

* `exists_front_min`: two fronts of a text have a common front that is one of them.
* `lines_append_newline`: the lines of a text that is cut at a newline.
* `withNewlines`, `exists_eq_append_withNewlines`: lines with their newlines, and the text before
  and behind one of them.
* `getElem?_lines`, `place?_byteSize`: line and place of the offset between two parts of a text.
-/

namespace ExprLang.Text

variable {u v cs front : List Char}

/-! ## Fronts of a text -/

theorem prefix_of_byteSize_le (hu : u <+: cs) (hv : v <+: cs) (h : byteSize u ≤ byteSize v) :
    u <+: v := by
  rcases List.prefix_or_prefix_of_prefix hu hv with huv | ⟨rest, rfl⟩
  · exact huv
  · rw [byteSize_append] at h
    have hrest : rest = [] := byteSize_eq_zero_iff.mp (by omega)
    exact ⟨[], by rw [hrest, List.append_nil, List.append_nil]⟩

/-- Of two fronts of a text, the shorter one is a front of the other. -/
theorem exists_front_min (hu : u <+: cs) (hv : v <+: cs) :
    ∃ w, w <+: v ∧ w <+: cs ∧ byteSize w = min (byteSize u) (byteSize v) := by
  rcases Nat.le_total (byteSize u) (byteSize v) with h | h
  · exact ⟨u, prefix_of_byteSize_le hu hv h, hu, (Nat.min_eq_left h).symm⟩
  · exact ⟨v, List.prefix_rfl, hv, (Nat.min_eq_right h).symm⟩

theorem dropReturn_front (line : List Char) : dropReturn line <+: line := by
  rcases dropReturn_eq_or line with h | h
  · exact ⟨[], by rw [List.append_nil, ← h]⟩
  · exact ⟨['\r'], h.symm⟩

/-- The span is a part of the text, of whole characters. -/
def Span.PartOf (s : Span) (cs : List Char) : Prop :=
  ∃ front middle back, cs = front ++ middle ++ back ∧
    s = ⟨byteSize front, byteSize front + byteSize middle⟩

theorem Span.partOf_end (cs : List Char) : (empty (byteSize cs)).PartOf cs :=
  ⟨cs, [], [], by simp, rfl⟩

/-! ## Lines -/

theorem head?_lines (cs : List Char) : (lines cs).head? = some (cs.takeWhile (· != '\n')) := by
  induction cs with
  | nil => rfl
  | cons c cs ih =>
    by_cases hc : c = '\n'
    · subst hc
      rw [lines_newline]
      rfl
    · obtain ⟨line, rest, h₁, h₂⟩ := lines_cons_of_ne hc cs
      rw [h₁, List.head?_cons, Option.some_inj] at ih
      simp [h₂, hc, ih]

theorem lines_append_newline (cs ds : List Char) :
    lines (cs ++ '\n' :: ds) = lines cs ++ lines ds := by
  induction cs with
  | nil => exact lines_newline ds
  | cons c cs ih =>
    by_cases hc : c = '\n'
    · subst hc
      rw [List.cons_append, lines_newline, lines_newline, ih, List.cons_append]
    · obtain ⟨line, rest, h₁, h₂⟩ := lines_cons_of_ne hc cs
      obtain ⟨line', rest', h₃, h₄⟩ := lines_cons_of_ne hc (cs ++ '\n' :: ds)
      rw [h₁, h₃, List.cons_append] at ih
      obtain ⟨rfl, rfl⟩ := List.cons.inj ih
      rw [List.cons_append, h₄, h₂, List.cons_append]

theorem exists_intersperse_cons (first : List Char) (rest : List (List Char)) :
    ∃ back, ((first :: rest).intersperse ['\n']).flatten = first ++ back ∧
      (rest ≠ [] → back = '\n' :: (rest.intersperse ['\n']).flatten) := by
  cases rest with
  | nil => exact ⟨[], by simp, by simp⟩
  | cons second rest =>
    refine ⟨'\n' :: ((second :: rest).intersperse ['\n']).flatten, ?_, fun _ => rfl⟩
    rw [List.intersperse_cons_cons]
    rfl

/-- Lines with their newlines. The last line has none. -/
def withNewlines : List (List Char) → List (List Char)
  | [] => []
  | [line] => [line]
  | line :: second :: rest => (line ++ ['\n']) :: withNewlines (second :: rest)

theorem flatten_withNewlines (ls : List (List Char)) :
    (withNewlines ls).flatten = (ls.intersperse ['\n']).flatten := by
  induction ls with
  | nil => rfl
  | cons line rest ih =>
    cases rest with
    | nil => rfl
    | cons second rest =>
      rw [withNewlines, List.intersperse_cons_cons, List.flatten_cons, ih, List.append_assoc]
      rfl

theorem length_withNewlines (ls : List (List Char)) : (withNewlines ls).length = ls.length := by
  induction ls with
  | nil => rfl
  | cons line rest ih =>
    cases rest with
    | nil => rfl
    | cons second rest =>
      rw [withNewlines, List.length_cons, ih]
      rfl

theorem getElem?_withNewlines {ls : List (List Char)} {i : Nat} {line : List Char}
    (h : ls[i]? = some line) :
    (withNewlines ls)[i]? = some (line ++ if i + 1 < ls.length then ['\n'] else []) := by
  induction ls generalizing i with
  | nil => cases h
  | cons first rest ih =>
    cases rest with
    | nil =>
      obtain ⟨hi, rfl⟩ := List.getElem?_eq_some_iff.mp h
      obtain rfl : i = 0 := by simpa using hi
      simp [withNewlines]
    | cons second rest =>
      cases i with
      | zero =>
        obtain rfl : first = line := Option.some.inj h
        simp [withNewlines]
      | succ i =>
        rw [List.getElem?_cons_succ] at h
        rw [withNewlines, List.getElem?_cons_succ, ih h]
        simp only [List.length_cons, Nat.add_lt_add_iff_right]

theorem byteSize_flatten_take_withNewlines {ls : List (List Char)} {i : Nat} (hi : i < ls.length) :
    byteSize ((withNewlines ls).take i).flatten = lineStart ls i := by
  have hn : '\n'.utf8Size = 1 := by decide
  induction ls generalizing i with
  | nil => cases hi
  | cons line rest ih =>
    cases i with
    | zero => rfl
    | succ i =>
      have hrest : i < rest.length := Nat.lt_of_succ_lt_succ hi
      cases rest with
      | nil => cases hrest
      | cons second rest =>
        rw [withNewlines, List.take_succ_cons, List.flatten_cons, byteSize_append, ih hrest,
          lineStart_cons_succ, byteSize_append, byteSize_cons, byteSize_nil, hn]

/-- A text around one of its lines and the newline behind it. -/
theorem exists_eq_append_withNewlines {cs line : List Char} {i : Nat}
    (h : (lines cs)[i]? = some line) :
    ∃ front back,
      cs = front ++ (line ++ if i + 1 < (lines cs).length then ['\n'] else []) ++ back ∧
        byteSize front = lineStart (lines cs) i := by
  have hi : i < (lines cs).length := (List.getElem?_eq_some_iff.mp h).1
  obtain ⟨hi', hline⟩ := List.getElem?_eq_some_iff.mp (getElem?_withNewlines h)
  have htext : (withNewlines (lines cs)).flatten = cs := by
    rw [flatten_withNewlines, intersperse_lines]
  refine ⟨((withNewlines (lines cs)).take i).flatten,
    ((withNewlines (lines cs)).drop (i + 1)).flatten, ?_, byteSize_flatten_take_withNewlines hi⟩
  rw [← hline, List.append_assoc, ← List.flatten_cons, ← List.drop_eq_getElem_cons hi',
    ← List.flatten_append, List.take_append_drop, htext]

/-- A line stands in the text where its start says. -/
theorem exists_eq_append_line {l : Nat} {line : List Char} (h : (lines cs)[l]? = some line) :
    ∃ before after, cs = before ++ line ++ after ∧ byteSize before = lineStart (lines cs) l := by
  obtain ⟨front, back, htext, hfront⟩ := exists_eq_append_withNewlines h
  rw [← List.append_assoc, List.append_assoc] at htext
  exact ⟨front, _, htext, hfront⟩

theorem lineStart_append_length (ls ms : List (List Char)) :
    lineStart (ls ++ ms) ls.length = lineStart ls ls.length := by
  rw [lineStart, lineStart, List.take_left, List.take_length]

/-- Behind its last line a text has one more newline. -/
theorem lineStart_length_lines (cs : List Char) :
    lineStart (lines cs) (lines cs).length = byteSize cs + 1 := by
  have hn : '\n'.utf8Size = 1 := by decide
  induction cs with
  | nil => rfl
  | cons c cs ih =>
    by_cases hc : c = '\n'
    · subst hc
      rw [lines_newline, List.length_cons, lineStart_cons_succ, ih, byteSize_nil, byteSize_cons, hn]
      omega
    · obtain ⟨line, rest, h₁, h₂⟩ := lines_cons_of_ne hc cs
      rw [h₁, List.length_cons, lineStart_cons_succ] at ih
      rw [h₂, List.length_cons, lineStart_cons_succ, byteSize_cons, byteSize_cons]
      omega

/-! ## The place between two parts of a text -/

/-- What stands behind the last newline of a text. -/
def lastLine (cs : List Char) : List Char := cs.rtakeWhile (· != '\n')

theorem newline_notMem_lastLine (cs : List Char) : '\n' ∉ lastLine cs := by
  intro h
  simpa using List.mem_rtakeWhile_imp h

/-- A text is its last line, or has lines before it that end in a newline. -/
theorem lastLine_cases (cs : List Char) :
    lastLine cs = cs ∧ cs.count '\n' = 0 ∨
      ∃ front, cs = front ++ '\n' :: lastLine cs ∧ cs.count '\n' = (lines front).length := by
  have happ : cs.rdropWhile (· != '\n') ++ lastLine cs = cs := List.rdropWhile_append_rtakeWhile
  have hcount : (lastLine cs).count '\n' = 0 :=
    List.count_eq_zero.mpr (newline_notMem_lastLine cs)
  by_cases hnil : cs.rdropWhile (· != '\n') = []
  · rw [hnil, List.nil_append] at happ
    rw [happ] at hcount
    exact Or.inl ⟨happ, hcount⟩
  · have hlast : (cs.rdropWhile (· != '\n')).getLast hnil = '\n' := by
      simpa using List.rdropWhile_last_not (· != '\n') cs hnil
    obtain ⟨front, hfront⟩ : ∃ front, cs = front ++ '\n' :: lastLine cs := by
      rw [← List.dropLast_concat_getLast hnil, hlast, List.append_assoc] at happ
      exact ⟨_, happ.symm⟩
    refine Or.inr ⟨front, hfront, ?_⟩
    rw [length_lines]
    conv_lhs => rw [hfront, List.count_append, List.count_cons_self, hcount]

theorem lines_append_of_notMem (hfront : '\n' ∉ front) (back : List Char) :
    (lines (front ++ back))[0]? = some (front ++ back.takeWhile (· != '\n')) := by
  have hall : ∀ c ∈ front, (c != '\n') = true := by
    intro c hc
    simpa using fun heq : c = '\n' => hfront (heq ▸ hc)
  rw [← List.head?_eq_getElem?, head?_lines, List.takeWhile_append_of_pos hall]

/-- The line that stands around the offset between two parts of a text, and where it starts. -/
theorem getElem?_lines (front back : List Char) :
    (lines (front ++ back))[front.count '\n']? =
        some (lastLine front ++ back.takeWhile (· != '\n')) ∧
      lineStart (lines (front ++ back)) (front.count '\n') + byteSize (lastLine front) =
        byteSize front := by
  have hline := lines_append_of_notMem (newline_notMem_lastLine front) back
  rcases lastLine_cases front with ⟨heq, hcount⟩ | ⟨before, heq, hcount⟩
  · rw [heq] at hline ⊢
    rw [hcount, lineStart_zero, Nat.zero_add]
    exact ⟨hline, rfl⟩
  · have hn : '\n'.utf8Size = 1 := by decide
    have hlines : lines (front ++ back) = lines before ++ lines (lastLine front ++ back) := by
      rw [← lines_append_newline, ← List.cons_append, ← List.append_assoc, ← heq]
    have hsize : byteSize front = byteSize before + 1 + byteSize (lastLine front) := by
      conv_lhs => rw [heq, byteSize_append, byteSize_cons, hn]
      omega
    rw [hlines, hcount, List.getElem?_append_right (Nat.le_refl _), Nat.sub_self,
      lineStart_append_length, lineStart_length_lines, hsize]
    exact ⟨hline, rfl⟩

theorem place?_byteSize (front back : List Char) :
    place? (front ++ back) (byteSize front) =
      some ⟨front.count '\n', byteSize (lastLine front)⟩ := by
  obtain ⟨hline, hstart⟩ := getElem?_lines front back
  refine place?_eq_some_iff.mpr ⟨_, hline, ?_, hstart⟩
  rw [byteSize_append]
  exact Nat.le_add_right _ _

end ExprLang.Text
