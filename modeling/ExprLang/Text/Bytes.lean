/-!
# Byte measures of text

Positions in a text are byte offsets in its UTF-8 encoding, while the text itself is
handled as a list of characters. This file relates the two.

* `byteSize cs` is the number of bytes of `cs`; it is additive (`byteSize_append`) and
  agrees with the size of a string (`byteSize_toList`).
* `splitBytes? n cs` cuts `cs` after `n` bytes. It fails exactly when `n` lies past the
  end or inside a character (`splitBytes?_eq_some_iff`).
* `slice? a b cs` is the text between two byte offsets.
-/

namespace ExprLang.Text

/-! ## Size -/

/-- The number of bytes of a text in UTF-8. -/
def byteSize (cs : List Char) : Nat := cs.foldr (fun c n => c.utf8Size + n) 0

@[simp] theorem byteSize_nil : byteSize [] = 0 := rfl

@[simp] theorem byteSize_cons (c : Char) (cs : List Char) :
    byteSize (c :: cs) = c.utf8Size + byteSize cs := rfl

@[simp] theorem byteSize_append (cs ds : List Char) :
    byteSize (cs ++ ds) = byteSize cs + byteSize ds := by
  induction cs with
  | nil => simp
  | cons c cs ih =>
    rw [List.cons_append, byteSize_cons, byteSize_cons, ih, Nat.add_assoc]

theorem length_le_byteSize (cs : List Char) : cs.length ≤ byteSize cs := by
  induction cs with
  | nil => simp
  | cons c cs ih =>
    have := c.utf8Size_pos
    simp only [List.length_cons, byteSize_cons]
    omega

theorem byteSize_pos {cs : List Char} (h : cs ≠ []) : 0 < byteSize cs := by
  have := length_le_byteSize cs
  have := List.length_pos_iff.mpr h
  omega

theorem byteSize_eq_zero_iff {cs : List Char} : byteSize cs = 0 ↔ cs = [] := by
  constructor
  · intro h
    apply Classical.byContradiction
    intro hne
    have := byteSize_pos hne
    omega
  · rintro rfl
    rfl

theorem utf8ByteSize_ofList (cs : List Char) :
    (String.ofList cs).utf8ByteSize = byteSize cs := by
  induction cs with
  | nil => rfl
  | cons c cs ih =>
    have : String.ofList (c :: cs) = String.singleton c ++ String.ofList cs := by
      apply String.toList_injective
      simp
    rw [this, String.utf8ByteSize_append, ih]
    simp

/-- The two measures of a string's size agree. -/
theorem byteSize_toList (s : String) : byteSize s.toList = s.utf8ByteSize := by
  rw [← utf8ByteSize_ofList, String.ofList_toList]

/-! ## Cutting at a byte -/

/-- Cuts a text after `n` bytes; `none` when there are fewer than `n` bytes or when the
cut would fall inside a character. -/
def splitBytes? : Nat → List Char → Option (List Char × List Char)
  | 0, cs => some ([], cs)
  | _ + 1, [] => none
  | n + 1, c :: cs =>
    if c.utf8Size ≤ n + 1 then
      (splitBytes? (n + 1 - c.utf8Size) cs).map fun p => (c :: p.1, p.2)
    else
      none

@[simp] theorem splitBytes?_zero (cs : List Char) : splitBytes? 0 cs = some ([], cs) := by
  cases cs <;> rfl

theorem splitBytes?_byteSize (cs ds : List Char) :
    splitBytes? (byteSize cs) (cs ++ ds) = some (cs, ds) := by
  induction cs with
  | nil => simp
  | cons c cs ih =>
    have hpos := c.utf8Size_pos
    obtain ⟨n, hn⟩ : ∃ n, byteSize (c :: cs) = n + 1 := ⟨byteSize (c :: cs) - 1, by simp; omega⟩
    have hn' : n + 1 - c.utf8Size = byteSize cs := by simp at hn; omega
    have hle : c.utf8Size ≤ n + 1 := by simp at hn; omega
    rw [hn, List.cons_append, splitBytes?, if_pos hle, hn', ih]
    rfl

theorem eq_append_of_splitBytes? {n : Nat} {cs front back : List Char}
    (h : splitBytes? n cs = some (front, back)) : cs = front ++ back ∧ byteSize front = n := by
  induction cs generalizing n front with
  | nil =>
    cases n with
    | zero => simp_all
    | succ n => cases h
  | cons c cs ih =>
    cases n with
    | zero => simp_all
    | succ n =>
      rw [splitBytes?] at h
      split at h
      · obtain ⟨⟨f, b⟩, hp, he⟩ := Option.map_eq_some_iff.mp h
        cases he
        obtain ⟨rfl, hsize⟩ := ih hp
        refine ⟨rfl, ?_⟩
        simp only [byteSize_cons, hsize]
        omega
      · cases h

/-- A text can be cut after `n` bytes exactly where a front part has `n` bytes. -/
theorem splitBytes?_eq_some_iff {n : Nat} {cs front back : List Char} :
    splitBytes? n cs = some (front, back) ↔ cs = front ++ back ∧ byteSize front = n := by
  constructor
  · exact eq_append_of_splitBytes?
  · rintro ⟨rfl, rfl⟩
    exact splitBytes?_byteSize front back

/-- The text from byte `start` up to byte `stop`. -/
def slice? (start stop : Nat) (cs : List Char) : Option (List Char) := do
  let (_, back) ← splitBytes? start cs
  let (middle, _) ← splitBytes? (stop - start) back
  return middle

theorem slice?_append (front middle back : List Char) :
    slice? (byteSize front) (byteSize front + byteSize middle) (front ++ middle ++ back) =
      some middle := by
  simp [slice?, List.append_assoc, splitBytes?_byteSize]

end ExprLang.Text
