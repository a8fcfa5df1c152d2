import ExprLang.Proofs.Height
import ExprLang.Proofs.RoundTrip

/-!
# Texts of high trees

The bounds on the height of a tree are met, by texts built from the word `true`, signs, groups
and sums. A sign or a group pays one unit of nesting for all that it holds, and the chain of
sums behind it is counted from the start again.

* `spells_tower`: a phrase of every cost that is as high as its cost allows.
* `exists_parse_height_eq`, `exists_parse_height_max`: texts that are read as such a phrase.
* `parse_signs`: a chain behind signs is higher than it costs, and may be higher than the limit.
-/

namespace ExprLang

open Text

/-! ## Phrases by cost and height -/

/-- Wherever it stands, the text is a phrase of the level, with a tree of the given cost, spine
and height. -/
def Spells (level : Level) (cs : List Char) (cost spine height : Nat) : Prop :=
  ∀ p rest, Ends rest → ∃ w c e, Lexes p cs rest w ∧ Derives level w c ∧ c.expr? = some e ∧
    c.cost = cost ∧ c.spine = spine ∧ c.height = height

def trueChars : List Char := (Keyword.bool true).word.toList

theorem spells_true : Spells .primary trueChars 1 0 1 := by
  intro p rest hrest
  have hlex := lexes_keyword (.bool true) hrest p
  exact ⟨_, _, _, hlex, .literal (Or.inr (Or.inr ⟨true, rfl⟩)), rfl, rfl, rfl, rfl⟩

namespace Spells

variable {cs : List Char} {n s m : Nat}

theorem loosen {a b : Level} (h : Spells a cs n s m) (hab : b.strength ≤ a.strength) :
    Spells b cs n s m := by
  intro p rest hrest
  obtain ⟨w, c, e, hlex, hw, hc⟩ := h p rest hrest
  exact ⟨w, c, e, hlex, hw.loosen hab, hc⟩

theorem negate (h : Spells .unary cs n s m) : Spells .unary ('-' :: cs) (n + 1) 0 (m + 1) := by
  intro p rest hrest
  have hsign : Lexes p ['-'] (cs ++ rest) [.ofText (.operator .sub) ['-'] p] :=
    lexes_punctuation rfl (by simp) p
  obtain ⟨w, c, e, hlex, hw, he, rfl, -, rfl⟩ := h (p + byteSize ['-']) rest hrest
  refine ⟨_, _, _, hsign.append hlex, .negate rfl hw,
    Concrete.expr?_negate_eq_some_iff.mpr ⟨e, he, rfl⟩, ?_, rfl, rfl⟩
  exact Nat.add_comm 1 c.cost

theorem group (h : Spells .sum cs n s m) :
    Spells .primary ('(' :: (cs ++ [')'])) (n + 1) 0 m := by
  intro p rest hrest
  have hend : Ends (')' :: rest) := ends_punctuation rfl rest
  obtain ⟨w, c, e, hlex, hw, he, rfl, -, rfl⟩ := h (p + byteSize ['(']) _ hend
  obtain ⟨left, right, v, hlex', hv⟩ := exists_derives_of_parens hlex hw
  refine ⟨v, _, _, hlex', hv, Concrete.expr?_group_eq_some_iff.mpr ⟨e, he, rfl⟩, ?_, rfl, rfl⟩
  exact Nat.add_comm 1 c.cost

theorem plus (h : Spells .sum cs n s m) :
    Spells .sum (cs ++ '+' :: trueChars) (max n (s + 3)) (s + 1) (m + 1) := by
  intro p rest hrest
  have hend : Ends ('+' :: (trueChars ++ rest)) := ends_punctuation rfl _
  obtain ⟨v, l, el, hlexl, hv, hel, rfl, rfl, rfl⟩ := h p _ hend
  have hplus : Lexes (p + byteSize cs) ['+'] (trueChars ++ rest)
      [.ofText (.operator .add) ['+'] (p + byteSize cs)] :=
    lexes_punctuation rfl (by simp) _
  obtain ⟨w, r, er, hlexr, hw, her, hcost, -, hheight⟩ := spells_true _ rest hrest
  refine ⟨_, _, _, hlexl.append (hplus.append hlexr),
    .plus hv rfl (Or.inl rfl) (.unary (.primary hw)),
    Concrete.expr?_binary_eq_some_iff.mpr ⟨el, er, hel, her, rfl⟩, ?_, rfl, ?_⟩
  · rw [Concrete.cost, hcost]
  · have hpos := l.height_pos
    rw [Concrete.height, hheight]
    omega

theorem signs (h : Spells .unary cs n 0 m) (k : Nat) :
    Spells .unary (List.replicate k '-' ++ cs) (n + k) 0 (m + k) := by
  induction k with
  | zero => exact h
  | succ k ih => exact ih.negate

end Spells

/-- A chain of sums, without its first operand. -/
def chainChars : Nat → List Char
  | 0 => []
  | k + 1 => chainChars k ++ '+' :: trueChars

/-- A chain that the cost of its first operand has room for costs nothing. -/
theorem Spells.chain {cs : List Char} {n s m : Nat} (h : Spells .sum cs n s m) {k : Nat}
    (hk : s + k + 2 ≤ n) : Spells .sum (cs ++ chainChars k) n (s + k) (m + k) := by
  induction k with
  | zero => simpa [chainChars] using h
  | succ k ih =>
    have hstep := (ih (by omega)).plus
    rw [Nat.max_eq_left (by omega), List.append_assoc] at hstep
    exact hstep

/-! ## The greatest height of a cost -/

/-- Groups in groups, each with a chain of sums behind it that is as long as can be. -/
def towerChars : Nat → List Char
  | 0 => '-' :: '-' :: (trueChars ++ '+' :: trueChars)
  | n + 1 => '(' :: (towerChars n ++ [')']) ++ chainChars (n + 2)

theorem spells_tower (n : Nat) :
    Spells .sum (towerChars n) (n + 3) (n + 1) (operandHeight (n + 3) + (n + 1)) := by
  induction n with
  | zero =>
    have hsigns := (spells_true.loosen (Level.le_primary .unary)).signs 2
    exact (hsigns.loosen (Level.sum_le _)).plus
  | succ n ih =>
    have hstep : operandHeight (n + 4) = operandHeight (n + 3) + (n + 1) := by
      rw [operandHeight]
      omega
    have hchain := (ih.group.loosen (Level.sum_le _)).chain (k := n + 2) (by omega)
    rw [Nat.zero_add, ← hstep] at hchain
    exact hchain

/-! ## Texts of one statement -/

theorem Spells.parse_eq {cs : List Char} {n s m : Nat} (h : Spells .sum cs n s m)
    (hn : n ≤ nestingLimit) :
    ∃ stmt, parse (String.ofList (cs ++ [';'])) = ⟨⟨[stmt]⟩, []⟩ ∧ stmt.expr.height = m := by
  have hend : Ends [';'] := ends_punctuation rfl []
  obtain ⟨w, c, e, hlex, hw, he, rfl, -, rfl⟩ := h 0 [';'] hend
  obtain ⟨semicolon, hsemicolon, hs⟩ :
      ∃ t, Lexes (0 + byteSize cs) [';'] [] [t] ∧ t.kind = .semicolon :=
    ⟨_, lexes_punctuation rfl (by simp) _, rfl⟩
  have hparse := parse_of_clause (hlex.append hsemicolon).lex_eq (.mk .expr hw) hs he hn
  exact ⟨_, hparse, Concrete.height_of_expr? he⟩

theorem exists_parse_height_eq {n : Nat} (hn : n + 3 ≤ nestingLimit) :
    ∃ source stmt, parse source = ⟨⟨[stmt]⟩, []⟩ ∧
      stmt.expr.height = operandHeight (n + 3) + (n + 1) := by
  obtain ⟨stmt, hparse, hheight⟩ := (spells_tower n).parse_eq hn
  exact ⟨_, stmt, hparse, hheight⟩

/-- Signs in front of a sum: as high as there are signs, and two more. -/
theorem parse_signs {n : Nat} (hn : n < nestingLimit) :
    ∃ stmt, parse (String.ofList (List.replicate n '-' ++ "true+true;".toList)) =
      ⟨⟨[stmt]⟩, []⟩ ∧ stmt.expr.height = n + 2 := by
  have hsigns := (spells_true.loosen (Level.le_primary .unary)).signs n
  have hsum := (hsigns.loosen (Level.sum_le _)).plus
  have hcost : max (1 + n) (0 + 3) ≤ nestingLimit := by
    rw [nestingLimit] at *
    omega
  obtain ⟨stmt, hparse, hheight⟩ := hsum.parse_eq hcost
  refine ⟨stmt, ?_, by omega⟩
  rw [← hparse, List.append_assoc, List.append_assoc]
  rfl

/-- An expression is handed out that is higher than the nesting limit. -/
theorem exists_parse_height_257 :
    ∃ stmt, parse (String.ofList (List.replicate 255 '-' ++ "true+true;".toList)) =
      ⟨⟨[stmt]⟩, []⟩ ∧ stmt.expr.height = 257 :=
  parse_signs (by decide)

/-- The bound on the height of an expression is met. -/
theorem exists_parse_height_max :
    ∃ source stmt, parse source = ⟨⟨[stmt]⟩, []⟩ ∧ stmt.expr.height = 32388 := by
  have hlimit : 2 * operandHeight (253 + 3) = 64268 := two_mul_operandHeight 253
  obtain ⟨source, stmt, hparse, hheight⟩ := exists_parse_height_eq (n := 253) (by decide)
  exact ⟨source, stmt, hparse, by omega⟩

end ExprLang
