/-!
# Spans

A span is a pair of byte offsets into a text. Nothing orders the two offsets: a span whose
`stop` lies before its `start` covers nothing, and its length is zero.

* `union` takes the least start and the greatest stop; on ordered spans it is the smallest
  span that covers both.
* `map f` moves both offsets along `f`; a monotone `f` commutes with unions (`map_union`).
-/

namespace ExprLang.Text

/-- A range of bytes, from `start` up to but not including `stop`. -/
structure Span where
  start : Nat
  stop : Nat
  deriving DecidableEq, Repr, Inhabited

namespace Span

@[ext] theorem ext {s t : Span} (h₁ : s.start = t.start) (h₂ : s.stop = t.stop) : s = t := by
  cases s; cases t; simp_all

/-- The span of no bytes at an offset. -/
def empty (offset : Nat) : Span := ⟨offset, offset⟩

/-- The smallest span that covers both. -/
def union (s t : Span) : Span := ⟨min s.start t.start, max s.stop t.stop⟩

def length (s : Span) : Nat := s.stop - s.start

def isEmpty (s : Span) : Bool := s.length == 0

/-- Moves both offsets along `f`. -/
def map (f : Nat → Nat) (s : Span) : Span := ⟨f s.start, f s.stop⟩

/-- Moves a span `n` bytes to the right. -/
def shift (n : Nat) (s : Span) : Span := s.map (· + n)

/-! ## Covering -/

/-- `s.Covers t` when no byte of `t` lies outside `s`, offsets compared one by one. -/
def Covers (s t : Span) : Prop := s.start ≤ t.start ∧ t.stop ≤ s.stop

theorem Covers.union_right (s t : Span) : (s.union t).Covers t :=
  ⟨Nat.min_le_right .., Nat.le_max_right ..⟩

theorem Covers.trans {r s t : Span} (h : r.Covers s) (h' : s.Covers t) : r.Covers t :=
  ⟨Nat.le_trans h.1 h'.1, Nat.le_trans h'.2 h.2⟩

theorem isEmpty_iff {s : Span} : s.isEmpty = true ↔ s.stop ≤ s.start := by
  simp [isEmpty, length, Nat.sub_eq_zero_iff_le]

/-! ## Moving -/

@[simp] theorem map_start (f : Nat → Nat) (s : Span) : (s.map f).start = f s.start := rfl

@[simp] theorem map_stop (f : Nat → Nat) (s : Span) : (s.map f).stop = f s.stop := rfl

@[simp] theorem map_empty (f : Nat → Nat) (n : Nat) : (empty n).map f = empty (f n) := rfl

theorem map_union {f : Nat → Nat} (hf : ∀ a b, a ≤ b → f a ≤ f b) (s t : Span) :
    (s.union t).map f = (s.map f).union (t.map f) := by
  have hmin : ∀ a b, f (min a b) = min (f a) (f b) := by
    intro a b
    rcases Nat.le_total a b with h | h
    · rw [Nat.min_eq_left h, Nat.min_eq_left (hf _ _ h)]
    · rw [Nat.min_eq_right h, Nat.min_eq_right (hf _ _ h)]
  have hmax : ∀ a b, f (max a b) = max (f a) (f b) := by
    intro a b
    rcases Nat.le_total a b with h | h
    · rw [Nat.max_eq_right h, Nat.max_eq_right (hf _ _ h)]
    · rw [Nat.max_eq_left h, Nat.max_eq_left (hf _ _ h)]
  ext
  · exact hmin _ _
  · exact hmax _ _

theorem shift_union (n : Nat) (s t : Span) :
    (s.union t).shift n = (s.shift n).union (t.shift n) :=
  map_union (fun _ _ h => Nat.add_le_add_right h n) s t

end Span

end ExprLang.Text
