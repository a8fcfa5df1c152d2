import ExprLang.Proofs.Grammar
import Mathlib.Data.List.Basic

/-!
# Tokens in the order of the text

No token is empty, and each ends before the next one starts. So a row of tokens covers the
span from its first token to its last one, and that is the span of the expression or
statement that the row is read as.

* `inOrder_lex`: the tokens of a text are in order.
* `spanOf_union`: the span of a row of tokens, from those of a front part and a back part.
* `Derives.span_eq`: the span of an expression is that of its tokens.
-/

namespace ExprLang

open Text

/-- Tokens that are not empty, each of which ends before those after it start. -/
structure InOrder (w : List Token) : Prop where
  nonempty : ∀ t ∈ w, t.span.start < t.span.stop
  apart : w.Pairwise fun t u => t.span.stop ≤ u.span.start

namespace InOrder

variable {v w : List Token}

theorem nil : InOrder [] := ⟨by simp, .nil⟩

theorem sublist (h : InOrder w) (hv : v.Sublist w) : InOrder v :=
  ⟨fun t ht => h.nonempty t (hv.mem ht), h.apart.sublist hv⟩

theorem left (h : InOrder (v ++ w)) : InOrder v := h.sublist (List.sublist_append_left v w)

theorem right (h : InOrder (v ++ w)) : InOrder w := h.sublist (List.sublist_append_right v w)

theorem start_le {t u : Token} (h : InOrder (t :: w)) (hu : u ∈ t :: w) :
    t.span.start ≤ u.span.start := by
  rcases List.mem_cons.mp hu with rfl | hu
  · exact Nat.le_refl _
  · have hlt := h.nonempty t List.mem_cons_self
    have hle := (List.pairwise_cons.mp h.apart).1 u hu
    omega

theorem stop_le {t u : Token} (h : InOrder (w ++ [t])) (hu : u ∈ w ++ [t]) :
    u.span.stop ≤ t.span.stop := by
  rcases List.mem_append.mp hu with hu | hu
  · have hlt := h.nonempty t (by simp)
    have hle := (List.pairwise_append.mp h.apart).2.2 u hu t (by simp)
    omega
  · exact Nat.le_of_eq (by rw [List.mem_singleton.mp hu])

/-- The end of a token tells which one it is. -/
theorem eq_of_stop_eq {t u : Token} (h : InOrder w) (ht : t ∈ w) (hu : u ∈ w)
    (hstop : t.span.stop = u.span.stop) : t = u := by
  induction w with
  | nil => cases ht
  | cons first rest ih =>
    have hbehind : ∀ v ∈ rest, first.span.stop < v.span.stop := by
      intro v hv
      have hle := (List.pairwise_cons.mp h.apart).1 v hv
      have hlt := h.nonempty v (List.mem_cons_of_mem first hv)
      omega
    rcases List.mem_cons.mp ht with ht | ht
    · rcases List.mem_cons.mp hu with hu | hu
      · rw [ht, hu]
      · have hlt := hbehind u hu
        rw [← ht] at hlt
        omega
    · rcases List.mem_cons.mp hu with hu | hu
      · have hlt := hbehind t ht
        rw [← hu] at hlt
        omega
      · exact ih (h.sublist (List.sublist_cons_self first rest)) ht hu

end InOrder

/-! ## The tokens of a text -/

/-- Where the next token lies, and where the lexer stands after it. -/
theorem position_of_token? {c c' : Cursor} {t : Token} (h : nextToken? c = some (t, c')) :
    c.position ≤ t.span.start ∧ t.span.start < t.span.stop ∧ c'.position = t.span.stop := by
  unfold nextToken? at h
  dsimp only at h
  split at h
  · cases h
  · rename_i first more hrest
    cases h
    have hpos := byteSize_pos (Scan.scan_lexeme_ne_nil first more)
    simp only [Cursor.position_skip]
    exact ⟨by omega, by omega, trivial⟩

theorem inOrder_tokensFrom (c : Cursor) :
    (∀ t ∈ tokensFrom c, c.position ≤ t.span.start) ∧ InOrder (tokensFrom c) := by
  fun_induction tokensFrom c with
  | case1 c h => exact ⟨by simp, .nil⟩
  | case2 c t c' h ih =>
    obtain ⟨hstart, hne, hstop⟩ := position_of_token? h
    obtain ⟨hafter, hrest⟩ := ih
    refine ⟨?_, ?_, ?_⟩
    · intro u hu
      rcases List.mem_cons.mp hu with rfl | hu
      · exact hstart
      · have := hafter u hu
        omega
    · intro u hu
      rcases List.mem_cons.mp hu with rfl | hu
      · exact hne
      · exact hrest.nonempty u hu
    · refine List.pairwise_cons.mpr ⟨fun u hu => ?_, hrest.apart⟩
      have := hafter u hu
      omega

theorem inOrder_lex (source : String) : InOrder (lex source) := (inOrder_tokensFrom _).2

/-! ## The span of a row of tokens -/

/-- From the start of the first token to the end of the last one. -/
def spanOf (w : List Token) : Span :=
  ⟨(w.head?.map (·.span.start)).getD 0, (w.getLast?.map (·.span.stop)).getD 0⟩

@[simp] theorem spanOf_singleton (t : Token) : spanOf [t] = t.span := rfl

@[simp] theorem spanOf_concat_stop (w : List Token) (t : Token) :
    (spanOf (w ++ [t])).stop = t.span.stop := by
  simp [spanOf]

theorem exists_spanOf_start {w : List Token} (hw : w ≠ []) :
    ∃ t ∈ w, (spanOf w).start = t.span.start := by
  obtain ⟨t, rest, rfl⟩ := List.exists_cons_of_ne_nil hw
  exact ⟨t, List.mem_cons_self, rfl⟩

theorem exists_spanOf_stop {w : List Token} (hw : w ≠ []) :
    ∃ t ∈ w, (spanOf w).stop = t.span.stop := by
  obtain ⟨rest, t, rfl⟩ := (List.eq_nil_or_concat' w).resolve_left hw
  exact ⟨t, by simp, spanOf_concat_stop rest t⟩

theorem InOrder.spanOf_start_le {t : Token} {w : List Token} (h : InOrder w) (ht : t ∈ w) :
    (spanOf w).start ≤ t.span.start := by
  obtain ⟨first, rest, rfl⟩ := List.exists_cons_of_ne_nil (List.ne_nil_of_mem ht)
  exact h.start_le ht

theorem InOrder.le_spanOf_stop {t : Token} {w : List Token} (h : InOrder w) (ht : t ∈ w) :
    t.span.stop ≤ (spanOf w).stop := by
  obtain ⟨rest, last, rfl⟩ := (List.eq_nil_or_concat' w).resolve_left (List.ne_nil_of_mem ht)
  rw [spanOf_concat_stop]
  exact h.stop_le ht

theorem spanOf_start_eq_of_front {u w : List Token} (hu : u <+: w) (hne : u ≠ []) :
    (spanOf w).start = (spanOf u).start := by
  obtain ⟨t, rest, rfl⟩ := List.exists_cons_of_ne_nil hne
  obtain ⟨back, rfl⟩ := hu
  rfl

theorem spanOf_stop_eq_of_back {v w : List Token} (hv : v <:+ w) (hne : v ≠ []) :
    (spanOf w).stop = (spanOf v).stop := by
  obtain ⟨rest, t, rfl⟩ := (List.eq_nil_or_concat' v).resolve_left hne
  obtain ⟨front, rfl⟩ := hv
  rw [← List.append_assoc, spanOf_concat_stop, spanOf_concat_stop]

/-- A front part and a back part of a row, which may overlap, span the row. -/
theorem spanOf_union {u v w : List Token} (hw : InOrder w) (hu : u <+: w) (hv : v <:+ w)
    (hune : u ≠ []) (hvne : v ≠ []) : (spanOf u).union (spanOf v) = spanOf w := by
  obtain ⟨first, hfirst, hstart⟩ := exists_spanOf_start hvne
  obtain ⟨last, hlast, hstop⟩ := exists_spanOf_stop hune
  have hle := hw.spanOf_start_le (hv.mem hfirst)
  have hge := hw.le_spanOf_stop (hu.mem hlast)
  rw [spanOf_start_eq_of_front hu hune, ← hstart] at hle
  rw [spanOf_stop_eq_of_back hv hvne, ← hstop] at hge
  ext
  · rw [spanOf_start_eq_of_front hu hune]
    exact Nat.min_eq_left hle
  · rw [spanOf_stop_eq_of_back hv hvne]
    exact Nat.max_eq_right hge

/-! ## The span of an expression -/

theorem Token.span_of_literal? {t : Token} {e : Expr} (h : t.literal? = some e) :
    e.span = t.span := by
  rcases literal?_cases h with ⟨value, rfl⟩ | rfl | ⟨value, rfl⟩ <;> rfl

theorem Derives.span_eq {level : Level} {w : List Token} {c : Concrete}
    (h : Derives level w c) (hw : InOrder w) {e : Expr} (he : c.expr? = some e) :
    e.span = spanOf w := by
  induction h generalizing e with
  | literal h => exact Token.span_of_literal? he
  | @group left right w c hl h hr ih =>
    obtain ⟨e', he', rfl⟩ := Concrete.expr?_group_eq_some_iff.mp he
    have hsuffix : [right] <:+ left :: (w ++ [right]) := List.suffix_append (left :: w) [right]
    rw [Expr.span_withSpan, ← spanOf_singleton, ← spanOf_singleton right]
    exact spanOf_union hw (List.prefix_append [left] _) hsuffix (by simp) (by simp)
  | @negate sign w c hs h ih =>
    obtain ⟨e', he', rfl⟩ := Concrete.expr?_negate_eq_some_iff.mp he
    have hsuffix : w <:+ sign :: w := List.suffix_cons sign w
    rw [Expr.span, ih (hw.sublist hsuffix.sublist) he', ← spanOf_singleton]
    exact spanOf_union hw (List.prefix_append [sign] w) hsuffix (by simp) h.ne_nil
  | primary h ih | unary h ih | product h ih => exact ih hw he
  | @times t op v w l r hl ht hop hr ihl ihr | @plus t op v w l r hl ht hop hr ihl ihr =>
    obtain ⟨el, er, hel, her, rfl⟩ := Concrete.expr?_binary_eq_some_iff.mp he
    have hprefix : v <+: v ++ t :: w := List.prefix_append v (t :: w)
    have hsuffix : w <:+ v ++ t :: w := by simpa using List.suffix_append (v ++ [t]) w
    rw [Expr.span, ihl (hw.sublist hprefix.sublist) hel, ihr (hw.sublist hsuffix.sublist) her]
    exact spanOf_union hw hprefix hsuffix hl.ne_nil hr.ne_nil

end ExprLang
