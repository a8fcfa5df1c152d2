import ExprLang.Proofs.SpanFidelity

/-!
# Spans nest and advance

Every span of a program runs from the start of a token to the end of one. The spans of operands
lie inside those of the expressions they belong to, whatever parentheses widen them, and the spans
of statements stand one behind the other.

* `OnTokens tokens s`: the span `s` starts and ends with tokens and is not empty.
* `Expr.Nests`, `Stmt.Nests`: how the span of a node lies to the tokens and to what is in it.
* `InOrder.tokensBetween_eq`: what stands between the operands of an operator.
* `Derives.nests`, `Clause.nests`: the nodes that the grammar builds nest.
* `parseProgram_spans_nest`: all nodes of a program.
-/

namespace ExprLang

open Text

/-! ## Spans among tokens -/

/-- A span that is not empty, from the start of one token to the end of one. -/
structure OnTokens (tokens : List Token) (s : Span) : Prop where
  nonempty : s.start < s.stop
  start : ∃ t ∈ tokens, t.span.start = s.start
  stop : ∃ t ∈ tokens, t.span.stop = s.stop

/-- The tokens that lie between two offsets. -/
def tokensBetween (tokens : List Token) (start stop : Nat) : List Token :=
  tokens.filter fun t => start ≤ t.span.start ∧ t.span.stop ≤ stop

namespace InOrder

variable {tokens u v w : List Token} {t : Token}

theorem onTokens_spanOf (h : InOrder tokens) (hw : w <:+: tokens) (hne : w ≠ []) :
    OnTokens tokens (spanOf w) := by
  obtain ⟨first, hfirst, hstart⟩ := exists_spanOf_start hne
  obtain ⟨last, hlast, hstop⟩ := exists_spanOf_stop hne
  refine ⟨?_, ⟨first, hw.mem hfirst, hstart.symm⟩, ⟨last, hw.mem hlast, hstop.symm⟩⟩
  have hlt := h.nonempty first (hw.mem hfirst)
  have hle := (h.sublist hw.sublist).le_spanOf_stop hfirst
  omega

theorem spanOf_covers (h : InOrder w) (hv : v <:+: w) (hne : v ≠ []) :
    (spanOf w).Covers (spanOf v) := by
  obtain ⟨first, hfirst, hstart⟩ := exists_spanOf_start hne
  obtain ⟨last, hlast, hstop⟩ := exists_spanOf_stop hne
  constructor
  · rw [hstart]
    exact h.spanOf_start_le (hv.mem hfirst)
  · rw [hstop]
    exact h.le_spanOf_stop (hv.mem hlast)

/-- A row of tokens ends before any row of tokens behind it starts. -/
theorem spanOf_stop_le (h : InOrder (u ++ v)) (hw : ∀ t ∈ w, t ∈ v) (hu : u ≠ []) (hne : w ≠ []) :
    (spanOf u).stop ≤ (spanOf w).start := by
  obtain ⟨last, hlast, hstop⟩ := exists_spanOf_stop hu
  obtain ⟨first, hfirst, hstart⟩ := exists_spanOf_start hne
  rw [hstop, hstart]
  exact (List.pairwise_append.mp h.apart).2.2 last hlast first (hw first hfirst)

/-- Between two rows of tokens that one token parts, there is no other token. -/
theorem tokensBetween_eq (h : InOrder tokens) (hw : u ++ t :: v <:+: tokens) (hu : u ≠ [])
    (hv : v ≠ []) : tokensBetween tokens (spanOf u).stop (spanOf v).start = [t] := by
  obtain ⟨front, back, rfl⟩ := hw
  have hsplit : front ++ (u ++ t :: v) ++ back = (front ++ u) ++ t :: (v ++ back) := by simp
  rw [hsplit] at h ⊢
  have hleft : ∀ x ∈ front ++ u, ¬ (spanOf u).stop ≤ x.span.start := by
    intro x hx
    have hlt := h.left.nonempty x hx
    have hle := h.left.le_spanOf_stop hx
    rw [spanOf_stop_eq_of_back (List.suffix_append front u) hu] at hle
    omega
  have hright : ∀ x ∈ v ++ back, ¬ x.span.stop ≤ (spanOf v).start := by
    intro x hx
    have horder := h.right.sublist (List.sublist_cons_self t (v ++ back))
    have hlt := horder.nonempty x hx
    have hle := horder.spanOf_start_le hx
    rw [spanOf_start_eq_of_front (List.prefix_append v back) hv] at hle
    omega
  have hbefore : (spanOf u).stop ≤ t.span.start := by
    have happ : InOrder (u ++ t :: (v ++ back)) := by
      rw [List.append_assoc] at h
      exact h.right
    exact happ.spanOf_stop_le (w := [t]) (by simp) hu (by simp)
  have hafter : t.span.stop ≤ (spanOf v).start :=
    spanOf_stop_le (u := [t]) h.right (fun x hx => List.mem_append_left back hx) (by simp) hv
  have hfront : tokensBetween (front ++ u) (spanOf u).stop (spanOf v).start = [] := by
    apply List.filter_eq_nil_iff.mpr
    intro x hx
    simp [hleft x hx]
  have hback : tokensBetween (v ++ back) (spanOf u).stop (spanOf v).start = [] := by
    apply List.filter_eq_nil_iff.mpr
    intro x hx
    simp [hright x hx]
  unfold tokensBetween at hfront hback ⊢
  rw [List.filter_append, hfront, List.nil_append,
    List.filter_cons_of_pos (by simpa using ⟨hbefore, hafter⟩), hback]

end InOrder

/-! ## Expressions -/

/-- How the span of an expression lies to the tokens of the text and to its operands: they lie
inside, behind the sign or on both sides of the operator. -/
def Expr.Nests (tokens : List Token) : Expr → Prop
  | number _ s | string _ s | bool _ s => OnTokens tokens s
  | unary _ operand s =>
    OnTokens tokens s ∧ s.Covers operand.span ∧ s.start < operand.span.start
  | binary op lhs rhs s =>
    OnTokens tokens s ∧ s.Covers lhs.span ∧ s.Covers rhs.span ∧ lhs.span.stop < rhs.span.start ∧
      ∃ t, t.kind = .operator op ∧ tokensBetween tokens lhs.span.stop rhs.span.start = [t]

/-- Parentheses only widen the span. -/
theorem Expr.Nests.withSpan {tokens : List Token} {e : Expr} {s : Span} (h : e.Nests tokens)
    (hs : OnTokens tokens s) (hcovers : s.Covers e.span) : (e.withSpan s).Nests tokens := by
  cases e with
  | number | string | bool => exact hs
  | unary op operand s' =>
    obtain ⟨-, hoperand, hlt⟩ := h
    exact ⟨hs, hcovers.trans hoperand, Nat.lt_of_le_of_lt hcovers.1 hlt⟩
  | binary op lhs rhs s' =>
    obtain ⟨-, hlhs, hrhs, hbetween⟩ := h
    exact ⟨hs, hcovers.trans hlhs, hcovers.trans hrhs, hbetween⟩

theorem nests_operation {tokens v w : List Token} {t : Token} {op : BinaryOp} {l r : Expr}
    (ht : InOrder tokens) (hw : v ++ t :: w <:+: tokens) (hk : t.kind = .operator op)
    (hv : v ≠ []) (hne : w ≠ []) (hl : l.span = spanOf v) (hr : r.span = spanOf w) :
    (Expr.binary op l r (spanOf (v ++ t :: w))).Nests tokens := by
  have horder := ht.sublist hw.sublist
  have hleft : v <:+: v ++ t :: w := (List.prefix_append v (t :: w)).isInfix
  have hright : w <:+: v ++ t :: w :=
    ((List.suffix_cons t w).trans (List.suffix_append v (t :: w))).isInfix
  have hbefore : (spanOf v).stop ≤ (spanOf [t]).start :=
    horder.spanOf_stop_le (by simp) hv (by simp)
  have hafter : (spanOf [t]).stop ≤ (spanOf w).start :=
    InOrder.spanOf_stop_le (u := [t]) horder.right (fun _ h => h) (by simp) hne
  have hlt := horder.nonempty t (by simp)
  rw [spanOf_singleton] at hbefore hafter
  refine ⟨ht.onTokens_spanOf hw (by simp), ?_, ?_, ?_, t, hk, ?_⟩
  · rw [hl]
    exact horder.spanOf_covers hleft hv
  · rw [hr]
    exact horder.spanOf_covers hright hne
  · rw [hl, hr]
    omega
  · rw [hl, hr]
    exact ht.tokensBetween_eq hw hv hne

theorem Derives.onTokens {tokens w : List Token} {level : Level} {c : Concrete} {e : Expr}
    (h : Derives level w c) (ht : InOrder tokens) (hw : w <:+: tokens) (he : c.expr? = some e) :
    e.span = spanOf w ∧ OnTokens tokens e.span := by
  have hspan := h.span_eq (ht.sublist hw.sublist) he
  refine ⟨hspan, ?_⟩
  rw [hspan]
  exact ht.onTokens_spanOf hw h.ne_nil

theorem Derives.nests {tokens w : List Token} {level : Level} {c : Concrete} {e : Expr}
    (h : Derives level w c) (ht : InOrder tokens) (hw : w <:+: tokens) (he : c.expr? = some e) :
    e.Nests tokens := by
  induction h generalizing e with
  | literal h =>
    obtain ⟨-, hon⟩ := (Derives.literal h).onTokens ht hw he
    rcases Token.literal?_cases he with ⟨value, rfl⟩ | rfl | ⟨value, rfl⟩ <;> exact hon
  | @group left right w c hl h hr ih =>
    obtain ⟨hspan, hon⟩ := (Derives.group hl h hr).onTokens ht hw he
    obtain ⟨e', he', rfl⟩ := Concrete.expr?_group_eq_some_iff.mp he
    have hinner : w <:+: left :: (w ++ [right]) := ⟨[left], [right], rfl⟩
    obtain ⟨hspan', -⟩ := h.onTokens ht (hinner.trans hw) he'
    rw [Expr.span_withSpan] at hspan hon
    apply (ih (hinner.trans hw) he').withSpan hon
    rw [hspan, hspan']
    exact (ht.sublist hw.sublist).spanOf_covers hinner h.ne_nil
  | @negate sign w c hs h ih =>
    obtain ⟨-, hon⟩ := (Derives.negate hs h).onTokens ht hw he
    obtain ⟨e', he', rfl⟩ := Concrete.expr?_negate_eq_some_iff.mp he
    have horder := ht.sublist hw.sublist
    obtain ⟨hspan, -⟩ := h.onTokens ht ((List.suffix_cons sign w).isInfix.trans hw) he'
    have hafter : (spanOf [sign]).stop ≤ (spanOf w).start :=
      InOrder.spanOf_stop_le (u := [sign]) horder (fun _ h => h) (by simp) h.ne_nil
    have hlt := horder.nonempty sign List.mem_cons_self
    rw [spanOf_singleton] at hafter
    refine ⟨hon, .union_right _ _, ?_⟩
    rw [hspan]
    exact Nat.lt_of_le_of_lt (Nat.min_le_left _ _) (Nat.lt_of_lt_of_le hlt hafter)
  | primary h ih | unary h ih | product h ih => exact ih hw he
  | @times t op v w l r hl hk hop hr | @plus t op v w l r hl hk hop hr =>
    have horder := ht.sublist hw.sublist
    obtain ⟨el, er, hel, her, rfl⟩ := Concrete.expr?_binary_eq_some_iff.mp he
    have hspanl := hl.span_eq horder.left hel
    have hspanr := hr.span_eq (horder.right.sublist (List.sublist_cons_self t w)) her
    have hfront : v <+: v ++ t :: w := List.prefix_append v (t :: w)
    have hback : w <:+ v ++ t :: w := (List.suffix_cons t w).trans (List.suffix_append v (t :: w))
    rw [hspanl, hspanr, spanOf_union horder hfront hback hl.ne_nil hr.ne_nil]
    exact nests_operation ht hw hk hl.ne_nil hr.ne_nil hspanl hspanr

/-! ## Statements -/

/-- The span of a statement starts and ends with tokens and contains its expression, behind the
keyword of a statement that prints. -/
structure Stmt.Nests (tokens : List Token) (s : Stmt) : Prop where
  onTokens : OnTokens tokens s.span
  covers : s.span.Covers s.expr.span
  print : s.kind = .print → s.span.start < s.expr.span.start

theorem Clause.nests {tokens u w : List Token} {s : Stmt} {c : Concrete}
    (h : Clause w s.kind c) (ht : InOrder tokens) (he : c.expr? = some s.expr) (hw : w <+: u)
    (hu : u <:+: tokens) (hspan : s.span = spanOf u) : s.Nests tokens := by
  have hne : u ≠ [] := by
    rintro rfl
    exact h.ne_nil (List.prefix_nil.mp hw)
  have horder := ht.sublist hu.sublist
  generalize hkind : s.kind = kind at h
  cases h with
  | @mk v w kind c hv hphrase =>
    have hback : w <:+: u := (List.suffix_append v w).isInfix.trans hw.isInfix
    have hexpr := hphrase.span_eq (horder.sublist hback.sublist) he
    refine ⟨?_, ?_, fun hprint => ?_⟩
    · rw [hspan]
      exact ht.onTokens_spanOf hu hne
    · rw [hspan, hexpr]
      exact horder.spanOf_covers hback hphrase.ne_nil
    · rw [hkind] at hprint
      cases hv with
      | expr => cases hprint
      | @print t hk =>
        have hfront := horder.sublist hw.sublist
        have hafter : (spanOf [t]).stop ≤ (spanOf w).start :=
          hfront.spanOf_stop_le (fun _ h => h) (by simp) hphrase.ne_nil
        have hlt := hfront.nonempty t (by simp)
        have hstart : (spanOf u).start = t.span.start :=
          spanOf_start_eq_of_front ((List.prefix_append [t] w).trans hw) (by simp)
        rw [spanOf_singleton] at hafter
        rw [hspan, hexpr, hstart]
        omega

theorem stmt_nests_of_mem {source : String} {s : Stmt}
    (hs : s ∈ (parse source).program.statements) :
    s.Nests (lex source) ∧ ∀ n ∈ s.expr.nodes, n.Nests (lex source) := by
  have horder := inOrder_lex source
  obtain ⟨w, c, hw, he, -, hinfix, hspan⟩ := exists_clause_of_mem hs
  constructor
  · rcases hspan with ⟨semicolon, -, hbehind, hspan⟩ | hspan
    · exact hw.nests horder he (List.prefix_append w _) hbehind hspan
    · exact hw.nests horder he List.prefix_rfl hinfix hspan
  · intro n hn
    generalize s.kind = kind at hw
    cases hw with
    | @mk u w kind c hu hphrase =>
      obtain ⟨v, c', hv, hnode, hn, -⟩ := hphrase.phrase_of_mem_nodes he hn
      exact hnode.nests horder (hv.trans ((List.suffix_append u w).isInfix.trans hinfix)) hn

/-! ## Programs -/

theorem Segment.span_of_stmt? {ts : TokenStream} {w : List Token} {a : Attempt} {s : Stmt}
    (h : Segment ts w a) (hs : a.stmt? = some s) : s.span = spanOf w := by
  cases h with
  | complete | unterminated =>
    cases hs
    rfl
  | skipped | cutOff => cases hs

/-- Rows of tokens that make up a text stand one behind the other. -/
theorem pairwise_spanOf {segments : List (List Token × Attempt)}
    (h : InOrder (segments.flatMap Prod.fst)) (hne : ∀ s ∈ segments, s.1 ≠ []) :
    segments.Pairwise fun s s' => (spanOf s.1).stop ≤ (spanOf s'.1).start := by
  induction segments with
  | nil => exact .nil
  | cons s rest ih =>
    obtain ⟨hs, hrest⟩ := List.forall_mem_cons.mp hne
    rw [List.flatMap_cons] at h
    refine List.pairwise_cons.mpr ⟨fun s' hs' => ?_, ih h.right hrest⟩
    exact h.spanOf_stop_le (fun t ht => List.mem_flatMap.mpr ⟨s', hs', ht⟩) hs (hrest s' hs')

theorem statements_pairwise (source : String) :
    (parse source).program.statements.Pairwise fun s s' => s.span.stop ≤ s'.span.start := by
  obtain ⟨segments, htokens, hattempts, hsegmented⟩ :=
    attempts_segmented ⟨lex source, endSpan source⟩ (inOrder_lex source)
  have horder : InOrder (segments.flatMap Prod.fst) := htokens ▸ inOrder_lex source
  have hne : ∀ s ∈ segments, s.1 ≠ [] := by
    intro s hs
    obtain ⟨ts, hsegment⟩ := hsegmented.segment s hs
    exact hsegment.ne_nil
  rw [parse_eq, hattempts, Parsed.ofAttempts, List.filterMap_map, List.pairwise_filterMap]
  refine (pairwise_spanOf horder hne).imp_of_mem ?_
  intro s s' hs hs' hle stmt hstmt stmt' hstmt'
  obtain ⟨ts, hsegment⟩ := hsegmented.segment s hs
  obtain ⟨ts', hsegment'⟩ := hsegmented.segment s' hs'
  rw [hsegment.span_of_stmt? hstmt, hsegment'.span_of_stmt? hstmt']
  exact hle

/-- **Spans nest and advance.** In the program of a text, whatever is wrong with the text, every
span of a statement or an expression starts and ends with tokens and is not empty. A statement
contains its expression, each operand lies inside its expression, and between two operands there
is one token, their operator. The statements stand one behind the other. -/
theorem parseProgram_spans_nest (source : String) :
    ∃ hadErrors program, ∃ p : Parser Collector,
      Parser.parseProgram (.ofLexer (.ofSource source) {}) = .ok (hadErrors, program) p ∧
      (∀ s ∈ program.statements,
        s.Nests (lex source) ∧ ∀ n ∈ s.expr.nodes, n.Nests (lex source)) ∧
      program.statements.Pairwise fun s s' => s.span.stop ≤ s'.span.start := by
  obtain ⟨p, hrun, -⟩ := Parser.parseProgram_collector source
  refine ⟨_, _, p, hrun, ?_, statements_pairwise source⟩
  intro s hs
  exact stmt_nests_of_mem hs

end ExprLang
