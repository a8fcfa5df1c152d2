import ExprLang.Proofs.Recovery
import ExprLang.Proofs.Slices

/-!
# Spans are faithful

The span of an expression or a statement says which part of the text it is: the part, read by
itself, is the same expression or statement again. It starts at the byte 0 then, so all its
spans lie further to the left.

* `Expr.nodes e`: the expression `e` and all those in it.
* `Derives.phrase_of_mem_nodes`: each of them is a phrase of its own, at most as costly.
* `Derives.of_mapSpan`, `Concrete.expr?_mapSpan`: phrases and their trees, moved.
* `parse_part`: what a part of a text is read as.
* `parse_spans_faithful`: every expression and every statement of a text, read by itself.
-/

namespace ExprLang

open Parse Text

/-! ## Expressions in an expression -/

/-- The expression itself and all expressions in it. -/
def Expr.nodes : Expr → List Expr
  | number value s => [number value s]
  | string text s => [string text s]
  | bool value s => [bool value s]
  | unary op operand s => unary op operand s :: operand.nodes
  | binary op lhs rhs s => binary op lhs rhs s :: (lhs.nodes ++ rhs.nodes)

theorem Expr.mem_nodes_withSpan {e n : Expr} {s : Span} (h : n ∈ (e.withSpan s).nodes) :
    n = e.withSpan s ∨ n ∈ e.nodes := by
  cases e with
  | number | string | bool => exact Or.inl (List.mem_singleton.mp h)
  | unary | binary =>
    rcases List.mem_cons.mp h with h | h
    · exact Or.inl h
    · exact Or.inr (List.mem_cons_of_mem _ h)

/-- Tokens of `w` next to each other are a phrase of cost at most `k` whose expression is `n`. -/
def Phrase (w : List Token) (k : Nat) (n : Expr) : Prop :=
  ∃ v c, v <:+: w ∧ Derives .sum v c ∧ c.expr? = some n ∧ c.cost ≤ k

theorem Phrase.mono {v w : List Token} {k l : Nat} {n : Expr} (h : Phrase v k n)
    (hv : v <:+: w) (hk : k ≤ l) : Phrase w l n := by
  obtain ⟨u, c, hu, hc, hn, hcost⟩ := h
  exact ⟨u, c, hu.trans hv, hc, hn, hcost.trans hk⟩

theorem Derives.phrase {level : Level} {w : List Token} {c : Concrete} {e : Expr}
    (h : Derives level w c) (he : c.expr? = some e) : Phrase w c.cost e :=
  ⟨w, c, List.infix_rfl, h.loosen level.sum_le, he, Nat.le_refl _⟩

/-- Every expression in that of a phrase is that of a phrase inside. -/
theorem Derives.phrase_of_mem_nodes {level : Level} {w : List Token} {c : Concrete} {e n : Expr}
    (h : Derives level w c) (he : c.expr? = some e) (hn : n ∈ e.nodes) : Phrase w c.cost n := by
  induction h generalizing e with
  | literal h =>
    have hroot := (Derives.literal h).phrase he
    rcases Token.literal?_cases he with ⟨value, rfl⟩ | rfl | ⟨value, rfl⟩
    all_goals
      rw [List.mem_singleton.mp hn]
      exact hroot
  | @group left right w c hl h hr ih =>
    have hroot := (Derives.group hl h hr).phrase he
    obtain ⟨e', he', rfl⟩ := Concrete.expr?_group_eq_some_iff.mp he
    rcases Expr.mem_nodes_withSpan hn with rfl | hn
    · exact hroot
    · exact (ih he' hn).mono ⟨[left], [right], rfl⟩ (Nat.le_add_left _ _)
  | @negate sign w c hs h ih =>
    have hroot := (Derives.negate hs h).phrase he
    obtain ⟨e', he', rfl⟩ := Concrete.expr?_negate_eq_some_iff.mp he
    rcases List.mem_cons.mp hn with rfl | hn
    · exact hroot
    · exact (ih he' hn).mono (List.suffix_cons sign w).isInfix (Nat.le_add_left _ _)
  | primary h ih | unary h ih | product h ih => exact ih he hn
  | @times t op v w l r hl ht hop hr ihl ihr | @plus t op v w l r hl ht hop hr ihl ihr =>
    have hleft : v <:+: v ++ t :: w := (List.prefix_append v (t :: w)).isInfix
    have hright : w <:+: v ++ t :: w :=
      ((List.suffix_cons t w).trans (List.suffix_append v (t :: w))).isInfix
    obtain ⟨el, er, hel, her, rfl⟩ := Concrete.expr?_binary_eq_some_iff.mp he
    rcases List.mem_cons.mp hn with rfl | hn
    · first
        | exact (Derives.times hl ht hop hr).phrase he
        | exact (Derives.plus hl ht hop hr).phrase he
    · rcases List.mem_append.mp hn with hn | hn
      · exact (ihl hel hn).mono hleft (by rw [Concrete.cost]; omega)
      · exact (ihr her hn).mono hright (by rw [Concrete.cost]; omega)

/-! ## Moved phrases -/

theorem Token.literal?_mapSpan (f : Span → Span) (t : Token) :
    (t.mapSpan f).literal? = t.literal?.map (Expr.mapSpan f) := by
  obtain ⟨kind, lexeme, span⟩ := t
  unfold literal? mapSpan
  cases kind with
  | number => simp [Option.map_map, Function.comp_def, Expr.mapSpan]
  | keyword word => cases word <;> rfl
  | _ => rfl

namespace Concrete

/-- Moves the tokens of a tree. -/
def mapSpan (f : Span → Span) : Concrete → Concrete
  | literal t => literal (t.mapSpan f)
  | negate sign operand => negate (sign.mapSpan f) (operand.mapSpan f)
  | group left inner right => group (left.mapSpan f) (inner.mapSpan f) (right.mapSpan f)
  | binary op lhs rhs => binary op (lhs.mapSpan f) (rhs.mapSpan f)

@[simp] theorem spine_mapSpan (f : Span → Span) (c : Concrete) :
    (c.mapSpan f).spine = c.spine := by
  induction c with
  | literal | negate | group => rfl
  | binary op l r ihl ihr => rw [mapSpan, spine, spine, ihl]

@[simp] theorem cost_mapSpan (f : Span → Span) (c : Concrete) :
    (c.mapSpan f).cost = c.cost := by
  induction c with
  | literal => rfl
  | negate sign c ih => rw [mapSpan, cost, cost, ih]
  | group left c right ih => rw [mapSpan, cost, cost, ih]
  | binary op l r ihl ihr => rw [mapSpan, cost, cost, ihl, ihr, spine_mapSpan]

/-- The expression of a moved tree is the moved expression, where unions move along. -/
theorem expr?_mapSpan {f : Span → Span} (hf : ∀ s t, f (s.union t) = (f s).union (f t))
    (c : Concrete) : (c.mapSpan f).expr? = c.expr?.map (Expr.mapSpan f) := by
  induction c with
  | literal t => exact t.literal?_mapSpan f
  | negate sign c ih =>
    rw [mapSpan, expr?, expr?, ih]
    cases c.expr? with
    | none => rfl
    | some e => simp [Expr.mapSpan, Token.mapSpan, hf]
  | group left c right ih =>
    rw [mapSpan, expr?, expr?, ih]
    cases c.expr? with
    | none => rfl
    | some e => simp [Expr.mapSpan_withSpan, Token.mapSpan, hf]
  | binary op l r ihl ihr =>
    rw [mapSpan, expr?, expr?, ihl, ihr]
    cases l.expr? with
    | none => rfl
    | some el =>
      cases r.expr? with
      | none => rfl
      | some er => simp [Expr.mapSpan, hf]

end Concrete

/-- A phrase of moved tokens is a moved phrase. -/
theorem Derives.of_mapSpan {f : Span → Span} {level : Level} {w : List Token} {c : Concrete}
    (h : Derives level (w.map (Token.mapSpan f)) c) :
    ∃ c', Derives level w c' ∧ c'.mapSpan f = c := by
  generalize hv : w.map (Token.mapSpan f) = v at h
  induction h generalizing w with
  | literal h =>
    obtain ⟨t, rfl, rfl⟩ := List.map_eq_singleton_iff.mp hv
    exact ⟨.literal t, .literal h, rfl⟩
  | group hl h hr ih =>
    obtain ⟨left, rest, rfl, rfl, hrest⟩ := List.map_eq_cons_iff.mp hv
    obtain ⟨inner, last, rfl, hinner, hlast⟩ := List.map_eq_append_iff.mp hrest
    obtain ⟨right, rfl, rfl⟩ := List.map_eq_singleton_iff.mp hlast
    obtain ⟨c', hc', rfl⟩ := ih hinner
    exact ⟨.group left c' right, .group hl hc' hr, rfl⟩
  | negate hs h ih =>
    obtain ⟨sign, rest, rfl, rfl, hrest⟩ := List.map_eq_cons_iff.mp hv
    obtain ⟨c', hc', rfl⟩ := ih hrest
    exact ⟨.negate sign c', .negate hs hc', rfl⟩
  | primary h ih =>
    obtain ⟨c', hc', rfl⟩ := ih hv
    exact ⟨c', .primary hc', rfl⟩
  | unary h ih =>
    obtain ⟨c', hc', rfl⟩ := ih hv
    exact ⟨c', .unary hc', rfl⟩
  | product h ih =>
    obtain ⟨c', hc', rfl⟩ := ih hv
    exact ⟨c', .product hc', rfl⟩
  | times hl ht hop hr ihl ihr | plus hl ht hop hr ihl ihr =>
    obtain ⟨left, rest, rfl, hleft, hrest⟩ := List.map_eq_append_iff.mp hv
    obtain ⟨t, right, rfl, rfl, hright⟩ := List.map_eq_cons_iff.mp hrest
    obtain ⟨l, hl', rfl⟩ := ihl hleft
    obtain ⟨r, hr', rfl⟩ := ihr hright
    first
      | exact ⟨.binary _ l r, .times hl' ht hop hr', rfl⟩
      | exact ⟨.binary _ l r, .plus hl' ht hop hr', rfl⟩

theorem Clause.of_mapSpan {f : Span → Span} {w : List Token} {kind : StmtKind} {c : Concrete}
    (h : Clause (w.map (Token.mapSpan f)) kind c) :
    ∃ c', Clause w kind c' ∧ c'.mapSpan f = c := by
  generalize hv : w.map (Token.mapSpan f) = v at h
  cases h with
  | mk hopening hphrase =>
    obtain ⟨opening, phrase, rfl, rfl, rfl⟩ := List.map_eq_append_iff.mp hv
    obtain ⟨c', hc', rfl⟩ := hphrase.of_mapSpan
    refine ⟨c', .mk ?_ hc', rfl⟩
    generalize hu : opening.map (Token.mapSpan f) = u at hopening
    cases hopening with
    | expr =>
      rw [List.map_eq_nil_iff.mp hu]
      exact .expr
    | print ht =>
      obtain ⟨t, rfl, rfl⟩ := List.map_eq_singleton_iff.mp hu
      exact .print ht

theorem spanOf_mapSpan {w : List Token} (hw : w ≠ []) (f : Nat → Nat) :
    spanOf (w.map (Token.mapSpan (Span.map f))) = (spanOf w).map f := by
  ext
  · obtain ⟨t, rest, rfl⟩ := List.exists_cons_of_ne_nil hw
    rfl
  · obtain ⟨rest, t, rfl⟩ := (List.eq_nil_or_concat' w).resolve_left hw
    rw [List.map_append, List.map_singleton, Span.map_stop, spanOf_concat_stop, spanOf_concat_stop]
    rfl

/-! ## Parts of a text -/

/-- What a text is read as whose tokens, once moved, are a statement. -/
theorem parse_part {source : String} {n : Nat} {w : List Token} {semicolon : Token}
    {kind : StmtKind} {c : Concrete} {e : Expr}
    (hlex : (lex source).map (Token.mapSpan (Span.shift n)) = w ++ [semicolon])
    (h : Clause w kind c) (hs : semicolon.kind = .semicolon) (he : c.expr? = some e)
    (hc : c.cost ≤ nestingLimit) :
    ∃ s, parse source = ⟨⟨[s]⟩, []⟩ ∧
      s.mapSpan (Span.shift n) = ⟨kind, e, spanOf (w ++ [semicolon])⟩ := by
  obtain ⟨v, last, hsource, rfl, hlast⟩ := List.map_eq_append_iff.mp hlex
  obtain ⟨t, rfl, rfl⟩ := List.map_eq_singleton_iff.mp hlast
  obtain ⟨c', hv, rfl⟩ := h.of_mapSpan
  rw [Concrete.expr?_mapSpan (Span.shift_union n)] at he
  obtain ⟨e', he', rfl⟩ := Option.map_eq_some_iff.mp he
  rw [Concrete.cost_mapSpan] at hc
  refine ⟨_, parse_of_clause hsource hv hs he' hc, ?_⟩
  have hspan : spanOf ((v ++ [t]).map (Token.mapSpan (Span.shift n))) =
      (spanOf (v ++ [t])).shift n := spanOf_mapSpan (by simp) (· + n)
  rw [← hlex, hsource, hspan]
  rfl

theorem tokensFrom_semicolon (p : Nat) :
    tokensFrom ⟨p, [';']⟩ = [.ofText .semicolon [';'] p] := by
  have hsign : Lexes p [';'] [] [.ofText .semicolon [';'] p] :=
    lexes_punctuation rfl (by simp) p
  have hend : tokensFrom ⟨p + byteSize [';'], []⟩ = [] := tokensFrom_of_none rfl
  rwa [Lexes, hend, List.append_nil, List.append_nil] at hsign

/-- The tokens that a statement of a program was read from, and its span. -/
theorem exists_clause_of_mem {source : String} {s : Stmt}
    (hs : s ∈ (parse source).program.statements) :
    ∃ w c, Clause w s.kind c ∧ c.expr? = some s.expr ∧ c.cost ≤ nestingLimit ∧
      w <:+: lex source ∧
      ((∃ semicolon, semicolon.kind = .semicolon ∧ w ++ [semicolon] <:+: lex source ∧
          s.span = spanOf (w ++ [semicolon])) ∨ s.span = spanOf w) := by
  obtain ⟨segments, htokens, hattempts, hsegmented⟩ :=
    attempts_segmented ⟨lex source, endSpan source⟩ (inOrder_lex source)
  rw [parse_eq, hattempts] at hs
  obtain ⟨a, ha, hstmt⟩ := List.mem_filterMap.mp hs
  obtain ⟨⟨w, a⟩, hmem, rfl⟩ := List.mem_map.mp ha
  obtain ⟨ts, hsegment⟩ : ∃ ts, Segment ts w a := hsegmented.segment (w, a) hmem
  have hinfix : w <:+: lex source := by
    change lex source = _ at htokens
    obtain ⟨front, back, rfl⟩ := List.append_of_mem hmem
    rw [htokens, List.flatMap_append, List.flatMap_cons]
    exact ⟨front.flatMap Prod.fst, back.flatMap Prod.fst, List.append_assoc ..⟩
  cases hsegment with
  | @complete w _ _ _ semicolon hw he hc hkind =>
    obtain rfl := Option.some.inj hstmt
    have hfront : w <:+: lex source := (List.prefix_append w [semicolon]).isInfix.trans hinfix
    exact ⟨w, _, hw, he, hc, hfront, Or.inl ⟨semicolon, hkind, hinfix, rfl⟩⟩
  | unterminated hw he hc =>
    obtain rfl := Option.some.inj hstmt
    exact ⟨w, _, hw, he, hc, hinfix, Or.inr rfl⟩
  | skipped | cutOff => cases hstmt

/-! ## Expressions and statements by themselves -/

/-- What the text under a statement without its semicolon is read as, with one put there. -/
theorem parse_part_of_clause {source : String} {w : List Token} {kind : StmtKind}
    {c : Concrete} {e : Expr} (hw : w <:+: lex source) (h : Clause w kind c)
    (he : c.expr? = some e) (hc : c.cost ≤ nestingLimit) :
    ∃ text s, slice? (spanOf w).start (spanOf w).stop source.toList = some text ∧
      parse (String.ofList (text ++ [';'])) = ⟨⟨[s]⟩, []⟩ ∧
      s.mapSpan (Span.shift (spanOf w).start) =
        ⟨kind, e, (spanOf w).start, (spanOf w).stop + 1⟩ := by
  obtain ⟨text, hslice, htokens⟩ := exists_part hw h.ne_nil h.kind_ne_unterminated
  have hlex := htokens [';'] (clear_semicolon [])
  rw [tokensFrom_semicolon] at hlex
  obtain ⟨s, hparse, hs⟩ := parse_part hlex h rfl he hc
  refine ⟨text, s, hslice, hparse, ?_⟩
  rw [hs]
  congr 1
  ext
  · exact spanOf_start_eq_of_front (List.prefix_append w _) h.ne_nil
  · exact spanOf_concat_stop w _

/-- What the text under a statement with its semicolon is read as. -/
theorem parse_part_of_sentence {source : String} {w : List Token} {semicolon : Token}
    {kind : StmtKind} {c : Concrete} {e : Expr} (hw : w ++ [semicolon] <:+: lex source)
    (h : Clause w kind c) (hs : semicolon.kind = .semicolon) (he : c.expr? = some e)
    (hc : c.cost ≤ nestingLimit) :
    ∃ text s, slice? (spanOf (w ++ [semicolon])).start (spanOf (w ++ [semicolon])).stop
        source.toList = some text ∧
      parse (String.ofList text) = ⟨⟨[s]⟩, []⟩ ∧
      s.mapSpan (Span.shift (spanOf (w ++ [semicolon])).start) =
        ⟨kind, e, spanOf (w ++ [semicolon])⟩ := by
  have hclosed : ∀ t ∈ w ++ [semicolon], t.kind ≠ .unterminatedString := by
    refine List.forall_mem_append.mpr ⟨h.kind_ne_unterminated, ?_⟩
    simp [hs]
  obtain ⟨text, hslice, htokens⟩ := exists_part hw (by simp) hclosed
  have hlex := htokens [] clear_nil
  rw [tokensFrom_of_none rfl, List.append_nil, List.append_nil] at hlex
  obtain ⟨s, hparse, hread⟩ := parse_part hlex h hs he hc
  exact ⟨text, s, hslice, hparse, hread⟩

/-- Whether a span ends with a semicolon among the tokens of a text. -/
def EndsInSemicolon (source : String) (span : Span) : Prop :=
  ∃ t ∈ lex source, t.kind = .semicolon ∧ t.span.stop = span.stop

theorem endsInSemicolon_sentence {source : String} {w : List Token} {semicolon : Token}
    (hw : w ++ [semicolon] <:+: lex source) (hs : semicolon.kind = .semicolon) :
    EndsInSemicolon source (spanOf (w ++ [semicolon])) :=
  ⟨semicolon, hw.mem (by simp), hs, (spanOf_concat_stop w semicolon).symm⟩

theorem not_endsInSemicolon_clause {source : String} {w : List Token} {kind : StmtKind}
    {c : Concrete} (hw : w <:+: lex source) (h : Clause w kind c) :
    ¬ EndsInSemicolon source (spanOf w) := by
  rintro ⟨t, ht, hkind, hstop⟩
  obtain ⟨last, hlast, heq⟩ := exists_spanOf_stop h.ne_nil
  have hsame := (inOrder_lex source).eq_of_stop_eq ht (hw.mem hlast) (hstop.trans heq)
  rw [hsame] at hkind
  exact h.kind_ne_semicolon last hlast hkind

/-- **Spans are faithful.** The text under any expression of a program, in front of a semicolon,
is read without an issue as a statement of that expression; only its spans start from the byte 0.
So is the text under a statement read as that statement, with a semicolon put behind it where
the statement has none. -/
theorem parse_spans_faithful (source : String) :
    (∀ s ∈ (parse source).program.statements, ∀ n ∈ s.expr.nodes, ∃ text e span,
      slice? n.span.start n.span.stop source.toList = some text ∧
      parse (String.ofList (text ++ [';'])) = ⟨⟨[⟨.expr, e, span⟩]⟩, []⟩ ∧
      e.mapSpan (Span.shift n.span.start) = n) ∧
    ∀ s ∈ (parse source).program.statements, ∃ text s',
      slice? s.span.start s.span.stop source.toList = some text ∧
      (EndsInSemicolon source s.span →
        parse (String.ofList text) = ⟨⟨[s']⟩, []⟩ ∧
          s'.mapSpan (Span.shift s.span.start) = s) ∧
      (¬ EndsInSemicolon source s.span →
        parse (String.ofList (text ++ [';'])) = ⟨⟨[s']⟩, []⟩ ∧
          s'.mapSpan (Span.shift s.span.start) =
            { s with span := ⟨s.span.start, s.span.stop + 1⟩ }) := by
  constructor
  · intro s hs n hn
    obtain ⟨w, c, hw, he, hc, hinfix, -⟩ := exists_clause_of_mem hs
    cases hw with
    | @mk u w kind c hu hw =>
      obtain ⟨v, c', hv, hphrase, hn, hcost⟩ := hw.phrase_of_mem_nodes he hn
      have hv : v <:+: lex source :=
        (hv.trans (List.suffix_append u w).isInfix).trans hinfix
      have hspan := hphrase.span_eq ((inOrder_lex source).sublist hv.sublist) hn
      obtain ⟨text, s', hslice, hparse, hs'⟩ :=
        parse_part_of_clause hv (.mk .expr hphrase) hn (hcost.trans hc)
      obtain ⟨kind', e', span'⟩ := s'
      obtain ⟨rfl, rfl, -⟩ := Stmt.mk.inj hs'
      rw [hspan]
      exact ⟨text, e', span', hslice, hparse, rfl⟩
  · intro s hs
    obtain ⟨w, c, hw, he, hc, hinfix, ⟨semicolon, hkind, hbehind, hspan⟩ | hspan⟩ :=
      exists_clause_of_mem hs
    · have hends := endsInSemicolon_sentence hbehind hkind
      obtain ⟨text, s', hslice, hparse, hs'⟩ := parse_part_of_sentence hbehind hw hkind he hc
      rw [← hspan] at hends hslice hs'
      exact ⟨text, s', hslice, fun _ => ⟨hparse, hs'⟩, fun hnot => absurd hends hnot⟩
    · have hends := not_endsInSemicolon_clause hinfix hw
      obtain ⟨text, s', hslice, hparse, hs'⟩ := parse_part_of_clause hinfix hw he hc
      rw [← hspan] at hends hslice hs'
      exact ⟨text, s', hslice, fun h => absurd h hends, fun _ => ⟨hparse, hs'⟩⟩

end ExprLang
