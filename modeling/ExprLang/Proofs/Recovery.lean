import ExprLang.Proofs.Attempts
import ExprLang.Proofs.Blame
import ExprLang.Proofs.Run
import ExprLang.Proofs.TokenOrder

/-!
# Recovery accounts for every token

The parser cuts the tokens of a text into segments, one for each attempt at a statement.
Nothing is read twice or left out, whatever is wrong with the text.

* `Segment ts w a`: what the tokens `w` in front of `ts` can be when their attempt came to `a`.
* `attempt_segment`: an attempt reads a segment.
* `parse_of_clause`: what a text is read as that is one statement.
* `attempts_segmented`: all attempts together read all tokens.
* `issue_span_cases`: where the issues of a text stand.
* `parseProgram_segmented`: the program and the issues of a text, segment by segment.
-/

namespace ExprLang

open Parse Text

/-! ## Segments -/

/-- If the tokens are a statement whose numbers can be read, then the error is its nesting. -/
def OnlyTooDeep (w : List Token) (error : SyntaxError) : Prop :=
  ∀ kind c e, Clause w kind c → c.expr? = some e →
    nestingLimit < c.cost ∧ error.cause = .tooDeep

/-- What became of the tokens `w`, behind which stand the tokens of `ts`. -/
inductive Segment (ts : TokenStream) : List Token → Attempt → Prop
  | complete {w : List Token} {kind : StmtKind} {c : Concrete} {e : Expr} {semicolon : Token}
      (hw : Clause w kind c) (he : c.expr? = some e) (hc : c.cost ≤ nestingLimit)
      (hs : semicolon.kind = .semicolon) :
      Segment ts (w ++ [semicolon]) (.complete ⟨kind, e, spanOf (w ++ [semicolon])⟩)
  | unterminated {w : List Token} {kind : StmtKind} {c : Concrete} {e : Expr}
      {error : SyntaxError} (hw : Clause w kind c) (he : c.expr? = some e)
      (hc : c.cost ≤ nestingLimit) (hne : ts.current.kind ≠ .semicolon)
      (herror : error.toIssue =
        ⟨"Expected ';' after expression, found " ++ ts.current.describe ++ ".", ts.current.span⟩) :
      Segment ts w (.unterminated ⟨kind, e, spanOf w⟩ error)
  /-- A statement that cannot be read ends at its first semicolon. -/
  | skipped {w : List Token} {semicolon : Token} {error : SyntaxError}
      (hw : ∀ t ∈ w, t.kind ≠ .semicolon) (hs : semicolon.kind = .semicolon)
      (hdeep : OnlyTooDeep w error) (herror : ∃ t ∈ w ++ [semicolon], error.span = t.span) :
      Segment ts (w ++ [semicolon]) (.failed error)
  /-- Without a semicolon it takes all the tokens there are. -/
  | cutOff {w : List Token} {error : SyntaxError} (hne : w ≠ [])
      (hw : ∀ t ∈ w, t.kind ≠ .semicolon) (hts : ts.pending = [])
      (hdeep : OnlyTooDeep w error)
      (herror : (∃ t ∈ w, error.span = t.span) ∨ error.span = ts.stop) :
      Segment ts w (.failed error)

/-- Every row of tokens is a segment in front of the rows after it. -/
def Segmented (stop : Span) : List (List Token × Attempt) → Prop
  | [] => True
  | (w, a) :: rest => Segment ⟨rest.flatMap Prod.fst, stop⟩ w a ∧ Segmented stop rest

theorem Segment.ne_nil {ts : TokenStream} {w : List Token} {a : Attempt} (h : Segment ts w a) :
    w ≠ [] := by
  cases h with
  | complete | skipped => simp
  | unterminated hw => exact hw.ne_nil
  | cutOff hne => exact hne

/-- Only the last token of a segment can be a semicolon. -/
theorem Segment.dropLast_ne_semicolon {ts : TokenStream} {w : List Token} {a : Attempt}
    (h : Segment ts w a) : ∀ t ∈ w.dropLast, t.kind ≠ .semicolon := by
  cases h with
  | complete hw =>
    rw [List.dropLast_concat]
    exact hw.kind_ne_semicolon
  | skipped hw =>
    rw [List.dropLast_concat]
    exact hw
  | unterminated hw => exact fun t ht => hw.kind_ne_semicolon t (List.dropLast_subset w ht)
  | cutOff _ hw => exact fun t ht => hw t (List.dropLast_subset w ht)

theorem Segmented.segment {stop : Span} {segments : List (List Token × Attempt)}
    (h : Segmented stop segments) : ∀ s ∈ segments, ∃ ts, Segment ts s.1 s.2 := by
  induction segments with
  | nil => simp
  | cons s rest ih =>
    intro s' hs'
    rcases List.mem_cons.mp hs' with rfl | hs'
    · exact ⟨_, h.1⟩
    · exact ih h.2 s' hs'

/-- An error is about a token of its segment, or about the one behind, for which the statement
has no semicolon, or about the end of input. -/
theorem Segment.error_cases {ts : TokenStream} {w : List Token} {a : Attempt}
    {error : SyntaxError} (h : Segment ts w a) (ha : a.error? = some error) :
    (a = .failed error ∧ ∃ t ∈ w, error.span = t.span) ∨
      ((∃ stmt, a = .unterminated stmt error) ∧ error.toIssue =
        ⟨"Expected ';' after expression, found " ++ ts.current.describe ++ ".",
          ts.current.span⟩) ∨
      a = .failed error ∧ ts.pending = [] ∧ error.span = ts.stop := by
  cases h with
  | complete => cases ha
  | unterminated hw he hc hne hissue =>
    cases ha
    exact Or.inr (Or.inl ⟨⟨_, rfl⟩, hissue⟩)
  | skipped hw hs hdeep hblame =>
    cases ha
    exact Or.inl ⟨rfl, hblame⟩
  | cutOff hne hw hts hdeep hblame =>
    cases ha
    rcases hblame with hmem | hend
    · exact Or.inl ⟨rfl, hmem⟩
    · exact Or.inr (Or.inr ⟨rfl, hts, hend⟩)

theorem Segment.error_span {ts : TokenStream} {w : List Token} {a : Attempt}
    {error : SyntaxError} (h : Segment ts w a) (ha : a.error? = some error) :
    (∃ t ∈ w, error.span = t.span) ∨ error.span = ts.current.span := by
  rcases h.error_cases ha with ⟨-, hmem⟩ | ⟨-, hissue⟩ | ⟨-, hnil, hend⟩
  · exact Or.inl hmem
  · exact Or.inr (congrArg Issue.span hissue)
  · rw [TokenStream.current_of_nil hnil]
    exact Or.inr hend

/-- An error stands at a token, or at the end of input. -/
theorem Segmented.error_span {stop : Span} {segments : List (List Token × Attempt)}
    (h : Segmented stop segments) : ∀ s ∈ segments, ∀ error, s.2.error? = some error →
      (∃ t ∈ segments.flatMap Prod.fst, error.span = t.span) ∨ error.span = stop := by
  induction segments with
  | nil => simp
  | cons s rest ih =>
    obtain ⟨w, a⟩ := s
    obtain ⟨hsegment, hrest⟩ := h
    have hback : ∀ t ∈ rest.flatMap Prod.fst, t ∈ ((w, a) :: rest).flatMap Prod.fst :=
      fun t ht => List.mem_append_right w ht
    intro s' hs' error herror
    rcases List.mem_cons.mp hs' with rfl | hs'
    · rcases hsegment.error_span herror with ⟨t, ht, hspan⟩ | hspan
      · exact Or.inl ⟨t, List.mem_append_left _ ht, hspan⟩
      · rcases TokenStream.current_cases ⟨rest.flatMap Prod.fst, stop⟩ with hmem | hend
        · exact Or.inl ⟨_, hback _ hmem, hspan⟩
        · exact Or.inr (hspan.trans hend)
    · rcases ih hrest s' hs' error herror with ⟨t, ht, hspan⟩ | hend
      · exact Or.inl ⟨t, hback t ht, hspan⟩
      · exact Or.inr hend

/-! ## One attempt -/

/-- Recovery drops a part up to a semicolon, or everything where there is none. -/
theorem TokenStream.afterSemicolon_cases (ts : TokenStream) :
    (∃ (w : List Token) (semicolon : Token), ts = ts.afterSemicolon.prepend (w ++ [semicolon]) ∧
      (∀ t ∈ w, t.kind ≠ .semicolon) ∧ semicolon.kind = .semicolon) ∨
    (∀ t ∈ ts.pending, t.kind ≠ .semicolon) ∧ ts.afterSemicolon = ts.finish := by
  obtain ⟨pending, stop⟩ := ts
  have hfront : ∀ t ∈ pending.takeWhile (·.kind != .semicolon), t.kind ≠ .semicolon := by
    intro t ht
    have hall : (pending.takeWhile (·.kind != .semicolon)).all (·.kind != .semicolon) = true :=
      List.all_takeWhile
    simpa using List.all_eq_true.mp hall t ht
  have happ := List.takeWhile_append_dropWhile (p := fun t : Token => t.kind != .semicolon)
    (l := pending)
  cases hback : pending.dropWhile (·.kind != .semicolon) with
  | nil =>
    rw [hback, List.append_nil] at happ
    refine Or.inr ⟨by rwa [happ] at hfront, ?_⟩
    simp [afterSemicolon, finish, hback]
  | cons semicolon rest =>
    have hs := List.head_dropWhile_not (fun t : Token => t.kind != .semicolon) (l := pending)
      (by simp [hback])
    simp only [hback, List.head_cons] at hs
    refine Or.inl ⟨_, semicolon, ?_, hfront, by simpa using hs⟩
    simp only [afterSemicolon, prepend, hback]
    rw [hback] at happ
    simpa using happ.symm

/-- A statement starts at its first token and ends where its last part ends. -/
theorem InOrder.current_union_spanOf {v w : List Token} (hw : InOrder w) (hv : v <:+ w)
    (hne : v ≠ []) (ts : TokenStream) :
    (ts.prepend w).current.span.union (spanOf v) = spanOf w := by
  cases w with
  | nil => exact absurd (List.suffix_nil.mp hv) hne
  | cons t rest =>
    rw [TokenStream.current_prepend_cons, ← spanOf_singleton]
    exact spanOf_union hw (List.prefix_append [t] rest) hv (by simp) hne

theorem Clause.union_eq_spanOf {w : List Token} {kind : StmtKind} {c : Concrete} {e : Expr}
    (h : Clause w kind c) (hw : InOrder w) (he : c.expr? = some e) (ts : TokenStream) :
    (ts.prepend w).current.span.union e.span = spanOf w := by
  cases h with
  | @mk v w kind c hv hphrase =>
    rw [hphrase.span_eq hw.right he]
    exact hw.current_union_spanOf (List.suffix_append v w) hphrase.ne_nil ts

/-- An attempt at a statement whose numbers can be read fails for its nesting alone. -/
theorem onlyTooDeep_of_failed {w : List Token} {ts ts' : TokenStream} {error : SyntaxError}
    (h : attempt (ts.prepend w) = (.failed error, ts'))
    (hts : ts.current.operator? .loosest = none) : OnlyTooDeep w error := by
  intro kind c e hw he
  by_cases hc : c.cost ≤ nestingLimit
  · obtain ⟨ts₁, hkind, hexpr⟩ := hw.reads he hc hts
    by_cases hs : ts.current.kind = .semicolon
    · rw [attempt_of_ok (statement_of_semicolon hkind hexpr hs)] at h
      cases h
    · rw [attempt_of_ok (statement_of_ne_semicolon hkind hexpr hs)] at h
      cases h
  · have hc := Nat.lt_of_not_le hc
    obtain ⟨t, -, hskip⟩ := attempt_too_deep hw he hc hts
    rw [h] at hskip
    cases hskip
    exact ⟨hc, rfl⟩

/-- Recovery ends the segment of an attempt that has failed behind the tokens `w`. -/
theorem failed_segment {w : List Token} {ts : TokenStream} {error : SyntaxError}
    (hne : (ts.prepend w).pending ≠ []) (hw : ∀ t ∈ w, t.kind ≠ .semicolon)
    (hblame : Blames w ts.current error)
    (hattempt : attempt (ts.prepend w) = (.failed error, ts.afterSemicolon)) :
    ∃ v, ts.prepend w = ts.afterSemicolon.prepend v ∧
      Segment ts.afterSemicolon v (.failed error) := by
  rcases ts.afterSemicolon_cases with ⟨v, semicolon, hts, hv, hs⟩ | ⟨hv, hts⟩
  -- The error is at a token that was read, or at the first one that recovery drops.
  · generalize ts.afterSemicolon = ts' at *
    subst hts
    have hstop : (ts'.prepend [semicolon]).current.operator? .loosest = none :=
      Token.operator?_of_ne (by simp [hs]) _
    have hdeep : OnlyTooDeep (w ++ v) error :=
      onlyTooDeep_of_failed (by simpa using hattempt) hstop
    refine ⟨w ++ v ++ [semicolon], by simp, .skipped ?_ hs hdeep ?_⟩
    · exact List.forall_mem_append.mpr ⟨hw, hv⟩
    · have hmem : (ts'.prepend (v ++ [semicolon])).current ∈ v ++ [semicolon] :=
        TokenStream.current_prepend_mem (by simp) ts'
      rw [List.append_assoc]
      rcases hblame.span_eq with ⟨t, ht, hspan⟩ | hspan
      · exact ⟨t, List.mem_append_left _ ht, hspan⟩
      · exact ⟨_, List.mem_append_right w hmem, hspan⟩
  -- No semicolon is left, so recovery drops all tokens; there may be none to drop.
  · have hback : ts = ts.finish.prepend ts.pending := by
      simp [TokenStream.finish, TokenStream.prepend]
    have hstop : ts.finish.current.operator? .loosest = none := rfl
    rw [hts]
    rw [hts, hback, TokenStream.prepend_prepend] at hattempt
    refine ⟨w ++ ts.pending, ?_, .cutOff hne ?_ rfl ?_ ?_⟩
    · rw [← TokenStream.prepend_prepend, ← hback]
    · exact List.forall_mem_append.mpr ⟨hw, hv⟩
    · exact onlyTooDeep_of_failed hattempt hstop
    · rcases hblame.span_eq with ⟨t, ht, hspan⟩ | hspan
      · exact Or.inl ⟨t, List.mem_append_left _ ht, hspan⟩
      · rcases ts.current_cases with hmem | hend
        · exact Or.inl ⟨_, List.mem_append_right w hmem, hspan⟩
        · exact Or.inr (hspan.trans hend)

theorem attempt_segment {ts : TokenStream} (hne : ts.pending ≠ []) (hts : InOrder ts.pending) :
    ∃ w, ts = (attempt ts).2.prepend w ∧ Segment (attempt ts).2 w (attempt ts).1 := by
  rcases attempt_cases ts with hread | ⟨v, _, ts₁, error, ts₂, rfl, hv, hexpr, hattempt⟩
  · obtain ⟨w, kind, c, e, ts₁, rfl, hw, he, hc, hattempt⟩ := hread
    by_cases hs : ts₁.current.kind = .semicolon
    · rw [if_pos hs] at hattempt
      obtain ⟨semicolon, ts₂, rfl⟩ : ∃ t ts₂, ts₁ = TokenStream.prepend [t] ts₂ :=
        ⟨_, _, TokenStream.eq_prepend_of_kind (by simp [hs])⟩
      rw [TokenStream.prepend_prepend] at hattempt hts ⊢
      have hspan := hts.left.current_union_spanOf (List.suffix_append w [semicolon]) (by simp) ts₂
      rw [spanOf_singleton] at hspan
      rw [TokenStream.current_prepend_cons, hspan] at hattempt
      rw [hattempt]
      exact ⟨w ++ [semicolon], rfl, .complete hw he hc hs⟩
    · rw [if_neg hs, hw.union_eq_spanOf hts.left he] at hattempt
      rw [hattempt]
      exact ⟨w, rfl, .unterminated hw he hc hs rfl⟩
  · have hends := expression_endsWithin nestingLimit .loosest ts₁
    rw [hexpr] at hends
    obtain ⟨u, rfl, hu, hblame⟩ := hends
    rw [hattempt]
    rw [TokenStream.prepend_prepend] at hattempt hne ⊢
    have hfront : ∀ t ∈ v ++ u, t.kind ≠ .semicolon := by
      apply List.forall_mem_append.mpr ⟨_, hu⟩
      intro t ht
      simp [hv.kind_eq t ht]
    exact failed_segment hne hfront (hblame.after v) hattempt

/-! ## Texts of one statement -/

/-- A text that is one statement, within the nesting limit, is read as that statement. -/
theorem parse_of_clause {source : String} {w : List Token} {semicolon : Token} {kind : StmtKind}
    {c : Concrete} {e : Expr} (hlex : lex source = w ++ [semicolon]) (h : Clause w kind c)
    (hs : semicolon.kind = .semicolon) (he : c.expr? = some e) (hc : c.cost ≤ nestingLimit) :
    parse source = ⟨⟨[⟨kind, e, spanOf (w ++ [semicolon])⟩]⟩, []⟩ := by
  have hw : InOrder (w ++ [semicolon]) := hlex ▸ inOrder_lex source
  have hread := attempt_sentence h hs he hc ⟨[], endSpan source⟩
  have hspan := hw.current_union_spanOf (List.suffix_append w [semicolon]) (by simp)
    ⟨[], endSpan source⟩
  rw [spanOf_singleton] at hspan
  rw [hspan] at hread
  have hend : attempts ⟨[], endSpan source⟩ = [] := attempts_of_nil rfl
  have hattempts := attempts_prepend (by simp) hread
  rw [hend] at hattempts
  have hstream : (⟨lex source, endSpan source⟩ : TokenStream) =
      TokenStream.prepend (w ++ [semicolon]) ⟨[], endSpan source⟩ := by
    rw [hlex, TokenStream.prepend, List.append_nil]
  rw [parse_eq, hstream, hattempts]
  rfl

/-! ## All attempts -/

theorem attempts_segmented (ts : TokenStream) (hts : InOrder ts.pending) :
    ∃ segments : List (List Token × Attempt), ts.pending = segments.flatMap Prod.fst ∧
      attempts ts = segments.map Prod.snd ∧ Segmented ts.stop segments := by
  fun_induction attempts ts with
  | case1 ts hnil => exact ⟨[], by simp [hnil], rfl, trivial⟩
  | case2 ts hne ih =>
    obtain ⟨w, hw, hsegment⟩ := attempt_segment hne hts
    have hstop : ts.stop = (attempt ts).2.stop := by simpa using congrArg TokenStream.stop hw
    have hpending : ts.pending = w ++ (attempt ts).2.pending := by
      simpa using congrArg TokenStream.pending hw
    rw [hpending] at hts ⊢
    obtain ⟨segments, hrest, hattempts, hsegmented⟩ := ih hts.right
    refine ⟨(w, (attempt ts).1) :: segments, by simp [hrest], by simp [hattempts], ?_, ?_⟩
    · rw [← hrest, hstop]
      exact hsegment
    · rw [hstop]
      exact hsegmented

/-- Every issue stands at a token, or at the end of input. -/
theorem issue_span_cases {ts : TokenStream} (hts : InOrder ts.pending) :
    ∀ issue ∈ (parseStream ts).issues,
      (∃ t ∈ ts.pending, issue.span = t.span) ∨ issue.span = ts.stop := by
  obtain ⟨segments, htokens, hattempts, hsegmented⟩ := attempts_segmented ts hts
  rw [parseStream, hattempts, htokens]
  intro issue hissue
  obtain ⟨error, herror, rfl⟩ := List.mem_map.mp hissue
  obtain ⟨a, ha, herror⟩ := List.mem_filterMap.mp herror
  obtain ⟨s, hs, rfl⟩ := List.mem_map.mp ha
  exact hsegmented.error_span s hs error herror

theorem exists_attempted_run (source : String) :
    ∃ (segments : List (List Token × Attempt)) (p : Parser Collector),
      attempts ⟨lex source, endSpan source⟩ = segments.map Prod.snd ∧
      lex source = segments.flatMap Prod.fst ∧ Segmented (endSpan source) segments ∧
      Parser.parseProgram (.ofLexer (.ofSource source) {}) =
        .ok (!p.reporter.collected.isEmpty, ⟨segments.filterMap (·.2.stmt?)⟩) p ∧
      p.reporter.collected = (segments.filterMap (·.2.error?)).map SyntaxError.toIssue := by
  obtain ⟨segments, htokens, hattempts, hsegmented⟩ :=
    attempts_segmented ⟨lex source, endSpan source⟩ (inOrder_lex source)
  obtain ⟨p, hrun, hissues⟩ := Parser.parseProgram_collector source
  rw [← hissues] at hrun
  simp only [parse_eq, hattempts, Parsed.ofAttempts, List.filterMap_map] at hrun hissues
  exact ⟨segments, p, hattempts, htokens, hsegmented, hrun, hissues⟩

theorem exists_segmented_run (source : String) :
    ∃ (segments : List (List Token × Attempt)) (p : Parser Collector),
      lex source = segments.flatMap Prod.fst ∧ Segmented (endSpan source) segments ∧
      Parser.parseProgram (.ofLexer (.ofSource source) {}) =
        .ok (!p.reporter.collected.isEmpty, ⟨segments.filterMap (·.2.stmt?)⟩) p ∧
      p.reporter.collected = (segments.filterMap (·.2.error?)).map SyntaxError.toIssue := by
  obtain ⟨segments, p, -, hrun⟩ := exists_attempted_run source
  exact ⟨segments, p, hrun⟩

/-- **Recovery.** The tokens of a text are cut into segments, of which none is empty and only
the last token can be a semicolon. The program has the statements of the segments and the
reporter has their errors, both in the order of the text. -/
theorem parseProgram_segmented (source : String) :
    ∃ (segments : List (List Token × Attempt)) (p : Parser Collector),
      lex source = segments.flatMap Prod.fst ∧ Segmented (endSpan source) segments ∧
      (∀ s ∈ segments, s.1 ≠ [] ∧ ∀ t ∈ s.1.dropLast, t.kind ≠ .semicolon) ∧
      Parser.parseProgram (.ofLexer (.ofSource source) {}) =
        .ok (!p.reporter.collected.isEmpty, ⟨segments.filterMap (·.2.stmt?)⟩) p ∧
      p.reporter.collected = (segments.filterMap (·.2.error?)).map SyntaxError.toIssue := by
  obtain ⟨segments, p, htokens, hsegmented, hrun⟩ := exists_segmented_run source
  refine ⟨segments, p, htokens, hsegmented, ?_, hrun⟩
  intro s hs
  obtain ⟨ts, hsegment⟩ := hsegmented.segment s hs
  exact ⟨hsegment.ne_nil, hsegment.dropLast_ne_semicolon⟩

end ExprLang
