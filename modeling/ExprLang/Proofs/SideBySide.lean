import ExprLang.Proofs.Stream

/-!
# Two runs side by side

The parser looks at one token after the other, at its kind and its text. Its spans come from the
tokens by unions. So two streams that show it the same tokens at other places are read in the
same way, and what is read differs by the places only.

* `InStep f R S`: streams related by `R` show the same tokens up to a semicolon, those of the
  second one moved along `f`; `S` is what is left of this relation behind a statement.
* `expression_inStep`, `attempt_inStep`: what the parser makes of related streams.
* `attempts_mapSpan`, `parseStream_mapSpan`: a stream whose tokens are all moved.
* `attempts_prepend_of_closed`: what stands behind a semicolon has no influence on what stands
  before it, and the other way round.
-/

namespace ExprLang

open Parse Text

/-! ## Moved results -/

def Attempt.mapSpan (f : Span → Span) : Attempt → Attempt
  | complete stmt => complete (stmt.mapSpan f)
  | unterminated stmt error => unterminated (stmt.mapSpan f) (error.mapSpan f)
  | failed error => failed (error.mapSpan f)

def Parsed.mapSpan (f : Span → Span) (p : Parsed) : Parsed :=
  ⟨p.program.mapSpan f, p.issues.map (Issue.mapSpan f)⟩

theorem Attempt.stmt?_mapSpan (f : Span → Span) (a : Attempt) :
    (a.mapSpan f).stmt? = a.stmt?.map (Stmt.mapSpan f) := by
  cases a <;> rfl

theorem Attempt.error?_mapSpan (f : Span → Span) (a : Attempt) :
    (a.mapSpan f).error? = a.error?.map (SyntaxError.mapSpan f) := by
  cases a <;> rfl

theorem Attempt.mapSpan_id (a : Attempt) : a.mapSpan id = a := by
  cases a <;> simp [mapSpan, Stmt.mapSpan, SyntaxError.mapSpan, Expr.mapSpan_id]

theorem Parsed.ofAttempts_map (f : Span → Span) (as : List Attempt) :
    Parsed.ofAttempts (as.map (Attempt.mapSpan f)) = (Parsed.ofAttempts as).mapSpan f := by
  simp [Parsed.ofAttempts, Parsed.mapSpan, Program.mapSpan, List.filterMap_map,
    List.map_filterMap, Function.comp_def, Attempt.stmt?_mapSpan, Attempt.error?_mapSpan]

/-! ## Streams in step -/

/-- Streams related by `R` show the same tokens up to a semicolon, those of the second one moved
along `f`. Behind a statement they are related by `S`. -/
structure InStep (f : Span → Span) (R S : TokenStream → TokenStream → Prop) : Prop where
  union : ∀ s t, f (s.union t) = (f s).union (f t)
  current : ∀ ts us, R ts us → us.current = ts.current.mapSpan f
  advance : ∀ ts us, R ts us → ts.current.kind ≠ .semicolon → R ts.advance us.advance
  stay : ∀ ts us, R ts us → S ts us
  pass : ∀ ts us, R ts us → ts.current.kind = .semicolon → S ts.advance us.advance
  skip : ∀ ts us, R ts us → S ts.afterSemicolon us.afterSemicolon

/-- Two runs that end in the same way, the second one with a value moved by `g`. -/
inductive Twins {α : Type} (f : Span → Span) (R : TokenStream → TokenStream → Prop) (g : α → α) :
    EStateM.Result SyntaxError TokenStream α → EStateM.Result SyntaxError TokenStream α → Prop
  | ok {a : α} {ts us : TokenStream} (h : R ts us) : Twins f R g (.ok a ts) (.ok (g a) us)
  | error {e : SyntaxError} {ts us : TokenStream} (h : R ts us) :
      Twins f R g (.error e ts) (.error (e.mapSpan f) us)

section

variable {f : Span → Span} {R S : TokenStream → TokenStream → Prop} {ts us : TokenStream}

theorem Twins.bind {α β : Type} {g : α → α} {g' : β → β} {x y : Parse α} {k l : α → Parse β}
    (h : Twins f R g (x ts) (y us))
    (hk : ∀ a ts' us', R ts' us' → Twins f R g' (k a ts') (l (g a) us')) :
    Twins f R g' ((x >>= k) ts) ((y >>= l) us) := by
  generalize hx : x ts = r at h
  generalize hy : y us = r' at h
  cases h with
  | ok h =>
    rw [bind_of_ok hx, bind_of_ok hy]
    exact hk _ _ _ h
  | error h =>
    rw [bind_of_error hx, bind_of_error hy]
    exact .error h

namespace InStep

theorem kind_eq (h : InStep f R S) (hR : R ts us) : us.current.kind = ts.current.kind := by
  rw [h.current ts us hR]
  rfl

theorem twins_failHere (h : InStep f R S) (hR : R ts us) {α : Type} (g : α → α)
    {cause : Token → Cause} (hcause : ∀ t, cause (t.mapSpan f) = cause t) :
    Twins f R g (failHere cause ts) (failHere cause us) := by
  rw [failHere_apply, failHere_apply, h.current ts us hR, hcause]
  exact .error hR

theorem twins_expect (h : InStep f R S) (hR : R ts us) {kind : TokenKind}
    (hkind : kind ≠ .semicolon) (after : String) :
    Twins f R (Token.mapSpan f) (expect kind after ts) (expect kind after us) := by
  have hcurrent := h.current ts us hR
  have hsame := h.kind_eq hR
  by_cases hk : ts.current.kind = kind
  · rw [expect_of_eq hk, expect_of_eq (hsame.trans hk), hcurrent]
    exact .ok (h.advance ts us hR (hk ▸ hkind))
  · rw [expect_of_ne hk, expect_of_ne (hsame ▸ hk), hcurrent]
    exact .error hR

theorem twins_operand (h : InStep f R S) {nested : Strength → Parse Expr}
    (hn : ∀ min ts us, R ts us → Twins f R (Expr.mapSpan f) (nested min ts) (nested min us))
    (hR : R ts us) :
    Twins f R (Expr.mapSpan f) (operand nested ts) (operand nested us) := by
  have hcurrent := h.current ts us hR
  have hadvance := h.advance ts us hR
  unfold operand
  rw [current_bind, current_bind, hcurrent]
  simp only [Token.mapSpan]
  generalize ts.current = t at hadvance
  cases hk : t.kind with
  | number =>
    simp only [advance_bind]
    cases Binary64.ofNumeral? t.lexeme with
    | none => exact .error (hadvance (by simp [hk]))
    | some value => exact .ok (hadvance (by simp [hk]))
  | string => exact .ok (hadvance (by simp [hk]))
  | keyword word =>
    cases word with
    | print => exact h.twins_failHere hR _ fun _ => rfl
    | bool value => exact .ok (hadvance (by simp [hk]))
  | operator op =>
    cases op with
    | sub =>
      simp only [advance_bind]
      refine (hn _ _ _ (hadvance (by simp [hk]))).bind fun e ts' us' hR' => ?_
      rw [Expr.span_mapSpan, ← h.union]
      exact .ok hR'
    | add | mul | div => exact h.twins_failHere hR _ fun _ => rfl
  | openParen =>
    simp only [advance_bind]
    refine (hn _ _ _ (hadvance (by simp [hk]))).bind fun e ts' us' hR' => ?_
    refine (h.twins_expect hR' (by simp) _).bind fun close ts'' us'' hR'' => ?_
    rw [Token.mapSpan, ← h.union, ← Expr.mapSpan_withSpan]
    exact .ok hR''
  | identifier | unterminatedString | closeParen | semicolon | invalid | endOfInput =>
    exact h.twins_failHere hR _ fun _ => rfl

theorem operator?_eq (h : InStep f R S) (hR : R ts us) (min : Strength) :
    us.current.operator? min = ts.current.operator? min := by
  rw [h.current ts us hR]
  rfl

theorem advance_operator (h : InStep f R S) (hR : R ts us) {min : Strength} {op : BinaryOp}
    (hop : ts.current.operator? min = some op) : R ts.advance us.advance := by
  apply h.advance ts us hR
  simp [(Token.operator?_eq_some_iff.mp hop).1]

end InStep

theorem expression_operations_inStep (h : InStep f R S) (budget : Nat) :
    (∀ min ts us, R ts us →
      Twins f R (Expr.mapSpan f) (expression budget min ts) (expression budget min us)) ∧
    ∀ min lhs ts us, R ts us →
      Twins f R (Expr.mapSpan f) (operations budget min lhs ts)
        (operations budget min (lhs.mapSpan f) us) := by
  induction budget with
  | zero =>
    refine ⟨fun min ts us hR => ?_, fun min lhs ts us hR => ?_⟩
    · rw [expression_zero, expression_zero, h.current ts us hR]
      exact .error hR
    have hoperator := h.operator?_eq hR min
    unfold operations
    rw [current_bind, current_bind, hoperator]
    cases hop : ts.current.operator? min with
    | none => exact .ok hR
    | some op =>
      simp only [advance_bind]
      exact h.twins_failHere (h.advance_operator hR hop) _ fun _ => rfl
  | succ budget ih =>
    refine ⟨fun min ts us hR => ?_, fun min lhs ts us hR => ?_⟩
    · rw [expression_succ, expression_succ]
      exact (h.twins_operand ih.1 hR).bind fun e ts' us' hR' => ih.2 min e ts' us' hR'
    · have hoperator := h.operator?_eq hR min
      unfold operations
      rw [current_bind, current_bind, hoperator]
      cases hop : ts.current.operator? min with
      | none => exact .ok hR
      | some op =>
        simp only [advance_bind]
        refine (ih.1 _ _ _ (h.advance_operator hR hop)).bind fun rhs ts' us' hR' => ?_
        rw [Expr.span_mapSpan, Expr.span_mapSpan, ← h.union]
        exact ih.2 min _ ts' us' hR'

/-! ## Statements in step -/

theorem expression_inStep (h : InStep f R S) (budget : Nat) (min : Strength) (hR : R ts us) :
    Twins f R (Expr.mapSpan f) (expression budget min ts) (expression budget min us) :=
  (expression_operations_inStep h budget).1 min ts us hR

theorem stmtKind_inStep (h : InStep f R S) (hR : R ts us) :
    ∃ kind ts₁ us₁, stmtKind ts = .ok kind ts₁ ∧ stmtKind us = .ok kind us₁ ∧ R ts₁ us₁ := by
  unfold stmtKind
  rw [current_bind, current_bind, h.kind_eq hR]
  by_cases hk : ts.current.kind = .keyword .print
  · rw [if_pos hk]
    exact ⟨.print, _, _, rfl, rfl, h.advance ts us hR (by simp [hk])⟩
  · rw [if_neg hk]
    exact ⟨.expr, _, _, rfl, rfl, hR⟩

/-- An attempt at a statement comes to the same on both streams. -/
theorem attempt_inStep (h : InStep f R S) (hR : R ts us) :
    (attempt us).1 = (attempt ts).1.mapSpan f ∧ S (attempt ts).2 (attempt us).2 := by
  obtain ⟨kind, ts₁, us₁, hkind, hkind', hR₁⟩ := stmtKind_inStep h hR
  have hexpr := expression_inStep h nestingLimit .loosest hR₁
  generalize he : expression nestingLimit .loosest ts₁ = r at hexpr
  generalize he' : expression nestingLimit .loosest us₁ = r' at hexpr
  unfold attempt
  cases hexpr with
  | @ok e ts₂ us₂ hR₂ =>
    have hfirst := h.current ts us hR
    have hcurrent := h.current ts₂ us₂ hR₂
    have hsame := h.kind_eq hR₂
    by_cases hs : ts₂.current.kind = .semicolon
    · rw [statement_of_semicolon hkind he hs,
        statement_of_semicolon hkind' he' (hsame.trans hs), hfirst, hcurrent]
      refine ⟨?_, h.pass ts₂ us₂ hR₂ hs⟩
      simp only [Attempt.mapSpan, Stmt.mapSpan, h.union]
      rfl
    · rw [statement_of_ne_semicolon hkind he hs,
        statement_of_ne_semicolon hkind' he' (hsame ▸ hs), hfirst, hcurrent]
      refine ⟨?_, h.stay ts₂ us₂ hR₂⟩
      simp only [Attempt.mapSpan, Stmt.mapSpan, h.union, Expr.span_mapSpan]
      rfl
  | @error error ts₂ us₂ hR₂ =>
    rw [statement_of_error hkind he, statement_of_error hkind' he']
    exact ⟨rfl, h.skip ts₂ us₂ hR₂⟩

end

/-! ## Moved streams -/

theorem TokenStream.afterSemicolon_mapSpan (f : Span → Span) (ts : TokenStream) :
    (ts.mapSpan f).afterSemicolon = ts.afterSemicolon.mapSpan f := by
  simp [afterSemicolon, mapSpan, List.dropWhile_map, Function.comp_def, Token.mapSpan]

theorem inStep_mapSpan {f : Span → Span} (hf : ∀ s t, f (s.union t) = (f s).union (f t)) :
    InStep f (fun ts us => us = ts.mapSpan f) (fun ts us => us = ts.mapSpan f) where
  union := hf
  current ts _ h := h ▸ ts.current_mapSpan f
  advance ts _ h _ := h ▸ ts.drop_mapSpan 1 f
  stay _ _ h := h
  pass ts _ h _ := h ▸ ts.drop_mapSpan 1 f
  skip ts _ h := h ▸ ts.afterSemicolon_mapSpan f

section

variable {f : Span → Span} (hf : ∀ s t, f (s.union t) = (f s).union (f t)) (ts : TokenStream)

include hf

theorem attempt_mapSpan :
    attempt (ts.mapSpan f) = ((attempt ts).1.mapSpan f, (attempt ts).2.mapSpan f) := by
  have hsame : ts.mapSpan f = ts.mapSpan f := rfl
  obtain ⟨hfirst, hrest⟩ := attempt_inStep (inStep_mapSpan hf) hsame
  exact Prod.ext hfirst hrest

theorem attempts_mapSpan : attempts (ts.mapSpan f) = (attempts ts).map (Attempt.mapSpan f) := by
  fun_induction attempts ts with
  | case1 ts hnil => exact attempts_of_nil (by simp [TokenStream.mapSpan, hnil])
  | case2 ts hne ih =>
    have hne' : (ts.mapSpan f).pending ≠ [] := by simpa [TokenStream.mapSpan] using hne
    rw [attempts_of_ne_nil hne', attempt_mapSpan hf, ih, List.map_cons]

/-- Where unions move along, a stream whose tokens are moved is read as what it was, moved. -/
theorem parseStream_mapSpan : parseStream (ts.mapSpan f) = (parseStream ts).mapSpan f := by
  rw [parseStream, parseStream, attempts_mapSpan hf, Parsed.ofAttempts_map]

end

/-! ## Statements behind a semicolon -/

/-- A row of tokens that is empty or ends with a semicolon. -/
def Closed (w : List Token) : Prop := ∀ t ∈ w.getLast?, t.kind = .semicolon

theorem Closed.of_cons {t : Token} {w : List Token} (h : Closed (t :: w)) : Closed w := by
  cases w with
  | nil => exact nofun
  | cons u w => exact h

theorem Closed.ne_nil_of_cons {t : Token} {w : List Token} (h : Closed (t :: w))
    (ht : t.kind ≠ .semicolon) : w ≠ [] := by
  rintro rfl
  exact ht (h t rfl)

/-- The same tokens, of which `P` holds, in front of two streams. -/
def Shared (P : List Token → Prop) (behind behind' ts us : TokenStream) : Prop :=
  ∃ w, P w ∧ ts = behind.prepend w ∧ us = behind'.prepend w

section

variable (behind behind' : TokenStream)

theorem shared_afterSemicolon {w : List Token} (h : Closed w) (hne : w ≠ []) :
    Shared Closed behind behind' (behind.prepend w).afterSemicolon
      (behind'.prepend w).afterSemicolon := by
  induction w with
  | nil => exact absurd rfl hne
  | cons t w ih =>
    rw [← List.singleton_append, ← TokenStream.prepend_prepend, ← TokenStream.prepend_prepend]
    by_cases ht : t.kind = .semicolon
    · rw [TokenStream.afterSemicolon_prepend_semicolon _ ht,
        TokenStream.afterSemicolon_prepend_semicolon _ ht]
      exact ⟨w, h.of_cons, rfl, rfl⟩
    · have hother : ∀ u ∈ [t], u.kind ≠ .semicolon := List.forall_mem_singleton.mpr ht
      rw [TokenStream.afterSemicolon_prepend _ hother, TokenStream.afterSemicolon_prepend _ hother]
      exact ih h.of_cons (h.ne_nil_of_cons ht)

/-- A statement ends at the last semicolon of a closed row, if not before. -/
theorem inStep_shared :
    InStep id (Shared (fun w => Closed w ∧ w ≠ []) behind behind')
      (Shared Closed behind behind') where
  union _ _ := rfl
  current := by
    rintro _ _ ⟨w, ⟨-, hne⟩, rfl, rfl⟩
    obtain ⟨t, w, rfl⟩ := List.exists_cons_of_ne_nil hne
    rfl
  advance := by
    rintro _ _ ⟨w, ⟨h, hne⟩, rfl, rfl⟩ hk
    obtain ⟨t, w, rfl⟩ := List.exists_cons_of_ne_nil hne
    exact ⟨w, ⟨h.of_cons, h.ne_nil_of_cons hk⟩, rfl, rfl⟩
  stay := by
    rintro _ _ ⟨w, ⟨h, -⟩, rfl, rfl⟩
    exact ⟨w, h, rfl, rfl⟩
  pass := by
    rintro _ _ ⟨w, ⟨h, hne⟩, rfl, rfl⟩ -
    obtain ⟨t, w, rfl⟩ := List.exists_cons_of_ne_nil hne
    exact ⟨w, h.of_cons, rfl, rfl⟩
  skip := by
    rintro _ _ ⟨w, ⟨h, hne⟩, rfl, rfl⟩
    exact shared_afterSemicolon behind behind' h hne

/-- The statements of a closed row and those behind it are read apart from each other. -/
theorem attempts_prepend_of_closed {w : List Token} (h : Closed w) (stop : Span) :
    attempts (behind.prepend w) = attempts ⟨w, stop⟩ ++ attempts behind := by
  have hend : ∀ v, (⟨[], stop⟩ : TokenStream).prepend v = ⟨v, stop⟩ := by
    simp [TokenStream.prepend]
  rw [← hend]
  induction hn : w.length using Nat.strongRecOn generalizing w with
  | ind n ih =>
    subst hn
    by_cases hne : w = []
    · subst hne
      have hnone : attempts ((⟨[], stop⟩ : TokenStream).prepend []) = [] := attempts_of_nil rfl
      rw [hnone]
      rfl
    · have hw : (behind.prepend w).pending ≠ [] := by simp [hne]
      have hw' : ((⟨[], stop⟩ : TokenStream).prepend w).pending ≠ [] := by simp [hne]
      obtain ⟨hfirst, v, hv, hrest, hrest'⟩ := attempt_inStep (inStep_shared ⟨[], stop⟩ behind)
        ⟨w, ⟨h, hne⟩, rfl, rfl⟩
      have hlt : v.length < w.length := by simpa [hrest] using length_attempt_lt hw'
      rw [attempts_of_ne_nil hw, attempts_of_ne_nil hw', hfirst, hrest, hrest',
        ih _ hlt hv rfl, Attempt.mapSpan_id]
      rfl

end

end ExprLang
