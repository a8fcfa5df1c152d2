import ExprLang.Proofs.Climbing

/-!
# Statements, read and unread

An attempt at a statement reads an expression, and then looks for the semicolon.

* `attempt_sentence`: a statement of the grammar is read where the nesting limit allows for
  it; `attempt_sentence_too_deep`: otherwise it is skipped as a whole, with one error.
* `attempt_cases`: the three ways in which an attempt can end, and the tokens it has read.
-/

namespace ExprLang

open Parse Text

theorem attempt_of_ok {ts ts' : TokenStream} {result : Attempt}
    (h : statement ts = .ok result ts') : attempt ts = (result, ts') := by
  rw [attempt, h]

theorem attempt_of_error {ts ts' : TokenStream} {error : SyntaxError}
    (h : statement ts = .error error ts') :
    attempt ts = (.failed error, ts'.afterSemicolon) := by
  rw [attempt, h]

theorem attempts_prepend {w : List Token} (hw : w ≠ []) {ts : TokenStream} {a : Attempt}
    (h : attempt (ts.prepend w) = (a, ts)) : attempts (ts.prepend w) = a :: attempts ts := by
  rw [attempts_of_ne_nil (by simp [hw]), h]

/-! ## Statements of the grammar -/

theorem TokenStream.current_prepend_mem {w : List Token} (hw : w ≠ []) (ts : TokenStream) :
    (ts.prepend w).current ∈ w := by
  obtain ⟨t, rest, rfl⟩ := List.exists_cons_of_ne_nil hw
  exact List.mem_cons_self

/-- A stream stands at its first token, or at the end of input. -/
theorem TokenStream.current_cases (ts : TokenStream) :
    ts.current ∈ ts.pending ∨ ts.current.span = ts.stop := by
  obtain ⟨pending, stop⟩ := ts
  cases pending with
  | nil => exact Or.inr rfl
  | cons t rest => exact Or.inl List.mem_cons_self

theorem stmtKind_clause {v w : List Token} {kind : StmtKind} {c : Concrete}
    (hv : Opening v kind) (hw : Derives .sum w c) (ts : TokenStream) :
    stmtKind (ts.prepend (v ++ w)) = .ok kind (ts.prepend w) := by
  have hfirst := hw.kind_ne _ (TokenStream.current_prepend_mem hw.ne_nil ts)
  rw [← TokenStream.prepend_prepend]
  exact stmtKind_opening hv hfirst.2

section Sentence

variable {w : List Token} {kind : StmtKind} {c : Concrete} {semicolon : Token} {e : Expr}

/-- A statement without its semicolon is read up to its end. -/
theorem Clause.reads (h : Clause w kind c) (he : c.expr? = some e) {budget : Nat}
    (hc : c.cost ≤ budget) {ts : TokenStream} (hts : ts.current.operator? .loosest = none) :
    ∃ ts₁, stmtKind (ts.prepend w) = .ok kind ts₁ ∧
      expression budget .loosest ts₁ = .ok e ts := by
  cases h with
  | @mk v w kind c hv hw =>
    refine ⟨ts.prepend w, stmtKind_clause hv hw ts, ?_⟩
    rw [expression_reaches_loop hw Level.sum_admits_loosest
      (Token.operator?_of_loosest hts _) he hc, operations_stop _ hts]

/-- However a statement is derived, it has the same expression: with the budget for both trees,
the parser reads the expressions of both. -/
theorem Clause.expr_unique {kind' : StmtKind} {c' : Concrete} {e' : Expr} (h : Clause w kind c)
    (h' : Clause w kind' c') (he : c.expr? = some e) (he' : c'.expr? = some e') :
    kind = kind' ∧ e = e' := by
  have hstop : (⟨[], .empty 0⟩ : TokenStream).current.operator? .loosest = none := rfl
  obtain ⟨ts, hkind, hexpr⟩ := h.reads he (Nat.le_max_left c.cost c'.cost) hstop
  obtain ⟨ts', hkind', hexpr'⟩ := h'.reads he' (Nat.le_max_right c.cost c'.cost) hstop
  rw [hkind] at hkind'
  cases hkind'
  rw [hexpr] at hexpr'
  cases hexpr'
  exact ⟨rfl, rfl⟩

theorem attempt_sentence (h : Clause w kind c) (hs : semicolon.kind = .semicolon)
    (he : c.expr? = some e) (hc : c.cost ≤ nestingLimit) (ts : TokenStream) :
    attempt (ts.prepend (w ++ [semicolon])) = (.complete ⟨kind, e,
      (ts.prepend (w ++ [semicolon])).current.span.union semicolon.span⟩, ts) := by
  have hstop : (ts.prepend [semicolon]).current.operator? .loosest = none :=
    Token.operator?_of_ne (by simp [hs]) _
  obtain ⟨ts₁, hkind, hexpr⟩ := h.reads he hc hstop
  have hread := attempt_of_ok (statement_of_semicolon hkind hexpr hs)
  rw [TokenStream.prepend_prepend] at hread
  exact hread

theorem attempt_too_deep (h : Clause w kind c) (he : c.expr? = some e)
    (hc : nestingLimit < c.cost) {ts : TokenStream} (hts : ts.current.operator? .loosest = none) :
    ∃ t ∈ w, attempt (ts.prepend w) = (.failed ⟨.tooDeep, t.span⟩, ts.afterSemicolon) := by
  cases h with
  | @mk v w kind c hv hw =>
    have hkind := stmtKind_clause hv hw ts
    obtain ⟨u, hu, hne, hexpr⟩ := expression_too_deep hw Level.sum_admits_loosest
      (Token.operator?_of_loosest hts _) he hc
    have hsemicolon : ∀ t ∈ u, t.kind ≠ .semicolon := fun t ht => (hw.kind_ne t (hu.mem ht)).1
    have hmem := TokenStream.current_prepend_mem hne ts
    have hskip := attempt_of_error (statement_of_error hkind hexpr)
    rw [ts.afterSemicolon_prepend hsemicolon] at hskip
    exact ⟨_, List.mem_append_right v (hu.mem hmem), hskip⟩

theorem attempt_sentence_too_deep (h : Clause w kind c) (hs : semicolon.kind = .semicolon)
    (he : c.expr? = some e) (hc : nestingLimit < c.cost) (ts : TokenStream) :
    ∃ t ∈ w, attempt (ts.prepend (w ++ [semicolon])) = (.failed ⟨.tooDeep, t.span⟩, ts) := by
  have hstop : (ts.prepend [semicolon]).current.operator? .loosest = none :=
    Token.operator?_of_ne (by simp [hs]) _
  obtain ⟨t, ht, hskip⟩ := attempt_too_deep h he hc hstop
  rw [ts.afterSemicolon_prepend_semicolon hs, TokenStream.prepend_prepend] at hskip
  exact ⟨t, ht, hskip⟩

end Sentence

/-! ## What an attempt has read -/

/-- What stands before the end of an expression is a statement without its semicolon. -/
theorem clause_of_expression {v : List Token} {kind : StmtKind} {ts₁ ts₂ : TokenStream} {e : Expr}
    (hv : Opening v kind) (he : expression nestingLimit .loosest ts₁ = .ok e ts₂) :
    ∃ (w : List Token) (c : Concrete), ts₁.prepend v = ts₂.prepend w ∧ Clause w kind c ∧
      c.expr? = some e ∧ c.cost ≤ nestingLimit := by
  obtain ⟨⟨w, c, rfl, hw, hc⟩, hstop⟩ := expression_sound he
  refine ⟨v ++ w, c, by simp, .mk hv hw, hc, ?_⟩
  apply Nat.le_of_not_lt
  intro hcost
  obtain ⟨_, -, -, herror⟩ := expression_too_deep hw Level.sum_admits_loosest
    (Token.operator?_of_loosest hstop _) hc hcost
  rw [herror] at he
  cases he

/-- How an attempt ends, by what the parser finds after the expression. -/
theorem attempt_cases (ts : TokenStream) :
    (∃ w kind c e ts₁, ts = ts₁.prepend w ∧ Clause w kind c ∧ c.expr? = some e ∧
      c.cost ≤ nestingLimit ∧ attempt ts =
        if ts₁.current.kind = .semicolon then
          (.complete ⟨kind, e, ts.current.span.union ts₁.current.span⟩, ts₁.advance)
        else
          (.unterminated ⟨kind, e, ts.current.span.union e.span⟩
            ⟨.expectedAfter "';'" "expression" ts₁.current.describe, ts₁.current.span⟩, ts₁)) ∨
    ∃ v kind ts₁ error ts₂, ts = ts₁.prepend v ∧ Opening v kind ∧
      expression nestingLimit .loosest ts₁ = .error error ts₂ ∧
      attempt ts = (.failed error, ts₂.afterSemicolon) := by
  obtain ⟨v, kind, ts₁, hv, hts, hkind⟩ := stmtKind_cases ts
  cases hexpr : expression nestingLimit .loosest ts₁ with
  | ok e ts₂ =>
    obtain ⟨w, c, hback, hw, hc, hcost⟩ := clause_of_expression hv hexpr
    refine Or.inl ⟨w, kind, c, e, ts₂, hts.trans hback, hw, hc, hcost, ?_⟩
    by_cases hs : ts₂.current.kind = .semicolon
    · rw [if_pos hs]
      exact attempt_of_ok (statement_of_semicolon hkind hexpr hs)
    · rw [if_neg hs]
      exact attempt_of_ok (statement_of_ne_semicolon hkind hexpr hs)
  | error error ts₂ =>
    have hattempt := attempt_of_error (statement_of_error hkind hexpr)
    exact Or.inr ⟨v, kind, ts₁, error, ts₂, hts, hv, hexpr, hattempt⟩

end ExprLang
