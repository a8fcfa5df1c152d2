import ExprLang.Proofs.Attempts
import ExprLang.Proofs.Run
import Mathlib.Data.List.Forall2

/-!
# What the parser accepts

A text without errors is one that the grammar derives, whose numbers can be read and whose
expressions cost no more than the nesting limit.

* `attempts_sentences`: what becomes of each statement of a text that the grammar derives.
* `sentences_of_attempts`: a text read without errors is derived.
* `parseProgram_accepts_iff`: both directions, and the program that is read.
-/

namespace ExprLang

open Parse Text

/-! ## Texts that the grammar derives -/

/-- What becomes of a statement of the grammar whose numbers can be read. -/
inductive Outcome : StmtKind × Concrete → Attempt → Prop
  | read {kind : StmtKind} {c : Concrete} {e : Expr} {span : Span} (he : c.expr? = some e)
      (hc : c.cost ≤ nestingLimit) : Outcome (kind, c) (.complete ⟨kind, e, span⟩)
  | tooDeep {kind : StmtKind} {c : Concrete} {span : Span} (hc : nestingLimit < c.cost) :
      Outcome (kind, c) (.failed ⟨.tooDeep, span⟩)

theorem attempts_sentences {w : List Token} {stmts : List (StmtKind × Concrete)}
    (h : Sentences w stmts) (hr : ∀ t ∈ w, t.Readable) (stop : Span) :
    List.Forall₂ Outcome stmts (attempts ⟨w, stop⟩) := by
  induction h with
  | nil =>
    rw [attempts_of_nil rfl]
    exact .nil
  | @cons v w kind c rest h hw ih =>
    obtain ⟨hrv, hrw⟩ := List.forall_mem_append.mp hr
    cases h with
    | @mk u kind c semicolon hu hs =>
      obtain ⟨e, he⟩ := (Sentence.mk hu hs).exists_expr?_iff.mpr hrv
      change List.Forall₂ Outcome _ (attempts ((⟨w, stop⟩ : TokenStream).prepend _))
      by_cases hc : c.cost ≤ nestingLimit
      · have hread := attempt_sentence hu hs he hc ⟨w, stop⟩
        rw [attempts_prepend (by simp) hread]
        exact .cons (.read he hc) (ih hrw)
      · have hc := Nat.lt_of_not_le hc
        obtain ⟨t, -, hskip⟩ := attempt_sentence_too_deep hu hs he hc ⟨w, stop⟩
        rw [attempts_prepend (by simp) hskip]
        exact .cons (.tooDeep hc) (ih hrw)

/-! ## Texts without errors -/

theorem sentences_of_attempts (ts : TokenStream) (h : ∀ a ∈ attempts ts, a.error? = none) :
    ∃ stmts : List (StmtKind × Concrete), Sentences ts.pending stmts ∧
      (∀ t ∈ ts.pending, t.Readable) ∧ ∀ s ∈ stmts, s.2.cost ≤ nestingLimit := by
  fun_induction attempts ts with
  | case1 ts hnil => exact ⟨[], hnil ▸ .nil, by simp [hnil], by simp⟩
  | case2 ts hne ih =>
    obtain ⟨hfirst, hrest⟩ := List.forall_mem_cons.mp h
    rcases attempt_cases ts with
      ⟨w, kind, c, e, ts₁, rfl, hw, he, hc, hattempt⟩ | ⟨_, _, _, error, _, -, -, -, hattempt⟩
    · split at hattempt
      · rename_i hs
        rw [hattempt] at hrest ih
        obtain ⟨stmts, hstmts, hread, hcost⟩ := ih hrest
        have hback : ts₁ = ts₁.advance.prepend [ts₁.current] :=
          TokenStream.eq_prepend_of_kind (by simp [hs])
        have hpending : (ts₁.prepend w).pending =
            (w ++ [ts₁.current]) ++ ts₁.advance.pending := by
          simpa using congrArg (fun ts => w ++ ts.pending) hback
        have hsentence := Sentence.mk hw hs
        have hreadable := hsentence.exists_expr?_iff.mp ⟨e, he⟩
        rw [hpending]
        exact ⟨(kind, c) :: stmts, .cons hsentence hstmts,
          List.forall_mem_append.mpr ⟨hreadable, hread⟩, List.forall_mem_cons.mpr ⟨hc, hcost⟩⟩
      · rw [hattempt] at hfirst
        cases hfirst
    · rw [hattempt] at hfirst
      cases hfirst

/-! ## Programs without errors -/

theorem issues_ofAttempts_eq_nil_iff {as : List Attempt} :
    (Parsed.ofAttempts as).issues = [] ↔ ∀ a ∈ as, a.error? = none := by
  simp [Parsed.ofAttempts, List.filterMap_eq_nil_iff]

/-- Where nothing was too deep, the statements read are those of the grammar. -/
theorem statements_of_outcomes {stmts : List (StmtKind × Concrete)} {as : List Attempt}
    (h : List.Forall₂ Outcome stmts as) (has : ∀ a ∈ as, a.error? = none) :
    (as.filterMap Attempt.stmt?).map (fun s => (s.kind, some s.expr)) =
      stmts.map fun s => (s.1, s.2.expr?) := by
  induction h with
  | nil => rfl
  | cons hfirst _ ih =>
    obtain ⟨hnone, hrest⟩ := List.forall_mem_cons.mp has
    cases hfirst with
    | read he hc => simpa [Attempt.stmt?, he] using ih hrest
    | tooDeep hc => cases hnone

theorem cost_of_outcomes {stmts : List (StmtKind × Concrete)} {as : List Attempt}
    (h : List.Forall₂ Outcome stmts as) :
    (∀ a ∈ as, a.error? = none) ↔ ∀ s ∈ stmts, s.2.cost ≤ nestingLimit := by
  induction h with
  | nil => simp
  | cons hfirst _ ih =>
    rw [List.forall_mem_cons, List.forall_mem_cons, ih]
    cases hfirst with
    | read he hc => exact and_congr_left' (iff_of_true rfl hc)
    | tooDeep hc => exact and_congr_left' (iff_of_false nofun (Nat.not_le.mpr hc))

theorem parse_issues_eq_nil_iff (source : String) :
    (parse source).issues = [] ↔ ∃ stmts, Sentences (lex source) stmts ∧
      (∀ t ∈ lex source, t.Readable) ∧ ∀ s ∈ stmts, s.2.cost ≤ nestingLimit := by
  rw [parse_eq, issues_ofAttempts_eq_nil_iff]
  constructor
  · intro h
    exact sentences_of_attempts _ h
  · rintro ⟨stmts, hstmts, hread, hcost⟩
    exact (cost_of_outcomes (attempts_sentences hstmts hread _)).mpr hcost

/-- **Acceptance.** A fresh parser meets no error, whatever it reports to, exactly on a text
that the grammar derives, whose numbers read as finite doubles and whose expressions cost at
most 256. The program is then that of any derivation, its expressions with their spans. -/
theorem parseProgram_accepts_iff {ρ : Type} [Reporter ρ] (source : String) (r : ρ) :
    ((∃ program p, Parser.parseProgram (.ofLexer (.ofSource source) r) = .ok (false, program) p ∧
        p.reporter = r) ↔
      ∃ stmts, Sentences (lex source) stmts ∧ (∀ t ∈ lex source, t.Readable) ∧
        ∀ s ∈ stmts, s.2.cost ≤ 256) ∧
    ∀ program p stmts,
      Parser.parseProgram (.ofLexer (.ofSource source) r) = .ok (false, program) p →
      Sentences (lex source) stmts →
      program.statements.map (fun s => (s.kind, some s.expr)) =
        stmts.map fun s => (s.1, s.2.expr?) := by
  constructor
  · constructor
    · rintro ⟨program, p, hrun, -⟩
      obtain ⟨hissues, -⟩ := Parser.parseProgram_eq_ok hrun
      exact (parse_issues_eq_nil_iff source).mp hissues
    · intro h
      have hissues := (parse_issues_eq_nil_iff source).mpr h
      exact ⟨_, _, Parser.parseProgram_of_issues_eq_nil hissues r, rfl⟩
  · intro program p stmts hrun hstmts
    obtain ⟨hissues, rfl⟩ := Parser.parseProgram_eq_ok hrun
    obtain ⟨-, -, hread, -⟩ := (parse_issues_eq_nil_iff source).mp hissues
    exact statements_of_outcomes (attempts_sentences hstmts hread _)
      (issues_ofAttempts_eq_nil_iff.mp hissues)

end ExprLang
