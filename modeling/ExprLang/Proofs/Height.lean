import ExprLang.Proofs.Recovery

/-!
# How high the trees of a program are

The nesting limit bounds the cost of an expression and not the height of its tree. The
operators of a chain are counted from the start of the chain, whatever the height of its first
operand, so a chain that starts with a sign or a group may end up higher than it costs.

* `Derives.height_le`: a bound on the height of a tree by its spine and its cost.
* `Segment.clause_cases`, `Segment.sentence_cases`: a statement of the grammar is handed out
  or rejected by its cost alone.
* `parseProgram_height`: how high the expressions of a program are, and which texts keep to
  the limit as a limit of height.
-/

namespace ExprLang

open Parse Text

/-! ## Heights -/

namespace Concrete

/-- The height of the expression of a tree. -/
def height : Concrete → Nat
  | literal _ => 1
  | negate _ operand => operand.height + 1
  | group _ inner _ => inner.height
  | binary _ lhs rhs => max lhs.height rhs.height + 1

theorem height_pos (c : Concrete) : 0 < c.height := by
  induction c with
  | group left inner right ih => exact ih
  | literal | negate | binary => exact Nat.succ_pos _

theorem spine_le_cost (c : Concrete) : c.spine ≤ c.cost - 2 := by
  cases c with
  | binary op l r =>
    have hr := r.cost_pos
    rw [spine, cost]
    omega
  | literal | negate | group => exact Nat.zero_le _

end Concrete

theorem Token.height_of_literal? {t : Token} {e : Expr} (h : t.literal? = some e) :
    e.height = 1 := by
  rcases literal?_cases h with ⟨value, rfl⟩ | rfl | ⟨value, rfl⟩ <;> rfl

theorem Concrete.height_of_expr? {c : Concrete} {e : Expr} (h : c.expr? = some e) :
    e.height = c.height := by
  induction c generalizing e with
  | literal t => exact Token.height_of_literal? h
  | negate sign c ih =>
    obtain ⟨e', he', rfl⟩ := expr?_negate_eq_some_iff.mp h
    rw [Expr.height, height, ih he']
  | group left c right ih =>
    obtain ⟨e', he', rfl⟩ := expr?_group_eq_some_iff.mp h
    rw [Expr.height_withSpan, height, ih he']
  | binary op l r ihl ihr =>
    obtain ⟨el, er, hel, her, rfl⟩ := expr?_binary_eq_some_iff.mp h
    rw [Expr.height, height, ihl hel, ihr her]

/-! ## Height and cost -/

/-- The greatest height of an operand of the cost `n`: a sign makes an operand one higher than
the one behind it, and a group is as high as the longest chain that it has room for. -/
def operandHeight : Nat → Nat
  | 0 => 0
  | n + 1 => operandHeight n + max 1 (n - 2)

theorem operandHeight_mono {m n : Nat} (h : m ≤ n) : operandHeight m ≤ operandHeight n := by
  induction h with
  | refl => exact Nat.le_refl _
  | step h ih => exact Nat.le_trans ih (Nat.le_add_right _ _)

theorem two_mul_operandHeight (n : Nat) :
    2 * operandHeight (n + 3) = (n + 1) * n + 6 := by
  induction n with
  | zero => rfl
  | succ n ih =>
    have hstep : operandHeight (n + 4) = operandHeight (n + 3) + (n + 1) := by
      rw [operandHeight]
      omega
    have hmul : (n + 2) * (n + 1) = (n + 1) * n + 2 * (n + 1) := by
      rw [Nat.add_mul, Nat.mul_comm n]
    change 2 * operandHeight (n + 4) = (n + 2) * (n + 1) + 6
    omega

/-- The right side of an operator has less to spend than the operation as a whole. -/
theorem Concrete.height_binary_le {op : BinaryOp} {l r : Concrete}
    (hl : l.height ≤ l.spine + operandHeight l.cost)
    (hr : r.height ≤ r.spine + operandHeight r.cost) :
    (binary op l r).height ≤ (binary op l r).spine + operandHeight (binary op l r).cost := by
  have hspine := r.spine_le_cost
  have hgroup : operandHeight (r.cost + 1) = operandHeight r.cost + max 1 (r.cost - 2) := rfl
  have hsign : operandHeight (r.cost + 2) =
      operandHeight (r.cost + 1) + max 1 (r.cost + 1 - 2) := rfl
  have hleft : operandHeight l.cost ≤ operandHeight (binary op l r).cost :=
    operandHeight_mono (Nat.le_max_left ..)
  have hright : operandHeight (r.cost + 2) ≤ operandHeight (binary op l r).cost := by
    apply operandHeight_mono
    rw [cost]
    omega
  rw [height, spine]
  omega

theorem Derives.height_le {level : Level} {w : List Token} {c : Concrete}
    (h : Derives level w c) : c.height ≤ c.spine + operandHeight c.cost := by
  induction h with
  | literal h => exact Nat.le_refl _
  | @group left right w c hl h hr ih =>
    have hspine := c.spine_le_cost
    rw [Concrete.height, Concrete.cost, Nat.add_comm 1, operandHeight]
    omega
  | @negate sign w c hs h ih =>
    have hspine := h.spine_eq_zero
    rw [Concrete.height, Concrete.cost, Nat.add_comm 1, operandHeight]
    omega
  | primary h ih | unary h ih | product h ih => exact ih
  | times hl ht hop hr ihl ihr | plus hl ht hop hr ihl ihr =>
    exact Concrete.height_binary_le ihl ihr

/-- No tree within the nesting limit is higher than this. -/
theorem Derives.height_le_of_cost_le {level : Level} {w : List Token} {c : Concrete}
    (h : Derives level w c) (hc : c.cost ≤ nestingLimit) : c.height ≤ 32388 := by
  have hheight := h.height_le
  have hspine := c.spine_le_cost
  have hmono : operandHeight c.cost ≤ operandHeight (253 + 3) := operandHeight_mono hc
  have hlimit := two_mul_operandHeight 253
  rw [nestingLimit] at hc
  omega

/-! ## Statements handed out -/

/-- The tokens are a statement, with or without its semicolon, whose numbers can be read. -/
inductive HasTree : List Token → Concrete → Prop
  | clause {w : List Token} {kind : StmtKind} {c : Concrete} (h : Clause w kind c)
      (hr : ∀ t ∈ w, t.Readable) : HasTree w c
  | sentence {w : List Token} {kind : StmtKind} {c : Concrete} (h : Sentence w kind c)
      (hr : ∀ t ∈ w, t.Readable) : HasTree w c

theorem HasTree.height_le {w : List Token} {c : Concrete} (h : HasTree w c)
    (hc : c.cost ≤ nestingLimit) : c.height ≤ 32388 := by
  cases h with
  | clause h =>
    cases h with
    | mk hv hw => exact hw.height_le_of_cost_le hc
  | sentence h =>
    cases h with
    | mk h =>
      cases h with
      | mk hv hw => exact hw.height_le_of_cost_le hc

/-- Two trees of one statement have one expression, and the parser can read both or none. -/
theorem Clause.unique {w : List Token} {kind kind' : StmtKind} {c c' : Concrete} {e e' : Expr}
    (h : Clause w kind c) (h' : Clause w kind' c') (he : c.expr? = some e)
    (he' : c'.expr? = some e') (hc' : c'.cost ≤ nestingLimit) :
    c.cost ≤ nestingLimit ∧ e = e' := by
  refine ⟨?_, (h.expr_unique h' he he').2⟩
  have hstop : (⟨[], .empty 0⟩ : TokenStream).current.operator? .loosest = none := rfl
  obtain ⟨ts', hkind', hexpr'⟩ := h'.reads he' hc' hstop
  have hread := attempt_of_ok (statement_of_ne_semicolon hkind' hexpr' (by decide))
  by_contra hc
  obtain ⟨t, -, hfailed⟩ := attempt_too_deep h he (Nat.lt_of_not_le hc) hstop
  rw [hread] at hfailed
  cases hfailed

/-- An attempt at a statement of the grammar is decided by the cost of its tree. -/
def DecidedByCost (c : Concrete) (a : Attempt) : Prop :=
  (c.cost ≤ nestingLimit ∧ ∃ stmt, a.stmt? = some stmt ∧ stmt.expr.height = c.height) ∨
    nestingLimit < c.cost ∧ ∃ span, a = .failed ⟨.tooDeep, span⟩

theorem decidedByCost_of_read {w : List Token} {kind kind' : StmtKind} {c c' : Concrete}
    {e e' : Expr} {a : Attempt} {stmt : Stmt} (h : Clause w kind c) (h' : Clause w kind' c')
    (he : c.expr? = some e) (he' : c'.expr? = some e') (hc' : c'.cost ≤ nestingLimit)
    (ha : a.stmt? = some stmt) (hstmt : stmt.expr = e') : DecidedByCost c a := by
  obtain ⟨hc, rfl⟩ := h.unique h' he he' hc'
  exact Or.inl ⟨hc, stmt, ha, hstmt ▸ Concrete.height_of_expr? he⟩

theorem OnlyTooDeep.decidedByCost {w : List Token} {kind : StmtKind} {c : Concrete} {e : Expr}
    {error : SyntaxError} (h : OnlyTooDeep w error) (hw : Clause w kind c)
    (he : c.expr? = some e) : DecidedByCost c (.failed error) := by
  obtain ⟨hc, hcause⟩ := h kind c e hw he
  obtain ⟨cause, span⟩ := error
  cases hcause
  exact Or.inr ⟨hc, span, rfl⟩

theorem Segment.decidedByCost {ts : TokenStream} {w : List Token} {a : Attempt} {c : Concrete}
    (h : Segment ts w a) (hw : HasTree w c) : DecidedByCost c a := by
  cases hw with
  | clause hclause hr =>
    obtain ⟨e, he⟩ := hclause.exists_expr?_iff.mpr hr
    have hsemicolon := hclause.kind_ne_semicolon
    cases h with
    | complete hw' he' hc' hs => exact absurd hs (hsemicolon _ (by simp))
    | unterminated hw' he' hc' =>
      exact decidedByCost_of_read hclause hw' he he' hc' rfl rfl
    | skipped _ hs => exact absurd hs (hsemicolon _ (by simp))
    | cutOff _ _ _ hdeep => exact hdeep.decidedByCost hclause he
  | sentence hsentence hr =>
    obtain ⟨e, he⟩ := hsentence.exists_expr?_iff.mpr hr
    cases hsentence with
    | @mk v kind _ semicolon hclause hs =>
      generalize htokens : v ++ [semicolon] = w at h
      have hmem : semicolon ∈ w := by simp [← htokens]
      cases h with
      | complete hw' he' hc' =>
        obtain ⟨rfl, -⟩ := List.append_inj' htokens rfl
        exact decidedByCost_of_read hclause hw' he he' hc' rfl rfl
      | unterminated hw' => exact absurd hs (hw'.kind_ne_semicolon _ hmem)
      | skipped _ _ hdeep =>
        obtain ⟨rfl, -⟩ := List.append_inj' htokens rfl
        exact hdeep.decidedByCost hclause he
      | cutOff _ hw' => exact absurd hs (hw' _ hmem)

theorem Segment.hasTree_of_stmt? {ts : TokenStream} {w : List Token} {a : Attempt} {stmt : Stmt}
    (h : Segment ts w a) (ha : a.stmt? = some stmt) :
    ∃ c, HasTree w c ∧ c.cost ≤ nestingLimit ∧ stmt.expr.height = c.height := by
  cases h with
  | @complete w kind c e semicolon hw he hc hs =>
    cases ha
    have hsentence := Sentence.mk hw hs
    have hread := hsentence.exists_expr?_iff.mp ⟨e, he⟩
    exact ⟨c, .sentence hsentence hread, hc, Concrete.height_of_expr? he⟩
  | @unterminated w kind c e error hw he hc =>
    cases ha
    have hread := hw.exists_expr?_iff.mp ⟨e, he⟩
    exact ⟨c, .clause hw hread, hc, Concrete.height_of_expr? he⟩
  | skipped | cutOff => cases ha

/-! ## The limit as a limit of height -/

/-- **Height.** No expression of a program is higher than 32388. The nesting limit is a limit
of 256 on the height, and all that is higher is rejected for it, exactly where every statement
that is higher also costs more. -/
theorem parseProgram_height (source : String) :
    ∃ (segments : List (List Token × Attempt)) (p : Parser Collector) (program : Program),
      lex source = segments.flatMap Prod.fst ∧ Segmented (endSpan source) segments ∧
      Parser.parseProgram (.ofLexer (.ofSource source) {}) =
        .ok (!p.reporter.collected.isEmpty, program) p ∧
      program.statements = segments.filterMap (·.2.stmt?) ∧
      (∀ stmt ∈ program.statements, stmt.expr.height ≤ 32388) ∧
      ((∀ stmt ∈ program.statements, stmt.expr.height ≤ 256) ∧
          (∀ s ∈ segments, ∀ c, HasTree s.1 c → 256 < c.height →
            ∃ span, s.2 = .failed ⟨.tooDeep, span⟩) ↔
        ∀ s ∈ segments, ∀ c, HasTree s.1 c → 256 < c.height → 256 < c.cost) := by
  obtain ⟨segments, p, htokens, hsegmented, hrun, -⟩ := exists_segmented_run source
  have hread : ∀ stmt ∈ segments.filterMap (·.2.stmt?), ∃ s ∈ segments, ∃ c,
      HasTree s.1 c ∧ c.cost ≤ nestingLimit ∧ stmt.expr.height = c.height := by
    intro stmt hstmt
    obtain ⟨s, hs, ha⟩ := List.mem_filterMap.mp hstmt
    obtain ⟨ts, hsegment⟩ := hsegmented.segment s hs
    exact ⟨s, hs, hsegment.hasTree_of_stmt? ha⟩
  have hdecided : ∀ s ∈ segments, ∀ c, HasTree s.1 c → DecidedByCost c s.2 := by
    intro s hs c hc
    obtain ⟨ts, hsegment⟩ := hsegmented.segment s hs
    exact hsegment.decidedByCost hc
  refine ⟨segments, p, _, htokens, hsegmented, hrun, rfl, ?_, ?_, ?_⟩
  · intro stmt hstmt
    obtain ⟨s, -, c, htree, hc, hheight⟩ := hread stmt hstmt
    rw [hheight]
    exact htree.height_le hc
  · rintro ⟨-, hrejected⟩ s hs c htree hheight
    obtain ⟨span, hfailed⟩ := hrejected s hs c htree hheight
    rcases hdecided s hs c htree with ⟨-, stmt, hstmt, -⟩ | ⟨hc, -⟩
    · rw [hfailed] at hstmt
      cases hstmt
    · exact hc
  · intro hcost
    refine ⟨fun stmt hstmt => ?_, fun s hs c htree hheight => ?_⟩
    · obtain ⟨s, hs, c, htree, hc, hheight⟩ := hread stmt hstmt
      rw [hheight]
      exact Nat.le_of_not_lt fun hlt => Nat.not_lt.mpr hc (hcost s hs c htree hlt)
    · rcases hdecided s hs c htree with ⟨hc, -⟩ | ⟨-, hfailed⟩
      · exact absurd hc (Nat.not_le.mpr (hcost s hs c htree hheight))
      · exact hfailed

end ExprLang
