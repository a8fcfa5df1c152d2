import ExprLang.Proofs.Stream

/-!
# Precedence climbing follows the grammar

The parser has one loop for the operators of both levels and recurs with a strength, while
the grammar has a rule for each level. The two meet at the left spine of a concrete tree:
after a phrase with the tree `c`, the parser stands in its loop with the expression of `c` as
the left side, and has spent one unit of its budget on the first operand and one on each
operator of the spine.

* `expression_reaches_loop`: what the parser does on a phrase it has the budget for.
* `expression_too_deep`: on a phrase that costs more than the budget, it fails before the
  end of the phrase.
* `expression_sound`: whatever the parser reads is a phrase.
-/

namespace ExprLang

open Parse

/-! ## From a phrase to a run -/

/-- Every operator as strong as those of the level binds tighter than `min`. -/
def Level.Admits (min : Strength) (level : Level) : Prop :=
  ∀ op : BinaryOp, level.strength ≤ op.strength → min < op.strength

theorem Level.Admits.mono {min : Strength} {a b : Level} (h : a.Admits min)
    (hab : a.strength ≤ b.strength) : b.Admits min := by
  intro op hop
  exact h op (Nat.le_trans hab hop)

theorem Level.unary_admits (min : Strength) : unary.Admits min := by
  intro op hop
  exact absurd op.strength_lt_sign (Nat.not_lt.mpr hop)

theorem Level.primary_admits (min : Strength) : primary.Admits min :=
  (unary_admits min).mono (le_primary _)

theorem Level.sum_admits_loosest : sum.Admits .loosest := fun op _ => op.loosest_lt_strength

/-- The level below the one of an operator admits the operator as the strength around it. -/
theorem Level.admits_above (op : BinaryOp) : (above op.strength).Admits op.strength := by
  cases op <;> intro op' hop <;> cases op' <;> first | decide | exact absurd hop (by decide)

theorem operand_group_of_ok {nested : Strength → Parse Expr} {left right : Token} {e : Expr}
    {w : List Token} {ts : TokenStream} (hl : left.kind = .openParen)
    (hr : right.kind = .closeParen)
    (h : nested .loosest (ts.prepend (w ++ [right])) = .ok e (ts.prepend [right])) :
    operand nested (ts.prepend (left :: (w ++ [right]))) =
      .ok (e.withSpan (left.span.union right.span)) ts := by
  have hright : (ts.prepend [right]).current.kind = .closeParen := hr
  have hexpect := expect_of_eq hright "expression"
  rw [← List.singleton_append, ← TokenStream.prepend_prepend, operand_group hl, bind_of_ok h,
    bind_of_ok hexpect]
  rfl

theorem operand_negate_of_ok {nested : Strength → Parse Expr} {sign : Token} {e : Expr}
    {w : List Token} {ts : TokenStream} (hs : sign.kind = .operator .sub)
    (h : nested .sign (ts.prepend w) = .ok e ts) :
    operand nested (ts.prepend (sign :: w)) =
      .ok (.unary .negate e (sign.span.union e.span)) ts := by
  rw [← List.singleton_append, ← TokenStream.prepend_prepend, operand_negate hs, bind_of_ok h]
  rfl

theorem operations_of_ok {budget : Nat} {min : Strength} {lhs rhs : Expr} {op : BinaryOp}
    {t : Token} {w : List Token} {ts : TokenStream} (ht : t.kind = .operator op)
    (hop : min < op.strength)
    (h : expression budget op.strength (ts.prepend w) = .ok rhs ts) :
    operations (budget + 1) min lhs (ts.prepend (t :: w)) =
      operations budget min (.binary op lhs rhs (lhs.span.union rhs.span)) ts := by
  rw [← List.singleton_append, ← TokenStream.prepend_prepend, operations_succ _ ht hop,
    bind_of_ok h]

theorem binary_reaches_loop {op : BinaryOp} {t : Token} {v w : List Token} {l r : Concrete}
    {el er : Expr} {budget : Nat} {min : Strength} {ts : TokenStream} (ht : t.kind = .operator op)
    (hop : min < op.strength) (hts : ts.current.operator? op.strength = none)
    (hl : ∀ ts' : TokenStream, ts'.current.operator? op.strength = none →
      expression budget min (ts'.prepend v) = operations (budget - 1 - l.spine) min el ts')
    (hr : ∀ n, r.cost ≤ n → expression n op.strength (ts.prepend w) =
      operations (n - 1 - r.spine) op.strength er ts)
    (hc : (Concrete.binary op l r).cost ≤ budget) :
    expression budget min (ts.prepend (v ++ t :: w)) =
      operations (budget - 1 - (Concrete.binary op l r).spine) min
        (.binary op el er (el.span.union er.span)) ts := by
  rw [Concrete.cost] at hc
  -- Behind `l` the loop has spent one unit on each operator of the left spine.
  have hspent : budget - 1 - l.spine = (budget - 2 - l.spine) + 1 := by omega
  have hleft : budget - 1 - (Concrete.binary op l r).spine = budget - 2 - l.spine := by
    rw [Concrete.spine]
    omega
  have hrhs : expression (budget - 2 - l.spine) op.strength (ts.prepend w) = .ok er ts := by
    rw [hr _ (by omega), operations_stop _ hts]
  have ht' : (ts.prepend (t :: w)).current.operator? op.strength = none :=
    Token.operator?_eq_none_iff.mpr fun op' hk => by
      rw [TokenStream.current_prepend_cons, ht, TokenKind.operator.injEq] at hk
      exact Nat.le_of_eq (congrArg _ hk.symm)
  rw [← TokenStream.prepend_prepend, hl _ ht', hspent, operations_of_ok ht hop hrhs, hleft]

/-- On a phrase it has the budget for, the parser reads the phrase and stands in its loop. -/
theorem expression_reaches_loop {level : Level} {w : List Token} {c : Concrete}
    (h : Derives level w c) {budget : Nat} {min : Strength} {ts : TokenStream} {e : Expr}
    (hmin : level.Admits min) (hts : ts.current.operator? level.strength = none)
    (he : c.expr? = some e) (hc : c.cost ≤ budget) :
    expression budget min (ts.prepend w) = operations (budget - 1 - c.spine) min e ts := by
  induction h generalizing budget min ts e with
  | @literal t h =>
    obtain ⟨n, rfl⟩ : ∃ n, budget = n + 1 := ⟨budget - 1, by rw [Concrete.cost] at hc; omega⟩
    have hop : operand (expression n) (ts.prepend [t]) = .ok e ts := by
      rw [operand_literal h, show t.literal? = some e from he]
    rw [expression_succ, bind_of_ok hop]
    rfl
  | @group left right w c hl h hr ih =>
    obtain ⟨e', he', rfl⟩ := Concrete.expr?_group_eq_some_iff.mp he
    rw [Concrete.cost] at hc
    obtain ⟨n, rfl⟩ : ∃ n, budget = n + 1 := ⟨budget - 1, by omega⟩
    have hright : ∀ s, (ts.prepend [right]).current.operator? s = none :=
      Token.operator?_of_ne (by simp [hr])
    have hcost : c.cost ≤ n := by omega
    have hin := ih Level.sum_admits_loosest (hright Level.sum.strength) he' hcost
    rw [operations_stop _ (hright _), TokenStream.prepend_prepend] at hin
    rw [expression_succ, bind_of_ok (operand_group_of_ok hl hr hin)]
    rfl
  | @negate sign w c hs h ih =>
    obtain ⟨e', he', rfl⟩ := Concrete.expr?_negate_eq_some_iff.mp he
    rw [Concrete.cost] at hc
    obtain ⟨n, rfl⟩ : ∃ n, budget = n + 1 := ⟨budget - 1, by omega⟩
    have hcost : c.cost ≤ n := by omega
    have hin := ih (Level.unary_admits .sign) ts.current.operator?_sign he' hcost
    rw [operations_stop _ ts.current.operator?_sign] at hin
    rw [expression_succ, bind_of_ok (operand_negate_of_ok hs hin)]
    rfl
  | primary h ih =>
    have hts := Token.operator?_mono (Level.le_primary _) hts
    exact ih (Level.primary_admits _) hts he hc
  | unary h ih =>
    have hts := Token.operator?_mono Level.product_le_unary hts
    exact ih (Level.unary_admits _) hts he hc
  | product h ih =>
    have hts := Token.operator?_mono (Level.sum_le .product) hts
    exact ih (hmin.mono (Level.sum_le _)) hts he hc
  | @times t op v w l r hl ht hop hr ihl ihr =>
    obtain ⟨el, er, hel, her, rfl⟩ := Concrete.expr?_binary_eq_some_iff.mp he
    have hs : Level.product.strength = op.strength := by rcases hop with rfl | rfl <;> rfl
    have hcl : l.cost ≤ budget := by rw [Concrete.cost] at hc; omega
    apply binary_reaches_loop ht (hmin op (Nat.le_of_eq hs)) (hs ▸ hts) _ _ hc
    · intro ts' hts'
      exact ihl hmin (hs ▸ hts') hel hcl
    · intro n hn
      exact ihr (Level.unary_admits _) ts.current.operator?_sign her hn
  | @plus t op v w l r hl ht hop hr ihl ihr =>
    obtain ⟨el, er, hel, her, rfl⟩ := Concrete.expr?_binary_eq_some_iff.mp he
    have hs : Level.sum.strength = op.strength := by rcases hop with rfl | rfl <;> rfl
    have hr : Level.product.Admits op.strength := by
      rcases hop with rfl | rfl <;> exact Level.admits_above _
    have hcl : l.cost ≤ budget := by rw [Concrete.cost] at hc; omega
    apply binary_reaches_loop ht (hmin op (Nat.le_of_eq hs)) (hs ▸ hts) _ _ hc
    · intro ts' hts'
      exact ihl hmin (hs ▸ hts') hel hcl
    · intro n hn
      exact ihr hr (Token.operator?_mono (Level.sum_le _) hts) her hn

/-! ## Phrases that cost too much -/

/-- A run over the tokens `w`, of which it leaves a part, the next token being where it is too
deep. -/
def StopsTooDeep {α : Type} (result : EStateM.Result SyntaxError TokenStream α) (w : List Token)
    (ts : TokenStream) : Prop :=
  ∃ v, v <:+ w ∧ v ≠ [] ∧
    result = .error ⟨.tooDeep, (ts.prepend v).current.span⟩ (ts.prepend v)

theorem StopsTooDeep.after {α : Type} {result : EStateM.Result SyntaxError TokenStream α}
    {w : List Token} {ts : TokenStream} (u : List Token) (h : StopsTooDeep result w ts) :
    StopsTooDeep result (u ++ w) ts := by
  obtain ⟨v, hv, hne, hr⟩ := h
  exact ⟨v, hv.trans (List.suffix_append u w), hne, hr⟩

theorem StopsTooDeep.before {α : Type} {result : EStateM.Result SyntaxError TokenStream α}
    {v w : List Token} {ts : TokenStream} (h : StopsTooDeep result v (ts.prepend w)) :
    StopsTooDeep result (v ++ w) ts := by
  obtain ⟨v', ⟨front, rfl⟩, hne, hr⟩ := h
  refine ⟨v' ++ w, ⟨front, by simp⟩, by simp [hne], ?_⟩
  rw [hr, TokenStream.prepend_prepend]

theorem StopsTooDeep.bind {α β : Type} {x : Parse α} {w : List Token} {ts ts' : TokenStream}
    (h : StopsTooDeep (x ts') w ts) (f : α → Parse β) : StopsTooDeep ((x >>= f) ts') w ts := by
  obtain ⟨v, hv, hne, hr⟩ := h
  exact ⟨v, hv, hne, bind_of_error hr f⟩

theorem stopsTooDeep_zero {w : List Token} (hw : w ≠ []) (min : Strength) (ts : TokenStream) :
    StopsTooDeep (expression 0 min (ts.prepend w)) w ts :=
  ⟨w, List.suffix_rfl, hw, expression_zero min _⟩

/-- Standing in the loop before an operator whose right side it has no budget for. -/
theorem operations_too_deep {op : BinaryOp} {t : Token} {w : List Token} {budget : Nat}
    {min : Strength} {lhs : Expr} {ts : TokenStream} (ht : t.kind = .operator op)
    (hop : min < op.strength) (hw : w ≠ [])
    (hr : ∀ n, budget = n + 1 →
      StopsTooDeep (expression n op.strength (ts.prepend w)) w ts) :
    StopsTooDeep (operations budget min lhs (ts.prepend (t :: w))) (t :: w) ts := by
  rw [← List.singleton_append, ← TokenStream.prepend_prepend]
  cases budget with
  | zero => exact ⟨w, List.suffix_append [t] w, hw, operations_zero ht hop⟩
  | succ n =>
    rw [operations_succ n ht hop]
    exact ((hr n rfl).bind _).after [t]

/-- An operation is too deep where its left side is, or else where its right side is. -/
theorem binary_too_deep {level : Level} {op : BinaryOp} {t : Token} {v w : List Token}
    {l r : Concrete} {el : Expr} {budget : Nat} {min : Strength} {ts : TokenStream}
    (h : Derives level v l) (ht : t.kind = .operator op) (hmin : level.Admits min)
    (hs : level.strength = op.strength) (hel : l.expr? = some el) (hw : w ≠ [])
    (hl : ∀ ts' : TokenStream, ts'.current.operator? level.strength = none → budget < l.cost →
      StopsTooDeep (expression budget min (ts'.prepend v)) v ts')
    (hr : ∀ n, n < r.cost → StopsTooDeep (expression n op.strength (ts.prepend w)) w ts)
    (hc : budget < (Concrete.binary op l r).cost) :
    StopsTooDeep (expression budget min (ts.prepend (v ++ t :: w))) (v ++ t :: w) ts := by
  have ht' : (ts.prepend (t :: w)).current.operator? level.strength = none :=
    Token.operator?_eq_none_iff.mpr fun op' hk => by
      rw [TokenStream.current_prepend_cons, ht, TokenKind.operator.injEq] at hk
      exact Nat.le_of_eq (hk ▸ hs.symm)
  rw [← TokenStream.prepend_prepend]
  by_cases hcl : budget < l.cost
  · exact (hl _ ht' hcl).before
  · rw [expression_reaches_loop h hmin ht' hel (Nat.le_of_not_lt hcl)]
    refine StopsTooDeep.after v (operations_too_deep ht (hmin op (Nat.le_of_eq hs)) hw ?_)
    intro n hn
    apply hr n
    rw [Concrete.cost] at hc
    omega

/-- On a phrase that costs more than the budget, the parser fails before the end of it. -/
theorem expression_too_deep {level : Level} {w : List Token} {c : Concrete}
    (h : Derives level w c) {budget : Nat} {min : Strength} {ts : TokenStream} {e : Expr}
    (hmin : level.Admits min) (hts : ts.current.operator? level.strength = none)
    (he : c.expr? = some e) (hc : budget < c.cost) :
    StopsTooDeep (expression budget min (ts.prepend w)) w ts := by
  induction h generalizing budget min ts e with
  | @literal t h =>
    obtain rfl : budget = 0 := by rw [Concrete.cost] at hc; omega
    exact stopsTooDeep_zero (by simp) min ts
  | @group left right w c hl h hr ih =>
    cases budget with
    | zero => exact stopsTooDeep_zero (by simp) min ts
    | succ n =>
      obtain ⟨e', he', -⟩ := Concrete.expr?_group_eq_some_iff.mp he
      have hright : (ts.prepend [right]).current.operator? Level.sum.strength = none :=
        Token.operator?_of_ne (by simp [hr]) _
      have hcost : n < c.cost := by rw [Concrete.cost] at hc; omega
      have hin := ih Level.sum_admits_loosest hright he' hcost
      rw [TokenStream.prepend_prepend] at hin
      rw [expression_succ, ← List.singleton_append, ← TokenStream.prepend_prepend]
      apply StopsTooDeep.bind
      rw [operand_group hl]
      exact ((hin.bind _).before).after [left]
  | @negate sign w c hs h ih =>
    cases budget with
    | zero => exact stopsTooDeep_zero (by simp) min ts
    | succ n =>
      obtain ⟨e', he', -⟩ := Concrete.expr?_negate_eq_some_iff.mp he
      have hcost : n < c.cost := by rw [Concrete.cost] at hc; omega
      have hin := ih (Level.unary_admits .sign) ts.current.operator?_sign he' hcost
      rw [expression_succ, ← List.singleton_append, ← TokenStream.prepend_prepend]
      apply StopsTooDeep.bind
      rw [operand_negate hs]
      exact (hin.bind _).after [sign]
  | primary h ih =>
    have hts := Token.operator?_mono (Level.le_primary _) hts
    exact ih (Level.primary_admits _) hts he hc
  | unary h ih =>
    have hts := Token.operator?_mono Level.product_le_unary hts
    exact ih (Level.unary_admits _) hts he hc
  | product h ih =>
    have hts := Token.operator?_mono (Level.sum_le .product) hts
    exact ih (hmin.mono (Level.sum_le _)) hts he hc
  | @times t op v w l r hl ht hop hr ihl ihr =>
    obtain ⟨el, er, hel, her, -⟩ := Concrete.expr?_binary_eq_some_iff.mp he
    have hs : Level.product.strength = op.strength := by rcases hop with rfl | rfl <;> rfl
    apply binary_too_deep hl ht hmin hs hel hr.ne_nil _ _ hc
    · intro ts' hts' hcl
      exact ihl hmin hts' hel hcl
    · intro n hn
      exact ihr (Level.unary_admits _) ts.current.operator?_sign her hn
  | @plus t op v w l r hl ht hop hr ihl ihr =>
    obtain ⟨el, er, hel, her, -⟩ := Concrete.expr?_binary_eq_some_iff.mp he
    have hs : Level.sum.strength = op.strength := by rcases hop with rfl | rfl <;> rfl
    have hadmits : Level.product.Admits op.strength := by
      rcases hop with rfl | rfl <;> exact Level.admits_above _
    apply binary_too_deep hl ht hmin hs hel hr.ne_nil _ _ hc
    · intro ts' hts' hcl
      exact ihl hmin hts' hel hcl
    · intro n hn
      exact ihr hadmits (Token.operator?_mono (Level.sum_le _) hts) her hn

/-! ## From a run to a phrase -/

/-- From `ts` to `ts'` stand the tokens of a phrase of the level with the expression `e`. -/
def ReadsPhrase (level : Level) (ts : TokenStream) (e : Expr) (ts' : TokenStream) : Prop :=
  ∃ (w : List Token) (c : Concrete), ts = ts'.prepend w ∧ Derives level w c ∧ c.expr? = some e

theorem Token.StartsOperand.exists_prepend {ts : TokenStream} (h : ts.current.StartsOperand) :
    ∃ (t : Token) (ts₁ : TokenStream), ts = ts₁.prepend [t] ∧ t.StartsOperand := by
  have hkind : ts.current.kind ≠ .endOfInput := by
    rcases h with (hk | hk | ⟨_, hk⟩) | hk | hk <;> simp [hk]
  exact ⟨ts.current, ts.advance, TokenStream.eq_prepend_of_kind hkind, h⟩

theorem operand_sound {nested : Strength → Parse Expr} {ts ts' : TokenStream} {e : Expr}
    (hn : ∀ min ts e ts', nested min ts = .ok e ts' → ReadsPhrase (.above min) ts e ts')
    (h : operand nested ts = .ok e ts') : ReadsPhrase .unary ts e ts' := by
  by_cases hstart : ts.current.StartsOperand
  · obtain ⟨t, ts₁, rfl, ht⟩ := hstart.exists_prepend
    rcases ht with hlit | hsub | hopen
    · rw [operand_literal hlit] at h
      split at h
      · rename_i e' he'
        cases h
        exact ⟨[t], .literal t, rfl, .primary (.literal hlit), he'⟩
      · cases h
    · rw [operand_negate hsub] at h
      obtain ⟨e₁, ts₂, h₁, h₂⟩ := bind_eq_ok_iff.mp h
      cases h₂
      obtain ⟨w, c, rfl, hw, hc⟩ := hn _ _ _ _ h₁
      exact ⟨t :: w, .negate t c, by simp, .negate hsub hw,
        Concrete.expr?_negate_eq_some_iff.mpr ⟨e₁, hc, rfl⟩⟩
    · rw [operand_group hopen] at h
      obtain ⟨e₁, ts₂, h₁, h⟩ := bind_eq_ok_iff.mp h
      obtain ⟨right, ts₃, h₂, h₃⟩ := bind_eq_ok_iff.mp h
      cases h₃
      obtain ⟨w, c, rfl, hw, hc⟩ := hn _ _ _ _ h₁
      obtain ⟨rfl, hright⟩ := expect_eq_ok h₂
      exact ⟨t :: (w ++ [right]), .group t c right, by simp, .primary (.group hopen hw hright),
        Concrete.expr?_group_eq_some_iff.mpr ⟨e₁, hc, rfl⟩⟩
  · rw [operand_refuse hstart] at h
    cases h

/-- Where the loop stops, the left side is the whole phrase; where it goes on, the phrase so
far is one of the level of the operator. -/
theorem expression_operations_sound (budget : Nat) :
    (∀ min ts e ts', expression budget min ts = .ok e ts' →
      ReadsPhrase (.above min) ts e ts' ∧ ts'.current.operator? min = none) ∧
    ∀ min level v (c : Concrete) lhs ts e ts', operations budget min lhs ts = .ok e ts' →
      Derives level v c → c.expr? = some lhs → (Level.above min).strength ≤ level.strength →
      ts.current.operator? level.strength = none →
      (∃ (w : List Token) (c' : Concrete),
        ts = ts'.prepend w ∧ Derives (.above min) (v ++ w) c' ∧ c'.expr? = some e) ∧
        ts'.current.operator? min = none := by
  induction budget with
  | zero =>
    refine ⟨fun min ts e ts' h => ?_, fun min level v c lhs ts e ts' h hv hc hl hts => ?_⟩
    · rw [expression_zero] at h
      cases h
    · cases hop : ts.current.operator? min with
      | none =>
        rw [operations_stop _ hop] at h
        cases h
        exact ⟨⟨[], c, rfl, by simpa using hv.loosen hl, hc⟩, hop⟩
      | some op =>
        obtain ⟨t, ts₁, rfl, hk, hlt⟩ := exists_prepend_of_operator? hop
        rw [operations_zero hk hlt] at h
        cases h
  | succ budget ih =>
    refine ⟨fun min ts e ts' h => ?_, fun min level v c lhs ts e ts' h hv hc hl hts => ?_⟩
    · rw [expression_succ] at h
      obtain ⟨lhs, ts₁, h₁, h₂⟩ := bind_eq_ok_iff.mp h
      obtain ⟨v, c, rfl, hv, hc⟩ :=
        operand_sound (fun min ts e ts' h => (ih.1 min ts e ts' h).1) h₁
      obtain ⟨⟨w, c', rfl, hw, hc'⟩, hstop⟩ := ih.2 _ _ _ _ _ _ _ _ h₂ hv hc
        (Level.strength_above_le_unary min) ts₁.current.operator?_sign
      exact ⟨⟨v ++ w, c', by simp, hw, hc'⟩, hstop⟩
    · cases hop : ts.current.operator? min with
      | none =>
        rw [operations_stop _ hop] at h
        cases h
        exact ⟨⟨[], c, rfl, by simpa using hv.loosen hl, hc⟩, hop⟩
      | some op =>
        obtain ⟨t, ts₁, rfl, hk, hlt⟩ := exists_prepend_of_operator? hop
        rw [operations_succ _ hk hlt] at h
        obtain ⟨rhs, ts₂, h₁, h₂⟩ := bind_eq_ok_iff.mp h
        obtain ⟨⟨w, r, rfl, hw, hr⟩, hstop⟩ := ih.1 _ _ _ _ h₁
        have hlevel : op.level.strength ≤ level.strength := by
          rw [op.strength_level]
          exact Token.operator?_eq_none_iff.mp hts op hk
        have hphrase := (hv.loosen hlevel).operation hk hw
        have hexpr : (Concrete.binary op c r).expr? = some (.binary op lhs rhs _) :=
          Concrete.expr?_binary_eq_some_iff.mpr ⟨lhs, rhs, hc, hr, rfl⟩
        rw [← op.strength_level] at hlt hstop
        obtain ⟨⟨w', c', rfl, hw', hc'⟩, hstop'⟩ := ih.2 _ _ _ _ _ _ _ _ h₂ hphrase hexpr
          (Level.strength_above_le hlt) hstop
        exact ⟨⟨t :: (w ++ w'), c', by simp, by simpa using hw', hc'⟩, hstop'⟩

/-- An expression that was read is a phrase, and the parser stands at no operator that could
go on with it. -/
theorem expression_sound {budget : Nat} {min : Strength} {ts ts' : TokenStream} {e : Expr}
    (h : expression budget min ts = .ok e ts') :
    ReadsPhrase (.above min) ts e ts' ∧ ts'.current.operator? min = none :=
  (expression_operations_sound budget).1 min ts e ts' h

end ExprLang
