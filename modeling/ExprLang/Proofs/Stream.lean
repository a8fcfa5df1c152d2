import ExprLang.Grammar.Statement
import ExprLang.Proofs.Grammar

/-!
# Steps of the parser on known tokens

`ts.prepend w` is the stream with the tokens `w` in front of the stream `ts`. A run that
reads exactly `w` starts at `ts.prepend w` and ends at `ts`. This file says once what each
function of the parser does with the first token of a stream, in these terms; later files
do not open the functions again.

* `operand_literal`, `operand_negate`, `operand_group`, `operand_refuse`: an operand, by the
  kind of its first token.
* `operations_stop`, `operations_zero`, `operations_succ`: one round of the operator loop.
* `Token.operator?_eq_none_iff`: when the loop stops.
* `statement_of_semicolon`, `statement_of_ne_semicolon`, `statement_of_error`: a statement, by
  what its expression came to.
-/

namespace ExprLang

open Parse

/-! ## Tokens in front of a stream -/

namespace TokenStream

/-- The stream that has the tokens `w` in front of those of `ts`. -/
def prepend (w : List Token) (ts : TokenStream) : TokenStream :=
  { ts with pending := w ++ ts.pending }

variable (ts : TokenStream) (t : Token) (v w : List Token)

@[simp] theorem pending_prepend : (ts.prepend w).pending = w ++ ts.pending := rfl

@[simp] theorem stop_prepend : (ts.prepend w).stop = ts.stop := rfl

@[simp] theorem prepend_nil : ts.prepend [] = ts := rfl

@[simp] theorem prepend_prepend : (ts.prepend w).prepend v = ts.prepend (v ++ w) := by
  simp [prepend]

@[simp] theorem current_prepend_cons : (ts.prepend (t :: w)).current = t := rfl

@[simp] theorem advance_prepend_cons : (ts.prepend (t :: w)).advance = ts.prepend w := rfl

variable {ts}

theorem eq_prepend_of_ne_nil (h : ts.pending ≠ []) : ts = ts.advance.prepend [ts.current] := by
  obtain ⟨pending, stop⟩ := ts
  cases pending with
  | nil => exact absurd rfl h
  | cons t rest => rfl

theorem eq_prepend_of_kind (h : ts.current.kind ≠ .endOfInput) :
    ts = ts.advance.prepend [ts.current] :=
  eq_prepend_of_ne_nil (pending_ne_nil_of_kind h)

end TokenStream

theorem expect_eq_ok {kind : TokenKind} {after : String} {t : Token} {ts ts' : TokenStream}
    (h : expect kind after ts = .ok t ts') (hk : kind ≠ .endOfInput := by decide) :
    ts = ts'.prepend [t] ∧ t.kind = kind := by
  by_cases hc : ts.current.kind = kind
  · rw [expect_of_eq hc] at h
    cases h
    exact ⟨TokenStream.eq_prepend_of_kind (hc ▸ hk), hc⟩
  · rw [expect_of_ne hc] at h
    cases h

/-! ## Operands -/

/-- The tokens an operand can start with. -/
def Token.StartsOperand (t : Token) : Prop :=
  t.IsLiteral ∨ t.kind = .operator .sub ∨ t.kind = .openParen

/-- What is wrong with a token that stands where an operand should start. -/
def Token.refusal (t : Token) : Cause :=
  match t.kind with
  | .invalid => .unexpectedCharacter t.lexeme
  | .unterminatedString => .unterminatedString
  | _ => .expectedExpression t.describe

section Operand

variable {nested : Strength → Parse Expr} {ts : TokenStream} {t : Token}

theorem operand_literal (h : t.IsLiteral) :
    operand nested (ts.prepend [t]) =
      match t.literal? with
      | some e => .ok e ts
      | none => .error ⟨.invalidNumber t.lexeme, t.span⟩ ts := by
  unfold operand Token.literal?
  rw [current_bind, TokenStream.current_prepend_cons]
  rcases h with h | h | ⟨value, h⟩
  · simp only [h, advance_bind, TokenStream.advance_prepend_cons, TokenStream.prepend_nil]
    cases Binary64.ofNumeral? t.lexeme <;> rfl
  · simp only [h]
    rfl
  · simp only [h]
    rfl

theorem operand_negate (h : t.kind = .operator .sub) :
    operand nested (ts.prepend [t]) =
      (nested .sign >>= fun e => pure (.unary .negate e (t.span.union e.span))) ts := by
  unfold operand
  rw [current_bind, TokenStream.current_prepend_cons]
  simp only [h]
  rfl

theorem operand_group (h : t.kind = .openParen) :
    operand nested (ts.prepend [t]) =
      (nested .loosest >>= fun e => expect .closeParen "expression" >>= fun right =>
        pure (e.withSpan (t.span.union right.span))) ts := by
  unfold operand
  rw [current_bind, TokenStream.current_prepend_cons]
  simp only [h]
  rfl

theorem operand_refuse (h : ¬ ts.current.StartsOperand) :
    operand nested ts = .error ⟨ts.current.refusal, ts.current.span⟩ ts := by
  unfold operand Token.refusal
  rw [current_bind]
  simp only [Token.StartsOperand, Token.IsLiteral, not_or, not_exists] at h
  obtain ⟨⟨hnumber, hstring, hbool⟩, hsub, hopen⟩ := h
  cases hk : ts.current.kind with
  | number => exact absurd hk hnumber
  | string => exact absurd hk hstring
  | openParen => exact absurd hk hopen
  | keyword word =>
    cases word with
    | print => simp only [failHere_apply]
    | bool value => exact absurd hk (hbool value)
  | operator op =>
    cases op with
    | sub => exact absurd hk hsub
    | add | mul | div => simp only [failHere_apply]
  | identifier | unterminatedString | closeParen | semicolon | invalid | endOfInput =>
    simp only [failHere_apply]

end Operand

/-! ## Operators -/

theorem Token.operator?_eq_some_iff {min : Strength} {t : Token} {op : BinaryOp} :
    t.operator? min = some op ↔ t.kind = .operator op ∧ min < op.strength := by
  unfold operator?
  split
  · rename_i op' hk
    simp only [hk, TokenKind.operator.injEq, Option.ite_none_right_eq_some, Option.some.injEq]
    constructor
    · rintro ⟨h, rfl⟩
      exact ⟨rfl, h⟩
    · rintro ⟨rfl, h⟩
      exact ⟨h, rfl⟩
  · rename_i hk
    constructor
    · intro h
      cases h
    · intro h
      exact absurd h.1 (hk op)

/-- The operator loop stops at every token but an operator that binds tight enough. -/
theorem Token.operator?_eq_none_iff {min : Strength} {t : Token} :
    t.operator? min = none ↔ ∀ op, t.kind = .operator op → op.strength ≤ min := by
  rw [Option.eq_none_iff_forall_ne_some]
  constructor
  · intro h op hk
    apply Nat.le_of_not_lt
    intro hlt
    exact h op (operator?_eq_some_iff.mpr ⟨hk, hlt⟩)
  · intro h op hop
    obtain ⟨hk, hlt⟩ := operator?_eq_some_iff.mp hop
    exact Nat.not_lt.mpr (h op hk) hlt

theorem Token.operator?_mono {a b : Strength} {t : Token} (hab : a ≤ b)
    (h : t.operator? a = none) : t.operator? b = none := by
  apply operator?_eq_none_iff.mpr
  intro op hk
  exact Nat.le_trans (operator?_eq_none_iff.mp h op hk) hab

theorem Token.operator?_of_loosest {t : Token} (h : t.operator? .loosest = none)
    (min : Strength) : t.operator? min = none :=
  operator?_mono (Nat.zero_le min) h

theorem Token.operator?_sign (t : Token) : t.operator? .sign = none := by
  apply operator?_eq_none_iff.mpr
  intro op _
  exact Nat.le_of_lt op.strength_lt_sign

theorem Token.operator?_of_ne {t : Token} (h : ∀ op, t.kind ≠ .operator op) (min : Strength) :
    t.operator? min = none := by
  apply operator?_eq_none_iff.mpr
  intro op hk
  exact absurd hk (h op)

theorem exists_prepend_of_operator? {min : Strength} {ts : TokenStream} {op : BinaryOp}
    (h : ts.current.operator? min = some op) :
    ∃ (t : Token) (ts' : TokenStream),
      ts = ts'.prepend [t] ∧ t.kind = .operator op ∧ min < op.strength := by
  obtain ⟨hk, hlt⟩ := Token.operator?_eq_some_iff.mp h
  exact ⟨ts.current, ts.advance, TokenStream.eq_prepend_of_kind (by simp [hk]), hk, hlt⟩

section Operations

variable {min : Strength} {lhs : Expr} {ts : TokenStream} {t : Token} {op : BinaryOp}

theorem operations_stop (budget : Nat) (h : ts.current.operator? min = none) :
    operations budget min lhs ts = .ok lhs ts := by
  cases budget <;> simp only [operations, current_bind, h, pure_apply]

theorem operations_zero (hk : t.kind = .operator op) (hop : min < op.strength) :
    operations 0 min lhs (ts.prepend [t]) = .error ⟨.tooDeep, ts.current.span⟩ ts := by
  have h : t.operator? min = some op := Token.operator?_eq_some_iff.mpr ⟨hk, hop⟩
  simp only [operations, current_bind, TokenStream.current_prepend_cons, h, advance_bind,
    TokenStream.advance_prepend_cons, TokenStream.prepend_nil, failHere_apply]

theorem operations_succ (budget : Nat) (hk : t.kind = .operator op) (hop : min < op.strength) :
    operations (budget + 1) min lhs (ts.prepend [t]) =
      (expression budget op.strength >>= fun rhs =>
        operations budget min (.binary op lhs rhs (lhs.span.union rhs.span))) ts := by
  have h : t.operator? min = some op := Token.operator?_eq_some_iff.mpr ⟨hk, hop⟩
  simp only [operations, current_bind, TokenStream.current_prepend_cons, h, advance_bind,
    TokenStream.advance_prepend_cons, TokenStream.prepend_nil]

end Operations

/-! ## Expressions -/

theorem expression_zero (min : Strength) (ts : TokenStream) :
    expression 0 min ts = .error ⟨.tooDeep, ts.current.span⟩ ts := by
  simp only [expression, failHere_apply]

theorem expression_succ (budget : Nat) (min : Strength) (ts : TokenStream) :
    expression (budget + 1) min ts =
      (operand (expression budget) >>= operations budget min) ts := by
  simp only [expression]

/-! ## Statements -/

theorem stmtKind_opening {v : List Token} {kind : StmtKind} (h : Opening v kind)
    {ts : TokenStream} (hts : ts.current.kind ≠ .keyword .print) :
    stmtKind (ts.prepend v) = .ok kind ts := by
  unfold stmtKind
  rw [current_bind]
  cases h with
  | expr =>
    rw [TokenStream.prepend_nil, if_neg hts]
    rfl
  | print h =>
    rw [TokenStream.current_prepend_cons, if_pos h]
    rfl

theorem stmtKind_cases (ts : TokenStream) :
    ∃ v kind ts', Opening v kind ∧ ts = ts'.prepend v ∧ stmtKind ts = .ok kind ts' := by
  unfold stmtKind
  rw [current_bind]
  by_cases h : ts.current.kind = .keyword .print
  · rw [if_pos h]
    exact ⟨[ts.current], .print, ts.advance, .print h,
      TokenStream.eq_prepend_of_kind (by simp [h]), rfl⟩
  · rw [if_neg h]
    exact ⟨[], .expr, ts, .expr, rfl, rfl⟩

section Statement

variable {ts ts₁ ts₂ : TokenStream} {kind : StmtKind} {e : Expr}

theorem statement_of_semicolon (hk : stmtKind ts = .ok kind ts₁)
    (he : expression nestingLimit .loosest ts₁ = .ok e ts₂)
    (hs : ts₂.current.kind = .semicolon) :
    statement ts =
      .ok (.complete ⟨kind, e, ts.current.span.union ts₂.current.span⟩) ts₂.advance := by
  unfold statement
  rw [current_bind, bind_of_ok hk, bind_of_ok he, current_bind, if_pos hs]
  rfl

theorem statement_of_ne_semicolon (hk : stmtKind ts = .ok kind ts₁)
    (he : expression nestingLimit .loosest ts₁ = .ok e ts₂)
    (hs : ts₂.current.kind ≠ .semicolon) :
    statement ts = .ok (.unterminated ⟨kind, e, ts.current.span.union e.span⟩
      ⟨.expectedAfter "';'" "expression" ts₂.current.describe, ts₂.current.span⟩) ts₂ := by
  unfold statement
  rw [current_bind, bind_of_ok hk, bind_of_ok he, current_bind, if_neg hs]
  rfl

theorem statement_of_error {error : SyntaxError} (hk : stmtKind ts = .ok kind ts₁)
    (he : expression nestingLimit .loosest ts₁ = .error error ts₂) :
    statement ts = .error error ts₂ := by
  unfold statement
  rw [current_bind, bind_of_ok hk, bind_of_error he]

end Statement

/-! ## Recovery -/

namespace TokenStream

variable (ts : TokenStream)

theorem afterSemicolon_prepend {w : List Token} (hw : ∀ t ∈ w, t.kind ≠ .semicolon) :
    (ts.prepend w).afterSemicolon = ts.afterSemicolon := by
  have hall : ∀ t ∈ w, (t.kind != .semicolon) = true := by simpa using hw
  simp only [afterSemicolon, prepend, List.dropWhile_append_of_pos hall]

theorem afterSemicolon_prepend_semicolon {t : Token} (ht : t.kind = .semicolon) :
    (ts.prepend [t]).afterSemicolon = ts := by
  obtain ⟨pending, stop⟩ := ts
  simp [afterSemicolon, prepend, ht]

end TokenStream

end ExprLang
