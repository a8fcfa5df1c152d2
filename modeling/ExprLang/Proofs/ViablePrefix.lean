import ExprLang.Proofs.Attempts
import ExprLang.Proofs.Run

/-!
# Errors stand at the first token that fits no statement

What can come next in a statement depends on two things only: whether an operand or an
operator is due, and how many groups are open. `Due` keeps track of both over any row of
tokens, so it tells where a row stops to be the beginning of a statement.

* `Viable w`: some statement of the grammar begins with the tokens `w`.
* `not_viable_of_after`: tokens that `Due` does not get over begin no statement.
* `expression_breaks`: where an expression breaks off, the tokens read begin a phrase; with
  the token it stands at they begin none, unless the nesting or a number is to blame.
* `parseProgram_viable_prefix`: the same for every issue of a text.
-/

namespace ExprLang

open Parse Text

/-! ## Beginnings of statements -/

/-- Some statement of the grammar begins with the tokens. -/
def Viable (w : List Token) : Prop :=
  ∃ (u : List Token) (kind : StmtKind) (c : Concrete), Sentence (w ++ u) kind c

/-- What is due next in a statement; `depth` counts the groups that are open. -/
inductive Due where
  /-- The keyword of a statement that prints, or the first operand. -/
  | opening
  | operand (depth : Nat)
  | operator (depth : Nat)
  /-- The statement is over. -/
  | nothing
  deriving DecidableEq, Repr

namespace Due

/-- What is due after a token where an operand is due. -/
def afterOperand (depth : Nat) : TokenKind → Option Due
  | .number | .string | .keyword (.bool _) => some (operator depth)
  | .operator .sub => some (operand depth)
  | .openParen => some (operand (depth + 1))
  | _ => none

/-- What is due after a token where an operator is due. -/
def afterOperator : Nat → TokenKind → Option Due
  | depth, .operator _ => some (operand depth)
  | depth + 1, .closeParen => some (operator depth)
  | 0, .semicolon => some nothing
  | _, _ => none

/-- What is due after a token; `none` if the token cannot stand there. -/
def next? : Due → TokenKind → Option Due
  | opening, kind => if kind = .keyword .print then some (operand 0) else afterOperand 0 kind
  | operand depth, kind => afterOperand depth kind
  | operator depth, kind => afterOperator depth kind
  | nothing, _ => none

/-- What is due after a row of tokens. -/
def after? (due : Due) (w : List Token) : Option Due := w.foldlM (fun due t => due.next? t.kind) due

@[simp] theorem after?_nil (due : Due) : due.after? [] = some due := rfl

@[simp] theorem after?_cons (due : Due) (t : Token) (w : List Token) :
    due.after? (t :: w) = (due.next? t.kind).bind (·.after? w) := rfl

theorem after?_singleton (due : Due) (t : Token) : due.after? [t] = due.next? t.kind := by
  simp

@[simp] theorem after?_append (due : Due) (v w : List Token) :
    due.after? (v ++ w) = (due.after? v).bind (·.after? w) := by
  simp only [after?, List.foldlM_append]
  rfl

theorem afterOperand_literal {t : Token} (h : t.IsLiteral) (depth : Nat) :
    afterOperand depth t.kind = some (operator depth) := by
  rcases h with h | h | ⟨value, h⟩ <;> simp only [h, afterOperand]

/-- Where an operand is due, the tokens that an operand can start with can stand. -/
theorem afterOperand_eq_none {t : Token} (h : ¬ t.StartsOperand) (depth : Nat) :
    afterOperand depth t.kind = none := by
  simp only [Token.StartsOperand, Token.IsLiteral, not_or, not_exists] at h
  obtain ⟨⟨hnumber, hstring, hbool⟩, hsub, hopen⟩ := h
  unfold afterOperand
  split
  · exact absurd ‹_› hnumber
  · exact absurd ‹_› hstring
  · exact absurd ‹_› (hbool _)
  · exact absurd ‹_› hsub
  · exact absurd ‹_› hopen
  · rfl

/-- Where the operator loop stops, only the end of a group or of the statement can stand. -/
theorem afterOperator_eq_none {t : Token} {depth : Nat} (hop : t.operator? .loosest = none)
    (hclose : depth ≠ 0 → t.kind ≠ .closeParen) (hs : depth = 0 → t.kind ≠ .semicolon) :
    afterOperator depth t.kind = none := by
  unfold afterOperator
  split
  · rename_i op hk
    have hle := Token.operator?_eq_none_iff.mp hop op hk
    exact absurd op.loosest_lt_strength (Nat.not_lt.mpr hle)
  · exact absurd ‹_› (hclose (Nat.succ_ne_zero _))
  · exact absurd ‹_› (hs rfl)
  · rfl

end Due

/-! ## Statements of the grammar -/

/-- A phrase takes the place of an operand, however many groups are open around it. -/
theorem Derives.after?_eq {level : Level} {w : List Token} {c : Concrete}
    (h : Derives level w c) (depth : Nat) :
    (Due.operand depth).after? w = some (.operator depth) := by
  induction h generalizing depth with
  | literal h =>
    rw [Due.after?_singleton]
    exact Due.afterOperand_literal h depth
  | group hl h hr ih => simp [Due.next?, Due.afterOperand, Due.afterOperator, hl, hr, ih]
  | negate hs h ih => simp [Due.next?, Due.afterOperand, hs, ih]
  | primary h ih | unary h ih | product h ih => exact ih depth
  | times hl ht hop hr ihl ihr | plus hl ht hop hr ihl ihr =>
    simp [Due.next?, Due.afterOperator, ht, ihl, ihr]

theorem Due.opening_after?_eq {t : Token} (h : t.kind ≠ .keyword .print) (w : List Token) :
    opening.after? (t :: w) = (operand 0).after? (t :: w) := by
  simp [next?, h]

theorem Clause.after?_eq {w : List Token} {kind : StmtKind} {c : Concrete} (h : Clause w kind c) :
    Due.opening.after? w = some (.operator 0) := by
  cases h with
  | @mk v w kind c hv hw =>
    cases hv with
    | expr =>
      obtain ⟨t, rest, rfl⟩ := List.exists_cons_of_ne_nil hw.ne_nil
      rw [List.nil_append, Due.opening_after?_eq (hw.kind_ne t List.mem_cons_self).2]
      exact hw.after?_eq 0
    | print h =>
      rw [List.singleton_append, Due.after?_cons, Due.next?, if_pos h]
      exact hw.after?_eq 0

theorem Sentence.after?_eq {w : List Token} {kind : StmtKind} {c : Concrete}
    (h : Sentence w kind c) : Due.opening.after? w = some .nothing := by
  cases h with
  | mk h hs => simp [h.after?_eq, Due.next?, Due.afterOperator, hs]

theorem not_viable_of_after {w : List Token} (h : Due.opening.after? w = none) : ¬ Viable w := by
  rintro ⟨u, kind, c, hsentence⟩
  have hall := hsentence.after?_eq
  rw [Due.after?_append, h] at hall
  cases hall

/-! ## Completions -/

def trueToken : Token := ⟨.keyword (.bool true), "true", .empty 0⟩

def closeToken : Token := ⟨.closeParen, ")", .empty 0⟩

def semicolonToken : Token := ⟨.semicolon, ";", .empty 0⟩

theorem derives_trueToken (level : Level) : Derives level [trueToken] (.literal trueToken) :=
  (Derives.literal (Or.inr (Or.inr ⟨true, rfl⟩))).loosen level.le_primary

/-- Some phrase of the level begins with the tokens. -/
def Begins (level : Level) (w : List Token) : Prop :=
  ∃ (u : List Token) (c : Concrete), Derives level (w ++ u) c

namespace Begins

theorem nil (level : Level) : Begins level [] := ⟨_, _, derives_trueToken level⟩

theorem of_derives {level : Level} {w : List Token} {c : Concrete} (h : Derives level w c) :
    Begins level w :=
  ⟨[], c, by simpa using h⟩

theorem loosen {a b : Level} {w : List Token} (h : Begins a w) (hab : b.strength ≤ a.strength) :
    Begins b w := by
  obtain ⟨u, c, hc⟩ := h
  exact ⟨u, c, hc.loosen hab⟩

theorem negate {t : Token} {w : List Token} (ht : t.kind = .operator .sub)
    (h : Begins .unary w) : Begins .unary (t :: w) := by
  obtain ⟨u, c, hc⟩ := h
  exact ⟨u, _, .negate ht hc⟩

theorem group {t : Token} {w : List Token} (ht : t.kind = .openParen) (h : Begins .sum w) :
    Begins .unary (t :: w) := by
  obtain ⟨u, c, hc⟩ := h
  have hclose : closeToken.kind = .closeParen := rfl
  refine ⟨u ++ [closeToken], .group t c closeToken, .primary ?_⟩
  simpa using Derives.group ht hc hclose

theorem operation {t : Token} {op : BinaryOp} {v w : List Token} {l : Concrete}
    (hl : Derives op.level v l) (ht : t.kind = .operator op) (h : Begins (.above op.strength) w) :
    Begins op.level (v ++ t :: w) := by
  obtain ⟨u, c, hc⟩ := h
  refine ⟨u, .binary op l c, ?_⟩
  simpa using hl.operation ht hc

theorem viable {v w : List Token} {kind : StmtKind} (hv : Opening v kind) (h : Begins .sum w) :
    Viable (v ++ w) := by
  obtain ⟨u, c, hc⟩ := h
  have hsemicolon : semicolonToken.kind = .semicolon := rfl
  refine ⟨u ++ [semicolonToken], kind, c, ?_⟩
  simpa using Sentence.mk (.mk hv hc) hsemicolon

end Begins

/-! ## Where an expression breaks off -/

/-- Neither the nesting nor a number is to blame for the error. -/
def SyntaxError.Misplaced (error : SyntaxError) : Prop :=
  error.cause ≠ .tooDeep ∧ ∀ text, error.cause ≠ .invalidNumber text

/-- The error of a run that has read the tokens `w` of a phrase and stands at `next`. -/
structure Breaks (level : Level) (w : List Token) (next : Token) (error : SyntaxError) : Prop where
  begins : Begins level w
  refused : error.Misplaced →
    error.span = next.span ∧ ∀ depth, (Due.operand depth).after? (w ++ [next]) = none

/-- How a run over a phrase of the level ends where it fails, after the tokens `v` of it. -/
def BreaksAfter (level : Level) (v : List Token) (ts : TokenStream) (error : SyntaxError)
    (ts' : TokenStream) : Prop :=
  ∃ w, ts = ts'.prepend w ∧ Breaks level (v ++ w) ts'.current error

theorem Breaks.loosen {a b : Level} {w : List Token} {next : Token} {error : SyntaxError}
    (h : Breaks a w next error) (hab : b.strength ≤ a.strength) : Breaks b w next error :=
  ⟨h.begins.loosen hab, h.refused⟩

theorem operand_breaks {nested : Strength → Parse Expr} {ts ts' : TokenStream}
    {error : SyntaxError}
    (hn : ∀ min ts error ts', nested min ts = .error error ts' →
      BreaksAfter (.above min) [] ts error ts')
    (hok : ∀ min ts e ts', nested min ts = .ok e ts' →
      ReadsPhrase (.above min) ts e ts' ∧ ts'.current.operator? min = none)
    (h : operand nested ts = .error error ts') : BreaksAfter .unary [] ts error ts' := by
  by_cases hstart : ts.current.StartsOperand
  · obtain ⟨t, ts₁, rfl, ht⟩ := hstart.exists_prepend
    rcases ht with hlit | hsub | hopen
    · rw [operand_literal hlit] at h
      split at h
      · cases h
      · cases h
        exact ⟨[t], rfl, .of_derives (.primary (.literal hlit)), fun hm => absurd rfl (hm.2 _)⟩
    · rw [operand_negate hsub] at h
      rcases bind_eq_error_iff.mp h with h₁ | ⟨_, _, _, h₂⟩
      · obtain ⟨w, rfl, hw⟩ := hn _ _ _ _ h₁
        refine ⟨t :: w, by simp, hw.begins.negate hsub, fun hm => ?_⟩
        obtain ⟨hspan, hrefused⟩ := hw.refused hm
        refine ⟨hspan, fun depth => ?_⟩
        simpa [Due.next?, Due.afterOperand, hsub] using hrefused depth
      · cases h₂
    · rw [operand_group hopen] at h
      rcases bind_eq_error_iff.mp h with h₁ | ⟨e, ts₂, h₁, h₂⟩
      · obtain ⟨w, rfl, hw⟩ := hn _ _ _ _ h₁
        refine ⟨t :: w, by simp, hw.begins.group hopen, fun hm => ?_⟩
        obtain ⟨hspan, hrefused⟩ := hw.refused hm
        refine ⟨hspan, fun depth => ?_⟩
        simpa [Due.next?, Due.afterOperand, hopen] using hrefused (depth + 1)
      · obtain ⟨⟨w, c, rfl, hw, -⟩, hstop⟩ := hok _ _ _ _ h₁
        by_cases hk : ts₂.current.kind = .closeParen
        · rw [bind_of_ok (expect_of_eq hk _)] at h₂
          cases h₂
        · rw [bind_of_error (expect_of_ne hk _)] at h₂
          cases h₂
          refine ⟨t :: w, by simp, (Begins.of_derives hw).group hopen, fun _ => ⟨rfl, ?_⟩⟩
          intro depth
          have hnone : Due.afterOperator (depth + 1) ts'.current.kind = none :=
            Due.afterOperator_eq_none hstop (fun _ => hk) (absurd · (Nat.succ_ne_zero depth))
          simpa [Due.next?, Due.afterOperand, hopen, hw.after?_eq] using hnone
  · rw [operand_refuse hstart] at h
    cases h
    refine ⟨[], rfl, .nil _, fun _ => ⟨rfl, fun depth => ?_⟩⟩
    rw [List.nil_append, List.nil_append, Due.after?_singleton]
    exact Due.afterOperand_eq_none hstart depth

/-- In the loop, `v` is the phrase read so far, of a level whose operators it has passed. -/
theorem expression_operations_breaks (budget : Nat) :
    (∀ min ts error ts', expression budget min ts = .error error ts' →
      BreaksAfter (.above min) [] ts error ts') ∧
    ∀ min level v (c : Concrete) lhs ts error ts', operations budget min lhs ts = .error error ts' →
      Derives level v c → ts.current.operator? level.strength = none →
      BreaksAfter (.above min) v ts error ts' := by
  induction budget with
  | zero =>
    refine ⟨fun min ts error ts' h => ?_, fun min level v c lhs ts error ts' h hv hts => ?_⟩
    · rw [expression_zero] at h
      cases h
      exact ⟨[], rfl, .nil _, fun hm => absurd rfl hm.1⟩
    · cases hop : ts.current.operator? min with
      | none =>
        rw [operations_stop _ hop] at h
        cases h
      | some op =>
        obtain ⟨t, ts₁, rfl, hk, hlt⟩ := exists_prepend_of_operator? hop
        rw [operations_zero hk hlt] at h
        cases h
        have hlevel : op.level.strength ≤ level.strength := by
          rw [op.strength_level]
          exact Token.operator?_eq_none_iff.mp hts op hk
        have hbegins := Begins.operation (hv.loosen hlevel) hk (.nil _)
        rw [← op.strength_level] at hlt
        exact ⟨[t], rfl, hbegins.loosen (Level.strength_above_le hlt), fun hm => absurd rfl hm.1⟩
  | succ budget ih =>
    refine ⟨fun min ts error ts' h => ?_, fun min level v c lhs ts error ts' h hv hts => ?_⟩
    · rw [expression_succ] at h
      rcases bind_eq_error_iff.mp h with h₁ | ⟨lhs, ts₁, h₁, h₂⟩
      · obtain ⟨w, rfl, hw⟩ := operand_breaks ih.1 (fun _ _ _ _ => expression_sound) h₁
        exact ⟨w, rfl, hw.loosen (Level.strength_above_le_unary min)⟩
      · obtain ⟨v, c, rfl, hv, -⟩ := operand_sound (fun _ _ _ _ h => (expression_sound h).1) h₁
        obtain ⟨w, rfl, hw⟩ := ih.2 _ _ _ _ _ _ _ _ h₂ hv ts₁.current.operator?_sign
        exact ⟨v ++ w, by simp, hw⟩
    · cases hop : ts.current.operator? min with
      | none =>
        rw [operations_stop _ hop] at h
        cases h
      | some op =>
        obtain ⟨t, ts₁, rfl, hk, hlt⟩ := exists_prepend_of_operator? hop
        rw [operations_succ _ hk hlt] at h
        have hlevel : op.level.strength ≤ level.strength := by
          rw [op.strength_level]
          exact Token.operator?_eq_none_iff.mp hts op hk
        have hlhs := hv.loosen hlevel
        rw [← op.strength_level] at hlt
        rcases bind_eq_error_iff.mp h with h₁ | ⟨rhs, ts₂, h₁, h₂⟩
        · obtain ⟨w, rfl, hw⟩ := ih.1 _ _ _ _ h₁
          have hbegins := Begins.operation hlhs hk hw.begins
          refine ⟨t :: w, by simp, hbegins.loosen (Level.strength_above_le hlt), fun hm => ?_⟩
          obtain ⟨hspan, hrefused⟩ := hw.refused hm
          refine ⟨hspan, fun depth => ?_⟩
          simpa [hv.after?_eq, Due.next?, Due.afterOperator, hk] using hrefused depth
        · obtain ⟨⟨w, r, rfl, hw, -⟩, hstop⟩ := expression_sound h₁
          rw [← op.strength_level] at hstop
          obtain ⟨w', rfl, hw'⟩ := ih.2 _ _ _ _ _ _ _ _ h₂ (hlhs.operation hk hw) hstop
          exact ⟨t :: (w ++ w'), by simp, by simpa using hw'⟩

theorem expression_breaks {budget : Nat} {min : Strength} {ts ts' : TokenStream}
    {error : SyntaxError} (h : expression budget min ts = .error error ts') :
    BreaksAfter (.above min) [] ts error ts' :=
  (expression_operations_breaks budget).1 min ts error ts' h

/-! ## Where a statement breaks off -/

/-- The parser stands at `ts'` when it meets the error of its attempt at `ts`. -/
def Meets (ts : TokenStream) (error : SyntaxError) (ts' : TokenStream) : Prop :=
  statement ts = .error error ts' ∨ ∃ stmt, statement ts = .ok (.unterminated stmt error) ts'

theorem stmtKind_opens (ts : TokenStream) :
    ∃ v kind ts₁, Opening v kind ∧ ts = ts₁.prepend v ∧ stmtKind ts = .ok kind ts₁ ∧
      ∀ w ts₂, ts₁ = TokenStream.prepend w ts₂ →
        Due.opening.after? (v ++ w ++ [ts₂.current]) =
          (Due.operand 0).after? (w ++ [ts₂.current]) := by
  unfold stmtKind
  rw [current_bind]
  by_cases h : ts.current.kind = .keyword .print
  · rw [if_pos h]
    refine ⟨[ts.current], .print, ts.advance, .print h,
      TokenStream.eq_prepend_of_kind (by simp [h]), rfl, fun w ts₂ _ => ?_⟩
    simp [Due.next?, h]
  · rw [if_neg h]
    refine ⟨[], .expr, ts, .expr, rfl, rfl, fun w ts₂ hw => ?_⟩
    subst hw
    cases w with
    | nil => exact Due.opening_after?_eq h []
    | cons t w => exact Due.opening_after?_eq h (w ++ [ts₂.current])

theorem exists_meets {ts : TokenStream} {error : SyntaxError}
    (h : (attempt ts).1.error? = some error) : ∃ ts', Meets ts error ts' := by
  unfold attempt at h
  split at h
  · rename_i result ts' hs
    cases result with
    | complete => cases h
    | unterminated stmt => exact ⟨ts', Or.inr ⟨stmt, by cases h; exact hs⟩⟩
    | failed error =>
      -- A statement that has been read has not failed.
      obtain ⟨v, kind, ts₁, -, -, hkind⟩ := stmtKind_cases ts
      cases hexpr : expression nestingLimit .loosest ts₁ with
      | ok e ts₂ =>
        by_cases hsemicolon : ts₂.current.kind = .semicolon
        · rw [statement_of_semicolon hkind hexpr hsemicolon] at hs
          cases hs
        · rw [statement_of_ne_semicolon hkind hexpr hsemicolon] at hs
          cases hs
      | error error' ts₂ =>
        rw [statement_of_error hkind hexpr] at hs
        cases hs
  · rename_i error' ts' hs
    exact ⟨ts', Or.inl (by cases h; exact hs)⟩

/-- Where the parser meets an error, the tokens it has read begin a statement, and with the
token it stands at they begin none. -/
theorem Meets.viable {ts ts' : TokenStream} {error : SyntaxError} (h : Meets ts error ts') :
    ∃ w, ts = ts'.prepend w ∧ Viable w ∧
      (error.Misplaced → error.span = ts'.current.span ∧ ¬ Viable (w ++ [ts'.current])) := by
  obtain ⟨v, kind, ts₁, hv, rfl, hkind, hopens⟩ := stmtKind_opens ts
  cases hexpr : expression nestingLimit .loosest ts₁ with
  | ok e ts₂ =>
    obtain ⟨⟨w, c, rfl, hw, -⟩, hstop⟩ := expression_sound hexpr
    by_cases hs : ts₂.current.kind = .semicolon
    · rw [Meets, statement_of_semicolon hkind hexpr hs] at h
      rcases h with h | ⟨_, h⟩ <;> cases h
    · rw [Meets, statement_of_ne_semicolon hkind hexpr hs] at h
      rcases h with h | ⟨_, h⟩
      · cases h
      · cases h
        refine ⟨v ++ w, by simp, (Begins.of_derives hw).viable hv, fun _ => ⟨rfl, ?_⟩⟩
        apply not_viable_of_after
        have hnone : Due.afterOperator 0 ts'.current.kind = none :=
          Due.afterOperator_eq_none hstop (absurd rfl) (fun _ => hs)
        rw [hopens w ts' rfl, Due.after?_append, hw.after?_eq]
        exact (Due.after?_singleton _ _).trans hnone
  | error error' ts₂ =>
    obtain ⟨w, rfl, hw⟩ := expression_breaks hexpr
    rw [Meets, statement_of_error hkind hexpr] at h
    rcases h with h | ⟨_, h⟩
    · cases h
      refine ⟨v ++ w, by simp, hw.begins.viable hv, fun hm => ?_⟩
      obtain ⟨hspan, hrefused⟩ := hw.refused hm
      refine ⟨hspan, not_viable_of_after ?_⟩
      rw [hopens w ts' rfl]
      exact hrefused 0
    · cases h

/-! ## All issues of a text -/

/-- The streams at which the attempts at statements start. -/
def attemptStreams (ts : TokenStream) : List TokenStream :=
  if _h : ts.pending = [] then [] else ts :: attemptStreams (attempt ts).2
termination_by ts.pending.length
decreasing_by exact length_attempt_lt _h

theorem attempts_eq_map (ts : TokenStream) :
    attempts ts = (attemptStreams ts).map fun ts => (attempt ts).1 := by
  fun_induction attemptStreams ts with
  | case1 ts h => rw [attempts_of_nil h, List.map_nil]
  | case2 ts h ih => rw [attempts_of_ne_nil h, ih, List.map_cons]

/-- **Viable prefixes.** Each issue of a text comes from an attempt at a statement. Unless the
nesting or a number is to blame, it is at the token where the parser stands: the tokens that
the attempt has read until then begin a statement of the grammar, and with that token, which
may be the end of input, they begin none. -/
theorem parseProgram_viable_prefix (source : String) :
    ∃ p : Parser Collector,
      Parser.parseProgram (.ofLexer (.ofSource source) {}) =
        .ok (!p.reporter.collected.isEmpty, (parse source).program) p ∧
      p.reporter.collected =
        ((attemptStreams ⟨lex source, endSpan source⟩).filterMap
          fun ts => (attempt ts).1.error?).map SyntaxError.toIssue ∧
      ∀ ts ∈ attemptStreams ⟨lex source, endSpan source⟩, ∀ error,
        (attempt ts).1.error? = some error → error.cause ≠ .tooDeep →
        (∀ text, error.cause ≠ .invalidNumber text) →
        ∃ (w : List Token) (ts' : TokenStream), Meets ts error ts' ∧ ts = ts'.prepend w ∧
          error.span = ts'.current.span ∧ Viable w ∧ ¬ Viable (w ++ [ts'.current]) := by
  obtain ⟨p, hrun, hissues⟩ := Parser.parseProgram_collector source
  refine ⟨p, by rw [hissues]; exact hrun, ?_, ?_⟩
  · rw [hissues, parse_eq, attempts_eq_map]
    exact congrArg (List.map SyntaxError.toIssue) List.filterMap_map
  · intro ts _ error herror hdeep hnumber
    obtain ⟨ts', hmeets⟩ := exists_meets herror
    obtain ⟨w, hw, hviable, hrefused⟩ := hmeets.viable
    obtain ⟨hspan, hnot⟩ := hrefused ⟨hdeep, hnumber⟩
    exact ⟨w, ts', hmeets, hw, hspan, hviable, hnot⟩

end ExprLang
