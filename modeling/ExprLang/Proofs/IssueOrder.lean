import ExprLang.Proofs.Recovery
import ExprLang.Proofs.Tiling

/-!
# Issues are faithful and ordered

Every issue stands at a token or at the end of input, and its message says of this token what is
true of it. Issues come in the order of the text. Two of them meet at one token only where a
statement without its semicolon is followed by one that cannot be read.

* `Token.Justifies t cause`: the token is as an error with this cause says.
* `Cause.Known`, `Cause.Known.message_inj`: the errors that there are have different messages.
* `Blames.justified`, `attempt_justified`, `attempts_justified`: the errors of a run, of an attempt
  and of all attempts are about tokens.
* `Segmented.errors_pairwise`: the errors of segments in order.
* `Segmented.errorsAt_cases`: the errors of segments at one place.
* `parseProgram_issues_faithful`: all issues of a text.
-/

namespace ExprLang

open Parse Text

/-! ## What an error says -/

/-- The token is as an error with this cause says. -/
def Token.Justifies (t : Token) : Cause → Prop
  | .unexpectedCharacter text => t.kind = .invalid ∧ t.lexeme = text
  | .unterminatedString => t.kind = .unterminatedString
  | .expectedExpression found => found = t.describe ∧
      t.kind ∈ [.identifier, .keyword .print, .closeParen, .semicolon, .operator .add,
        .operator .mul, .operator .div, .endOfInput]
  | .expectedAfter expected _ found =>
      found = t.describe ∧ t.kind.name ≠ expected ∧ ∀ op, t.kind ≠ .operator op
  | .invalidNumber text => t.kind = .number ∧ t.lexeme = text ∧ ¬ t.Readable
  | .tooDeep => True

/-- The errors that there are. Only a semicolon or a closing parenthesis is ever expected, and only
after an expression. -/
inductive Cause.Known : Cause → Prop
  | character (text : String) : Known (.unexpectedCharacter text)
  | string : Known .unterminatedString
  | expression (found : String) : Known (.expectedExpression found)
  | semicolon (found : String) :
      Known (.expectedAfter TokenKind.semicolon.name "expression" found)
  | closeParen (found : String) :
      Known (.expectedAfter TokenKind.closeParen.name "expression" found)
  | number (text : String) : Known (.invalidNumber text)
  | depth : Known .tooDeep

/-- How a message starts. The first eleven characters tell what is wrong. -/
def Cause.heading : Cause → String
  | .unexpectedCharacter _ => "Unexpected "
  | .unterminatedString => "Unterminate"
  | .expectedExpression _ => "Expected an"
  | .expectedAfter expected _ _ =>
      if expected = TokenKind.semicolon.name then "Expected ';" else "Expected ')"
  | .invalidNumber _ => "Invalid num"
  | .tooDeep => "Expression "

theorem Cause.Known.take_message {c : Cause} (h : c.Known) :
    c.message.toList.take 11 = c.heading.toList := by
  cases h with
  | character text =>
    change ("Unexpected character '" ++ text ++ "'.").toList.take 11 = "Unexpected ".toList
    simp
  | expression found =>
    change ("Expected an expression, found " ++ found ++ ".").toList.take 11 = "Expected an".toList
    simp
  | semicolon found =>
    change ("Expected ';' after expression, found " ++ found ++ ".").toList.take 11 =
      "Expected ';".toList
    simp
  | closeParen found =>
    change ("Expected ')' after expression, found " ++ found ++ ".").toList.take 11 =
      "Expected ')".toList
    simp
  | number text =>
    change ("Invalid number literal '" ++ text ++ "'.").toList.take 11 = "Invalid num".toList
    simp
  | string | depth => rfl

theorem wrap_inj (front back : String) {x y : String}
    (h : front ++ x ++ back = front ++ y ++ back) : x = y :=
  (String.append_right_inj front).mp ((String.append_left_inj back).mp h)

/-- The message of an error tells its cause. -/
theorem Cause.Known.message_inj {a b : Cause} (ha : a.Known) (hb : b.Known)
    (h : a.message = b.message) : a = b := by
  have hheading : a.heading = b.heading := by
    apply String.toList_injective
    rw [← ha.take_message, ← hb.take_message, h]
  -- Two different causes have different headings; for two of one sort the texts are the same.
  cases ha <;> cases hb
  case character.character => exact congrArg _ (wrap_inj "Unexpected character '" "'." h)
  case expression.expression => exact congrArg _ (wrap_inj "Expected an expression, found " "." h)
  case semicolon.semicolon =>
    exact congrArg _ (wrap_inj "Expected ';' after expression, found " "." h)
  case closeParen.closeParen =>
    exact congrArg _ (wrap_inj "Expected ')' after expression, found " "." h)
  case number.number => exact congrArg _ (wrap_inj "Invalid number literal '" "'." h)
  case string.string | depth.depth => rfl
  all_goals simp [heading, TokenKind.name] at hheading

/-! ## Errors at tokens -/

/-- The tokens of a stream, with the end of input behind them. -/
def TokenStream.tokens (ts : TokenStream) : List Token := ts.pending ++ [.endOfInput ts.stop]

theorem TokenStream.tokens_prepend (w : List Token) (ts : TokenStream) :
    (ts.prepend w).tokens = w ++ ts.tokens :=
  List.append_assoc ..

theorem TokenStream.current_mem_tokens (ts : TokenStream) : ts.current ∈ ts.tokens := by
  obtain ⟨pending, stop⟩ := ts
  cases pending <;> exact List.mem_cons_self

/-- The error is at one of the tokens, and says of it what is true of it. -/
def JustifiedAt (tokens : List Token) (error : SyntaxError) : Prop :=
  ∃ t ∈ tokens, error.span = t.span ∧ error.cause.Known ∧ t.Justifies error.cause

theorem JustifiedAt.mono {v w : List Token} {error : SyntaxError} (h : JustifiedAt v error)
    (hv : ∀ t ∈ v, t ∈ w) : JustifiedAt w error := by
  obtain ⟨t, ht, herror⟩ := h
  exact ⟨t, hv t ht, herror⟩

theorem Token.ne_operator {t : Token} (h : t.operator? .loosest = none) (op : BinaryOp) :
    t.kind ≠ .operator op := by
  intro hk
  have hle := operator?_eq_none_iff.mp h op hk
  exact Nat.not_lt.mpr hle op.loosest_lt_strength

/-- No other kind of token is named like the two that are expected. -/
theorem TokenKind.name_ne {kind : TokenKind} :
    (kind ≠ .semicolon → kind.name ≠ semicolon.name) ∧
      (kind ≠ .closeParen → kind.name ≠ closeParen.name) := by
  cases kind with
  | keyword word => rcases word with _ | _ | _ <;> decide
  | operator op => cases op <;> decide
  | identifier | number | string | unterminatedString | openParen | closeParen | semicolon
  | invalid | endOfInput => decide

theorem Token.refusal_justified {t : Token} (h : ¬ t.StartsOperand) :
    t.refusal.Known ∧ t.Justifies t.refusal := by
  simp only [StartsOperand, IsLiteral, not_or, not_exists] at h
  obtain ⟨⟨hnumber, hstring, hbool⟩, hsub, hopen⟩ := h
  unfold refusal
  cases hk : t.kind with
  | number => exact absurd hk hnumber
  | string => exact absurd hk hstring
  | openParen => exact absurd hk hopen
  | invalid => exact ⟨.character _, hk, rfl⟩
  | unterminatedString => exact ⟨.string, hk⟩
  | keyword word =>
    cases word with
    | print => exact ⟨.expression _, rfl, by simp [hk]⟩
    | bool value => exact absurd hk (hbool value)
  | operator op =>
    cases op with
    | sub => exact absurd hk hsub
    | add | mul | div => exact ⟨.expression _, rfl, by simp [hk]⟩
  | identifier | closeParen | semicolon | endOfInput =>
    exact ⟨.expression _, rfl, by simp [hk]⟩

/-- A run that breaks off blames a token for what is true of it. -/
theorem Blames.justified {w : List Token} {next : Token} {error : SyntaxError}
    (h : Blames w next error) : JustifiedAt (w ++ [next]) error := by
  cases h with
  | @number t ht hk hn =>
    have hread : ¬ t.Readable := by
      rw [← hk.exists_literal?_iff, hn]
      rintro ⟨_, he⟩
      cases he
    have hnumber : t.kind = .number := by
      by_contra hne
      exact hread (.of_ne hne)
    exact ⟨t, List.mem_append_left _ ht, rfl, .number _, hnumber, rfl, hread⟩
  | operand h =>
    obtain ⟨hknown, hjustifies⟩ := Token.refusal_justified h
    exact ⟨next, by simp, rfl, hknown, hjustifies⟩
  | close hk hop =>
    exact ⟨next, by simp, rfl, .closeParen _, rfl, TokenKind.name_ne.2 hk, Token.ne_operator hop⟩
  | tooDeep => exact ⟨next, by simp, rfl, .depth, trivial⟩

/-- The error of an attempt is about a token that was still unread. -/
theorem attempt_justified {ts : TokenStream} {error : SyntaxError}
    (h : (attempt ts).1.error? = some error) : JustifiedAt ts.tokens error := by
  obtain ⟨v, kind, ts₁, -, rfl, hkind⟩ := stmtKind_cases ts
  rw [TokenStream.tokens_prepend]
  cases hexpr : expression nestingLimit .loosest ts₁ with
  | ok e ts₂ =>
    obtain ⟨⟨w, c, rfl, -, -⟩, hstop⟩ := expression_sound hexpr
    by_cases hs : ts₂.current.kind = .semicolon
    · rw [attempt_of_ok (statement_of_semicolon hkind hexpr hs)] at h
      cases h
    · rw [attempt_of_ok (statement_of_ne_semicolon hkind hexpr hs)] at h
      cases h
      have hmem : ts₂.current ∈ v ++ (ts₂.prepend w).tokens := by
        rw [TokenStream.tokens_prepend]
        exact List.mem_append_right v (List.mem_append_right w ts₂.current_mem_tokens)
      exact ⟨_, hmem, rfl, .semicolon _, rfl, TokenKind.name_ne.1 hs, Token.ne_operator hstop⟩
  | error error' ts₂ =>
    have hends := expression_endsWithin nestingLimit .loosest ts₁
    rw [hexpr] at hends
    obtain ⟨w, rfl, -, hblame⟩ := hends
    rw [attempt_of_error (statement_of_error hkind hexpr)] at h
    cases h
    apply hblame.justified.mono
    intro t ht
    rw [TokenStream.tokens_prepend]
    apply List.mem_append_right v
    rcases List.mem_append.mp ht with ht | ht
    · exact List.mem_append_left _ ht
    · rw [List.mem_singleton.mp ht]
      exact List.mem_append_right w ts₂.current_mem_tokens

theorem attempts_justified {ts : TokenStream} (hts : InOrder ts.pending) :
    ∀ a ∈ attempts ts, ∀ error, a.error? = some error → JustifiedAt ts.tokens error := by
  fun_induction attempts ts with
  | case1 ts hnil => simp
  | case2 ts hne ih =>
    obtain ⟨w, hw, -⟩ := attempt_segment hne hts
    have htokens : ts.tokens = w ++ (attempt ts).2.tokens := by
      conv_lhs => rw [hw, TokenStream.tokens_prepend]
    have hpending : ts.pending = w ++ (attempt ts).2.pending := by
      simpa using congrArg TokenStream.pending hw
    rw [hpending] at hts
    intro a ha error herror
    rcases List.mem_cons.mp ha with rfl | ha
    · exact attempt_justified herror
    · apply (ih hts.right a ha error herror).mono
      intro t ht
      rw [htokens]
      exact List.mem_append_right w ht

/-! ## Errors in the order of the text -/

/-- The tokens of a stream are in order, and the end of input stands behind them. -/
structure TokenStream.Ordered (ts : TokenStream) : Prop where
  tokens : InOrder ts.pending
  stop : ∀ t ∈ ts.pending, t.span.stop ≤ ts.stop.start

namespace TokenStream.Ordered

variable {ts : TokenStream} {w : List Token}

theorem of_prepend (h : (ts.prepend w).Ordered) : ts.Ordered :=
  ⟨h.tokens.right, fun t ht => h.stop t (List.mem_append_right w ht)⟩

theorem stop_le_current (h : (ts.prepend w).Ordered) :
    ∀ t ∈ w, t.span.stop ≤ ts.current.span.start := by
  intro t ht
  rcases ts.current_cases with hmem | hend
  · exact (List.pairwise_append.mp h.tokens.apart).2.2 t ht _ hmem
  · rw [hend]
    exact h.stop t (List.mem_append_left _ ht)

theorem current_start_le (h : ts.Ordered) :
    (∀ t ∈ ts.pending, ts.current.span.start ≤ t.span.start) ∧
      ts.current.span.start ≤ ts.stop.start := by
  obtain ⟨pending, stop⟩ := ts
  cases pending with
  | nil => exact ⟨by simp, Nat.le_refl _⟩
  | cons first rest =>
    refine ⟨fun t ht => h.tokens.start_le ht, ?_⟩
    have hlt := h.tokens.nonempty first List.mem_cons_self
    have hle := h.stop first List.mem_cons_self
    exact Nat.le_trans (Nat.le_of_lt hlt) hle

end TokenStream.Ordered

/-- The stream that the segments make up. -/
def streamOf (stop : Span) (segments : List (List Token × Attempt)) : TokenStream :=
  ⟨segments.flatMap Prod.fst, stop⟩

def errorsOf (segments : List (List Token × Attempt)) : List SyntaxError :=
  segments.filterMap fun s => s.2.error?

/-- The errors of segments that are at one place. -/
def errorsAt (s : Span) (segments : List (List Token × Attempt)) : List SyntaxError :=
  (errorsOf segments).filter fun error => error.span = s

theorem streamOf_cons (stop : Span) (w : List Token) (a : Attempt)
    (rest : List (List Token × Attempt)) :
    streamOf stop ((w, a) :: rest) = (streamOf stop rest).prepend w := rfl

theorem errorsOf_cons (w : List Token) (a : Attempt) (rest : List (List Token × Attempt)) :
    errorsOf ((w, a) :: rest) = a.error?.toList ++ errorsOf rest := by
  unfold errorsOf
  cases h : a.error? <;> simp [h]

theorem errorsAt_cons (s : Span) (w : List Token) (a : Attempt)
    (rest : List (List Token × Attempt)) :
    errorsAt s ((w, a) :: rest) =
      (a.error?.toList.filter fun error => error.span = s) ++ errorsAt s rest := by
  rw [errorsAt, errorsOf_cons, List.filter_append]
  rfl

section

variable {stop : Span} {w : List Token} {a : Attempt} {segments rest : List (List Token × Attempt)}

theorem Segmented.current_start_le (h : Segmented stop segments)
    (ho : (streamOf stop segments).Ordered) :
    ∀ error ∈ errorsOf segments,
      (streamOf stop segments).current.span.start ≤ error.span.start := by
  intro error herror
  obtain ⟨s, hs, herror⟩ := List.mem_filterMap.mp herror
  obtain ⟨htokens, hstop⟩ := ho.current_start_le
  rcases h.error_span s hs error herror with ⟨t, ht, hspan⟩ | hspan
  · rw [hspan]
    exact htokens t ht
  · rw [hspan]
    exact hstop

/-- No error of the segments behind is about a token before them. -/
theorem Segmented.stop_le (h : Segmented stop rest) (ho : ((streamOf stop rest).prepend w).Ordered)
    {error : SyntaxError} (herror : error ∈ errorsOf rest) :
    ∀ t ∈ w, t.span.stop ≤ error.span.start := by
  intro t ht
  exact Nat.le_trans (ho.stop_le_current t ht) (h.current_start_le ho.of_prepend error herror)

theorem Segmented.errors_pairwise (h : Segmented stop segments)
    (ho : (streamOf stop segments).Ordered) :
    (errorsOf segments).Pairwise fun e e' => e.span.start ≤ e'.span.start := by
  induction segments with
  | nil => exact .nil
  | cons s rest ih =>
    obtain ⟨w, a⟩ := s
    obtain ⟨hsegment, hrest⟩ := h
    rw [streamOf_cons] at ho
    have hpairwise := ih hrest ho.of_prepend
    rw [errorsOf_cons]
    cases ha : a.error? with
    | none => exact hpairwise
    | some error =>
      refine List.pairwise_cons.mpr ⟨fun error' herror' => ?_, hpairwise⟩
      rcases hsegment.error_span ha with ⟨t, ht, hspan⟩ | hspan
      · have hlt := ho.tokens.nonempty t (List.mem_append_left _ ht)
        have hle := hrest.stop_le ho herror' t ht
        rw [hspan]
        omega
      · rw [hspan]
        exact hrest.current_start_le ho.of_prepend error' herror'

/-! ## Errors at one place -/

theorem Segmented.errorsAt_before (h : Segmented stop rest)
    (ho : ((streamOf stop rest).prepend w).Ordered) {t : Token} (ht : t ∈ w) :
    errorsAt t.span rest = [] := by
  apply List.filter_eq_nil_iff.mpr
  intro error herror hspan
  have hle := h.stop_le ho herror t ht
  have hlt := ho.tokens.nonempty t (List.mem_append_left _ ht)
  rw [of_decide_eq_true hspan] at hle
  omega

/-- At the first token of segments there is at most an error of the first of them. -/
theorem Segmented.errorsAt_first {t : Token} (h : Segmented stop ((t :: w, a) :: rest))
    (ho : (streamOf stop ((t :: w, a) :: rest)).Ordered) :
    errorsAt t.span ((t :: w, a) :: rest) = [] ∨
      ∃ error, a = .failed error ∧ errorsAt t.span ((t :: w, a) :: rest) = [error] := by
  obtain ⟨hsegment, hrest⟩ := h
  rw [streamOf_cons] at ho
  rw [errorsAt_cons, hrest.errorsAt_before ho List.mem_cons_self, List.append_nil]
  cases ha : a.error? with
  | none => exact Or.inl rfl
  | some error =>
    by_cases hspan : error.span = t.span
    · right
      refine ⟨error, ?_, by simp [hspan]⟩
      rcases hsegment.error_cases ha with ⟨hfailed, -⟩ | ⟨-, hissue⟩ | ⟨hfailed, -⟩
      · exact hfailed
      -- The token behind the segment is not its first one.
      · have hle := ho.stop_le_current t List.mem_cons_self
        have hlt := ho.tokens.nonempty t List.mem_cons_self
        have hcurrent : error.span = (streamOf stop rest).current.span :=
          congrArg Issue.span hissue
        rw [← hcurrent, hspan] at hle
        omega
      · exact hfailed
    · exact Or.inl (by simp [hspan])

/-- Two errors are at one place only if the first is about a semicolon, and the token that stands
there instead starts a statement that has failed. -/
theorem Segmented.errorsAt_cases (h : Segmented stop segments)
    (ho : (streamOf stop segments).Ordered) (s : Span) :
    (errorsAt s segments).length ≤ 1 ∨
      ∃ t w first second, (t :: w, .failed second) ∈ segments ∧ first.toIssue =
        ⟨"Expected ';' after expression, found " ++ t.describe ++ ".", s⟩ ∧ t.span = s ∧
        errorsAt s segments = [first, second] := by
  induction segments with
  | nil => exact Or.inl (Nat.zero_le 1)
  | cons segment rest ih =>
    obtain ⟨w, a⟩ := segment
    obtain ⟨hsegment, hrest⟩ := h
    rw [streamOf_cons] at ho
    rw [errorsAt_cons]
    by_cases hat : ∃ error, a.error? = some error ∧ error.span = s
    · obtain ⟨error, ha, rfl⟩ := hat
      have hhere : (a.error?.toList.filter fun e => e.span = error.span) = [error] := by
        simp [ha]
      rw [hhere]
      rcases hsegment.error_cases ha with ⟨-, t, ht, hspan⟩ | ⟨-, hissue⟩ | ⟨-, hnil, -⟩
      · rw [hspan, hrest.errorsAt_before ho ht]
        exact Or.inl (Nat.le_refl 1)
      · cases rest with
        | nil => exact Or.inl (Nat.le_refl 1)
        | cons next rest =>
          obtain ⟨w', a'⟩ := next
          obtain ⟨t, w', rfl⟩ := List.exists_cons_of_ne_nil hrest.1.ne_nil
          change error.toIssue =
            ⟨"Expected ';' after expression, found " ++ t.describe ++ ".", t.span⟩ at hissue
          have hspan : error.span = t.span := congrArg Issue.span hissue
          rw [hspan]
          rcases hrest.errorsAt_first ho.of_prepend with hnone | ⟨error', rfl, hone⟩
          · rw [hnone]
            exact Or.inl (Nat.le_refl 1)
          · rw [hone]
            exact Or.inr ⟨t, w', error, error', by simp, hissue, rfl, rfl⟩
      · cases rest with
        | nil => exact Or.inl (Nat.le_refl 1)
        | cons next rest =>
          have hempty : next.1 ++ rest.flatMap Prod.fst = [] := hnil
          exact absurd (List.append_eq_nil_iff.mp hempty).1 hrest.1.ne_nil
    · have hhere : (a.error?.toList.filter fun e => e.span = s) = [] := by
        apply List.filter_eq_nil_iff.mpr
        intro error herror hspan
        exact hat ⟨error, by simpa using herror, of_decide_eq_true hspan⟩
      rw [hhere, List.nil_append]
      rcases ih hrest ho.of_prepend with hle | ⟨t, w', first, second, hmem, htwo⟩
      · exact Or.inl hle
      · exact Or.inr ⟨t, w', first, second, List.mem_cons_of_mem _ hmem, htwo⟩

end

/-! ## All issues of a text -/

/-- The issue is at the token, and its message says of the token what is true of it. -/
structure Issue.Faithful (issue : Issue) (t : Token) : Prop where
  span : issue.span = t.span
  known : ∃ cause : Cause, cause.Known ∧ issue.message = cause.message
  justified : ∀ cause : Cause, cause.Known → issue.message = cause.message → t.Justifies cause

theorem JustifiedAt.exists_faithful {tokens : List Token} {error : SyntaxError}
    (h : JustifiedAt tokens error) : ∃ t ∈ tokens, error.toIssue.Faithful t := by
  obtain ⟨t, ht, hspan, hknown, hjustifies⟩ := h
  refine ⟨t, ht, hspan, ⟨_, hknown, rfl⟩, ?_⟩
  intro cause hcause hmessage
  rw [← hknown.message_inj hcause hmessage]
  exact hjustifies

theorem ordered_lex (source : String) : TokenStream.Ordered ⟨lex source, endSpan source⟩ :=
  ⟨inOrder_lex source, fun _ ht => stop_le_of_mem_lex ht⟩

/-- The span of a token tells which one it is. The end of input has one of its own, because it
is empty. -/
theorem TokenStream.Ordered.eq_of_span_eq {ts : TokenStream} (h : ts.Ordered) {t u : Token}
    (ht : t ∈ ts.pending) (hu : u ∈ ts.tokens) (hspan : t.span = u.span) : t = u := by
  rcases List.mem_append.mp hu with hu | hu
  · exact h.tokens.eq_of_stop_eq ht hu (congrArg Span.stop hspan)
  · obtain rfl := List.mem_singleton.mp hu
    have hlt := h.tokens.nonempty t ht
    have hle := h.stop t ht
    have hstart : t.span.start = ts.stop.start := congrArg Span.start hspan
    omega

/-- **Issues.** The issues of a text are the errors of its segments. Each is at a token, or at the
end of input, and its message says of this token what is true of it. No issue starts before the
one that was reported before it. A token has at most one issue, or else it stands where the
semicolon of a statement is missing and is the first of the next one, which has failed. -/
theorem parseProgram_issues_faithful (source : String) :
    ∃ (segments : List (List Token × Attempt)) (p : Parser Collector),
      lex source = segments.flatMap Prod.fst ∧ Segmented (endSpan source) segments ∧
      Parser.parseProgram (.ofLexer (.ofSource source) {}) =
        .ok (!p.reporter.collected.isEmpty, ⟨segments.filterMap (·.2.stmt?)⟩) p ∧
      p.reporter.collected = (segments.filterMap (·.2.error?)).map SyntaxError.toIssue ∧
      (∀ issue ∈ p.reporter.collected,
        ∃ t ∈ lex source ++ [.endOfInput (endSpan source)], issue.Faithful t) ∧
      p.reporter.collected.Pairwise (fun i j => i.span.start ≤ j.span.start) ∧
      ∀ t ∈ lex source ++ [.endOfInput (endSpan source)],
        (p.reporter.collected.filter fun issue => issue.span = t.span).length ≤ 1 ∨
          ∃ w error, (t :: w, .failed error) ∈ segments ∧
            (p.reporter.collected.filter fun issue => issue.span = t.span) =
              [⟨"Expected ';' after expression, found " ++ t.describe ++ ".", t.span⟩,
                error.toIssue] := by
  obtain ⟨segments, p, hattempts, htokens, hsegmented, hrun, hissues⟩ :=
    exists_attempted_run source
  have hcollected : p.reporter.collected = (errorsOf segments).map SyntaxError.toIssue := hissues
  have hordered := ordered_lex source
  have hstream : streamOf (endSpan source) segments = ⟨lex source, endSpan source⟩ :=
    congrArg (TokenStream.mk · _) htokens.symm
  refine ⟨segments, p, htokens, hsegmented, hrun, hissues, ?_, ?_, ?_⟩
  · rw [hcollected]
    intro issue hissue
    obtain ⟨error, herror, rfl⟩ := List.mem_map.mp hissue
    obtain ⟨s, hs, herror⟩ := List.mem_filterMap.mp herror
    have ha : s.2 ∈ attempts ⟨lex source, endSpan source⟩ := by
      rw [hattempts]
      exact List.mem_map_of_mem hs
    exact (attempts_justified (inOrder_lex source) s.2 ha error herror).exists_faithful
  · rw [hcollected]
    apply List.pairwise_map.mpr
    apply hsegmented.errors_pairwise
    rw [hstream]
    exact hordered
  · intro t ht
    have hat : (p.reporter.collected.filter fun issue => issue.span = t.span) =
        (errorsAt t.span segments).map SyntaxError.toIssue := by
      rw [hcollected, List.filter_map]
      rfl
    rw [hat]
    rcases hsegmented.errorsAt_cases (hstream ▸ hordered) t.span with
      hle | ⟨t', w, first, second, hmem, hfirst, hspan, htwo⟩
    · left
      rw [List.length_map]
      exact hle
    · right
      have ht' : t' ∈ lex source := by
        rw [htokens]
        exact List.mem_flatMap_of_mem hmem List.mem_cons_self
      obtain rfl := hordered.eq_of_span_eq ht' ht hspan
      refine ⟨w, second, hmem, ?_⟩
      rw [htwo, List.map_cons, hfirst]
      rfl

end ExprLang
