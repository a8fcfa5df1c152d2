import ExprLang.Proofs.CallStack
import ExprLang.Proofs.Reporting

/-!
# How deep calls nest, and how far they read

The depth of a climber is never less than the number of calls in progress, for a frame that
restores a depth restores at least the number of the calls below it. So the check of the depth
bounds the calls as well. A climber moves its stream on at an operand, at an operator and at
a closing parenthesis, and therefore never over a semicolon or the end of input.

* `Climber.Within`, `Climber.HasRead`: what every step preserves, about depths and about tokens.
* `Parser.round`: one round of the loop that reads a program.
* `calls_balanced_and_rounds_end`: calls and rounds together.
-/

namespace ExprLang

open StateTransition

/-! ## Invariants -/

theorem reaches_preserves {σ : Type} {step : σ → Option σ} {P : σ → Prop} {c c' : σ}
    (hstep : ∀ c c', P c → step c = some c' → P c') (h : Reaches step c c') (hc : P c) : P c' := by
  induction h with
  | refl => exact hc
  | tail _ hlast ih => exact hstep _ _ ih hlast

/-- The number of calls among the frames that have got past their check. -/
def Frame.entered : List Frame → Nat
  | [] => 0
  | .first _ :: frames | .right .. :: frames => entered frames + 1
  | .restore _ :: frames | .negate _ :: frames | .group _ :: frames => entered frames

def Control.entered : Control → Nat
  | .loop .. => 1
  | .call _ | .operand | .answer _ => 0

namespace Climber

/-- The number of calls that are between their check and the end of their loop. Each of them waits
for its first operand or for a right side, or stands in its loop. -/
def activations (c : Climber) : Nat := Frame.entered c.frames + c.control.entered

/-! ## Operands -/

/-- An operand reads a token and has its answer or waits for a call, or it fails and reads
nothing. -/
theorem operand_cases (c : Climber) :
    c.operand = c.fail Token.refusal ∨
      c.stream.current.kind ≠ .semicolon ∧ c.stream.current.kind ≠ .endOfInput ∧
        ((∃ result, c.operand = c.consume.answer result) ∨
          c.operand = (c.consume.push (.negate c.stream.current)).goto (.call .sign) ∨
          c.operand = (c.consume.push (.group c.stream.current)).goto (.call .loosest)) := by
  unfold operand
  dsimp only
  split
  · rename_i hk
    refine Or.inr ⟨by simp [hk], by simp [hk], Or.inl ?_⟩
    split <;> exact ⟨_, rfl⟩
  · rename_i hk
    exact Or.inr ⟨by simp [hk], by simp [hk], Or.inl ⟨_, rfl⟩⟩
  · rename_i hk
    exact Or.inr ⟨by simp [hk], by simp [hk], Or.inl ⟨_, rfl⟩⟩
  · rename_i hk
    exact Or.inr ⟨by simp [hk], by simp [hk], Or.inr (Or.inl rfl)⟩
  · rename_i hk
    exact Or.inr ⟨by simp [hk], by simp [hk], Or.inr (Or.inr rfl)⟩
  · exact Or.inl rfl

/-! ## Depths -/

/-- The depths to be restored are within the limit, and not less than the number of calls below
them, counted on top of `base`. -/
def Saves (base : Nat) : List Frame → Prop
  | [] => True
  | .restore saved :: frames =>
    (base + Frame.entered frames ≤ saved ∧ saved ≤ nestingLimit) ∧ Saves base frames
  | _ :: frames => Saves base frames

/-- The depth is not less than the number of calls, on top of `base`. It is past the limit only
on the way back from a failed check. -/
structure Within (base : Nat) (c : Climber) : Prop where
  saves : Saves base c.frames
  le_depth : base + c.activations ≤ c.depth
  le_limit : base + c.activations ≤ nestingLimit
  depth_le : c.depth ≤ nestingLimit + 1
  failed : nestingLimit < c.depth → ∃ error, c.control = .answer (.error error)

namespace Within

variable {base : Nat} {c c' : Climber} {frames : List Frame} {depth : Nat} {ts : TokenStream}
  {consumed : List Token}

theorem of_le (hsaves : Saves base c.frames) (hdepth : base + c.activations ≤ c.depth)
    (hlimit : c.depth ≤ nestingLimit) : Within base c where
  saves := hsaves
  le_depth := hdepth
  le_limit := hdepth.trans hlimit
  depth_le := hlimit.trans (Nat.le_succ _)
  failed := fun hlt => absurd hlimit (Nat.not_le_of_lt hlt)

/-- Only an error is answered from past the limit. -/
theorem depth_le_limit (h : Within base c)
    (hcontrol : ∀ error, c.control ≠ .answer (.error error)) : c.depth ≤ nestingLimit := by
  apply Nat.le_of_not_lt
  intro hlt
  obtain ⟨error, herror⟩ := h.failed hlt
  exact hcontrol error herror

theorem step_call {min : Strength} (h : Within base ⟨.call min, frames, depth, ts, consumed⟩)
    (hstep : step ⟨.call min, frames, depth, ts, consumed⟩ = some c') : Within base c' := by
  have hlimit : depth ≤ nestingLimit := h.depth_le_limit nofun
  have hdepth : base + Frame.entered frames ≤ depth := h.le_depth
  have hsaves : Saves base (.restore depth :: frames) := ⟨⟨hdepth, hlimit⟩, h.saves⟩
  rcases Nat.lt_or_ge depth nestingLimit with hlt | hge
  · rw [step_call_of_lt hlt] at hstep
    cases hstep
    -- The call is counted by its new frame, and the depth has gone up with it.
    exact .of_le hsaves (Nat.succ_le_succ hdepth) hlt
  · rw [step_call_of_le hge] at hstep
    cases hstep
    exact ⟨hsaves, hdepth.trans (Nat.le_succ _), h.le_limit, Nat.succ_le_succ hlimit,
      fun _ => ⟨_, rfl⟩⟩

theorem step_operand (h : Within base ⟨.operand, frames, depth, ts, consumed⟩) :
    Within base (operand ⟨.operand, frames, depth, ts, consumed⟩) := by
  have hlimit : depth ≤ nestingLimit := h.depth_le_limit nofun
  rcases operand_cases ⟨.operand, frames, depth, ts, consumed⟩ with
    heq | ⟨-, -, ⟨result, heq⟩ | heq | heq⟩
  all_goals
    rw [heq]
    exact .of_le h.saves h.le_depth hlimit

theorem step_loop {min : Strength} {lhs : Expr}
    (h : Within base ⟨.loop min lhs, frames, depth, ts, consumed⟩)
    (hstep : step ⟨.loop min lhs, frames, depth, ts, consumed⟩ = some c') : Within base c' := by
  have hlimit : depth ≤ nestingLimit := h.depth_le_limit nofun
  have hdepth : base + Frame.entered frames < depth := h.le_depth
  cases hop : ts.current.operator? min with
  | none =>
    rw [step_loop_stop hop] at hstep
    cases hstep
    exact .of_le h.saves (Nat.le_of_lt hdepth) hlimit
  | some op =>
    obtain ⟨t, ts, rfl, ht, hop⟩ := exists_prepend_of_operator? hop
    rcases Nat.lt_or_ge depth nestingLimit with hlt | hge
    · rw [step_loop_of_lt ht hop hlt] at hstep
      cases hstep
      -- The call is the one that stood in its loop; only the depth has gone up.
      exact .of_le h.saves (Nat.le_succ_of_le h.le_depth) hlt
    · rw [step_loop_of_le ht hop hge] at hstep
      cases hstep
      exact ⟨h.saves, Nat.le_succ_of_le (Nat.le_of_lt hdepth),
        (Nat.le_of_lt hdepth).trans hlimit, Nat.succ_le_succ hlimit, fun _ => ⟨_, rfl⟩⟩

theorem resume {frame : Frame} {e : Expr}
    (h : Within base ⟨.answer (.ok e), frame :: frames, depth, ts, consumed⟩) :
    Within base (resume ⟨.answer (.ok e), frames, depth, ts, consumed⟩ e frame) := by
  have hlimit : depth ≤ nestingLimit := h.depth_le_limit nofun
  cases frame with
  | restore saved =>
    obtain ⟨⟨hsaved, hlimit⟩, hsaves⟩ := h.saves
    exact .of_le hsaves hsaved hlimit
  | first | right | negate => exact .of_le h.saves h.le_depth hlimit
  | group left =>
    unfold Climber.resume
    dsimp only
    split
    · exact .of_le h.saves h.le_depth hlimit
    · exact .of_le h.saves h.le_depth hlimit

theorem unwind {frame : Frame} {error : SyntaxError}
    (h : Within base ⟨.answer (.error error), frame :: frames, depth, ts, consumed⟩) :
    Within base (unwind ⟨.answer (.error error), frames, depth, ts, consumed⟩ error frame) := by
  cases frame with
  | restore saved =>
    obtain ⟨⟨hsaved, hlimit⟩, hsaves⟩ := h.saves
    exact .of_le hsaves hsaved hlimit
  | first | right =>
    exact ⟨h.saves, (Nat.le_succ _).trans h.le_depth, (Nat.le_succ _).trans h.le_limit,
      h.depth_le, fun _ => ⟨error, rfl⟩⟩
  | negate | group =>
    exact ⟨h.saves, h.le_depth, h.le_limit, h.depth_le, fun _ => ⟨error, rfl⟩⟩

theorem step (h : Within base c) (hstep : c.step = some c') : Within base c' := by
  obtain ⟨control, frames, depth, ts, consumed⟩ := c
  cases control with
  | call min => exact h.step_call hstep
  | operand =>
    cases hstep
    exact h.step_operand
  | loop min lhs => exact h.step_loop hstep
  | answer result =>
    cases frames with
    | nil => cases hstep
    | cons frame frames =>
      cases result with
      | ok e =>
        cases hstep
        exact h.resume
      | error error =>
        cases hstep
        exact h.unwind

theorem start (h : base ≤ nestingLimit) (min : Strength) (ts : TokenStream) :
    Within base (start base min ts) :=
  .of_le trivial (Nat.le_refl base) h

end Within

/-! ## Tokens -/

/-- What was read of a stream was read off its front, and no semicolon and no end of input is
among it. Only `consume` changes what this speaks of. -/
structure HasRead (ts : TokenStream) (c : Climber) : Prop where
  stream_eq : ts = c.stream.prepend c.consumed
  kind_ne : ∀ t ∈ c.consumed, t.kind ≠ .semicolon ∧ t.kind ≠ .endOfInput

namespace HasRead

variable {ts : TokenStream} {c c' : Climber}

theorem consume (h : HasRead ts c) (hsemicolon : c.stream.current.kind ≠ .semicolon)
    (hend : c.stream.current.kind ≠ .endOfInput) : HasRead ts c.consume where
  stream_eq := by
    have hcurrent := TokenStream.eq_prepend_of_kind hend
    change ts = c.stream.advance.prepend (c.consumed ++ [c.stream.current])
    rw [← TokenStream.prepend_prepend, ← hcurrent]
    exact h.stream_eq
  kind_ne :=
    List.forall_mem_append.mpr ⟨h.kind_ne, List.forall_mem_singleton.mpr ⟨hsemicolon, hend⟩⟩

theorem enter (h : HasRead ts c) {next : Climber → Climber}
    (hnext : ∀ c, HasRead ts c → HasRead ts (next c)) : HasRead ts (c.enter next) := by
  unfold Climber.enter
  dsimp only
  split
  · exact ⟨h.stream_eq, h.kind_ne⟩
  · exact hnext _ ⟨h.stream_eq, h.kind_ne⟩

theorem operand (h : HasRead ts c) : HasRead ts c.operand := by
  rcases operand_cases c with heq | ⟨hsemicolon, hend, hcases⟩
  · rw [heq]
    exact ⟨h.stream_eq, h.kind_ne⟩
  · have hconsume := h.consume hsemicolon hend
    rcases hcases with ⟨result, heq⟩ | heq | heq
    all_goals
      rw [heq]
      exact ⟨hconsume.stream_eq, hconsume.kind_ne⟩

theorem resume (h : HasRead ts c) (e : Expr) (frame : Frame) : HasRead ts (c.resume e frame) := by
  cases frame with
  | restore | first | right | negate => exact ⟨h.stream_eq, h.kind_ne⟩
  | group left =>
    unfold Climber.resume
    dsimp only
    split
    · rename_i hclose
      have hconsume := h.consume (by simp [hclose]) (by simp [hclose])
      exact ⟨hconsume.stream_eq, hconsume.kind_ne⟩
    · exact ⟨h.stream_eq, h.kind_ne⟩

theorem unwind (h : HasRead ts c) (error : SyntaxError) (frame : Frame) :
    HasRead ts (c.unwind error frame) := by
  cases frame <;> exact ⟨h.stream_eq, h.kind_ne⟩

theorem step (h : HasRead ts c) (hstep : c.step = some c') : HasRead ts c' := by
  obtain ⟨control, frames, depth, stream, consumed⟩ := c
  cases control with
  | call min =>
    cases hstep
    have hpush : HasRead ts (push ⟨.call min, frames, depth, stream, consumed⟩ (.restore depth)) :=
      ⟨h.stream_eq, h.kind_ne⟩
    exact hpush.enter fun c hc => ⟨hc.stream_eq, hc.kind_ne⟩
  | operand =>
    cases hstep
    exact h.operand
  | loop min lhs =>
    unfold Climber.step at hstep
    dsimp only at hstep
    split at hstep
    · cases hstep
      exact ⟨h.stream_eq, h.kind_ne⟩
    · rename_i op hop
      cases hstep
      obtain ⟨hk, -⟩ := Token.operator?_eq_some_iff.mp hop
      have hconsume := h.consume (by simp [hk]) (by simp [hk])
      exact hconsume.enter fun c hc => ⟨hc.stream_eq, hc.kind_ne⟩
  | answer result =>
    cases frames with
    | nil => cases hstep
    | cons frame frames =>
      have hpop : HasRead ts ⟨.answer result, frames, depth, stream, consumed⟩ :=
        ⟨h.stream_eq, h.kind_ne⟩
      cases result with
      | ok e =>
        cases hstep
        exact hpop.resume e frame
      | error error =>
        cases hstep
        exact hpop.unwind error frame

theorem start (depth : Nat) (min : Strength) (ts : TokenStream) :
    HasRead ts (start depth min ts) :=
  ⟨rfl, nofun⟩

end HasRead

/-! ## Calls -/

theorem ended_inj {frames : List Frame} {depth : Nat} {consumed consumed' : List Token}
    {r r' : EStateM.Result SyntaxError TokenStream Expr}
    (h : ended frames depth consumed r = ended frames depth consumed' r') :
    consumed = consumed' ∧ r = r' := by
  cases r <;> cases r' <;> cases h <;> exact ⟨rfl, rfl⟩

/-- A call at some depth comes to an end, keeps within the limit until then, and reads tokens of
its statement only. -/
structure Balanced (depth : Nat) (min : Strength) (ts : TokenStream) : Prop where
  /-- The call ends as `expression` does, with an expression or an error, at its own depth. -/
  ends : ∃ consumed, ended [] depth consumed (expression (nestingLimit - depth) min ts) ∈
    eval step (start depth min ts)
  activations_le : ∀ c, Reaches step (start depth min ts) c →
    depth + c.activations ≤ nestingLimit
  depth_le : ∀ c, Reaches step (start depth min ts) c → c.depth ≤ nestingLimit + 1
  hasRead : ∀ c, Reaches step (start depth min ts) c → HasRead ts c
  /-- An expression has a token, and no operator after it could go on with it. -/
  progress : ∀ consumed e ts',
    ended [] depth consumed (.ok e ts') ∈ eval step (start depth min ts) →
      consumed ≠ [] ∧ ts'.current.operator? min = none

theorem balanced {depth : Nat} (h : depth ≤ nestingLimit) (min : Strength) (ts : TokenStream) :
    Balanced depth min ts := by
  have hwithin : ∀ c, Reaches step (start depth min ts) c → Within depth c := fun c hc =>
    reaches_preserves (fun _ _ => Within.step) hc (Within.start h min ts)
  have hread : ∀ c, Reaches step (start depth min ts) c → HasRead ts c := fun c hc =>
    reaches_preserves (fun _ _ => HasRead.step) hc (HasRead.start depth min ts)
  obtain ⟨_, consumed, rfl, hrun⟩ := call_answers h min ts
  have hends := mem_eval.mpr ⟨hrun, step_ended_nil ..⟩
  refine ⟨⟨consumed, hends⟩, fun c hc => (hwithin c hc).le_limit,
    fun c hc => (hwithin c hc).depth_le, hread, fun consumed' e ts' hend => ?_⟩
  obtain ⟨rfl, hexpr⟩ := ended_inj (Part.mem_unique hends hend)
  obtain ⟨-, hstop⟩ := expression_sound hexpr
  refine ⟨?_, hstop⟩
  rintro rfl
  have hfront : ts = ts' := (hread _ (mem_eval.mp hend).1).stream_eq
  have hlength := (reads_expression _ _).ok _ _ _ hexpr
  rw [hfront] at hlength
  omega

end Climber

/-! ## Rounds -/

theorem TokenStream.exists_prepend_afterSemicolon (ts : TokenStream) :
    ∃ w, ts = ts.afterSemicolon.prepend w := by
  rcases ts.afterSemicolon_cases with ⟨w, semicolon, hts, -, -⟩ | ⟨-, hts⟩
  · exact ⟨_, hts⟩
  · refine ⟨ts.pending, ?_⟩
    rw [hts, finish, prepend, List.append_nil]

theorem exists_prepend_attempt (ts : TokenStream) : ∃ w, ts = (attempt ts).2.prepend w := by
  rcases attempt_cases ts with ⟨w, _, _, _, ts₁, hts, -, -, -, hattempt⟩ |
    ⟨v, _, ts₁, error, ts₂, hts, -, hexpr, hattempt⟩
  · rw [hattempt]
    split
    · rename_i hs
      refine ⟨w ++ [ts₁.current], ?_⟩
      rw [← TokenStream.prepend_prepend, ← TokenStream.eq_prepend_of_kind (by simp [hs])]
      exact hts
    · exact ⟨w, hts⟩
  · have hends := expression_endsWithin nestingLimit .loosest ts₁
    rw [hexpr] at hends
    obtain ⟨u, hu, -, -⟩ := hends
    obtain ⟨w, hw⟩ := ts₂.exists_prepend_afterSemicolon
    refine ⟨v ++ (u ++ w), ?_⟩
    rw [hattempt, ← TokenStream.prepend_prepend, ← TokenStream.prepend_prepend, ← hw, ← hu]
    exact hts

theorem exists_prepend_attempt_of_ne_nil {ts : TokenStream} (h : ts.pending ≠ []) :
    ∃ w, w ≠ [] ∧ ts = (attempt ts).2.prepend w := by
  obtain ⟨w, hw⟩ := exists_prepend_attempt ts
  refine ⟨w, ?_, hw⟩
  rintro rfl
  have hlength := length_attempt_lt h
  rw [TokenStream.prepend_nil] at hw
  rw [← hw] at hlength
  exact Nat.lt_irrefl _ hlength

namespace Parser

variable {ρ : Type} [Reporter ρ]

/-- One round of the loop that reads a program. There is none at the end of input, and none is
completed where a report breaks off. -/
def round (p : Parser ρ) : Option (Parser ρ) :=
  if p.stream.pending = [] then none
  else
    match p.readStatement with
    | .ok _ q => some q
    | .error _ _ => none

theorem round_of_nil {p : Parser ρ} (h : p.stream.pending = []) : p.round = none := if_pos h

theorem round_of_ok {p q : Parser ρ} {stmt? : Option Stmt} (h : p.stream.pending ≠ [])
    (hread : p.readStatement = .ok stmt? q) : p.round = some q := by
  rw [round, if_neg h, hread]

theorem round_of_error {p q : Parser ρ} {e : RenderError} (hread : p.readStatement = .error e q) :
    p.round = none := by
  rw [round, hread]
  exact ite_self none

theorem round_consumes {p q : Parser ρ} (h : p.round = some q) :
    ∃ w, w ≠ [] ∧ p.stream = q.stream.prepend w := by
  unfold round at h
  split at h
  · cases h
  · rename_i hne
    split at h
    · rename_i hread
      cases h
      rw [readStatement_stream hread]
      exact exists_prepend_attempt_of_ne_nil hne
    · cases h

/-- The rounds come to an end where `readStatements` does. -/
theorem readStatements_rounds (p : Parser ρ) :
    match p.readStatements with
    | .ok _ q => q ∈ eval round p
    | .error _ _ => ∃ q ∈ eval round p, ∃ e q', q.readStatement = .error e q' := by
  fun_induction readStatements p with
  | case1 p hend => exact mem_eval.mpr ⟨.refl, round_of_nil hend⟩
  | case2 p hend e q hread => exact ⟨p, mem_eval.mpr ⟨.refl, round_of_error hread⟩, e, q, hread⟩
  | case3 p hend stmt? q hread e q' hrest ih =>
    rw [hrest] at ih
    rw [reaches_eval (.single (round_of_ok hend hread))]
    exact ih
  | case4 p hend stmt? q hread stmts q' hrest ih =>
    rw [hrest] at ih
    rw [reaches_eval (.single (round_of_ok hend hread))]
    exact ih

/-- The loop that reads a program reads a token in each round, and ends. -/
structure RoundsEnd (p : Parser ρ) : Prop where
  consumes : ∀ q q', Reaches round p q → q.round = some q' →
    ∃ w, w ≠ [] ∧ q.stream = q'.stream.prepend w
  /-- The loop ends where `parseProgram` ends, or at a statement whose report breaks off. -/
  ends : ∃ q ∈ eval round p,
    match parseProgram p with
    | .ok _ q' => q = q'
    | .error _ _ => ∃ e q', q.readStatement = .error e q'

theorem roundsEnd (p : Parser ρ) : p.RoundsEnd := by
  refine ⟨fun q q' _ hround => round_consumes hround, ?_⟩
  have hrounds := p.readStatements_rounds
  cases hreports : Reporter.reportAll (parseStream p.stream).issues p.reporter with
  | ok _ reporter =>
    rw [p.readStatements_reports.eq_ok hreports] at hrounds
    rw [p.parseProgram_reports.eq_ok hreports]
    exact ⟨_, hrounds, rfl⟩
  | error e reporter =>
    obtain ⟨_, -, hread⟩ := p.readStatements_reports.exists_eq_error hreports
    obtain ⟨_, -, hparse⟩ := p.parseProgram_reports.exists_eq_error hreports
    rw [hread] at hrounds
    rw [hparse]
    exact hrounds

end Parser

/-- **Nesting is bounded, and reading ends.** A call at a depth within the limit ends at this depth
again, with an expression or with an error. Until then there are never more calls past their check
than the depth leaves of the limit, the counter exceeds the limit by one at most, and no semicolon
and no end of input is read. The loop that reads a program reads a token in each round, and so it
ends as well. -/
theorem calls_balanced_and_rounds_end {depth : Nat} (hdepth : depth ≤ nestingLimit)
    (min : Strength) (ts : TokenStream) {ρ : Type} [Reporter ρ] (p : Parser ρ) :
    Climber.Balanced depth min ts ∧ p.RoundsEnd :=
  ⟨Climber.balanced hdepth min ts, p.roundsEnd⟩

/-- A call that has one level left, which its sign takes; a program of two statements, the first
of which has no semicolon. -/
theorem calls_balanced_one_below_limit : 255 ≤ nestingLimit ∧
    Climber.Balanced 255 .loosest (.ofLexer (.ofSource "-1;")) ∧
    (Parser.ofLexer (.ofSource "1 2;") ([] : List Issue)).RoundsEnd := by
  have hdepth : 255 ≤ nestingLimit := by decide
  exact ⟨hdepth, calls_balanced_and_rounds_end hdepth .loosest _ _⟩

/-- Behind the sign, that call fails. -/
example : (match expression (nestingLimit - 255) .loosest (.ofLexer (.ofSource "-1;")) with
    | .ok _ _ => none
    | .error error _ => some error) = some ⟨.tooDeep, ⟨1, 2⟩⟩ := by
  decide +kernel

end ExprLang
