import Mathlib.Computability.StateTransition
import ExprLang.Proofs.Climbing

/-!
# Climbing on a stack of calls

`expression` keeps a budget and leaves its calls to the language. A `Climber` does the same work
with a stack of its own and a counter of the depth, one step at a time. The counter goes up at each
operand and at each operator, and is checked there. Nothing takes it down again but the end of
a call, which puts back what the call has found, also where an error passes through it.

* `Climber.step`: one step; `Climber.Answers`: a run of steps up to a result.
* `Climber.call_answers`: a call comes to the result of `expression`, with its depth restored.
-/

namespace ExprLang

open StateTransition Parse

/-! ## Calls on a stack -/

/-- What waits for the answer of a call, or of the part of a call that stands above it. -/
inductive Frame where
  /-- The end of a call, which restores the depth. -/
  | restore (depth : Nat)
  /-- A call that waits for its first operand. -/
  | first (min : Strength)
  /-- A call that waits for the right side of an operator. -/
  | right (min : Strength) (op : BinaryOp) (lhs : Expr)
  /-- A sign that waits for its operand. -/
  | negate (sign : Token)
  /-- An opening parenthesis that waits for what it encloses. -/
  | group (left : Token)
  deriving DecidableEq, Repr

inductive Control where
  /-- About to call, the depth being unchecked. -/
  | call (min : Strength)
  /-- Before an operand. -/
  | operand
  /-- In the loop of a call, behind its left side. -/
  | loop (min : Strength) (lhs : Expr)
  /-- Going back to the uppermost frame. -/
  | answer (result : Except SyntaxError Expr)
  deriving Repr

structure Climber where
  control : Control
  frames : List Frame
  depth : Nat
  stream : TokenStream
  /-- The tokens read so far, the current one whenever the stream was moved on. -/
  consumed : List Token
  deriving Repr

namespace Climber

def goto (c : Climber) (control : Control) : Climber := { c with control }

def answer (c : Climber) (result : Except SyntaxError Expr) : Climber := c.goto (.answer result)

def push (c : Climber) (frame : Frame) : Climber := { c with frames := frame :: c.frames }

def consume (c : Climber) : Climber :=
  { c with stream := c.stream.advance, consumed := c.consumed ++ [c.stream.current] }

/-- Fails at the current token. -/
def fail (c : Climber) (cause : Token → Cause) : Climber :=
  c.answer (.error ⟨cause c.stream.current, c.stream.current.span⟩)

/-- One level deeper; goes on only if that is within the limit. -/
def enter (c : Climber) (next : Climber → Climber) : Climber :=
  let deeper := { c with depth := c.depth + 1 }
  if nestingLimit < deeper.depth then deeper.fail fun _ => .tooDeep else next deeper

theorem enter_of_lt {c : Climber} (h : c.depth < nestingLimit) (next : Climber → Climber) :
    c.enter next = next { c with depth := c.depth + 1 } :=
  if_neg (Nat.not_lt.mpr h)

theorem enter_of_le {c : Climber} (h : nestingLimit ≤ c.depth) (next : Climber → Climber) :
    c.enter next = { c with depth := c.depth + 1 }.fail fun _ => .tooDeep :=
  if_pos (Nat.lt_succ_of_le h)

/-- An operand up to its end, or up to the call it begins with. -/
def operand (c : Climber) : Climber :=
  let t := c.stream.current
  match t.kind with
  | .number =>
    match Binary64.ofNumeral? t.lexeme with
    | some value => c.consume.answer (.ok (.number value t.span))
    | none => c.consume.answer (.error ⟨.invalidNumber t.lexeme, t.span⟩)
  | .string => c.consume.answer (.ok (.string t.lexeme t.span))
  | .keyword (.bool value) => c.consume.answer (.ok (.bool value t.span))
  | .operator .sub => (c.consume.push (.negate t)).goto (.call .sign)
  | .openParen => (c.consume.push (.group t)).goto (.call .loosest)
  | _ => c.fail Token.refusal

/-- Goes on with an expression that a frame has waited for. -/
def resume (c : Climber) (e : Expr) : Frame → Climber
  | .restore saved => { c with depth := saved }.answer (.ok e)
  | .first min => c.goto (.loop min e)
  | .right min op lhs => c.goto (.loop min (.binary op lhs e (lhs.span.union e.span)))
  | .negate sign => c.answer (.ok (.unary .negate e (sign.span.union e.span)))
  | .group left =>
    if c.stream.current.kind = .closeParen then
      c.consume.answer (.ok (e.withSpan (left.span.union c.stream.current.span)))
    else
      c.fail fun t => .expectedAfter TokenKind.closeParen.name "expression" t.describe

/-- Leaves a frame with an error. -/
def unwind (c : Climber) (error : SyntaxError) : Frame → Climber
  | .restore saved => { c with depth := saved }.answer (.error error)
  | _ => c.answer (.error error)

def step (c : Climber) : Option Climber :=
  match c.control with
  | .call min =>
    some ((c.push (.restore c.depth)).enter fun c => (c.push (.first min)).goto .operand)
  | .operand => some c.operand
  | .loop min lhs =>
    match c.stream.current.operator? min with
    | none => some (c.answer (.ok lhs))
    | some op =>
      some (c.consume.enter fun c => (c.push (.right min op lhs)).goto (.call op.strength))
  | .answer result =>
    match c.frames with
    | [] => none
    | frame :: frames =>
      match result with
      | .ok e => some ({ c with frames }.resume e frame)
      | .error error => some ({ c with frames }.unwind error frame)

/-- Before a call at some depth, with nothing below it. -/
def start (depth : Nat) (min : Strength) (ts : TokenStream) : Climber :=
  ⟨.call min, [], depth, ts, []⟩

/-- On the way back with a result. -/
def ended (frames : List Frame) (depth : Nat) (consumed : List Token) :
    EStateM.Result SyntaxError TokenStream Expr → Climber
  | .ok e ts => ⟨.answer (.ok e), frames, depth, ts, consumed⟩
  | .error error ts => ⟨.answer (.error error), frames, depth, ts, consumed⟩

theorem step_ended_nil (depth : Nat) (consumed : List Token)
    (r : EStateM.Result SyntaxError TokenStream Expr) :
    (ended [] depth consumed r).step = none := by
  cases r <;> rfl

theorem step_ended_restore (frames : List Frame) (saved depth : Nat) (consumed : List Token)
    (r : EStateM.Result SyntaxError TokenStream Expr) :
    (ended (.restore saved :: frames) depth consumed r).step =
      some (ended frames saved consumed r) := by
  cases r <;> rfl

theorem step_ended_error {frame : Frame} (hframe : ∀ saved, frame ≠ .restore saved)
    (frames : List Frame) (depth : Nat) (consumed : List Token) (error : SyntaxError)
    (ts : TokenStream) :
    (ended (frame :: frames) depth consumed (.error error ts)).step =
      some (ended frames depth consumed (.error error ts)) := by
  cases frame with
  | restore saved => exact absurd rfl (hframe saved)
  | first | right | negate | group => rfl

/-! ## Runs up to a result -/

/-- The climber comes to a result on the frames given, at a depth of which `P` holds. -/
def Answers (c : Climber) (frames : List Frame) (P : Nat → Prop)
    (r : EStateM.Result SyntaxError TokenStream Expr) : Prop :=
  ∃ depth consumed, P depth ∧ Reaches step c (ended frames depth consumed r)

section

variable {c c' : Climber} {frame : Frame} {frames : List Frame} {P Q : Nat → Prop}
  {r : EStateM.Result SyntaxError TokenStream Expr} {ts : TokenStream}

namespace Answers

theorem of_ended {depth : Nat} {consumed : List Token}
    (hstep : c.step = some (ended frames depth consumed r)) (hdepth : P depth) :
    c.Answers frames P r :=
  ⟨depth, consumed, hdepth, .single hstep⟩

theorem of_step (h : c'.Answers frames P r) (hstep : c.step = some c') :
    c.Answers frames P r := by
  obtain ⟨depth, consumed, hdepth, hrun⟩ := h
  exact ⟨depth, consumed, hdepth, .head hstep hrun⟩

theorem restore {saved : Nat} (h : c.Answers (.restore saved :: frames) P r) :
    c.Answers frames (· = saved) r := by
  obtain ⟨depth, consumed, -, hrun⟩ := h
  exact ⟨saved, consumed, rfl, hrun.tail (step_ended_restore frames saved depth consumed r)⟩

/-- A frame inside a call goes on with an expression, and lets an error pass. -/
theorem bind {x : Parse Expr} {f : Expr → Parse Expr} (h : c.Answers (frame :: frames) P (x ts))
    (hframe : ∀ saved, frame ≠ .restore saved) (hPQ : ∀ depth, P depth → Q depth)
    (hf : ∀ depth consumed e ts', P depth →
      (ended (frame :: frames) depth consumed (.ok e ts')).Answers frames Q (f e ts')) :
    c.Answers frames Q ((x >>= f) ts) := by
  obtain ⟨depth, consumed, hdepth, hrun⟩ := h
  cases hx : x ts with
  | ok e ts' =>
    rw [hx] at hrun
    rw [bind_of_ok hx]
    obtain ⟨depth', consumed', hdepth', hrest⟩ := hf depth consumed e ts' hdepth
    exact ⟨depth', consumed', hdepth', hrun.trans hrest⟩
  | error error ts' =>
    rw [hx] at hrun
    rw [bind_of_error hx]
    exact ⟨depth, consumed, hPQ depth hdepth, hrun.tail (step_ended_error hframe ..)⟩

end Answers

end

/-! ## Steps -/

section

variable {frames : List Frame} {depth : Nat} {consumed : List Token} {min : Strength}
  {ts : TokenStream} {t : Token}

theorem step_operand_literal (nested : Strength → Parse Expr) (h : t.IsLiteral) :
    step ⟨.operand, frames, depth, ts.prepend [t], consumed⟩ =
      some (ended frames depth (consumed ++ [t]) (ExprLang.operand nested (ts.prepend [t]))) := by
  rw [operand_literal h]
  simp only [step, operand, TokenStream.current_prepend_cons, Token.literal?]
  rcases h with hk | hk | ⟨value, hk⟩
  · simp only [hk]
    cases Binary64.ofNumeral? t.lexeme <;> rfl
  · simp only [hk]
    rfl
  · simp only [hk]
    rfl

theorem step_operand_negate (h : t.kind = .operator .sub) :
    step ⟨.operand, frames, depth, ts.prepend [t], consumed⟩ =
      some ⟨.call .sign, .negate t :: frames, depth, ts, consumed ++ [t]⟩ := by
  simp only [step, operand, TokenStream.current_prepend_cons, h]
  rfl

theorem step_operand_group (h : t.kind = .openParen) :
    step ⟨.operand, frames, depth, ts.prepend [t], consumed⟩ =
      some ⟨.call .loosest, .group t :: frames, depth, ts, consumed ++ [t]⟩ := by
  simp only [step, operand, TokenStream.current_prepend_cons, h]
  rfl

theorem step_operand_refuse (nested : Strength → Parse Expr) (h : ¬ ts.current.StartsOperand) :
    step ⟨.operand, frames, depth, ts, consumed⟩ =
      some (ended frames depth consumed (ExprLang.operand nested ts)) := by
  rw [operand_refuse h]
  simp only [Token.StartsOperand, Token.IsLiteral, not_or, not_exists] at h
  obtain ⟨⟨hnumber, hstring, hbool⟩, hsub, hopen⟩ := h
  simp only [step, operand]
  rfl

theorem step_call_of_lt (h : depth < nestingLimit) :
    step ⟨.call min, frames, depth, ts, consumed⟩ =
      some ⟨.operand, .first min :: .restore depth :: frames, depth + 1, ts, consumed⟩ :=
  congrArg some (enter_of_lt h _)

theorem step_call_of_le (h : nestingLimit ≤ depth) :
    step ⟨.call min, frames, depth, ts, consumed⟩ =
      some (ended (.restore depth :: frames) (depth + 1) consumed
        (.error ⟨.tooDeep, ts.current.span⟩ ts)) :=
  congrArg some (enter_of_le h _)

theorem step_loop_stop {lhs : Expr} (h : ts.current.operator? min = none) :
    step ⟨.loop min lhs, frames, depth, ts, consumed⟩ =
      some (ended frames depth consumed (.ok lhs ts)) := by
  simp only [step, h]
  rfl

section

variable {lhs : Expr} {op : BinaryOp}

theorem step_loop_of_lt (ht : t.kind = .operator op) (hop : min < op.strength)
    (h : depth < nestingLimit) :
    step ⟨.loop min lhs, frames, depth, ts.prepend [t], consumed⟩ =
      some ⟨.call op.strength, .right min op lhs :: frames, depth + 1, ts, consumed ++ [t]⟩ := by
  have hsome : t.operator? min = some op := Token.operator?_eq_some_iff.mpr ⟨ht, hop⟩
  simp only [step, TokenStream.current_prepend_cons, hsome]
  exact congrArg some (enter_of_lt h _)

theorem step_loop_of_le (ht : t.kind = .operator op) (hop : min < op.strength)
    (h : nestingLimit ≤ depth) :
    step ⟨.loop min lhs, frames, depth, ts.prepend [t], consumed⟩ =
      some (ended frames (depth + 1) (consumed ++ [t])
        (.error ⟨.tooDeep, ts.current.span⟩ ts)) := by
  have hsome : t.operator? min = some op := Token.operator?_eq_some_iff.mpr ⟨ht, hop⟩
  simp only [step, TokenStream.current_prepend_cons, hsome]
  exact congrArg some (enter_of_le h _)

end

theorem step_ended_negate (sign : Token) (e : Expr) :
    (ended (.negate sign :: frames) depth consumed (.ok e ts)).step =
      some (ended frames depth consumed
        (.ok (.unary .negate e (sign.span.union e.span)) ts)) := rfl

theorem step_ended_group (left : Token) (e : Expr) :
    ∃ consumed', (ended (.group left :: frames) depth consumed (.ok e ts)).step =
      some (ended frames depth consumed' ((expect .closeParen "expression" >>= fun right =>
        pure (e.withSpan (left.span.union right.span))) ts)) := by
  by_cases hclose : ts.current.kind = .closeParen
  · rw [bind_of_ok (expect_of_eq hclose "expression")]
    exact ⟨consumed ++ [ts.current], congrArg some (if_pos hclose)⟩
  · rw [bind_of_error (expect_of_ne hclose "expression")]
    exact ⟨consumed, congrArg some (if_neg hclose)⟩

end

/-! ## Operands and calls -/

/-- Every call at this depth comes to the result of `nested` and restores the depth. -/
def Calls (depth : Nat) (nested : Strength → Parse Expr) : Prop :=
  ∀ min frames ts consumed,
    Answers ⟨.call min, frames, depth, ts, consumed⟩ frames (· = depth) (nested min ts)

theorem operand_answers {nested : Strength → Parse Expr} {depth : Nat}
    (hnested : Calls depth nested) (frames : List Frame) (ts : TokenStream)
    (consumed : List Token) :
    Answers ⟨.operand, frames, depth, ts, consumed⟩ frames (· = depth)
      (ExprLang.operand nested ts) := by
  by_cases hstart : ts.current.StartsOperand
  · obtain ⟨t, ts, rfl, ht⟩ := hstart.exists_prepend
    rcases ht with hlit | hsub | hopen
    · exact .of_ended (step_operand_literal nested hlit) rfl
    · rw [operand_negate hsub]
      have hcall := hnested .sign (.negate t :: frames) ts (consumed ++ [t])
      refine .of_step (hcall.bind nofun (fun _ h => h) ?_) (step_operand_negate hsub)
      intro depth' consumed' e ts' hdepth
      exact .of_ended (step_ended_negate t e) hdepth
    · rw [operand_group hopen]
      have hcall := hnested .loosest (.group t :: frames) ts (consumed ++ [t])
      refine .of_step (hcall.bind nofun (fun _ h => h) ?_) (step_operand_group hopen)
      intro depth' consumed' e ts' hdepth
      obtain ⟨consumed'', hstep⟩ := step_ended_group t e
      exact .of_ended hstep hdepth
  · exact .of_ended (step_operand_refuse nested hstart) rfl

/-- Every loop at this depth comes to the result of `loop`, at whatever depth. -/
def Loops (depth : Nat) (loop : Strength → Expr → Parse Expr) : Prop :=
  ∀ min lhs frames ts consumed,
    Answers ⟨.loop min lhs, frames, depth, ts, consumed⟩ frames (fun _ => True) (loop min lhs ts)

/-- Where the depth has reached the limit, the budget has run out. -/
theorem calls_zero {depth : Nat} (h : depth = nestingLimit) : Calls depth (expression 0) := by
  intro min frames ts consumed
  rw [expression_zero]
  refine Answers.restore (P := fun _ => True) ?_
  exact .of_ended (step_call_of_le (Nat.le_of_eq h.symm)) trivial

theorem loops_zero {depth : Nat} (h : depth = nestingLimit) : Loops depth (operations 0) := by
  intro min lhs frames ts consumed
  cases hop : ts.current.operator? min with
  | none =>
    rw [operations_stop 0 hop]
    exact .of_ended (step_loop_stop hop) trivial
  | some op =>
    obtain ⟨t, ts, rfl, ht, hlt⟩ := exists_prepend_of_operator? hop
    rw [operations_zero ht hlt]
    exact .of_ended (step_loop_of_le ht hlt (Nat.le_of_eq h.symm)) trivial

theorem calls_succ {depth budget : Nat} (h : depth < nestingLimit)
    (hcalls : Calls (depth + 1) (expression budget))
    (hloops : Loops (depth + 1) (operations budget)) : Calls depth (expression (budget + 1)) := by
  intro min frames ts consumed
  rw [expression_succ]
  refine Answers.restore (P := fun _ => True) ?_
  have hoperand := operand_answers hcalls (.first min :: .restore depth :: frames) ts consumed
  refine .of_step (hoperand.bind nofun (fun _ _ => trivial) ?_) (step_call_of_lt h)
  rintro _ consumed' e ts' rfl
  exact .of_step (hloops min e _ ts' consumed') rfl

theorem loops_succ {depth budget : Nat} (h : depth < nestingLimit)
    (hcalls : Calls (depth + 1) (expression budget))
    (hloops : Loops (depth + 1) (operations budget)) : Loops depth (operations (budget + 1)) := by
  intro min lhs frames ts consumed
  cases hop : ts.current.operator? min with
  | none =>
    rw [operations_stop _ hop]
    exact .of_ended (step_loop_stop hop) trivial
  | some op =>
    obtain ⟨t, ts, rfl, ht, hlt⟩ := exists_prepend_of_operator? hop
    rw [operations_succ budget ht hlt]
    have hcall := hcalls op.strength (.right min op lhs :: frames) ts (consumed ++ [t])
    refine .of_step (hcall.bind nofun (fun _ _ => trivial) ?_) (step_loop_of_lt ht hlt h)
    rintro _ consumed' e ts' rfl
    exact .of_step (hloops min _ frames ts' consumed') rfl

/-- The budget of `expression` is what the depth leaves of the limit. -/
theorem calls_loops (budget : Nat) : ∀ depth, depth + budget = nestingLimit →
    Calls depth (expression budget) ∧ Loops depth (operations budget) := by
  -- A level deeper, one unit of the budget less is left.
  induction budget with
  | zero => exact fun depth h => ⟨calls_zero h, loops_zero h⟩
  | succ budget ih =>
    intro depth h
    have hlt : depth < nestingLimit := by omega
    obtain ⟨hcalls, hloops⟩ := ih (depth + 1) (by omega)
    exact ⟨calls_succ hlt hcalls hloops, loops_succ hlt hcalls hloops⟩

/-- A call comes to the result of `expression` and restores the depth. -/
theorem call_answers {depth : Nat} (h : depth ≤ nestingLimit) (min : Strength) (ts : TokenStream) :
    (start depth min ts).Answers [] (· = depth) (expression (nestingLimit - depth) min ts) :=
  (calls_loops _ depth (Nat.add_sub_of_le h)).1 min [] ts []

end Climber

end ExprLang
