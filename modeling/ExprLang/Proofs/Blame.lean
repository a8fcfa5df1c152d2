import ExprLang.Proofs.Climbing

/-!
# Where a parse breaks off

Reading an expression never passes a semicolon, and where it fails, the error is about a
token it has just read or about the one it stands at.

* `Blames w next error`: what the error of a run can be that has read `w` and stands at
  `next`.
* `expression_endsWithin`: every run over an expression ends so.
-/

namespace ExprLang

open Parse Text

/-- The errors of a run that has read the tokens `w` and stands at the token `next`. -/
inductive Blames (w : List Token) (next : Token) : SyntaxError → Prop
  | number {t : Token} (ht : t ∈ w) (hk : t.IsLiteral) (hn : t.literal? = none) :
      Blames w next ⟨.invalidNumber t.lexeme, t.span⟩
  | operand (h : ¬ next.StartsOperand) : Blames w next ⟨next.refusal, next.span⟩
  | close (hk : next.kind ≠ .closeParen) (hop : next.operator? .loosest = none) :
      Blames w next ⟨.expectedAfter "')'" "expression" next.describe, next.span⟩
  | tooDeep : Blames w next ⟨.tooDeep, next.span⟩

theorem Blames.after {w : List Token} {next : Token} {error : SyntaxError}
    (h : Blames w next error) (v : List Token) : Blames (v ++ w) next error := by
  cases h with
  | number ht hk hn => exact .number (List.mem_append_right v ht) hk hn
  | operand h => exact .operand h
  | close hk hop => exact .close hk hop
  | tooDeep => exact .tooDeep

theorem Blames.span_eq {w : List Token} {next : Token} {error : SyntaxError}
    (h : Blames w next error) : (∃ t ∈ w, error.span = t.span) ∨ error.span = next.span := by
  cases h with
  | number ht hk hn => exact Or.inl ⟨_, ht, rfl⟩
  | operand | close | tooDeep => exact Or.inr rfl

/-- How a run from `ts` ends that stays within its statement. -/
def EndsWithin {α : Type} (ts : TokenStream) : EStateM.Result SyntaxError TokenStream α → Prop
  | .ok _ ts' => ∃ w, ts = ts'.prepend w ∧ ∀ t ∈ w, t.kind ≠ .semicolon
  | .error error ts' =>
    ∃ w, ts = ts'.prepend w ∧ (∀ t ∈ w, t.kind ≠ .semicolon) ∧ Blames w ts'.current error

namespace EndsWithin

variable {α β : Type} {ts : TokenStream}

theorem after {r : EStateM.Result SyntaxError TokenStream α} (h : EndsWithin ts r)
    {v : List Token} (hv : ∀ t ∈ v, t.kind ≠ .semicolon) : EndsWithin (ts.prepend v) r := by
  cases r with
  | ok a ts' =>
    obtain ⟨w, rfl, hw⟩ := h
    exact ⟨v ++ w, by simp, List.forall_mem_append.mpr ⟨hv, hw⟩⟩
  | error error ts' =>
    obtain ⟨w, rfl, hw, hblame⟩ := h
    exact ⟨v ++ w, by simp, List.forall_mem_append.mpr ⟨hv, hw⟩, hblame.after v⟩

theorem bind {x : Parse α} {f : α → Parse β} (hx : EndsWithin ts (x ts))
    (hf : ∀ a ts', x ts = .ok a ts' → EndsWithin ts' (f a ts')) :
    EndsWithin ts ((x >>= f) ts) := by
  cases h : x ts with
  | ok a ts' =>
    rw [h] at hx
    obtain ⟨w, rfl, hw⟩ := hx
    rw [bind_of_ok h]
    exact (hf a ts' h).after hw
  | error error ts' =>
    rw [bind_of_error h]
    rw [h] at hx
    exact hx

theorem pure (a : α) : EndsWithin ts ((Pure.pure a : Parse α) ts) := ⟨[], rfl, by simp⟩

end EndsWithin

/-! ## Expressions -/

theorem expect_closeParen_endsWithin {ts : TokenStream}
    (h : ts.current.operator? .loosest = none) :
    EndsWithin ts (expect .closeParen "expression" ts) := by
  by_cases hk : ts.current.kind = .closeParen
  · rw [expect_of_eq hk]
    refine ⟨[ts.current], TokenStream.eq_prepend_of_kind (by simp [hk]), ?_⟩
    simp [hk]
  · rw [expect_of_ne hk]
    exact ⟨[], rfl, by simp, .close hk h⟩

theorem operand_endsWithin {nested : Strength → Parse Expr}
    (hn : ∀ min ts, EndsWithin ts (nested min ts))
    (hstop : ∀ min ts e ts', nested min ts = .ok e ts' → ts'.current.operator? min = none)
    (ts : TokenStream) : EndsWithin ts (operand nested ts) := by
  by_cases hstart : ts.current.StartsOperand
  · obtain ⟨t, ts, rfl, ht⟩ := hstart.exists_prepend
    have hsemicolon : ∀ u ∈ [t], u.kind ≠ .semicolon := by
      rw [List.forall_mem_singleton]
      rcases ht with (hk | hk | ⟨_, hk⟩) | hk | hk <;> simp [hk]
    rcases ht with hlit | hsub | hopen
    · rw [operand_literal hlit]
      split
      · exact ⟨[t], rfl, hsemicolon⟩
      · exact ⟨[t], rfl, hsemicolon, .number List.mem_cons_self hlit ‹_›⟩
    · rw [operand_negate hsub]
      exact ((hn _ _).bind fun _ _ _ => .pure _).after hsemicolon
    · rw [operand_group hopen]
      refine EndsWithin.after (EndsWithin.bind (hn _ _) fun e ts' h => ?_) hsemicolon
      exact (expect_closeParen_endsWithin (hstop _ _ _ _ h)).bind fun _ _ _ => .pure _
  · rw [operand_refuse hstart]
    exact ⟨[], rfl, by simp, .operand hstart⟩

theorem expression_operations_endsWithin (budget : Nat) :
    (∀ min ts, EndsWithin ts (expression budget min ts)) ∧
      ∀ min lhs ts, EndsWithin ts (operations budget min lhs ts) := by
  have hstop : ∀ budget min ts e ts', expression budget min ts = .ok e ts' →
      ts'.current.operator? min = none := fun _ _ _ _ _ h => (expression_sound h).2
  induction budget with
  | zero =>
    refine ⟨fun min ts => ?_, fun min lhs ts => ?_⟩
    · rw [expression_zero]
      exact ⟨[], rfl, by simp, .tooDeep⟩
    · cases hop : ts.current.operator? min with
      | none =>
        rw [operations_stop _ hop]
        exact .pure lhs
      | some op =>
        obtain ⟨t, ts, rfl, hk, hlt⟩ := exists_prepend_of_operator? hop
        rw [operations_zero hk hlt]
        exact ⟨[t], rfl, by simp [hk], .tooDeep⟩
  | succ budget ih =>
    refine ⟨fun min ts => ?_, fun min lhs ts => ?_⟩
    · rw [expression_succ]
      exact (operand_endsWithin ih.1 (hstop budget) ts).bind fun e ts' _ => ih.2 min e ts'
    · cases hop : ts.current.operator? min with
      | none =>
        rw [operations_stop _ hop]
        exact .pure lhs
      | some op =>
        obtain ⟨t, ts, rfl, hk, hlt⟩ := exists_prepend_of_operator? hop
        rw [operations_succ _ hk hlt]
        refine EndsWithin.after ((ih.1 _ ts).bind fun rhs ts' _ => ih.2 min _ ts') ?_
        simp [hk]

theorem expression_endsWithin (budget : Nat) (min : Strength) (ts : TokenStream) :
    EndsWithin ts (expression budget min ts) :=
  (expression_operations_endsWithin budget).1 min ts

end ExprLang
