import ExprLang.Grammar.Expression

/-!
# Reading moves forward

`Reads n p` says that the parse `p` reads at least `n` tokens where it succeeds, and that
it puts no token back, also where it fails.

* `reads_expression`: an expression has at least one token.
-/

namespace ExprLang

open Parse

/-! ## Parses that read -/

/-- A parse that reads at least `least` tokens where it succeeds, and never un-reads one. -/
structure Reads {α : Type} (least : Nat) (p : Parse α) : Prop where
  ok : ∀ ts a ts', p ts = .ok a ts' → ts'.pending.length + least ≤ ts.pending.length
  error : ∀ ts e ts', p ts = .error e ts' → ts'.pending.length ≤ ts.pending.length

theorem Reads.weaken {α : Type} {p : Parse α} (h : Reads 1 p) : Reads 0 p :=
  ⟨fun ts a ts' hp => Nat.le_trans (Nat.le_add_right _ 1) (h.ok ts a ts' hp), h.error⟩

theorem reads_pure {α : Type} (a : α) : Reads 0 (pure a : Parse α) :=
  ⟨fun _ _ _ h => by cases h; exact Nat.le_refl _, fun _ _ _ h => nomatch h⟩

theorem reads_throw {α : Type} (n : Nat) (e : SyntaxError) : Reads n (throw e : Parse α) :=
  ⟨fun _ _ _ h => (nomatch h), fun _ _ _ h => by cases h; exact Nat.le_refl _⟩

theorem reads_failHere {α : Type} (n : Nat) (cause : Token → Cause) :
    Reads n (failHere cause : Parse α) :=
  ⟨fun _ _ _ h => (nomatch h), fun _ _ _ h => by cases h; exact Nat.le_refl _⟩

theorem Reads.bind {α β : Type} {m n : Nat} {p : Parse α} {f : α → Parse β} (hp : Reads m p)
    (hf : ∀ a, Reads n (f a)) : Reads (m + n) (p >>= f) := by
  constructor
  · intro ts b ts' h
    obtain ⟨a, ts₁, h₁, h₂⟩ := bind_eq_ok_iff.mp h
    have := hp.ok _ _ _ h₁
    have := (hf a).ok _ _ _ h₂
    omega
  · intro ts e ts' h
    rcases bind_eq_error_iff.mp h with h₁ | ⟨a, ts₁, h₁, h₂⟩
    · exact hp.error _ _ _ h₁
    · have := hp.ok _ _ _ h₁
      have := (hf a).error _ _ _ h₂
      omega

theorem length_advance_le (ts : TokenStream) :
    ts.advance.pending.length ≤ ts.pending.length := by
  simp only [TokenStream.advance, TokenStream.drop, List.length_drop]
  omega

theorem reads_advance : Reads 0 advance :=
  ⟨fun ts _ _ h => by cases h; exact length_advance_le ts, fun _ _ _ h => nomatch h⟩

theorem reads_expect (kind : TokenKind) (after : String) : Reads 0 (expect kind after) := by
  constructor
  · intro ts t ts' h
    by_cases hk : ts.current.kind = kind
    · rw [expect_of_eq hk] at h
      cases h
      exact length_advance_le ts
    · rw [expect_of_ne hk] at h
      cases h
  · intro ts e ts' h
    by_cases hk : ts.current.kind = kind
    · rw [expect_of_eq hk] at h
      cases h
    · rw [expect_of_ne hk] at h
      cases h
      exact Nat.le_refl _

/-- A parse that chooses by the current token reads one token if every choice starts by
reading one, the choice at the end of input being to fail. -/
theorem reads_current_bind {α : Type} {f : Token → Parse α}
    (h : ∀ t, (t.kind ≠ .endOfInput ∧ ∃ g : Unit → Parse α, f t = advance >>= g ∧ Reads 0 (g ())) ∨
      ∃ cause, f t = failHere cause) : Reads 1 (current >>= f) := by
  have key : ∀ ts, (ts.pending ≠ [] ∧ ∃ g : Unit → Parse α,
      (current >>= f) ts = g () ts.advance ∧ Reads 0 (g ())) ∨
      ∃ e, (current >>= f) ts = .error e ts := by
    intro ts
    rw [current_bind]
    rcases h ts.current with ⟨hk, g, hg, hr⟩ | ⟨cause, hc⟩
    · exact Or.inl ⟨TokenStream.pending_ne_nil_of_kind hk, g, by rw [hg]; rfl, hr⟩
    · exact Or.inr ⟨_, by rw [hc]; rfl⟩
  constructor
  · intro ts a ts' hp
    rcases key ts with ⟨hne, g, hg, hr⟩ | ⟨e, he⟩
    · have h₁ := hr.ok _ _ _ (hg ▸ hp)
      have h₂ := TokenStream.length_advance_lt hne
      omega
    · rw [he] at hp
      cases hp
  · intro ts e ts' hp
    rcases key ts with ⟨hne, g, hg, hr⟩ | ⟨e', he⟩
    · have h₁ := hr.error _ _ _ (hg ▸ hp)
      have h₂ := TokenStream.length_advance_lt hne
      omega
    · rw [he] at hp
      cases hp
      exact Nat.le_refl _

/-! ## Expressions -/

theorem reads_operand {nested : Strength → Parse Expr} (h : ∀ s, Reads 1 (nested s)) :
    Reads 1 (operand nested) := by
  refine reads_current_bind fun t => ?_
  split
  · rename_i hk
    refine Or.inl ⟨by simp [hk], _, rfl, ?_⟩
    split
    · exact reads_pure _
    · exact reads_throw _ _
  · rename_i hk
    exact Or.inl ⟨by simp [hk], _, rfl, reads_pure _⟩
  · rename_i hk
    exact Or.inl ⟨by simp [hk], _, rfl, reads_pure _⟩
  · rename_i hk
    exact Or.inl ⟨by simp [hk], _, rfl, (h _).weaken.bind fun _ => reads_pure _⟩
  · rename_i hk
    exact Or.inl ⟨by simp [hk], _, rfl,
      (h _).weaken.bind fun _ => (reads_expect _ _).bind fun _ => reads_pure _⟩
  · exact Or.inr ⟨_, rfl⟩
  · exact Or.inr ⟨_, rfl⟩
  · exact Or.inr ⟨_, rfl⟩

theorem reads_current_then {α : Type} {n : Nat} {f : Token → Parse α} (h : ∀ t, Reads n (f t)) :
    Reads n (current >>= f) :=
  ⟨fun ts a ts' hp => (h ts.current).ok ts a ts' hp,
    fun ts e ts' hp => (h ts.current).error ts e ts' hp⟩

theorem reads_expression_operations (budget : Nat) :
    (∀ min, Reads 1 (expression budget min)) ∧
      ∀ min lhs, Reads 0 (operations budget min lhs) := by
  induction budget with
  | zero =>
    constructor
    · intro min
      exact reads_failHere _ _
    · intro min lhs
      refine reads_current_then fun t => ?_
      split
      · exact reads_pure _
      · exact reads_advance.bind fun _ => reads_failHere 0 _
  | succ budget ih =>
    constructor
    · intro min
      exact (reads_operand ih.1).bind fun e => ih.2 min e
    · intro min lhs
      refine reads_current_then fun t => ?_
      split
      · exact reads_pure _
      · exact reads_advance.bind fun _ => (ih.1 _).weaken.bind fun rhs => ih.2 min _

theorem reads_expression (budget : Nat) (min : Strength) : Reads 1 (expression budget min) :=
  (reads_expression_operations budget).1 min

end ExprLang
