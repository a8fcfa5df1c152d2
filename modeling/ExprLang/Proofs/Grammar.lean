import ExprLang.Grammar.Expression

/-!
# The grammar of programs

The grammar is written over tokens, without any parser in mind:

    program = statement*                    sum     = product (("+" | "-") product)*
    statement = ["print"] sum ";"           product = unary (("*" | "/") unary)*
    primary = literal | "(" sum ")"         unary   = "-" unary | primary

Both repetitions are grouped to the left, which makes them left recursive rules here. A
derivation builds a concrete tree, which keeps parentheses and tokens.

* `Derives level w c`: the tokens `w` are a phrase of the level, and `c` is its tree.
* `Clause`, `Sentence`, `Sentences`: statements without and with their semicolon, programs.
* `Concrete.expr?` is the expression of a concrete tree, where all its numbers can be read.
* `Concrete.cost` is the nesting a tree needs. An operator pays for the operators before it
  on the same left spine, so a tree may be much higher than its cost.
-/

namespace ExprLang

open Text

/-! ## Concrete trees -/

/-- A tree that keeps the parentheses of the text, and the tokens that give the spans. -/
inductive Concrete where
  | literal (token : Token)
  | negate (sign : Token) (operand : Concrete)
  | group (left : Token) (inner : Concrete) (right : Token)
  | binary (op : BinaryOp) (lhs rhs : Concrete)
  deriving DecidableEq, Repr

def Token.IsLiteral (t : Token) : Prop :=
  t.kind = .number ∨ t.kind = .string ∨ ∃ value, t.kind = .keyword (.bool value)

/-- The expression of a literal; a number may be too great to have one. -/
def Token.literal? (t : Token) : Option Expr :=
  match t.kind with
  | .number => (Binary64.ofNumeral? t.lexeme).map fun value => .number value t.span
  | .string => some (.string t.lexeme t.span)
  | .keyword (.bool value) => some (.bool value t.span)
  | _ => none

/-- A number has to be one that a finite double is nearest to; other tokens are readable. -/
def Token.Readable (t : Token) : Prop :=
  t.kind = .number → ∃ value, Binary64.ofNumeral? t.lexeme = some value ∧ value.isFinite = true

theorem Token.Readable.of_ne {t : Token} (h : t.kind ≠ .number) : t.Readable :=
  fun ht => absurd ht h

theorem Binary64.isFinite_of_ofNumeral? {text : String} {x : Binary64}
    (h : ofNumeral? text = some x) : x.isFinite = true := by
  obtain ⟨d, -, hd⟩ := Option.bind_eq_some_iff.mp h
  unfold ofDecimal? at hd
  dsimp only at hd
  split at hd
  · rename_i hlt
    cases hd
    exact decide_eq_true hlt
  · cases hd

theorem Token.IsLiteral.exists_literal?_iff {t : Token} (h : t.IsLiteral) :
    (∃ e, t.literal? = some e) ↔ t.Readable := by
  unfold literal?
  rcases h with h | h | ⟨value, h⟩
  · simp only [h, Option.map_eq_some_iff]
    constructor
    · rintro ⟨e, value, hv, -⟩ -
      exact ⟨value, hv, Binary64.isFinite_of_ofNumeral? hv⟩
    · intro hr
      obtain ⟨value, hv, -⟩ := hr h
      exact ⟨_, value, hv, rfl⟩
  · rw [h]
    exact iff_of_true ⟨_, rfl⟩ (.of_ne (by simp [h]))
  · rw [h]
    exact iff_of_true ⟨_, rfl⟩ (.of_ne (by simp [h]))

theorem Token.literal?_cases {t : Token} {e : Expr} (h : t.literal? = some e) :
    (∃ value, e = .number value t.span) ∨ e = .string t.lexeme t.span ∨
      ∃ value, e = .bool value t.span := by
  unfold literal? at h
  split at h
  · obtain ⟨value, -, rfl⟩ := Option.map_eq_some_iff.mp h
    exact Or.inl ⟨value, rfl⟩
  · cases h
    exact Or.inr (Or.inl rfl)
  · cases h
    exact Or.inr (Or.inr ⟨_, rfl⟩)
  · cases h

namespace Concrete

/-- The expression of a tree, parentheses dropped. -/
def expr? : Concrete → Option Expr
  | literal t => t.literal?
  | negate sign operand => do
    let e ← operand.expr?
    return .unary .negate e (sign.span.union e.span)
  | group left inner right => do
    let e ← inner.expr?
    return e.withSpan (left.span.union right.span)
  | binary op lhs rhs => do
    let l ← lhs.expr?
    let r ← rhs.expr?
    return .binary op l r (l.span.union r.span)

theorem expr?_negate_eq_some_iff {sign : Token} {c : Concrete} {e : Expr} :
    (negate sign c).expr? = some e ↔
      ∃ e', c.expr? = some e' ∧ e = .unary .negate e' (sign.span.union e'.span) := by
  simp [expr?, Option.bind_eq_some_iff, eq_comm (b := e)]

theorem expr?_group_eq_some_iff {left right : Token} {c : Concrete} {e : Expr} :
    (group left c right).expr? = some e ↔
      ∃ e', c.expr? = some e' ∧ e = e'.withSpan (left.span.union right.span) := by
  simp [expr?, Option.bind_eq_some_iff, eq_comm (b := e)]

theorem expr?_binary_eq_some_iff {op : BinaryOp} {l r : Concrete} {e : Expr} :
    (binary op l r).expr? = some e ↔
      ∃ el er, l.expr? = some el ∧ r.expr? = some er ∧
        e = .binary op el er (el.span.union er.span) := by
  simp [expr?, Option.bind_eq_some_iff, eq_comm (b := e)]

/-- The number of binary nodes on the left spine that no parentheses close off. -/
def spine : Concrete → Nat
  | literal _ | negate .. | group .. => 0
  | binary _ lhs _ => lhs.spine + 1

def cost : Concrete → Nat
  | literal _ => 1
  | negate _ operand => 1 + operand.cost
  | group _ inner _ => 1 + inner.cost
  | binary _ lhs rhs => max lhs.cost (lhs.spine + 2 + rhs.cost)

theorem cost_pos (c : Concrete) : 0 < c.cost := by
  induction c with
  | literal t => exact Nat.one_pos
  | negate sign c ih => rw [cost]; omega
  | group left c right ih => rw [cost]; omega
  | binary op l r ihl ihr => rw [cost]; omega

end Concrete

/-! ## Levels -/

/-- The levels of the grammar of expressions, from the loosest to the tightest. -/
inductive Level where
  | sum
  | product
  | unary
  | primary
  deriving DecidableEq, Repr

/-- `Derives level w c` when the tokens `w` are a phrase of the level with the tree `c`. -/
inductive Derives : Level → List Token → Concrete → Prop
  | literal {t : Token} (h : t.IsLiteral) : Derives .primary [t] (.literal t)
  | group {left right : Token} {w : List Token} {c : Concrete} (hl : left.kind = .openParen)
      (h : Derives .sum w c) (hr : right.kind = .closeParen) :
      Derives .primary (left :: (w ++ [right])) (.group left c right)
  | primary {w : List Token} {c : Concrete} (h : Derives .primary w c) : Derives .unary w c
  | negate {sign : Token} {w : List Token} {c : Concrete} (hs : sign.kind = .operator .sub)
      (h : Derives .unary w c) : Derives .unary (sign :: w) (.negate sign c)
  | unary {w : List Token} {c : Concrete} (h : Derives .unary w c) : Derives .product w c
  | times {t : Token} {op : BinaryOp} {v w : List Token} {l r : Concrete}
      (hl : Derives .product v l) (ht : t.kind = .operator op) (hop : op = .mul ∨ op = .div)
      (hr : Derives .unary w r) : Derives .product (v ++ t :: w) (.binary op l r)
  | product {w : List Token} {c : Concrete} (h : Derives .product w c) : Derives .sum w c
  | plus {t : Token} {op : BinaryOp} {v w : List Token} {l r : Concrete}
      (hl : Derives .sum v l) (ht : t.kind = .operator op) (hop : op = .add ∨ op = .sub)
      (hr : Derives .product w r) : Derives .sum (v ++ t :: w) (.binary op l r)

/-- What stands before the expression of a statement. -/
inductive Opening : List Token → StmtKind → Prop
  | expr : Opening [] .expr
  | print {t : Token} (h : t.kind = .keyword .print) : Opening [t] .print

/-- A statement without its semicolon. -/
inductive Clause : List Token → StmtKind → Concrete → Prop
  | mk {v w : List Token} {kind : StmtKind} {c : Concrete} (hv : Opening v kind)
      (hw : Derives .sum w c) : Clause (v ++ w) kind c

/-- A whole statement. -/
inductive Sentence : List Token → StmtKind → Concrete → Prop
  | mk {w : List Token} {kind : StmtKind} {c : Concrete} {semicolon : Token}
      (h : Clause w kind c) (hs : semicolon.kind = .semicolon) :
      Sentence (w ++ [semicolon]) kind c

/-- A program, with the kind and the tree of each of its statements. -/
inductive Sentences : List Token → List (StmtKind × Concrete) → Prop
  | nil : Sentences [] []
  | cons {v w : List Token} {kind : StmtKind} {c : Concrete} {rest : List (StmtKind × Concrete)}
      (h : Sentence v kind c) (hw : Sentences w rest) : Sentences (v ++ w) ((kind, c) :: rest)

/-! ## Strengths of levels -/

/-- How tightly the operators of a level bind. -/
def Level.strength : Level → Strength
  | sum => .sum
  | product => .product
  | unary => .sign
  | primary => .sign + 1

/-- The level of the phrases whose operators all bind tighter than `min`. -/
def Level.above (min : Strength) : Level :=
  if min < .sum then sum else if min < .product then product else unary

def BinaryOp.level : BinaryOp → Level
  | add | sub => .sum
  | mul | div => .product

theorem BinaryOp.strength_level (op : BinaryOp) : op.level.strength = op.strength := by
  cases op <;> rfl

theorem Level.sum_le (level : Level) : sum.strength ≤ level.strength := by
  cases level <;> decide

theorem Level.product_le_unary : product.strength ≤ unary.strength := by decide

theorem Level.le_primary (level : Level) : level.strength ≤ primary.strength := by
  cases level <;> decide

theorem Level.strength_above_le {min : Strength} {level : Level} (h : min < level.strength) :
    (above min).strength ≤ level.strength := by
  unfold above
  split
  · cases level <;> decide
  · rename_i hsum
    split
    · cases level with
      | sum => exact absurd h hsum
      | product | unary | primary => decide
    · rename_i hproduct
      cases level with
      | sum => exact absurd h hsum
      | product => exact absurd h hproduct
      | unary | primary => decide

theorem Level.strength_above_le_unary (min : Strength) :
    (above min).strength ≤ unary.strength := by
  unfold above
  split
  · decide
  · split <;> decide

/-- A phrase of a level is a phrase of every looser level. -/
theorem Derives.loosen {a b : Level} {w : List Token} {c : Concrete} (h : Derives a w c)
    (hab : b.strength ≤ a.strength) : Derives b w c := by
  cases a with
  | sum => cases b <;> first | exact h | exact absurd hab (by decide)
  | product =>
    cases b with
    | sum => exact .product h
    | product => exact h
    | unary | primary => exact absurd hab (by decide)
  | unary =>
    cases b with
    | sum => exact .product (.unary h)
    | product => exact .unary h
    | unary => exact h
    | primary => exact absurd hab (by decide)
  | primary =>
    cases b with
    | sum => exact .product (.unary (.primary h))
    | product => exact .unary (.primary h)
    | unary => exact .primary h
    | primary => exact h

theorem Derives.spine_eq_zero {w : List Token} {c : Concrete} (h : Derives .unary w c) :
    c.spine = 0 := by
  cases h with
  | primary h => cases h <;> rfl
  | negate => rfl

/-- An operation is a phrase of the level of its operator. -/
theorem Derives.operation {t : Token} {op : BinaryOp} {v w : List Token} {l r : Concrete}
    (hl : Derives op.level v l) (ht : t.kind = .operator op)
    (hr : Derives (.above op.strength) w r) : Derives op.level (v ++ t :: w) (.binary op l r) := by
  cases op with
  | add => exact .plus hl ht (Or.inl rfl) hr
  | sub => exact .plus hl ht (Or.inr rfl) hr
  | mul => exact .times hl ht (Or.inl rfl) hr
  | div => exact .times hl ht (Or.inr rfl) hr

/-! ## Phrases -/

theorem Derives.ne_nil {level : Level} {w : List Token} {c : Concrete} (h : Derives level w c) :
    w ≠ [] := by
  induction h with
  | primary h ih | unary h ih | product h ih => exact ih
  | literal | group | negate => simp
  | times | plus => simp

theorem Derives.kind_cases {level : Level} {w : List Token} {c : Concrete}
    (h : Derives level w c) : ∀ t ∈ w, t.IsLiteral ∨ t.kind = .openParen ∨
      t.kind = .closeParen ∨ ∃ op, t.kind = .operator op := by
  induction h with
  | literal h =>
    intro t ht
    rw [List.mem_singleton.mp ht]
    exact Or.inl h
  | group hl h hr ih =>
    intro t ht
    rcases List.mem_cons.mp ht with rfl | ht
    · exact Or.inr (Or.inl hl)
    · rcases List.mem_append.mp ht with ht | ht
      · exact ih t ht
      · rw [List.mem_singleton.mp ht]
        exact Or.inr (Or.inr (Or.inl hr))
  | negate hs h ih =>
    intro t ht
    rcases List.mem_cons.mp ht with rfl | ht
    · exact Or.inr (Or.inr (Or.inr ⟨_, hs⟩))
    · exact ih t ht
  | primary h ih | unary h ih | product h ih => exact ih
  | times hl ht hop hr ihl ihr | plus hl ht hop hr ihl ihr =>
    intro u hu
    rcases List.mem_append.mp hu with hu | hu
    · exact ihl u hu
    · rcases List.mem_cons.mp hu with rfl | hu
      · exact Or.inr (Or.inr (Or.inr ⟨_, ht⟩))
      · exact ihr u hu

/-- A semicolon or the keyword of a statement that prints stands in no phrase. -/
theorem Derives.kind_ne {level : Level} {w : List Token} {c : Concrete} (h : Derives level w c) :
    ∀ t ∈ w, t.kind ≠ .semicolon ∧ t.kind ≠ .keyword .print := by
  intro t ht
  rcases h.kind_cases t ht with (hk | hk | ⟨_, hk⟩) | hk | hk | ⟨_, hk⟩ <;> simp [hk]

/-- Every token of a phrase is complete. -/
theorem Derives.kind_ne_unterminated {level : Level} {w : List Token} {c : Concrete}
    (h : Derives level w c) : ∀ t ∈ w, t.kind ≠ .unterminatedString := by
  intro t ht
  rcases h.kind_cases t ht with (hk | hk | ⟨_, hk⟩) | hk | hk | ⟨_, hk⟩ <;> simp [hk]

theorem Opening.kind_eq {v : List Token} {kind : StmtKind} (h : Opening v kind) :
    ∀ t ∈ v, t.kind = .keyword .print := by
  cases h with
  | expr => simp
  | print h => simpa using h

theorem Clause.ne_nil {w : List Token} {kind : StmtKind} {c : Concrete} (h : Clause w kind c) :
    w ≠ [] := by
  cases h with
  | mk hv hw => simp [hw.ne_nil]

theorem Clause.kind_ne_semicolon {w : List Token} {kind : StmtKind} {c : Concrete}
    (h : Clause w kind c) : ∀ t ∈ w, t.kind ≠ .semicolon := by
  cases h with
  | mk hv hw =>
    intro t ht
    rcases List.mem_append.mp ht with ht | ht
    · simp [hv.kind_eq t ht]
    · exact (hw.kind_ne t ht).1

theorem Clause.kind_ne_unterminated {w : List Token} {kind : StmtKind} {c : Concrete}
    (h : Clause w kind c) : ∀ t ∈ w, t.kind ≠ .unterminatedString := by
  cases h with
  | mk hv hw =>
    intro t ht
    rcases List.mem_append.mp ht with ht | ht
    · simp [hv.kind_eq t ht]
    · exact hw.kind_ne_unterminated t ht

/-- The tree of a phrase has an expression exactly where all its numbers can be read. -/
theorem Derives.exists_expr?_iff {level : Level} {w : List Token} {c : Concrete}
    (h : Derives level w c) : (∃ e, c.expr? = some e) ↔ ∀ t ∈ w, t.Readable := by
  induction h with
  | @literal t h =>
    rw [List.forall_mem_singleton]
    exact h.exists_literal?_iff
  | @group left right w c hl h hr ih =>
    have hleft : left.Readable := .of_ne (by simp [hl])
    have hright : right.Readable := .of_ne (by simp [hr])
    rw [List.forall_mem_cons, List.forall_mem_append, List.forall_mem_singleton, ← ih]
    constructor
    · rintro ⟨e, he⟩
      obtain ⟨e', he', -⟩ := Concrete.expr?_group_eq_some_iff.mp he
      exact ⟨hleft, ⟨e', he'⟩, hright⟩
    · rintro ⟨-, ⟨e, he⟩, -⟩
      exact ⟨_, Concrete.expr?_group_eq_some_iff.mpr ⟨e, he, rfl⟩⟩
  | @negate sign w c hs h ih =>
    have hsign : sign.Readable := .of_ne (by simp [hs])
    rw [List.forall_mem_cons, ← ih]
    constructor
    · rintro ⟨e, he⟩
      obtain ⟨e', he', -⟩ := Concrete.expr?_negate_eq_some_iff.mp he
      exact ⟨hsign, e', he'⟩
    · rintro ⟨-, e, he⟩
      exact ⟨_, Concrete.expr?_negate_eq_some_iff.mpr ⟨e, he, rfl⟩⟩
  | primary h ih | unary h ih | product h ih => exact ih
  | @times t op v w l r hl ht hop hr ihl ihr | @plus t op v w l r hl ht hop hr ihl ihr =>
    have hop : t.Readable := .of_ne (by simp [ht])
    rw [List.forall_mem_append, List.forall_mem_cons, ← ihl, ← ihr]
    constructor
    · rintro ⟨e, he⟩
      obtain ⟨el, er, hel, her, -⟩ := Concrete.expr?_binary_eq_some_iff.mp he
      exact ⟨⟨el, hel⟩, hop, er, her⟩
    · rintro ⟨⟨el, hel⟩, -, er, her⟩
      exact ⟨_, Concrete.expr?_binary_eq_some_iff.mpr ⟨el, er, hel, her, rfl⟩⟩

theorem Clause.exists_expr?_iff {w : List Token} {kind : StmtKind} {c : Concrete}
    (h : Clause w kind c) : (∃ e, c.expr? = some e) ↔ ∀ t ∈ w, t.Readable := by
  cases h with
  | @mk v w kind c hv hw =>
    rw [List.forall_mem_append, hw.exists_expr?_iff]
    have hread : ∀ t ∈ v, t.Readable := fun t ht => .of_ne (by simp [hv.kind_eq t ht])
    exact (and_iff_right hread).symm

theorem Sentence.exists_expr?_iff {w : List Token} {kind : StmtKind} {c : Concrete}
    (h : Sentence w kind c) : (∃ e, c.expr? = some e) ↔ ∀ t ∈ w, t.Readable := by
  cases h with
  | @mk w kind c semicolon h hs =>
    have hsemicolon : semicolon.Readable := .of_ne (by simp [hs])
    rw [List.forall_mem_append, List.forall_mem_singleton, h.exists_expr?_iff]
    exact (and_iff_left hsemicolon).symm

/-- The numbers of a program can be read exactly where all its trees have expressions. -/
theorem Sentences.readable_iff {w : List Token} {stmts : List (StmtKind × Concrete)}
    (h : Sentences w stmts) :
    (∀ t ∈ w, t.Readable) ↔ ∀ s ∈ stmts, ∃ e, s.2.expr? = some e := by
  induction h with
  | nil => simp
  | cons h hw ih => rw [List.forall_mem_append, List.forall_mem_cons, ih, h.exists_expr?_iff]

end ExprLang
