import ExprLang.Proofs.RoundTrip
import ExprLang.Proofs.SpanNesting

/-!
# Trees in the order of the text

An expression is read from left to right, a sign before its operand and an operator between its
operands. What is met on the way are the literals and the operators of the text, all of them and
in their order, and parentheses are all that is missing.

* `Expr.labels`: what the nodes of a tree show, from left to right.
* `Label.ReadFrom`: the token that a node was read from.
* `Derives.labels_readFrom`: the nodes that the grammar builds, and their tokens.
* `InOrder.tokensBetween_spanOf`: the tokens inside the span of a row of tokens.
* `Program.beq_iff_eq`: where no number is special, programs are compared node by node.
* `parseProgram_yields`: the nodes of a program.
-/

namespace ExprLang

open Text

/-! ## From left to right -/

/-- What a node shows, apart from its operands. -/
inductive Label where
  | number (value : Binary64)
  | string (text : String)
  | bool (value : Bool)
  | sign (op : UnaryOp)
  | operator (op : BinaryOp)
  deriving DecidableEq, Repr

def Label.isLeaf : Label → Bool
  | number _ | string _ | bool _ => true
  | sign _ | operator _ => false

namespace Expr

/-- The nodes of a tree, a sign before its operand and an operator between its operands. -/
def labels : Expr → List Label
  | number value _ => [.number value]
  | string text _ => [.string text]
  | bool value _ => [.bool value]
  | unary op operand _ => .sign op :: operand.labels
  | binary op lhs rhs _ => lhs.labels ++ .operator op :: rhs.labels

def leaves (e : Expr) : List Label := e.labels.filter Label.isLeaf

def operators (e : Expr) : List Label := e.labels.filter fun l => !l.isLeaf

@[simp] theorem labels_withSpan (s : Span) (e : Expr) : (e.withSpan s).labels = e.labels := by
  cases e <;> rfl

end Expr

/-! ## Tokens of nodes -/

def Token.IsOperator (t : Token) : Prop := ∃ op, t.kind = .operator op

instance : DecidablePred Token.IsLiteral := fun t =>
  inferInstanceAs (Decidable (t.kind = .number ∨ t.kind = .string ∨
    ∃ value, t.kind = .keyword (.bool value)))

instance : DecidablePred Token.IsOperator := fun t =>
  match h : t.kind with
  | .operator op => isTrue ⟨op, h⟩
  | .keyword _ | .identifier | .number | .string | .unterminatedString | .openParen | .closeParen
  | .semicolon | .invalid | .endOfInput => isFalse fun ⟨_, hop⟩ => nomatch h.symm.trans hop

/-- The token stands for a node by itself. -/
def Token.isNode (t : Token) : Bool := t.IsLiteral ∨ t.IsOperator

/-- A string has its two quotes and no other. -/
def Token.Quoted (t : Token) : Prop :=
  t.kind = .string → ∃ body, '"' ∉ body ∧ t.lexeme = String.ofList ('"' :: (body ++ ['"']))

/-- The token that a node was read from. -/
inductive Label.ReadFrom : Label → Token → Prop
  /-- The double that the numeral denotes, finite and without a sign. -/
  | number {value : Binary64} {t : Token} (hk : t.kind = .number)
      (hvalue : Binary64.ofNumeral? t.lexeme = some value) (hfinite : value.isFinite = true)
      (hsign : value.negative = false) : ReadFrom (.number value) t
  /-- The string as it was written, between its only quotes. -/
  | string {body : List Char} {t : Token} (hk : t.kind = .string) (hbody : '"' ∉ body)
      (htext : t.lexeme = String.ofList ('"' :: (body ++ ['"']))) : ReadFrom (.string t.lexeme) t
  | bool {value : Bool} {t : Token} (hk : t.kind = .keyword (.bool value)) :
      ReadFrom (.bool value) t
  | sign {t : Token} (hk : t.kind = .operator .sub) : ReadFrom (.sign .negate) t
  | operator {op : BinaryOp} {t : Token} (hk : t.kind = .operator op) : ReadFrom (.operator op) t

theorem Label.ReadFrom.isLeaf_iff {l : Label} {t : Token} (h : l.ReadFrom t) :
    l.isLeaf = true ↔ t.IsLiteral := by
  cases h with
  | number hk => exact iff_of_true rfl (Or.inl hk)
  | string hk => exact iff_of_true rfl (Or.inr (Or.inl hk))
  | bool hk => exact iff_of_true rfl (Or.inr (Or.inr ⟨_, hk⟩))
  | sign hk | operator hk => exact iff_of_false Bool.false_ne_true (by simp [Token.IsLiteral, hk])

theorem Label.ReadFrom.not_isLeaf_iff {l : Label} {t : Token} (h : l.ReadFrom t) :
    (!l.isLeaf) = true ↔ t.IsOperator := by
  cases h with
  | number hk | string hk | bool hk =>
    exact iff_of_false Bool.false_ne_true (by simp [Token.IsOperator, hk])
  | sign hk | operator hk => exact iff_of_true rfl ⟨_, hk⟩

/-! ## Phrases -/

theorem Binary64.negative_of_ofNumeral? {text : String} {x : Binary64}
    (h : ofNumeral? text = some x) : x.negative = false := by
  obtain ⟨d, -, hd⟩ := Option.bind_eq_some_iff.mp h
  unfold ofDecimal? at hd
  dsimp only at hd
  split at hd <;> cases hd
  rfl

theorem Token.labels_readFrom {t : Token} {e : Expr} (h : t.literal? = some e) (ht : t.Quoted) :
    List.Forall₂ Label.ReadFrom e.labels [t] := by
  unfold literal? at h
  split at h
  · rename_i hk
    obtain ⟨value, hvalue, rfl⟩ := Option.map_eq_some_iff.mp h
    have hfinite := Binary64.isFinite_of_ofNumeral? hvalue
    have hsign := Binary64.negative_of_ofNumeral? hvalue
    exact .cons (.number hk hvalue hfinite hsign) .nil
  · rename_i hk
    cases h
    obtain ⟨body, hbody, htext⟩ := ht hk
    exact .cons (.string hk hbody htext) .nil
  · rename_i hk
    cases h
    exact .cons (.bool hk) .nil
  · cases h

section

variable {t : Token}

theorem Token.isNode_of_isLiteral (h : t.IsLiteral) : t.isNode = true := decide_eq_true (Or.inl h)

theorem Token.isNode_of_operator {op : BinaryOp} (h : t.kind = .operator op) : t.isNode = true :=
  decide_eq_true (Or.inr ⟨op, h⟩)

/-- Parentheses, semicolons and the keyword of a statement that prints leave no node. -/
theorem Token.not_isNode (h : t.kind = .openParen ∨ t.kind = .closeParen ∨ t.kind = .semicolon ∨
    t.kind = .keyword .print) : ¬ t.isNode = true := by
  rcases h with h | h | h | h <;> simp [isNode, IsLiteral, IsOperator, h]

end

/-- The nodes of a phrase are its literals and its operators. -/
theorem Derives.labels_readFrom {level : Level} {w : List Token} {c : Concrete} {e : Expr}
    (h : Derives level w c) (hw : ∀ t ∈ w, t.Quoted) (he : c.expr? = some e) :
    List.Forall₂ Label.ReadFrom e.labels (w.filter Token.isNode) := by
  induction h generalizing e with
  | @literal t h =>
    rw [List.filter_cons_of_pos (Token.isNode_of_isLiteral h)]
    exact Token.labels_readFrom he (hw t List.mem_cons_self)
  | @group left right w c hl h hr ih =>
    obtain ⟨e', he', rfl⟩ := Concrete.expr?_group_eq_some_iff.mp he
    have hinner : ∀ t ∈ w, t.Quoted := fun t ht => hw t (by simp [ht])
    have hleft := Token.not_isNode (Or.inl hl)
    have hright := Token.not_isNode (Or.inr (Or.inl hr))
    rw [Expr.labels_withSpan, List.filter_cons_of_neg hleft, List.filter_append,
      List.filter_cons_of_neg hright, List.filter_nil, List.append_nil]
    exact ih hinner he'
  | @negate sign w c hs h ih =>
    obtain ⟨e', he', rfl⟩ := Concrete.expr?_negate_eq_some_iff.mp he
    rw [List.filter_cons_of_pos (Token.isNode_of_operator hs)]
    exact .cons (.sign hs) (ih (List.forall_mem_cons.mp hw).2 he')
  | primary h ih | unary h ih | product h ih => exact ih hw he
  | @times t op v w l r hl hk hop hr ihl ihr | @plus t op v w l r hl hk hop hr ihl ihr =>
    obtain ⟨el, er, hel, her, rfl⟩ := Concrete.expr?_binary_eq_some_iff.mp he
    obtain ⟨hv, htw⟩ := List.forall_mem_append.mp hw
    have hright := ihr (List.forall_mem_cons.mp htw).2 her
    rw [List.filter_append, List.filter_cons_of_pos (Token.isNode_of_operator hk)]
    exact List.rel_append (ihl hv hel) (.cons (.operator hk) hright)

theorem Clause.labels_readFrom {w : List Token} {kind : StmtKind} {c : Concrete} {e : Expr}
    (h : Clause w kind c) (hw : ∀ t ∈ w, t.Quoted) (he : c.expr? = some e) :
    List.Forall₂ Label.ReadFrom e.labels (w.filter Token.isNode) := by
  cases h with
  | @mk v w kind c hv hphrase =>
    have hprint : v.filter Token.isNode = [] := by
      apply List.filter_eq_nil_iff.mpr
      intro t ht
      exact Token.not_isNode (Or.inr (Or.inr (Or.inr (hv.kind_eq t ht))))
    rw [List.filter_append, hprint, List.nil_append]
    exact hphrase.labels_readFrom (List.forall_mem_append.mp hw).2 he

/-! ## Tokens of a text -/

theorem Tokenization.quoted {p : Nat} {cs : List Char} {w : List Token}
    (h : Tokenization p cs w) : ∀ t ∈ w, t.Quoted := by
  induction h with
  | nil | lastComment => exact nofun
  | blank h hw ih | comment h hw ih => exact ih
  | @token p c cs lexeme rest kind w hblank hcomment h hw ih =>
    refine List.forall_mem_cons.mpr ⟨?_, ih⟩
    rintro rfl
    cases h with
    | longest hstarts hcut hlongest hkind =>
      cases hkind with
      | string =>
        obtain ⟨body, hbody, rfl⟩ := mem_string_iff.mp hlongest.mem
        exact ⟨body, hbody, rfl⟩
      | sign h =>
        simp [signs] at h

theorem quoted_lex (source : String) : ∀ t ∈ lex source, t.Quoted :=
  (tokenization_tokensFrom 0 source.toList).quoted

/-- The tokens inside the span of a row of tokens are the row itself. -/
theorem InOrder.tokensBetween_spanOf {tokens w : List Token} (h : InOrder tokens)
    (hw : w <:+: tokens) (hne : w ≠ []) :
    tokensBetween tokens (spanOf w).start (spanOf w).stop = w := by
  obtain ⟨first, hfirst, hstart⟩ := exists_spanOf_start hne
  obtain ⟨last, hlast, hstop⟩ := exists_spanOf_stop hne
  obtain ⟨front, back, rfl⟩ := hw
  have hfront : ∀ t ∈ front, ¬ (spanOf w).start ≤ t.span.start := by
    intro t ht
    have hlt := h.nonempty t (by simp [ht])
    have hle := (List.pairwise_append.mp h.left.apart).2.2 t ht first hfirst
    omega
  have hback : ∀ t ∈ back, ¬ t.span.stop ≤ (spanOf w).stop := by
    intro t ht
    have hlt := h.nonempty t (by simp [ht])
    have hle := (List.pairwise_append.mp h.apart).2.2 last (by simp [hlast]) t ht
    omega
  have hin : ∀ t ∈ w, (spanOf w).start ≤ t.span.start ∧ t.span.stop ≤ (spanOf w).stop :=
    fun t ht => ⟨h.left.right.spanOf_start_le ht, h.left.right.le_spanOf_stop ht⟩
  have hnone : tokensBetween front (spanOf w).start (spanOf w).stop = [] := by
    apply List.filter_eq_nil_iff.mpr
    intro t ht
    simp [hfront t ht]
  have hnone' : tokensBetween back (spanOf w).start (spanOf w).stop = [] := by
    apply List.filter_eq_nil_iff.mpr
    intro t ht
    simp [hback t ht]
  have hall : tokensBetween w (spanOf w).start (spanOf w).stop = w := by
    apply List.filter_eq_self.mpr
    intro t ht
    simp [hin t ht]
  unfold tokensBetween at hnone hnone' hall ⊢
  rw [List.filter_append, List.filter_append, hnone, hnone', hall, List.nil_append,
    List.append_nil]

/-! ## Statements -/

/-- The nodes of the statement are the literals and the operators inside its span, one by one and
in their order: all nodes together, the leaves by themselves and the operators by themselves. -/
structure Stmt.Yields (tokens : List Token) (s : Stmt) : Prop where
  nodes : List.Forall₂ Label.ReadFrom s.expr.labels
    ((tokensBetween tokens s.span.start s.span.stop).filter fun t => t.IsLiteral ∨ t.IsOperator)
  leaves : List.Forall₂ Label.ReadFrom s.expr.leaves
    ((tokensBetween tokens s.span.start s.span.stop).filter fun t => t.IsLiteral)
  operators : List.Forall₂ Label.ReadFrom s.expr.operators
    ((tokensBetween tokens s.span.start s.span.stop).filter fun t => t.IsOperator)

theorem filter_isNode {p : Token → Bool} (hp : ∀ t, p t = true → t.isNode = true)
    (tokens : List Token) : (tokens.filter Token.isNode).filter p = tokens.filter p := by
  rw [List.filter_filter]
  apply List.filter_congr
  intro t _
  cases hpt : p t with
  | false => rfl
  | true => exact hp t hpt

theorem Stmt.yields_of_labels {tokens : List Token} {s : Stmt}
    (h : List.Forall₂ Label.ReadFrom s.expr.labels
      ((tokensBetween tokens s.span.start s.span.stop).filter Token.isNode)) :
    s.Yields tokens := by
  generalize hinside : tokensBetween tokens s.span.start s.span.stop = inside at h
  have hleaves := List.rel_filter (p := Label.isLeaf) (q := fun t => t.IsLiteral)
    (fun l t hl => by simpa using hl.isLeaf_iff) h
  have hoperators := List.rel_filter (p := fun l => !l.isLeaf) (q := fun t => t.IsOperator)
    (fun l t hl => by simpa using hl.not_isLeaf_iff) h
  have hliteral : ∀ t : Token, decide t.IsLiteral = true → t.isNode = true :=
    fun t ht => by simpa [Token.isNode] using Or.inl (of_decide_eq_true ht)
  have hoperator : ∀ t : Token, decide t.IsOperator = true → t.isNode = true :=
    fun t ht => by simpa [Token.isNode] using Or.inr (of_decide_eq_true ht)
  rw [filter_isNode hliteral] at hleaves
  rw [filter_isNode hoperator] at hoperators
  subst hinside
  exact ⟨h, hleaves, hoperators⟩

theorem stmt_yields_of_mem {source : String} {s : Stmt}
    (hs : s ∈ (parse source).program.statements) : s.Yields (lex source) := by
  have horder := inOrder_lex source
  obtain ⟨w, c, hw, he, -, hpart, hspan⟩ := exists_clause_of_mem hs
  have hquoted : ∀ t ∈ w, t.Quoted := fun t ht => quoted_lex source t (hpart.mem ht)
  have hnodes := hw.labels_readFrom hquoted he
  apply Stmt.yields_of_labels
  rcases hspan with ⟨semicolon, hs, hbehind, hspan⟩ | hspan
  · have hsemicolon := Token.not_isNode (Or.inr (Or.inr (Or.inl hs)))
    rw [hspan, horder.tokensBetween_spanOf hbehind (by simp), List.filter_append,
      List.filter_cons_of_neg hsemicolon, List.filter_nil, List.append_nil]
    exact hnodes
  · rw [hspan, horder.tokensBetween_spanOf hpart hw.ne_nil]
    exact hnodes

/-! ## Comparison -/

/-- What is read from tokens is written as those tokens again. -/
theorem Expr.printable_of_labels {e : Expr} (h : ∀ l ∈ e.labels, ∃ t, l.ReadFrom t) :
    e.Printable := by
  induction e with
  | number value s =>
    obtain ⟨t, ht⟩ := h _ List.mem_cons_self
    cases ht with
    | number hk hvalue hfinite hsign => exact ⟨hfinite, hsign⟩
  | string text s =>
    obtain ⟨t, ht⟩ := h _ List.mem_cons_self
    cases ht with
    | @string body _ hk hbody htext => exact ⟨body, hbody, htext⟩
  | bool => trivial
  | unary op e s ih => exact ih (List.forall_mem_cons.mp h).2
  | binary op l r s ihl ihr =>
    obtain ⟨hl, hr⟩ := List.forall_mem_append.mp h
    exact ⟨ihl hl, ihr (List.forall_mem_cons.mp hr).2⟩

theorem Stmt.Yields.printable {tokens : List Token} {s : Stmt} (h : s.Yields tokens) :
    s.expr.Printable := by
  have hread : List.Forall₂ (fun l t => (∃ t, Label.ReadFrom l t) ∧ l.ReadFrom t) s.expr.labels _ :=
    h.nodes.imp fun l t hl => ⟨⟨t, hl⟩, hl⟩
  exact Expr.printable_of_labels ((List.forall₂_and_left _ _).mp hread).1

/-- Doubles without a sign are compared as what they are, unless they are NaNs. -/
theorem Binary64.beq_iff_eq {x y : Binary64} (hx : x.isFinite = true ∧ x.negative = false)
    (hy : y.isFinite = true ∧ y.negative = false) : (x == y) = true ↔ x = y := by
  obtain ⟨sign, magnitude, hlt⟩ := x
  obtain ⟨sign', magnitude', hlt'⟩ := y
  obtain ⟨hfinite, rfl⟩ := hx
  obtain ⟨hfinite', rfl⟩ := hy
  rw [beq_def, isNaN_eq_false_of_isFinite hfinite, isNaN_eq_false_of_isFinite hfinite']
  simp only [isZero, Binary64.mk.injEq]
  simp
  omega

theorem Expr.beq_iff_eq {e e' : Expr} (he : e.Printable) (he' : e'.Printable) :
    (e == e') = true ↔ e = e' := by
  change e.beq e' = true ↔ _
  induction e generalizing e' with
  | number value s =>
    cases e' with
    | number value' s' => simp [Expr.beq, Binary64.beq_iff_eq he he']
    | string | bool | unary | binary => simp [Expr.beq]
  | string text s => cases e' <;> simp [Expr.beq]
  | bool value s => cases e' <;> simp [Expr.beq]
  | unary op e s ih =>
    cases e' with
    | unary op' e' s' =>
      have he : e.Printable := he
      have he' : e'.Printable := he'
      simp [Expr.beq, ih he he']
    | number | string | bool | binary => simp [Expr.beq]
  | binary op l r s ihl ihr =>
    cases e' with
    | binary op' l' r' s' => simp [Expr.beq, ihl he.1 he'.1, ihr he.2 he'.2, and_assoc]
    | number | string | bool | unary => simp [Expr.beq]

theorem Stmt.beq_iff_eq {s t : Stmt} (hs : s.expr.Printable) (ht : t.expr.Printable) :
    (s == t) = true ↔ s = t := by
  change (s.kind == t.kind && s.expr == t.expr && s.span == t.span) = true ↔ _
  obtain ⟨kind, e, span⟩ := s
  obtain ⟨kind', e', span'⟩ := t
  simp [Expr.beq_iff_eq hs ht, and_assoc]

theorem Program.beq_iff_eq {p q : Program} (hp : p.Printable) (hq : q.Printable) :
    (p == q) = true ↔ p = q := by
  obtain ⟨ss⟩ := p
  obtain ⟨ts⟩ := q
  change (ss == ts) = true ↔ _
  rw [Program.mk.injEq]
  induction ss generalizing ts with
  | nil => cases ts <;> simp
  | cons s ss ih =>
    cases ts with
    | nil => simp
    | cons t ts =>
      obtain ⟨hs, hss⟩ := List.forall_mem_cons.mp hp
      obtain ⟨ht, hts⟩ := List.forall_mem_cons.mp hq
      rw [List.cons_beq_cons, Bool.and_eq_true, Stmt.beq_iff_eq hs ht, ih hss ts hts,
        List.cons.injEq]

theorem parse_printable (source : String) : (parse source).program.Printable :=
  fun _ hs => (stmt_yields_of_mem hs).printable

/-! ## Programs -/

/-- No reporter has a say in what the program of a text is. -/
theorem Parser.program_eq_of_ok {ρ : Type} [Reporter ρ] {source : String} {r : ρ}
    {hadErrors : Bool} {program : Program} {p : Parser ρ}
    (h : parseProgram (.ofLexer (.ofSource source) r) = .ok (hadErrors, program) p) :
    program = (parse source).program := by
  rw [parseProgram_eq] at h
  split at h <;> cases h
  rfl

/-- **Leaves in order.** The program of a text is the same for every reporter. Whatever is wrong
with the text, the leaves of a statement are the literals inside its span, one by one and in the
order of the text, and its operators are the operators there. The program is equal to itself, and
a program that is equal to it has the same text. -/
theorem parseProgram_yields (source : String) :
    ∃ program,
      (∃ hadErrors, ∃ p : Parser Collector,
        Parser.parseProgram (.ofLexer (.ofSource source) {}) = .ok (hadErrors, program) p) ∧
      (∀ {ρ : Type} [Reporter ρ] (r : ρ) hadErrors program' (p : Parser ρ),
        Parser.parseProgram (.ofLexer (.ofSource source) r) = .ok (hadErrors, program') p →
        program' = program) ∧
      (∀ s ∈ program.statements, s.Yields (lex source)) ∧
      (program == program) = true ∧
      ∀ {ρ : Type} [Reporter ρ] (r : ρ) source' hadErrors program' (p : Parser ρ),
        Parser.parseProgram (.ofLexer (.ofSource source') r) = .ok (hadErrors, program') p →
        (program == program') = true → program = program' ∧ program.text = program'.text := by
  have hself := parse_printable source
  obtain ⟨p, hrun, -⟩ := Parser.parseProgram_collector source
  refine ⟨_, ⟨_, p, hrun⟩, fun r _ _ _ h => Parser.program_eq_of_ok h,
    fun s hs => stmt_yields_of_mem hs, (Program.beq_iff_eq hself hself).mpr rfl, ?_⟩
  intro ρ _ r source' hadErrors program' p' h hbeq
  obtain rfl := Parser.program_eq_of_ok h
  have heq := (Program.beq_iff_eq hself (parse_printable source')).mp hbeq
  exact ⟨heq, congrArg Program.text heq⟩

/-- Groups and broken statements leave nothing. -/
example :
    (parse "print -(true + \"a\") * false; + ; true").program.statements.map (·.expr.labels) =
      [[.sign .negate, .bool true, .operator .add, .string "\"a\"", .operator .mul, .bool false],
        [.bool true]] := by
  decide +kernel

end ExprLang
