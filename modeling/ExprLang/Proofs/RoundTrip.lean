import ExprLang.Proofs.Acceptance
import ExprLang.Proofs.Lexing
import ExprLang.Tree.Print

/-!
# Reading undoes writing

The text of a program has the tokens of a program of the grammar, whose trees have the
expressions that were written. Each operation is written in parentheses, so each is a primary
of the grammar, and costs one more than what stands inside.

* `Expr.printedCost`: the cost of the tree of a written expression.
* `Expr.exists_derives_chars`, `Stmt.exists_sentence_chars`, `Program.exists_sentences_chars`:
  written expressions, statements and programs are derived.
* `parse_text`: what a written program is read as.
-/

namespace ExprLang

open Text

/-! ## Trees without their spans -/

def Expr.bare (e : Expr) : Expr := e.mapSpan fun _ => .empty 0

def Stmt.bare (s : Stmt) : Stmt := s.mapSpan fun _ => .empty 0

def Program.bare (p : Program) : Program := p.mapSpan fun _ => .empty 0

@[simp] theorem Expr.bare_withSpan (e : Expr) (s : Span) : (e.withSpan s).bare = e.bare := by
  cases e <;> rfl

/-! ## Written expressions -/

/-- The trees whose leaves are written as the tokens they are read from: a number is finite
and has no sign, a string has its two quotes and no other. -/
def Expr.Printable : Expr → Prop
  | number value _ => value.isFinite = true ∧ value.negative = false
  | string text _ => ∃ body, '"' ∉ body ∧ text = String.ofList ('"' :: (body ++ ['"']))
  | bool .. => True
  | unary _ operand _ => operand.Printable
  | binary _ lhs rhs _ => lhs.Printable ∧ rhs.Printable

def Program.Printable (p : Program) : Prop := ∀ s ∈ p.statements, s.expr.Printable

/-- The nesting that the text of a tree needs. -/
def Expr.printedCost : Expr → Nat
  | number .. | string .. | bool .. => 1
  | unary _ operand _ => 2 + operand.printedCost
  | binary _ lhs rhs _ => max (1 + lhs.printedCost) (3 + rhs.printedCost)

/-- The tree has the expression `e`, spans apart, and costs what `e` costs in print. -/
def Concrete.Shows (c : Concrete) (e : Expr) : Prop :=
  (∃ e', c.expr? = some e' ∧ e'.bare = e.bare) ∧ c.cost = e.printedCost

namespace Concrete.Shows

variable {c l r : Concrete} {e el er : Expr}

theorem negate (h : c.Shows e) (left sign right : Token) (s : Span) :
    (group left (.negate sign c) right).Shows (.unary .negate e s) := by
  obtain ⟨⟨e', he', hbare⟩, hcost⟩ := h
  refine ⟨⟨_, expr?_group_eq_some_iff.mpr ⟨_, expr?_negate_eq_some_iff.mpr ⟨e', he', rfl⟩, rfl⟩,
    ?_⟩, ?_⟩
  · rw [Expr.bare_withSpan]
    exact congrArg (fun e => Expr.unary .negate e (.empty 0)) hbare
  · rw [cost, cost, hcost, Expr.printedCost]
    omega

theorem binary (hl : l.Shows el) (hr : r.Shows er) (hspine : l.spine = 0) (op : BinaryOp)
    (left right : Token) (s : Span) :
    (group left (.binary op l r) right).Shows (.binary op el er s) := by
  obtain ⟨⟨el', hel', hlbare⟩, hlcost⟩ := hl
  obtain ⟨⟨er', her', hrbare⟩, hrcost⟩ := hr
  refine ⟨⟨_, expr?_group_eq_some_iff.mpr ⟨_, expr?_binary_eq_some_iff.mpr
    ⟨el', er', hel', her', rfl⟩, rfl⟩, ?_⟩, ?_⟩
  · rw [Expr.bare_withSpan]
    exact congrArg₂ (fun l r => Expr.binary op l r (.empty 0)) hlbare hrbare
  · rw [cost, cost, hspine, hlcost, hrcost, Expr.printedCost]
    omega

end Concrete.Shows

/-! ## Written leaves -/

theorem Binary64.text_of_isFinite {x : Binary64} (hx : x.isFinite = true)
    (hs : x.negative = false) : x.text = String.ofList (shortest x.magnitude).numeral := by
  have hnan := isNaN_eq_false_of_isFinite hx
  have hinf : x.isInfinite = false := by
    simp only [isFinite, isInfinite, decide_eq_true_eq, beq_eq_false_iff_ne] at *
    omega
  simp [text, hnan, hinf, hs]

theorem Binary64.ofNumeral?_text {x : Binary64} (hx : x.isFinite = true)
    (hs : x.negative = false) : ofNumeral? x.text = some x := by
  have hlt : x.magnitude < infinity := by simpa [isFinite] using hx
  obtain ⟨negative, magnitude, hmagnitude⟩ := x
  cases hs
  rw [text_of_isFinite hx rfl, ofNumeral?_shortest hlt]
  rfl

/-- A text of one literal token is a primary. -/
theorem exists_derives_of_literal {p : Nat} {cs rest : List Char} {t : Token} {e e' : Expr}
    (hlex : Lexes p cs rest [t]) (ht : t.IsLiteral) (he' : t.literal? = some e')
    (hbare : e'.bare = e.bare) (hcost : e.printedCost = 1) :
    ∃ w c, Lexes p cs rest w ∧ Derives .primary w c ∧ c.Shows e :=
  ⟨[t], .literal t, hlex, .literal ht, ⟨e', he', hbare⟩, hcost.symm⟩

/-! ## Written operations -/

/-- A phrase in parentheses is a primary. -/
theorem exists_derives_of_parens {p : Nat} {cs rest : List Char} {w : List Token} {c : Concrete}
    (hlex : Lexes (p + byteSize ['(']) cs (')' :: rest) w) (h : Derives .sum w c) :
    ∃ left right v, Lexes p ('(' :: (cs ++ [')'])) rest v ∧
      Derives .primary v (.group left c right) := by
  have hopen : Lexes p ['('] (cs ++ [')'] ++ rest) [.ofText .openParen ['('] p] :=
    lexes_punctuation rfl (by simp) p
  have hclose : Lexes (p + byteSize ['('] + byteSize cs) [')'] rest
      [.ofText .closeParen [')'] (p + byteSize ['('] + byteSize cs)] :=
    lexes_punctuation rfl (by simp) _
  exact ⟨_, _, _, hopen.append (hlex.append hclose), .group rfl h rfl⟩

theorem lexes_operator (op : BinaryOp) (p : Nat) (rest : List Char) :
    Lexes p [' ', op.symbol, ' '] rest
      [.ofText (.operator op) [op.symbol] (p + byteSize [' '])] := by
  have hop : Scan.punctuation? op.symbol = some (.operator op) := by cases op <;> rfl
  have hsymbol : Lexes (p + byteSize [' ']) [op.symbol] (' ' :: rest)
      [.ofText (.operator op) [op.symbol] (p + byteSize [' '])] :=
    lexes_punctuation hop (by simp) _
  have hblank : ∀ q rest, Lexes q [' '] rest [] := lexes_blank (by decide)
  exact (hblank _ _).append (hsymbol.append (hblank _ _))

/-- An operation on primaries is a phrase of its level, and so of the loosest one. -/
theorem derives_operation_of_primary {v w : List Token} {l r : Concrete} {t : Token}
    {op : BinaryOp} (hv : Derives .primary v l) (ht : t.kind = .operator op)
    (hw : Derives .primary w r) : Derives .sum (v ++ t :: w) (.binary op l r) := by
  have hlhs := hv.loosen op.level.le_primary
  have hrhs := hw.loosen (Level.above op.strength).le_primary
  exact (hlhs.operation ht hrhs).loosen op.level.sum_le

theorem Expr.exists_derives_chars {e : Expr} (he : e.Printable) {rest : List Char}
    (hrest : Ends rest) (p : Nat) :
    ∃ w c, Lexes p e.chars rest w ∧ Derives .primary w c ∧ c.Shows e := by
  have hparen : ∀ rest, Ends (')' :: rest) := ends_punctuation rfl
  have hblank : ∀ rest, Ends (' ' :: rest) := Ends.cons rfl (by decide)
  induction e generalizing p rest with
  | number value s =>
    obtain ⟨hfinite, hsign⟩ := he
    have htext := Binary64.text_of_isFinite hfinite hsign
    have hread := Binary64.ofNumeral?_text hfinite hsign
    rw [htext] at hread
    have hlex := lexes_numeral (Binary64.shortest value.magnitude) hrest p
    have hliteral : (Token.ofText .number (Binary64.shortest value.magnitude).numeral p).literal? =
        some (.number value ⟨p, _⟩) :=
      congrArg (Option.map _) hread
    rw [chars, htext, String.toList_ofList]
    exact exists_derives_of_literal hlex (Or.inl rfl) hliteral rfl rfl
  | string text s =>
    obtain ⟨body, hbody, rfl⟩ := he
    have hlex := lexes_string hbody p rest
    rw [chars, String.toList_ofList]
    exact exists_derives_of_literal hlex (Or.inr (Or.inl rfl)) rfl rfl rfl
  | bool value s =>
    have hlex := lexes_keyword (.bool value) hrest p
    exact exists_derives_of_literal hlex (Or.inr (Or.inr ⟨value, rfl⟩)) rfl rfl rfl
  | unary op operand s ih =>
    cases op
    have hsign : Lexes (p + byteSize ['(']) ['-'] (operand.chars ++ ')' :: rest)
        [.ofText (.operator .sub) ['-'] (p + byteSize ['('])] :=
      lexes_punctuation rfl (by simp) _
    obtain ⟨w, c, hlex, hw, hc⟩ := ih he (hparen rest) (p + byteSize ['('] + byteSize ['-'])
    obtain ⟨left, right, v, hlex', hv⟩ :=
      exists_derives_of_parens (hsign.append hlex) (.product (.unary (.negate rfl (.primary hw))))
    exact ⟨v, _, hlex', hv, hc.negate left _ right s⟩
  | binary op lhs rhs s ihl ihr =>
    obtain ⟨hlhs, hrhs⟩ := he
    obtain ⟨v, l, hlexl, hv, hl⟩ :=
      ihl hlhs (hblank (op.symbol :: ' ' :: (rhs.chars ++ ')' :: rest))) (p + byteSize ['('])
    have hop := lexes_operator op (p + byteSize ['('] + byteSize lhs.chars)
      (rhs.chars ++ ')' :: rest)
    obtain ⟨w, r, hlexr, hw, hr⟩ := ihr hrhs (hparen rest) _
    obtain ⟨left, right, u, hlex, hu⟩ := exists_derives_of_parens
      (hlexl.append (hop.append hlexr)) (derives_operation_of_primary hv rfl hw)
    refine ⟨u, _, ?_, hu, hl.binary hr (Derives.primary hv).spine_eq_zero op left right s⟩
    simpa [chars] using hlex

/-! ## Written statements and programs -/

/-- The expression at the end of a statement, with what follows it on its line. -/
theorem Expr.exists_derives_line {e : Expr} (he : e.Printable) (p : Nat) (rest : List Char) :
    ∃ w c semicolon, Lexes p (e.chars ++ [';', '\n']) rest (w ++ [semicolon]) ∧
      Derives .sum w c ∧ semicolon.kind = .semicolon ∧ c.Shows e := by
  have hend : Ends (';' :: '\n' :: rest) := ends_punctuation rfl _
  obtain ⟨w, c, hlex, hw, hc⟩ := e.exists_derives_chars he hend p
  have hsemicolon : Lexes (p + byteSize e.chars) [';'] ('\n' :: rest)
      [.ofText .semicolon [';'] (p + byteSize e.chars)] :=
    lexes_punctuation rfl (by simp) _
  have hnewline := lexes_blank (c := '\n') (by decide) (p + byteSize e.chars + byteSize [';']) rest
  have hline := hlex.append (hsemicolon.append hnewline)
  exact ⟨w, c, _, hline, .product (.unary (.primary hw)), rfl, hc⟩

theorem Stmt.exists_sentence_chars {s : Stmt} (hs : s.expr.Printable) (p : Nat)
    (rest : List Char) :
    ∃ w c, Lexes p (s.chars ++ ['\n']) rest w ∧ Sentence w s.kind c ∧ c.Shows s.expr := by
  obtain ⟨kind, e, span⟩ := s
  cases kind with
  | expr =>
    obtain ⟨w, c, semicolon, hlex, hw, hsemicolon, hc⟩ := e.exists_derives_line hs p rest
    refine ⟨w ++ [semicolon], c, ?_, .mk (.mk .expr hw) hsemicolon, hc⟩
    simpa [chars] using hlex
  | print =>
    have hend : Ends (' ' :: (e.chars ++ [';', '\n'] ++ rest)) := Ends.cons rfl (by decide) _
    have hprint := lexes_keyword .print hend p
    have hblank := lexes_blank (c := ' ') (by decide) (p + byteSize Keyword.print.word.toList)
      (e.chars ++ [';', '\n'] ++ rest)
    obtain ⟨w, c, semicolon, hlex, hw, hsemicolon, hc⟩ := e.exists_derives_line hs _ rest
    have hline := hprint.append (hblank.append hlex)
    have hopening : Opening [.ofText (.keyword .print) Keyword.print.word.toList p] .print :=
      .print rfl
    refine ⟨_, c, ?_, .mk (.mk hopening hw) hsemicolon, hc⟩
    simpa [chars] using hline

theorem Program.exists_sentences_chars {M : Program} (hM : M.Printable) (p : Nat)
    (rest : List Char) :
    ∃ (w : List Token) (stmts : List (StmtKind × Concrete)), Lexes p M.chars rest w ∧
      Sentences w stmts ∧
      List.Forall₂ (fun s r => r.1 = s.kind ∧ r.2.Shows s.expr) M.statements stmts := by
  obtain ⟨stmts⟩ := M
  induction stmts generalizing p with
  | nil => exact ⟨[], [], lexes_nil p rest, .nil, .nil⟩
  | cons s stmts ih =>
    obtain ⟨hs, hstmts⟩ := List.forall_mem_cons.mp hM
    obtain ⟨v, c, hlexv, hv, hc⟩ := s.exists_sentence_chars hs p
      ((⟨stmts⟩ : Program).chars ++ rest)
    obtain ⟨w, trees, hlexw, hw, htrees⟩ := ih _ hstmts
    exact ⟨v ++ w, (s.kind, c) :: trees, hlexv.append hlexw, .cons hv hw, .cons ⟨rfl, hc⟩ htrees⟩

/-! ## Reading a written program -/

/-- What becomes of a written statement. -/
inductive Returned (s : Stmt) : Attempt → Prop
  | unchanged {s' : Stmt} (h : s'.bare = s.bare) (hn : s.expr.printedCost ≤ nestingLimit) :
      Returned s (.complete s')
  | tooDeep {span : Span} (hn : nestingLimit < s.expr.printedCost) :
      Returned s (.failed ⟨.tooDeep, span⟩)

theorem exists_expr?_of_shows {stmts : List (StmtKind × Concrete)} {written : List Stmt}
    (h : List.Forall₂ (fun s r => r.1 = s.kind ∧ r.2.Shows s.expr) written stmts) :
    ∀ r ∈ stmts, ∃ e, r.2.expr? = some e := by
  induction h with
  | nil => simp
  | cons hfirst _ ih =>
    obtain ⟨-, ⟨e, he, -⟩, -⟩ := hfirst
    exact List.forall_mem_cons.mpr ⟨⟨e, he⟩, ih⟩

theorem returned_of_outcome {s : Stmt} {kind : StmtKind} {c : Concrete} {a : Attempt}
    (hkind : kind = s.kind) (hshows : c.Shows s.expr) (h : Outcome (kind, c) a) :
    Returned s a := by
  obtain ⟨⟨e', he', hbare⟩, hcost⟩ := hshows
  cases h with
  | @read _ _ e span he hc =>
    obtain rfl : e = e' := Option.some.inj (he.symm.trans he')
    refine .unchanged ?_ (hcost ▸ hc)
    exact congrArg₂ (fun kind e => Stmt.mk kind e (.empty 0)) hkind hbare
  | tooDeep hc => exact .tooDeep (hcost ▸ hc)

theorem returned_of_outcomes {written : List Stmt} {stmts : List (StmtKind × Concrete)}
    {as : List Attempt}
    (hshows : List.Forall₂ (fun s r => r.1 = s.kind ∧ r.2.Shows s.expr) written stmts)
    (h : List.Forall₂ Outcome stmts as) : List.Forall₂ Returned written as := by
  induction hshows generalizing as with
  | nil =>
    cases h
    exact .nil
  | cons hfirst _ ih =>
    cases h with
    | cons ha has => exact .cons (returned_of_outcome hfirst.1 hfirst.2 ha) (ih has)

theorem attempts_text {M : Program} (hM : M.Printable) :
    List.Forall₂ Returned M.statements (attempts ⟨lex M.text, endSpan M.text⟩) := by
  obtain ⟨w, stmts, hlex, hw, hshows⟩ := M.exists_sentences_chars hM 0 []
  have htokens : lex M.text = w := hlex.lex_eq
  have hread := hw.readable_iff.mpr (exists_expr?_of_shows hshows)
  rw [htokens]
  exact returned_of_outcomes hshows (attempts_sentences hw hread _)

/-! ## The program that is read -/

theorem statements_of_returned {written : List Stmt} {as : List Attempt}
    (h : List.Forall₂ Returned written as) :
    (as.filterMap Attempt.stmt?).map Stmt.bare =
      (written.filter (·.expr.printedCost ≤ nestingLimit)).map Stmt.bare := by
  induction h with
  | nil => rfl
  | cons hfirst _ ih =>
    cases hfirst with
    | unchanged h hn => simpa [Attempt.stmt?, hn, h] using ih
    | tooDeep hn =>
      rw [List.filterMap_cons_none rfl, List.filter_cons_of_neg (by simpa using hn)]
      exact ih

theorem messages_of_returned {written : List Stmt} {as : List Attempt}
    (h : List.Forall₂ Returned written as) :
    (as.filterMap Attempt.error?).map (fun e => e.toIssue.message) =
      (written.filter (nestingLimit < ·.expr.printedCost)).map fun _ => Cause.tooDeep.message := by
  induction h with
  | nil => rfl
  | cons hfirst _ ih =>
    cases hfirst with
    | unchanged h hn =>
      rw [List.filterMap_cons_none rfl, List.filter_cons_of_neg (by simpa using hn)]
      exact ih
    | tooDeep hn => simpa [Attempt.error?, SyntaxError.toIssue, hn] using ih

/-- **Round trip.** Each statement of a written program comes back unchanged, spans apart, or
where its text needs too much nesting is missing, with one issue. So the program comes back
as a whole exactly where no statement needs too much. -/
theorem parse_text {M : Program} (hM : M.Printable) :
    (∃ as, parse M.text = .ofAttempts as ∧ List.Forall₂ Returned M.statements as) ∧
    (parse M.text).program.bare = Program.bare ⟨M.statements.filter (·.expr.printedCost ≤ 256)⟩ ∧
    (parse M.text).issues.map Issue.message =
      (M.statements.filter (256 < ·.expr.printedCost)).map
        (fun _ => "Expression nested too deeply.") ∧
    ((parse M.text).program.bare = M.bare ∧ (parse M.text).issues = [] ↔
      ∀ s ∈ M.statements, s.expr.printedCost ≤ 256) := by
  have hreturned := attempts_text hM
  have hprogram : (parse M.text).program.bare =
      Program.bare ⟨M.statements.filter (·.expr.printedCost ≤ 256)⟩ := by
    rw [parse_eq]
    exact congrArg Program.mk (statements_of_returned hreturned)
  have hmessages : (parse M.text).issues.map Issue.message =
      (M.statements.filter (256 < ·.expr.printedCost)).map
        (fun _ => "Expression nested too deeply.") := by
    rw [parse_eq, Parsed.ofAttempts, List.map_map]
    exact messages_of_returned hreturned
  refine ⟨⟨_, parse_eq M.text, hreturned⟩, hprogram, hmessages, ?_, ?_⟩
  · rintro ⟨-, hissues⟩ s hs
    rw [hissues, List.map_nil] at hmessages
    have hnone := List.map_eq_nil_iff.mp hmessages.symm
    simpa using List.filter_eq_nil_iff.mp hnone s hs
  · intro hall
    have hkept : M.statements.filter (·.expr.printedCost ≤ 256) = M.statements :=
      List.filter_eq_self.mpr fun s hs => by simpa using hall s hs
    have hdropped : M.statements.filter (256 < ·.expr.printedCost) = [] :=
      List.filter_eq_nil_iff.mpr fun s hs => by simpa using hall s hs
    rw [hkept] at hprogram
    rw [hdropped] at hmessages
    exact ⟨hprogram, List.map_eq_nil_iff.mp hmessages⟩

/-- The program that prints the sum of the number one and a string. -/
theorem parse_text_sum :
    let one : Expr := .number (.ofBits 0x3FF0000000000000) (.empty 0)
    let M : Program :=
      ⟨[⟨.print, .binary .add one (.string "\"a\"" (.empty 0)) (.empty 0), .empty 0⟩]⟩
    M.Printable ∧ (parse M.text).program.bare = M.bare ∧ (parse M.text).issues = [] := by
  intro one M
  have hone : one.Printable := ⟨by decide, by decide⟩
  have hM : M.Printable := List.forall_mem_singleton.mpr ⟨hone, ['a'], by decide, rfl⟩
  have hcost : ∀ s ∈ M.statements, s.expr.printedCost ≤ 256 := by decide
  exact ⟨hM, (parse_text hM).2.2.2.mpr hcost⟩

end ExprLang
