import ExprLang.Proofs.RoundTrip
import ExprLang.Proofs.SideBySide
import ExprLang.Proofs.SpanFidelity
import ExprLang.Proofs.Tiling
import Mathlib.Order.Lattice

/-!
# Layout

What stands between the tokens of a text has no influence on what is read, not even on the spans,
as long as these are told by the tokens at their ends and not by bytes. A text can be read with
its tokens numbered, and the numbers replaced by places afterwards.

* `numbered contents`: tokens that stand at their own numbers.
* `tokenSpan source`: the span in a text from one numbered token to another one.
* `parse_eq_numbered`: a text is read as its numbered tokens are.
* `parseStream_numbered_within`: the numbers are those of tokens or of the end of input.
* `parse_layout`: two texts with the same tokens.
-/

namespace ExprLang

open Text

/-! ## Numbered tokens -/

/-- What a token is, wherever it stands. -/
def Token.content (t : Token) : TokenKind × String := (t.kind, t.lexeme)

/-- Tokens that stand at their own numbers; the end of input has the next number. -/
def numbered (contents : List (TokenKind × String)) : TokenStream :=
  ⟨contents.mapIdx fun i content => ⟨content.1, content.2, .empty i⟩, .empty contents.length⟩

/-- The token of a number; behind the last token stands the end of input. -/
def tokenAt (source : String) (i : Nat) : Token :=
  (lex source)[i]?.getD (.endOfInput (endSpan source))

/-- The span from the start of one token to the end of another one, told by their numbers. -/
def tokenSpan (source : String) (numbers : Span) : Span :=
  ⟨(tokenAt source numbers.start).span.start, (tokenAt source numbers.stop).span.stop⟩

section

variable (source : String)

theorem tokenAt_cases (i : Nat) :
    (∃ h : i < (lex source).length, tokenAt source i = (lex source)[i]) ∨
      (lex source).length ≤ i ∧ tokenAt source i = .endOfInput (endSpan source) := by
  unfold tokenAt
  rcases Nat.lt_or_ge i (lex source).length with h | h
  · exact Or.inl ⟨h, by rw [List.getElem?_eq_getElem h]; rfl⟩
  · exact Or.inr ⟨h, by rw [List.getElem?_eq_none h]; rfl⟩

theorem tokenAt_ordered (i : Nat) :
    (tokenAt source i).span.start ≤ (tokenAt source i).span.stop := by
  rcases tokenAt_cases source i with ⟨h, hi⟩ | ⟨-, hi⟩ <;> rw [hi]
  · exact ((inOrder_lex source).nonempty _ (List.getElem_mem h)).le
  · exact Nat.le_refl _

theorem tokenAt_apart {i j : Nat} (hij : i < j) :
    (tokenAt source i).span.stop ≤ (tokenAt source j).span.start := by
  rcases tokenAt_cases source j with ⟨hj, hj'⟩ | ⟨hj, hj'⟩ <;> rw [hj']
  · rcases tokenAt_cases source i with ⟨hi, hi'⟩ | ⟨hi, -⟩
    · rw [hi']
      exact List.pairwise_iff_getElem.mp (inOrder_lex source).apart i j hi hj hij
    · omega
  · rcases tokenAt_cases source i with ⟨hi, hi'⟩ | ⟨-, hi'⟩ <;> rw [hi']
    · exact stop_le_of_mem_lex (List.getElem_mem hi)
    · exact Nat.le_refl _

theorem monotone_tokenAt_start : Monotone fun i => (tokenAt source i).span.start := by
  intro i j hij
  rcases hij.eq_or_lt with rfl | hij
  · exact Nat.le_refl _
  · exact (tokenAt_ordered source i).trans (tokenAt_apart source hij)

theorem monotone_tokenAt_stop : Monotone fun i => (tokenAt source i).span.stop := by
  intro i j hij
  rcases hij.eq_or_lt with rfl | hij
  · exact Nat.le_refl _
  · exact (tokenAt_apart source hij).trans (tokenAt_ordered source j)

theorem tokenSpan_union (s t : Span) :
    tokenSpan source (s.union t) = (tokenSpan source s).union (tokenSpan source t) := by
  ext
  · exact (monotone_tokenAt_start source).map_min
  · exact (monotone_tokenAt_stop source).map_max

theorem tokenSpan_empty (i : Nat) : tokenSpan source (.empty i) = (tokenAt source i).span := rfl

/-- The numbered tokens of a text, put to their places, are the tokens of the text. -/
theorem numbered_mapSpan :
    (numbered ((lex source).map Token.content)).mapSpan (tokenSpan source) =
      ⟨lex source, endSpan source⟩ := by
  rw [numbered, TokenStream.mapSpan]
  congr 1
  · apply List.ext_getElem
    · simp
    · intro i _ hi
      simp [Token.mapSpan, Token.content, tokenSpan_empty, tokenAt, hi]
  · simp [tokenSpan_empty, tokenAt, Token.endOfInput]

/-- A text is read as its numbered tokens are, and the numbers then replaced by places. -/
theorem parse_eq_numbered :
    parse source =
      (parseStream (numbered ((lex source).map Token.content))).mapSpan (tokenSpan source) := by
  rw [← parseStream_mapSpan (tokenSpan_union source), numbered_mapSpan, parse, stream_ofSource]

end

/-! ## The numbers -/

/-- Both numbers of a span are at most `n`. -/
def WithinTokens (n : Nat) (numbers : Span) : Prop := numbers.start ≤ n ∧ numbers.stop ≤ n

/-- All numbers in what was read are at most `n`. -/
structure Parsed.Within (n : Nat) (p : Parsed) : Prop where
  stmt : ∀ s ∈ p.program.statements, WithinTokens n s.span
  node : ∀ s ∈ p.program.statements, ∀ e ∈ s.expr.nodes, WithinTokens n e.span
  issue : ∀ i ∈ p.issues, WithinTokens n i.span

/-- Numbers that are too great become `n`. -/
def clamp (n : Nat) : Span → Span := Span.map (min n)

theorem withinTokens_iff {n : Nat} {numbers : Span} :
    clamp n numbers = numbers ↔ WithinTokens n numbers := by
  simp [clamp, WithinTokens, Span.ext_iff]

theorem clamp_union (n : Nat) (s t : Span) :
    clamp n (s.union t) = (clamp n s).union (clamp n t) :=
  Span.map_union (fun _ _ h => min_le_min_left n h) s t

theorem numbered_clamp (contents : List (TokenKind × String)) :
    (numbered contents).mapSpan (clamp contents.length) = numbered contents := by
  have hclamp : ∀ i ≤ contents.length, clamp contents.length (.empty i) = .empty i :=
    fun i hi => withinTokens_iff.mpr ⟨hi, hi⟩
  rw [numbered, TokenStream.mapSpan, hclamp _ (Nat.le_refl _)]
  congr 1
  apply List.ext_getElem
  · simp
  · intro i hi _
    have hi : i < contents.length := by simpa using hi
    simp [Token.mapSpan, hclamp i hi.le]

theorem Expr.span_eq_of_mapSpan_eq {f : Span → Span} {e n : Expr} (h : e.mapSpan f = e)
    (hn : n ∈ e.nodes) : f n.span = n.span := by
  have hroot : ∀ e : Expr, e.mapSpan f = e → f e.span = e.span :=
    fun e he => (span_mapSpan f e).symm.trans (congrArg span he)
  induction e with
  | number | string | bool =>
    rw [List.mem_singleton.mp hn]
    exact hroot _ h
  | unary op operand s ih =>
    rcases List.mem_cons.mp hn with rfl | hn
    · exact hroot _ h
    · exact ih (Expr.unary.inj h).2.1 hn
  | binary op lhs rhs s ihl ihr =>
    rcases List.mem_cons.mp hn with rfl | hn
    · exact hroot _ h
    · obtain ⟨-, hlhs, hrhs, -⟩ := Expr.binary.inj h
      rcases List.mem_append.mp hn with hn | hn
      · exact ihl hlhs hn
      · exact ihr hrhs hn

/-- Numbered tokens do not change where too great numbers are replaced, so no number that the
parser makes of them is too great. -/
theorem parseStream_numbered_within (contents : List (TokenKind × String)) :
    (parseStream (numbered contents)).Within contents.length := by
  have hfixed := parseStream_mapSpan (clamp_union contents.length) (numbered contents)
  rw [numbered_clamp] at hfixed
  generalize parseStream (numbered contents) = p at hfixed
  obtain ⟨⟨statements⟩, issues⟩ := p
  simp only [Parsed.mapSpan, Program.mapSpan, Parsed.mk.injEq, Program.mk.injEq] at hfixed
  obtain ⟨hstatements, hissues⟩ := hfixed
  have hstmt := List.map_inj_left.mp (hstatements.symm.trans (List.map_id statements).symm)
  have hissue := List.map_inj_left.mp (hissues.symm.trans (List.map_id issues).symm)
  refine ⟨fun s hs => ?_, fun s hs e he => ?_, fun i hi => ?_⟩
  · exact withinTokens_iff.mp (congrArg Stmt.span (hstmt s hs))
  · exact withinTokens_iff.mp (Expr.span_eq_of_mapSpan_eq (congrArg Stmt.expr (hstmt s hs)) he)
  · exact withinTokens_iff.mp (congrArg Issue.span (hissue i hi))

/-! ## Texts with the same tokens -/

theorem Program.bare_mapSpan (f : Span → Span) (p : Program) : (p.mapSpan f).bare = p.bare := by
  simp [bare, mapSpan, Stmt.mapSpan, Expr.mapSpan_mapSpan, Function.comp_def]

theorem Parsed.messages_mapSpan (f : Span → Span) (p : Parsed) :
    (p.mapSpan f).issues.map Issue.message = p.issues.map Issue.message := by
  simp [mapSpan, Issue.mapSpan, Function.comp_def]

/-- **Layout.** Texts with the same tokens, whatever stands between them, have the same program,
spans apart, and the same messages. There is one result whose spans are numbers of tokens, and
what a parser answers and reports for each of the texts is this result with the numbers replaced
by places. -/
theorem parse_layout {s t : String} (h : (lex s).map Token.content = (lex t).map Token.content) :
    (parse s).program.bare = (parse t).program.bare ∧
    (parse s).issues.map Issue.message = (parse t).issues.map Issue.message ∧
    ∃ result : Parsed, result.Within (lex s).length ∧ (lex s).length = (lex t).length ∧
      ∀ source ∈ [s, t], ∃ p : Parser Collector,
        Parser.parseProgram (.ofLexer (.ofSource source) {}) =
          .ok (!result.issues.isEmpty, result.program.mapSpan (tokenSpan source)) p ∧
        p.reporter.collected = result.issues.map (Issue.mapSpan (tokenSpan source)) := by
  have hs := parse_eq_numbered s
  have ht := parse_eq_numbered t
  rw [← h] at ht
  have hlength : (lex s).length = (lex t).length := by simpa using congrArg List.length h
  have hwithin := parseStream_numbered_within ((lex s).map Token.content)
  rw [List.length_map] at hwithin
  generalize parseStream (numbered ((lex s).map Token.content)) = result at hs ht hwithin
  refine ⟨?_, ?_, result, hwithin, hlength, ?_⟩
  · rw [hs, ht]
    exact (Program.bare_mapSpan _ _).trans (Program.bare_mapSpan _ _).symm
  · rw [hs, ht, Parsed.messages_mapSpan, Parsed.messages_mapSpan]
  · have hrun : ∀ source, parse source = result.mapSpan (tokenSpan source) →
        ∃ p : Parser Collector, Parser.parseProgram (.ofLexer (.ofSource source) {}) =
            .ok (!result.issues.isEmpty, result.program.mapSpan (tokenSpan source)) p ∧
          p.reporter.collected = result.issues.map (Issue.mapSpan (tokenSpan source)) := by
      intro source hsource
      obtain ⟨p, hp, hissues⟩ := Parser.parseProgram_collector source
      rw [hsource] at hp hissues
      refine ⟨p, ?_, hissues⟩
      rw [hp]
      simp [Parsed.mapSpan]
    exact List.forall_mem_cons.mpr ⟨hrun s hs, List.forall_mem_singleton.mpr (hrun t ht)⟩

/-- A text with a group that is not closed, with and without blanks and a comment. -/
theorem parse_layout_open_group :
    (lex "1+(2;\"a\"#").map Token.content = (lex "1 // (\n +(\t2 ; \"a\" #").map Token.content ∧
    (parse "1 // (\n +(\t2 ; \"a\" #").program.bare =
      ⟨[⟨.expr, .string "\"a\"" (.empty 0), .empty 0⟩]⟩ ∧
    (parse "1 // (\n +(\t2 ; \"a\" #").issues.map Issue.message =
      ["Expected ')' after expression, found ';'.",
        "Expected ';' after expression, found character '#'.", "Unexpected character '#'."] := by
  have hsame : (lex "1+(2;\"a\"#").map Token.content =
      (lex "1 // (\n +(\t2 ; \"a\" #").map Token.content := by decide +kernel
  obtain ⟨hprogram, hmessages, -⟩ := parse_layout hsame
  refine ⟨hsame, ?_, ?_⟩
  · rw [← hprogram]
    decide +kernel
  · rw [← hmessages]
    decide +kernel

end ExprLang
