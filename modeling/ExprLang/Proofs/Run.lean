import ExprLang.Parser

/-!
# Runs of the parser

A parser reads its whole program first and then reports the issues of it. What it answers
depends on the reporter only where a report breaks off.

* `parse_eq`: the program of a text, from the attempts at its statements.
* `Parser.parseProgram_eq`: a run, from what the reporter makes of the issues.
-/

namespace ExprLang

open Text

/-- The span of the end of a text. -/
def endSpan (source : String) : Span := .empty (byteSize source.toList)

theorem stream_ofSource (source : String) :
    TokenStream.ofLexer (.ofSource source) = ⟨lex source, endSpan source⟩ := by
  simp [TokenStream.ofLexer, lex, endSpan, Lexer.finish, Lexer.position, Lexer.ofSource,
    Cursor.ofString]

theorem parse_eq (source : String) :
    parse source = .ofAttempts (attempts ⟨lex source, endSpan source⟩) := by
  rw [parse, parseStream, stream_ofSource]

namespace Parser

variable {ρ : Type} [Reporter ρ]

theorem parseProgram_eq (p : Parser ρ) :
    parseProgram p =
      match Reporter.reportAll (parseStream p.stream).issues p.reporter with
      | .ok () reporter =>
        .ok (p.hadErrors || !(parseStream p.stream).issues.isEmpty, (parseStream p.stream).program)
          { stream := p.stream.finish
            reporter
            hadErrors := p.hadErrors || !(parseStream p.stream).issues.isEmpty }
      | .error e reporter => .error e { p with reporter } := by
  have hrun : parseProgram p =
      (report (parseStream p.stream).issues >>= fun _ =>
        (modify fun p' : Parser ρ =>
          { p' with
            stream := p'.stream.finish
            hadErrors := p'.hadErrors || !(parseStream p.stream).issues.isEmpty }) >>= fun _ =>
        get >>= fun p' => pure (p'.hadErrors, (parseStream p.stream).program)) p := rfl
  rw [hrun]
  change EStateM.bind _ _ p = _
  unfold EStateM.bind report
  cases Reporter.reportAll (parseStream p.stream).issues p.reporter <;> rfl

/-! ## Fresh parsers -/

variable {source : String} {r : ρ}

theorem parseProgram_eq_ok {program : Program} {p : Parser ρ}
    (h : parseProgram (.ofLexer (.ofSource source) r) = .ok (false, program) p) :
    (parse source).issues = [] ∧ program = (parse source).program := by
  rw [parseProgram_eq] at h
  split at h
  · simp only [EStateM.Result.ok.injEq, Prod.mk.injEq] at h
    obtain ⟨⟨hempty, rfl⟩, -⟩ := h
    exact ⟨by simpa [ofLexer, parse] using hempty, rfl⟩
  · cases h

theorem parseProgram_of_issues_eq_nil (h : (parse source).issues = []) (r : ρ) :
    parseProgram (.ofLexer (.ofSource source) r) = .ok (false, (parse source).program)
      { stream := (TokenStream.ofLexer (.ofSource source)).finish, reporter := r } := by
  have hissues : (parseStream (TokenStream.ofLexer (.ofSource source))).issues = [] := h
  rw [parseProgram_eq]
  simp only [ofLexer, hissues]
  rfl

end Parser

/-! ## Collectors -/

theorem Reporter.reportAll_cons {ρ : Type} [Reporter ρ] {issue : Issue} {r r' : ρ}
    (h : Reporter.report issue r = .ok () r') (is : List Issue) :
    Reporter.reportAll (issue :: is) r = Reporter.reportAll is r' := by
  change EStateM.bind _ _ r = _
  unfold EStateM.bind
  rw [h]
  rfl

theorem Collector.reportAll_eq (is : List Issue) (r : Collector) :
    Reporter.reportAll is r = .ok () ⟨r.collected ++ is⟩ := by
  induction is generalizing r with
  | nil =>
    rw [List.append_nil]
    rfl
  | cons issue is ih =>
    have hreport : Reporter.report issue r = .ok () (⟨r.collected ++ [issue]⟩ : Collector) := rfl
    rw [Reporter.reportAll_cons hreport, ih, List.append_assoc, List.singleton_append]

/-- A collector ends up with all issues of what the lexer still has to read. -/
theorem Parser.parseProgram_collects (l : Lexer) :
    ∃ p : Parser Collector, parseProgram (.ofLexer l {}) =
        .ok (!(parseStream (.ofLexer l)).issues.isEmpty, (parseStream (.ofLexer l)).program) p ∧
      p.reporter.collected = (parseStream (.ofLexer l)).issues := by
  rw [parseProgram_eq, Collector.reportAll_eq]
  exact ⟨_, rfl, rfl⟩

/-- A collector ends up with all issues of the text. -/
theorem Parser.parseProgram_collector (source : String) :
    ∃ p : Parser Collector, parseProgram (.ofLexer (.ofSource source) {}) =
        .ok (!(parse source).issues.isEmpty, (parse source).program) p ∧
      p.reporter.collected = (parse source).issues :=
  parseProgram_collects (.ofSource source)

end ExprLang
