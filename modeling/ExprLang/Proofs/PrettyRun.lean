import ExprLang.Proofs.Blocks
import ExprLang.Proofs.Recovery
import ExprLang.Proofs.TokenPlaces

/-!
# Reporting to a text

A parser that renders its issues as it reports them, against the text that it reads, renders all
of them to their ends. It answers what it would answer to any other reporter.

* `PrettyReporter.report_eq`, `PrettyReporter.reportAll_eq`: reports that do not break off.
* `Lexer.issue_partOf`: the issues of a lexer stand at parts of its text.
* `parseProgram_pretty`: the run as a whole.
-/

namespace ExprLang

open Text

/-! ## Reports -/

namespace PrettyReporter

theorem report_eq {r : PrettyReporter} {issue : Issue}
    (h : (r.rendering issue).error? ≠ some .splitCharacter) :
    Reporter.report issue r = .ok ()
      { r with
        events := r.events ++ (r.rendering issue).events
        reported := r.reported ++ [issue] } := by
  change PrettyReporter.report issue r = _
  unfold PrettyReporter.report
  -- Of the four steps only the third has two ways to go on.
  change (if (r.rendering issue).error? = some .splitCharacter then _ else _ : EStateM _ _ _) _ = _
  rw [if_neg h]
  rfl

/-- Reports add their renderings and their issues to what was there before. -/
theorem reportAll_eq {r : PrettyReporter} {is : List Issue}
    (h : ∀ issue ∈ is, (r.rendering issue).error? ≠ some .splitCharacter) :
    Reporter.reportAll is r = .ok ()
      { r with
        events := r.events ++ is.flatMap fun issue => (r.rendering issue).events
        reported := r.reported ++ is } := by
  induction is generalizing r with
  | nil =>
    rw [List.flatMap_nil, List.append_nil, List.append_nil]
    rfl
  | cons issue is ih =>
    obtain ⟨hfirst, hrest⟩ := List.forall_mem_cons.mp h
    -- What was reported before has no influence on how an issue is rendered.
    have hlater := ih (r := { r with
      events := r.events ++ (r.rendering issue).events
      reported := r.reported ++ [issue] }) hrest
    rw [Reporter.reportAll_cons (report_eq hfirst) is, hlater]
    simp only [List.flatMap_cons, List.append_assoc, List.singleton_append]
    rfl

/-- The rendering of an issue at a part of the source is complete. -/
theorem exists_rendering_eq (r : PrettyReporter) {issue : Issue}
    (h : issue.span.PartOf r.source.text.toList) :
    ∃ events, CompleteBlock r.config r.source issue.span issue.message events ∧
      r.rendering issue =
        .ofEvents (headerEvents r.config (some "syntax error") ++ events) := by
  obtain ⟨events, hevents⟩ := exists_completeBlock r.config issue.message h
  refine ⟨events, hevents, ?_⟩
  have hsnippet : Snippet.render r.config (fun () => some r.source)
      ⟨issue.message, (), issue.span⟩ = .ofEvents events := hevents.block_eq
  unfold rendering Diagnostic.render
  rw [List.map_singleton, hsnippet, Rendering.concat, Rendering.concat,
    Rendering.ofEvents_append, Rendering.ofEvents_append, List.append_nil]

end PrettyReporter

/-! ## The issues of a lexer -/

theorem Token.StandsIn.partOf {cs : List Char} {t : Token} (h : t.StandsIn cs) :
    t.span.PartOf cs := by
  obtain ⟨front, lexeme, back, rfl, ht⟩ := h
  exact ⟨front, lexeme, back, rfl, by rw [ht]; rfl⟩

/-- The issues of what a lexer still has to read stand at parts of its text. -/
theorem Lexer.issue_partOf {source : String} {offset : Nat} {l : Lexer}
    (h : startingAt? source offset = some l) (n : Nat) :
    ∀ issue ∈ (parseStream (.ofLexer (l.drop n))).issues, issue.span.PartOf source.toList := by
  obtain ⟨htokens, hend⟩ := standsIn_of_mem_tokens h
  have hpending : (TokenStream.ofLexer (l.drop n)).pending = l.tokens.drop n := tokens_drop n l
  have hstop : (TokenStream.ofLexer (l.drop n)).stop = .empty (byteSize source.toList) := by
    rw [← hend, ← finish_drop n l]
    rfl
  have hinOrder : InOrder (l.tokens.drop n) :=
    (inOrder_tokensFrom l.cursor).2.sublist (List.drop_sublist n l.tokens)
  rw [← hpending] at hinOrder
  intro issue hissue
  rcases issue_span_cases hinOrder issue hissue with ⟨t, ht, hspan⟩ | hspan
  · rw [hpending] at ht
    rw [hspan]
    exact (htokens t (List.mem_of_mem_drop ht)).partOf
  · rw [hspan, hstop]
    exact Span.partOf_end source.toList

/-! ## Runs -/

/-- **Reporting to a text.** A parser that starts anywhere in a text, after any number of its
tokens, and renders its issues against the text, runs to its end. What it answers and which
issues it reports is the same as for a collector. Each of them is rendered completely, and the
output is made of these renderings, in the order of the issues. -/
theorem parseProgram_pretty {source : Source} {offset : Nat} {l : Lexer}
    (h : Lexer.startingAt? source.text offset = some l) (config : Config) (skip : Nat) :
    ∃ hadErrors program,
      ∃ q : Parser Collector,
        Parser.parseProgram (.ofLexer (l.drop skip) {}) = .ok (hadErrors, program) q ∧
      ∃ p : Parser PrettyReporter,
        Parser.parseProgram (.ofLexer (l.drop skip) { source, config }) =
          .ok (hadErrors, program) p ∧
        p.reporter.reported = q.reporter.collected ∧
        (∀ issue ∈ p.reporter.reported, ∃ block,
          CompleteBlock config source issue.span issue.message block ∧
          PrettyReporter.rendering { source, config } issue =
            .ofEvents (headerEvents config (some "syntax error") ++ block)) ∧
        ∀ palette, p.reporter.output palette =
          String.join (p.reporter.reported.map fun issue =>
            (PrettyReporter.rendering { source, config } issue).output palette) := by
  have hrender : ∀ issue ∈ (parseStream (.ofLexer (l.drop skip))).issues, ∃ block,
      CompleteBlock config source issue.span issue.message block ∧
        PrettyReporter.rendering { source, config } issue =
          .ofEvents (headerEvents config (some "syntax error") ++ block) := by
    intro issue hissue
    apply PrettyReporter.exists_rendering_eq { source, config }
    exact Lexer.issue_partOf h skip issue hissue
  have hreport : ∀ issue ∈ (parseStream (.ofLexer (l.drop skip))).issues,
      (PrettyReporter.rendering { source, config } issue).error? ≠ some .splitCharacter := by
    intro issue hissue
    obtain ⟨block, -, hblock⟩ := hrender issue hissue
    rw [hblock]
    exact nofun
  rw [Parser.parseProgram_eq, Parser.parseProgram_eq]
  simp only [Parser.ofLexer, Collector.reportAll_eq, PrettyReporter.reportAll_eq hreport]
  refine ⟨_, _, _, rfl, _, rfl, rfl, hrender, fun palette => ?_⟩
  exact eventsText_flatMap palette _ _

theorem issues_second_line :
    (parseStream (.ofLexer (Lexer.drop 0 ⟨"1;\r\n#", ⟨2, ['\r', '\n', '#']⟩⟩))).issues =
      [⟨"Unexpected character '#'.", ⟨4, 5⟩⟩] := by
  have htokens : tokensFrom ⟨2, ['\r', '\n', '#']⟩ = [⟨.invalid, "#", ⟨4, 5⟩⟩] := by
    rw [tokensFrom_of_some rfl, tokensFrom_of_none rfl]
    rfl
  have hstream : TokenStream.ofLexer (Lexer.drop 0 ⟨"1;\r\n#", ⟨2, ['\r', '\n', '#']⟩⟩) =
      ⟨[⟨.invalid, "#", ⟨4, 5⟩⟩], .empty 5⟩ := by
    rw [← htokens]
    rfl
  rw [hstream, parseStream, attempts_of_ne_nil (by simp), attempts_of_nil rfl]
  rfl

/-- A parser that starts at the end of the first line. -/
theorem parseProgram_pretty_second_line :
    Lexer.startingAt? "1;\r\n#" 2 = some ⟨"1;\r\n#", ⟨2, ['\r', '\n', '#']⟩⟩ ∧
    ∃ hadErrors program, ∃ p : Parser PrettyReporter,
      Parser.parseProgram (.ofLexer (Lexer.drop 0 ⟨"1;\r\n#", ⟨2, ['\r', '\n', '#']⟩⟩)
        { source := ⟨"main", "1;\r\n#"⟩ }) = .ok (hadErrors, program) p ∧
      p.reporter.reported = [⟨"Unexpected character '#'.", ⟨4, 5⟩⟩] ∧
      p.reporter.output .plain =
        "Error: syntax error\nIn main:2:1\n1 │ 1;\n2 │ #\n" ++
          "  │ ^  Unexpected character '#'.\n\n" := by
  have hstart : Lexer.startingAt? "1;\r\n#" 2 =
      some ⟨"1;\r\n#", ⟨2, ['\r', '\n', '#']⟩⟩ := rfl
  obtain ⟨hadErrors, program, q, hcollect, p, hrun, hreported, -, houtput⟩ :=
    @parseProgram_pretty ⟨"main", "1;\r\n#"⟩ 2 _ hstart {} 0
  rw [Parser.parseProgram_eq, Collector.reportAll_eq] at hcollect
  cases hcollect
  have hissues := hreported.trans issues_second_line
  refine ⟨hstart, _, _, p, hrun, hissues, ?_⟩
  rw [houtput, hissues]
  decide

end ExprLang
