import ExprLang.Proofs.BlockText
import ExprLang.Proofs.PrettyRun

/-!
# What reporters keep

A reporter keeps the issues that are reported to it, and the parser reads on in the same way
whatever becomes of a report. A pretty reporter may stand at another text than the parser, so its
issues may lie anywhere: of an issue behind the end of its text it renders the header only, and
at an issue that would cut a character it breaks off.

* `PrettyReporter.Rendered`, `PrettyReporter.rendered_or_splits`: how one issue is rendered.
* `PrettyReporter.report_cases`, `PrettyReporter.reportAll_cases`: one report, and many.
* `Parser.parseStepwise`: a parser that reports each issue as it is met.
* `Parser.answers_of_ok`, `Parser.breaksOff_of_error`: with every reporter it ends as
  `parseProgram` does.
* `reporters_keep_issues`: both together.
-/

namespace ExprLang

open Text

/-! ## Many reports -/

section

variable {ρ : Type} [Reporter ρ]

theorem Reporter.reportAll_singleton (issue : Issue) (r : ρ) :
    Reporter.reportAll [issue] r = Reporter.report issue r := by
  simp [Reporter.reportAll]

theorem Reporter.reportAll_append (is js : List Issue) (r : ρ) :
    Reporter.reportAll (is ++ js) r =
      match Reporter.reportAll is r with
      | .ok () r' => Reporter.reportAll js r'
      | .error e r' => .error e r' := by
  have hbind : (Reporter.reportAll (is ++ js) : EStateM RenderError ρ Unit) =
      Reporter.reportAll is >>= fun _ => Reporter.reportAll js := by
    simp [Reporter.reportAll, List.forM_append]
  rw [hbind]
  change EStateM.bind _ _ r = _
  unfold EStateM.bind
  cases Reporter.reportAll is r <;> rfl

end

theorem reportAll_list (is r : List Issue) : Reporter.reportAll is r = .ok () (r ++ is) := by
  induction is generalizing r with
  | nil =>
    rw [List.append_nil]
    rfl
  | cons issue is ih =>
    have hreport : Reporter.report issue r = .ok () (r ++ [issue]) := rfl
    rw [Reporter.reportAll_cons hreport, ih, List.append_assoc, List.singleton_append]

/-! ## Renderings -/

theorem Rendering.append_ofEvents_nil (r : Rendering) : r ++ ofEvents [] = r := by
  obtain ⟨events, error?⟩ := r
  cases error? with
  | none => rw [append_of_none rfl, ofEvents, List.append_nil]
  | some e => exact append_of_error rfl _

/-- The underline of the issue would cut a character of the source. -/
def Issue.Splits (source : Source) (issue : Issue) : Prop :=
  ∃ place text, SplitsCharacter source issue.span place text

namespace PrettyReporter

/-- How an issue is shown at a source: completely where it starts in the source, and otherwise as
a header without a block. -/
structure Rendered (source : Source) (config : Config) (issue : Issue) : Prop where
  complete : issue.span.start ≤ source.text.utf8ByteSize →
    ∃ block, CompleteBlock config source issue.span issue.message block ∧
      rendering { source, config } issue =
        .ofEvents (headerEvents config (some "syntax error") ++ block)
  headerOnly : source.text.utf8ByteSize < issue.span.start →
    (rendering { source, config } issue).events = headerEvents config (some "syntax error") ∧
      (rendering { source, config } issue).output .plain = "Error: syntax error\n"

theorem rendering_eq (r : PrettyReporter) (issue : Issue) :
    r.rendering issue = .ofEvents (headerEvents r.config (some "syntax error")) ++
      block r.config r.source issue.span issue.message := by
  have hsnippet : Rendering.concat [block r.config r.source issue.span issue.message] =
      block r.config r.source issue.span issue.message := by
    rw [Rendering.concat, Rendering.concat, Rendering.append_ofEvents_nil]
  unfold rendering Diagnostic.render
  rw [List.map_singleton]
  exact congrArg _ hsnippet

theorem output_header (config : Config) :
    eventsText .plain (headerEvents config (some "syntax error")) = "Error: syntax error\n" := by
  simp [headerEvents]

section

variable {source : Source} {issue : Issue} (config : Config)

theorem rendering_of_lt (h : source.text.utf8ByteSize < issue.span.start) :
    rendering { source, config } issue =
      ⟨headerEvents config (some "syntax error"), some .spanOutOfBounds⟩ := by
  have hbad : Snippet.Bad (fun () => some source) ⟨issue.message, (), issue.span⟩
      .spanOutOfBounds := .outside rfl h
  obtain ⟨drawn, hblock, hdrawn⟩ := hbad.exists_render config
  change block config source issue.span issue.message = _ at hblock
  rw [rendering_eq, hblock, hdrawn nofun, Rendering.append_of_none rfl]
  exact congrArg (Rendering.mk · _) (List.append_nil _)

theorem rendering_of_completeBlock {events : List Event}
    (h : CompleteBlock config source issue.span issue.message events) :
    rendering { source, config } issue =
      .ofEvents (headerEvents config (some "syntax error") ++ events) := by
  rw [rendering_eq, h.block_eq, Rendering.ofEvents_append]

theorem error?_rendering_of_splits (h : issue.Splits source) :
    (rendering { source, config } issue).error? = some .splitCharacter := by
  obtain ⟨place, text, hsplit⟩ := h
  rw [rendering_eq, hsplit.block_eq, Rendering.append_of_none rfl]

end

/-- An issue is rendered as it should be, unless its underline would cut a character. -/
theorem rendered_or_splits (source : Source) (config : Config) (issue : Issue) :
    (Rendered source config issue ∧
      (rendering { source, config } issue).error? ≠ some .splitCharacter) ∨
    issue.Splits source := by
  rcases Nat.lt_or_ge source.text.utf8ByteSize issue.span.start with hout | hin
  · have hrendering := rendering_of_lt config hout
    refine Or.inl ⟨⟨fun hin => absurd hout (Nat.not_lt_of_le hin), fun _ => ?_⟩, ?_⟩
    · rw [hrendering]
      exact ⟨rfl, output_header config⟩
    · rw [hrendering]
      exact nofun
  · obtain ⟨events, hblock⟩ | hsplit := completeBlock_or_split config issue.message hin
    · have hrendering := rendering_of_completeBlock config hblock
      refine Or.inl ⟨⟨fun _ => ⟨events, hblock, hrendering⟩, fun hout => ?_⟩, ?_⟩
      · exact absurd hin (Nat.not_le_of_lt hout)
      · rw [hrendering]
        exact nofun
    · exact Or.inr hsplit

/-! ## Reports to a pretty reporter -/

/-- A report adds an issue and its rendering, or breaks off with the begun rendering alone. -/
theorem report_cases (r : PrettyReporter) (issue : Issue) :
    (Rendered r.source r.config issue ∧ Reporter.report issue r = .ok ()
      { r with
        events := r.events ++ (r.rendering issue).events
        reported := r.reported ++ [issue] }) ∨
    (issue.Splits r.source ∧ Reporter.report issue r = .error .splitCharacter
      { r with events := r.events ++ (r.rendering issue).events }) := by
  rcases rendered_or_splits r.source r.config issue with ⟨hrendered, herror⟩ | hsplits
  · exact Or.inl ⟨hrendered, report_eq herror⟩
  · refine Or.inr ⟨hsplits, ?_⟩
    have herror : (r.rendering issue).error? = some .splitCharacter :=
      error?_rendering_of_splits r.config hsplits
    change PrettyReporter.report issue r = _
    unfold PrettyReporter.report
    change (if (r.rendering issue).error? = some .splitCharacter then _ else _ :
      EStateM _ _ _) _ = _
    rw [if_pos herror]
    rfl

/-- The reporter has kept all of the issues, and its output is made of their renderings, none of
which depends on what was reported before. -/
structure Kept (source : Source) (config : Config) (is : List Issue) (r : PrettyReporter) :
    Prop where
  source_eq : r.source = source
  config_eq : r.config = config
  issues_eq : Reporter.issues r = is
  hasIssues_iff : Reporter.hasIssues r = true ↔ is ≠ []
  output_eq : ∀ palette, r.output palette =
    String.join (is.map fun issue => (rendering { source, config } issue).output palette)
  rendered : ∀ issue ∈ is, Rendered source config issue

/-- The reporter has kept the issues before the first one that would cut a character. The report
of that one broke off and did not add to the issues. -/
def CutShort (source : Source) (config : Config) (is : List Issue) (r : PrettyReporter) : Prop :=
  ∃ front issue back r₀, is = front ++ issue :: back ∧
    Reporter.reportAll front ({ source, config } : PrettyReporter) = .ok () r₀ ∧
    Kept source config front r₀ ∧ issue.Splits source ∧
    Reporter.report issue r₀ = .error .splitCharacter r ∧ Reporter.issues r = Reporter.issues r₀

section

variable {source : Source} {config : Config}

theorem kept_nil : Kept source config [] { source, config } where
  source_eq := rfl
  config_eq := rfl
  issues_eq := rfl
  hasIssues_iff := by simp [Reporter.hasIssues, Reporter.issues]
  output_eq := fun _ => rfl
  rendered := nofun

/-- One more report is kept, or it breaks off and leaves the issues as they are. -/
theorem Kept.report_cases {is : List Issue} {r : PrettyReporter} (h : Kept source config is r)
    (issue : Issue) :
    (∃ r', Reporter.report issue r = .ok () r' ∧ Kept source config (is ++ [issue]) r') ∨
    ∃ r', Reporter.report issue r = .error .splitCharacter r' ∧ issue.Splits source ∧
      Reporter.issues r' = Reporter.issues r := by
  obtain ⟨rfl, rfl, rfl, -, houtput, hrendered⟩ := h
  rcases r.report_cases issue with ⟨hnew, hreport⟩ | ⟨hsplits, hreport⟩
  · refine Or.inl ⟨_, hreport, rfl, rfl, rfl, ?_, fun palette => ?_, ?_⟩
    · simp [Reporter.hasIssues, Reporter.issues]
    · rw [List.map_append, String.join_append, ← houtput, List.map_singleton, String.join_cons,
        String.join_nil, String.append_empty]
      exact eventsText_append palette r.events _
    · exact List.forall_mem_append.mpr ⟨hrendered, List.forall_mem_singleton.mpr hnew⟩
  · exact Or.inr ⟨_, hreport, hsplits, rfl⟩

/-- Reports go on up to the first issue that would cut a character. -/
theorem reportAll_cases (source : Source) (config : Config) (is : List Issue) :
    (∃ r, Reporter.reportAll is ({ source, config } : PrettyReporter) = .ok () r ∧
      Kept source config is r) ∨
    ∃ r, Reporter.reportAll is ({ source, config } : PrettyReporter) = .error .splitCharacter r ∧
      CutShort source config is r := by
  -- From the back, since a report is made to what the reports before it have left.
  induction is using List.reverseRecOn with
  | nil => exact Or.inl ⟨_, rfl, kept_nil⟩
  | append_singleton is issue ih =>
    rw [Reporter.reportAll_append]
    obtain ⟨r, hreports, hkept⟩ | ⟨r, hreports, hcut⟩ := ih
    · rw [hreports]
      simp only [Reporter.reportAll_singleton]
      obtain hmore | ⟨r', hreport, hsplits, hissues⟩ := hkept.report_cases issue
      · exact Or.inl hmore
      · refine Or.inr ⟨r', hreport, is, issue, [], r, rfl, hreports, hkept, ?_⟩
        exact ⟨hsplits, hreport, hissues⟩
    · rw [hreports]
      obtain ⟨front, first, back, r₀, rfl, hrest⟩ := hcut
      refine Or.inr ⟨r, rfl, front, first, back ++ [issue], r₀, ?_, hrest⟩
      rw [List.append_assoc, List.cons_append]

end

end PrettyReporter

/-! ## Parsers that report as they read -/

theorem attempt_stop (ts : TokenStream) : (attempt ts).2.stop = ts.stop := by
  rcases attempt_cases ts with hread | ⟨v, _, ts₁, error, ts₂, rfl, -, hexpr, hattempt⟩
  · obtain ⟨w, kind, c, e, ts₁, rfl, -, -, -, hattempt⟩ := hread
    rw [hattempt]
    split <;> rfl
  · have hends := expression_endsWithin nestingLimit .loosest ts₁
    rw [hexpr] at hends
    obtain ⟨u, rfl, -, -⟩ := hends
    rw [hattempt]
    rfl

/-- The issues of one attempt. -/
def Attempt.issues (a : Attempt) : List Issue := (a.error?.map SyntaxError.toIssue).toList

theorem parseStream_of_nil {ts : TokenStream} (h : ts.pending = []) :
    parseStream ts = ⟨⟨[]⟩, []⟩ := by
  rw [parseStream, attempts_of_nil h]
  rfl

theorem parseStream_of_ne_nil {ts : TokenStream} (h : ts.pending ≠ []) :
    parseStream ts =
      ⟨⟨(attempt ts).1.stmt?.toList ++ (parseStream (attempt ts).2).program.statements⟩,
        (attempt ts).1.issues ++ (parseStream (attempt ts).2).issues⟩ := by
  rw [parseStream, attempts_of_ne_nil h]
  unfold parseStream Parsed.ofAttempts Attempt.issues
  cases hstmt : (attempt ts).1.stmt? <;> cases herror : (attempt ts).1.error? <;>
    simp [hstmt, herror]

theorem finish_attempt (ts : TokenStream) : (attempt ts).2.finish = ts.finish := by
  rw [TokenStream.finish, TokenStream.finish, attempt_stop]

namespace Parser

variable {ρ : Type} [Reporter ρ]

/-- Reads a statement, and reports what is wrong with it before it goes on. -/
def readStatement (p : Parser ρ) : EStateM.Result RenderError (Parser ρ) (Option Stmt) :=
  let (result, stream) := attempt p.stream
  match result.error? with
  | none => .ok result.stmt? { p with stream }
  | some error =>
    match Reporter.report error.toIssue p.reporter with
    | .ok () reporter => .ok result.stmt? { stream, reporter, hadErrors := true }
    | .error e reporter => .error e { p with reporter, hadErrors := true }

theorem readStatement_stream {p q : Parser ρ} {stmt? : Option Stmt}
    (h : readStatement p = .ok stmt? q) : q.stream = (attempt p.stream).2 := by
  unfold readStatement at h
  dsimp only at h
  split at h
  · cases h
    rfl
  · split at h <;> cases h
    rfl

/-- Reads statements up to the end of input, or until a report breaks off. -/
def readStatements (p : Parser ρ) : EStateM.Result RenderError (Parser ρ) (List Stmt) :=
  if _hend : p.stream.pending = [] then .ok [] p
  else
    match _hread : readStatement p with
    | .error e q => .error e q
    | .ok stmt? q =>
      match readStatements q with
      | .error e q => .error e q
      | .ok stmts q => .ok (stmt?.toList ++ stmts) q
termination_by p.stream.pending.length
decreasing_by
  rw [readStatement_stream _hread]
  exact length_attempt_lt _hend

/-- Reads a program like `parseProgram`, but reports each issue as it is met. -/
def parseStepwise (p : Parser ρ) : EStateM.Result RenderError (Parser ρ) (Bool × Program) :=
  match readStatements p with
  | .ok stmts q => .ok (q.hadErrors, ⟨stmts⟩) q
  | .error e q => .error e q

/-! ## Runs -/

section

variable {α β : Type} {p q q' : Parser ρ} {is js : List Issue} {a a' : α} {b b' : β}
  {stream stream' : TokenStream} {e : RenderError}

/-- The end of a part of a run that meets the issues `is`. If the reporter takes all of them, the
answer is `a` and the parser stands at `stream`, and otherwise a report has broken off. -/
inductive Reports (p : Parser ρ) (is : List Issue) (a : α) (stream : TokenStream) :
    EStateM.Result RenderError (Parser ρ) α → Prop
  | ends {q : Parser ρ} (hstream : q.stream = stream)
      (herrors : q.hadErrors = (p.hadErrors || !is.isEmpty))
      (hreports : Reporter.reportAll is p.reporter = .ok () q.reporter) :
      Reports p is a stream (.ok a q)
  | breaksOff {e : RenderError} {q : Parser ρ}
      (hreports : Reporter.reportAll is p.reporter = .error e q.reporter) :
      Reports p is a stream (.error e q)

namespace Reports

theorem nil (p : Parser ρ) (a : α) : p.Reports [] a p.stream (.ok a p) :=
  .ends rfl (Bool.or_false _).symm rfl

theorem answer_eq (h : p.Reports is a stream (.ok a' q)) : a' = a := by
  cases h
  rfl

theorem append_of_error (h : p.Reports is a stream (.error e q)) (js : List Issue) (b : β)
    (stream' : TokenStream) : p.Reports (is ++ js) b stream' (.error e q) := by
  obtain - | hreports := h
  apply Reports.breaksOff
  rw [Reporter.reportAll_append, hreports]

theorem ok_append_of_error (h : p.Reports is a stream (.ok a' q))
    (hrest : q.Reports js b stream' (.error e q')) (c : β) :
    p.Reports (is ++ js) c stream' (.error e q') := by
  obtain ⟨-, -, hreports⟩ | - := h
  obtain - | hlater := hrest
  apply Reports.breaksOff
  rw [Reporter.reportAll_append, hreports]
  exact hlater

theorem ok_append (h : p.Reports is a stream (.ok a' q))
    (hrest : q.Reports js b stream' (.ok b' q')) (c : β) :
    p.Reports (is ++ js) c stream' (.ok c q') := by
  obtain ⟨-, herrors, hreports⟩ | - := h
  obtain ⟨hstream, hlaterErrors, hlater⟩ | - := hrest
  refine .ends hstream ?_ ?_
  · cases is <;> simp [hlaterErrors, herrors]
  · rw [Reporter.reportAll_append, hreports]
    exact hlater

theorem eq_ok {r : EStateM.Result RenderError (Parser ρ) α} {reporter : ρ}
    (h : p.Reports is a stream r) (hreports : Reporter.reportAll is p.reporter = .ok () reporter) :
    r = .ok a { stream, reporter, hadErrors := p.hadErrors || !is.isEmpty } := by
  obtain ⟨rfl, herrors, h⟩ | h := h
  · rw [h] at hreports
    cases hreports
    rw [← herrors]
  · rw [h] at hreports
    cases hreports

theorem exists_eq_error {r : EStateM.Result RenderError (Parser ρ) α} {reporter : ρ}
    (h : p.Reports is a stream r)
    (hreports : Reporter.reportAll is p.reporter = .error e reporter) :
    ∃ q : Parser ρ, q.reporter = reporter ∧ r = .error e q := by
  obtain ⟨-, -, h⟩ | h := h
  · rw [h] at hreports
    cases hreports
  · rw [h] at hreports
    cases hreports
    exact ⟨_, rfl, rfl⟩

end Reports

end

theorem readStatement_reports (p : Parser ρ) :
    p.Reports (attempt p.stream).1.issues (attempt p.stream).1.stmt? (attempt p.stream).2
      p.readStatement := by
  unfold readStatement Attempt.issues
  dsimp only
  cases (attempt p.stream).1.error? with
  | none => exact .ends rfl (Bool.or_false _).symm rfl
  | some error =>
    have hsingle := Reporter.reportAll_singleton error.toIssue p.reporter
    dsimp only
    split
    · exact .ends rfl (Bool.or_true _).symm (hsingle.trans ‹_›)
    · exact .breaksOff (hsingle.trans ‹_›)

/-- Statement by statement, the issues of a run are reported in their order. -/
theorem readStatements_reports (p : Parser ρ) :
    p.Reports (parseStream p.stream).issues (parseStream p.stream).program.statements
      p.stream.finish p.readStatements := by
  fun_induction readStatements p with
  | case1 p hend =>
    have hfinish : p.stream.finish = p.stream := by
      rw [TokenStream.finish, ← hend]
    rw [parseStream_of_nil hend, hfinish]
    exact .nil p []
  | case2 p hend e q hread =>
    have hstep := p.readStatement_reports
    rw [hread] at hstep
    rw [parseStream_of_ne_nil hend]
    exact hstep.append_of_error _ _ _
  | case3 p hend stmt? q hread e q' hrest ih =>
    have hstep := p.readStatement_reports
    rw [hread] at hstep
    rw [readStatement_stream hread, hrest] at ih
    rw [parseStream_of_ne_nil hend, ← finish_attempt]
    exact hstep.ok_append_of_error ih _
  | case4 p hend stmt? q hread stmts q' hrest ih =>
    have hstep := p.readStatement_reports
    rw [hread] at hstep
    rw [readStatement_stream hread, hrest] at ih
    rw [parseStream_of_ne_nil hend, ← finish_attempt, hstep.answer_eq, ih.answer_eq]
    exact hstep.ok_append ih _

theorem parseStepwise_reports (p : Parser ρ) :
    p.Reports (parseStream p.stream).issues
      (p.hadErrors || !(parseStream p.stream).issues.isEmpty, (parseStream p.stream).program)
      p.stream.finish p.parseStepwise := by
  have hrun := p.readStatements_reports
  unfold parseStepwise
  cases hread : p.readStatements with
  | ok stmts q =>
    rw [hread] at hrun
    obtain ⟨hstream, herrors, hreports⟩ | - := hrun
    dsimp only
    rw [herrors]
    exact .ends hstream herrors hreports
  | error e q =>
    rw [hread] at hrun
    obtain - | hreports := hrun
    exact .breaksOff hreports

theorem parseProgram_reports (p : Parser ρ) :
    p.Reports (parseStream p.stream).issues
      (p.hadErrors || !(parseStream p.stream).issues.isEmpty, (parseStream p.stream).program)
      p.stream.finish (parseProgram p) := by
  rw [parseProgram_eq]
  split
  · exact .ends rfl rfl ‹_›
  · exact .breaksOff ‹_›

/-- The parser answers this and leaves its reporter so, and it makes no difference whether each
issue is reported as it is met or all of them at the end. -/
def Answers (p : Parser ρ) (hadErrors : Bool) (program : Program) (reporter : ρ) : Prop :=
  ∃ q : Parser ρ, q.reporter = reporter ∧ parseProgram p = .ok (hadErrors, program) q ∧
    parseStepwise p = .ok (hadErrors, program) q

/-- A report breaks off and leaves the reporter so, in both orders. -/
def BreaksOff (p : Parser ρ) (e : RenderError) (reporter : ρ) : Prop :=
  (∃ q : Parser ρ, q.reporter = reporter ∧ parseProgram p = .error e q) ∧
    ∃ q : Parser ρ, q.reporter = reporter ∧ parseStepwise p = .error e q

/-- What the parser answers is decided by its tokens, if the reporter takes all of the issues. -/
theorem answers_of_ok {p : Parser ρ} {reporter : ρ}
    (h : Reporter.reportAll (parseStream p.stream).issues p.reporter = .ok () reporter) :
    p.Answers (p.hadErrors || !(parseStream p.stream).issues.isEmpty)
      (parseStream p.stream).program reporter :=
  ⟨_, rfl, p.parseProgram_reports.eq_ok h, p.parseStepwise_reports.eq_ok h⟩

theorem breaksOff_of_error {p : Parser ρ} {e : RenderError} {reporter : ρ}
    (h : Reporter.reportAll (parseStream p.stream).issues p.reporter = .error e reporter) :
    p.BreaksOff e reporter :=
  ⟨p.parseProgram_reports.exists_eq_error h, p.parseStepwise_reports.exists_eq_error h⟩

end Parser

/-! ## Reporters and the parser -/

/-- **What reporters keep.** A report to a pretty reporter adds its issue, or it breaks off and
leaves the issues as they are. Lists and collectors keep all issues that are reported one after the
other. A pretty reporter keeps them up to the first that would cut a character, and its output is
made of one rendering of each. A parser answers the same and meets the same issues with a list, a
collector and a pretty reporter, whatever text the last one stands at, unless one of the issues
makes it break off. -/
theorem reporters_keep_issues (source : Source) (config : Config) :
    (∀ (r : PrettyReporter) (issue : Issue), match Reporter.report issue r with
      | .ok () r' => Reporter.issues r' = Reporter.issues r ++ [issue]
      | .error _ r' => issue.Splits r.source ∧ Reporter.issues r' = Reporter.issues r) ∧
    (∀ is : List Issue, Reporter.reportAll is ([] : List Issue) = .ok () is ∧
      Reporter.reportAll is ({} : Collector) = .ok () ⟨is⟩) ∧
    (∀ is : List Issue,
      (∃ r, Reporter.reportAll is ({ source, config } : PrettyReporter) = .ok () r ∧
        PrettyReporter.Kept source config is r) ∨
      ∃ r, Reporter.reportAll is ({ source, config } : PrettyReporter) =
          .error .splitCharacter r ∧ PrettyReporter.CutShort source config is r) ∧
    ∀ l : Lexer, ∃ hadErrors program is,
      (Parser.ofLexer l ([] : List Issue)).Answers hadErrors program is ∧
      (Parser.ofLexer l ({} : Collector)).Answers hadErrors program ⟨is⟩ ∧
      ((∃ r, (Parser.ofLexer l ({ source, config } : PrettyReporter)).Answers
          hadErrors program r ∧ PrettyReporter.Kept source config is r) ∨
        ∃ r, (Parser.ofLexer l ({ source, config } : PrettyReporter)).BreaksOff
          .splitCharacter r ∧ PrettyReporter.CutShort source config is r) := by
  refine ⟨fun r issue => ?_, fun is => ⟨reportAll_list is [], Collector.reportAll_eq is {}⟩,
    PrettyReporter.reportAll_cases source config, fun l => ?_⟩
  · rcases r.report_cases issue with ⟨-, hreport⟩ | ⟨hsplits, hreport⟩
    · rw [hreport]
      rfl
    · rw [hreport]
      exact ⟨hsplits, rfl⟩
  · refine ⟨_, _, _, Parser.answers_of_ok (reportAll_list _ []),
      Parser.answers_of_ok (Collector.reportAll_eq _ {}), ?_⟩
    rcases PrettyReporter.reportAll_cases source config (parseStream (.ofLexer l)).issues with
      ⟨r, hreports, hkept⟩ | ⟨r, hreports, hcut⟩
    · exact Or.inl ⟨r, Parser.answers_of_ok hreports, hkept⟩
    · exact Or.inr ⟨r, Parser.breaksOff_of_error hreports, hcut⟩

/-- An issue in a text, and one behind its end. -/
example :
    (match Reporter.reportAll [⟨"here", ⟨0, 1⟩⟩, ⟨"there", ⟨7, 8⟩⟩]
        ({ source := ⟨"main", "1;"⟩ } : PrettyReporter) with
      | .ok () r => r.output .plain
      | .error _ _ => "") =
    "Error: syntax error\nIn main:1:1\n1 │ 1;\n  │ ^  here\n\nError: syntax error\n" := by
  decide

end ExprLang
