import ExprLang.Diagnostic.Render
import ExprLang.Grammar.Error

/-!
# Reporters

A reporter takes issues in and keeps them in order. A list of issues is a reporter, and so
is a collector; a pretty reporter also renders each issue, against a source of its own, at
the moment it is reported.

* A pretty reporter keeps an issue that lies outside its source, of which only the header
  is rendered. Only an issue that starts or stops inside a character makes it break off.
-/

namespace ExprLang

/-- A sink for issues. Reporting may break off in the middle of a rendering. -/
class Reporter (ρ : Type) where
  report : Issue → EStateM RenderError ρ Unit
  /-- The issues reported so far, in order. -/
  issues : ρ → List Issue

namespace Reporter

variable {ρ : Type} [Reporter ρ]

def hasIssues (r : ρ) : Bool := !(issues r).isEmpty

/-- Reports issues one after the other. -/
def reportAll (is : List Issue) : EStateM RenderError ρ Unit := is.forM report

end Reporter

/-! ## Keeping issues -/

instance : Reporter (List Issue) where
  report issue := modify (· ++ [issue])
  issues r := r

/-- Keeps issues as data. -/
structure Collector where
  collected : List Issue := []
  deriving DecidableEq, Repr

instance : Reporter Collector where
  report issue := modify fun r => ⟨r.collected ++ [issue]⟩
  issues r := r.collected

/-! ## Rendering issues -/

structure PrettyReporter where
  source : Source
  config : Config := {}
  /-- All that was rendered so far. -/
  events : List Event := []
  reported : List Issue := []
  deriving DecidableEq, Repr

namespace PrettyReporter

/-- How an issue is rendered: as a diagnostic with one snippet. -/
def rendering (r : PrettyReporter) (issue : Issue) : Rendering :=
  Diagnostic.render r.config (fun () => some r.source)
    ⟨some "syntax error", [⟨issue.message, (), issue.span⟩]⟩

/-- The text of all that was rendered. -/
def output (palette : Palette) (r : PrettyReporter) : String := eventsText palette r.events

def report (issue : Issue) : EStateM RenderError PrettyReporter Unit := do
  let rendering := (← get).rendering issue
  modify fun r => { r with events := r.events ++ rendering.events }
  if rendering.error? = some .splitCharacter then
    throw .splitCharacter
  modify fun r => { r with reported := r.reported ++ [issue] }

instance : Reporter PrettyReporter where
  report := PrettyReporter.report
  issues r := r.reported

end PrettyReporter

end ExprLang
