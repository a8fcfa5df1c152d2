import ExprLang.Diagnostic.Style

/-!
# Renderings

A rendering is what is sent to an output: texts, and changes of style. It may break off
with an error, in which case nothing comes after what was sent until then.

* `++` puts one rendering after another; it is associative (`append_assoc`), and a
  rendering that broke off stays as it is (`append_of_error`).
* `output` is the text of a rendering: as it reaches a terminal, or without any style.
-/

namespace ExprLang

inductive Event where
  | write (text : String)
  | setStyle (style : Style)
  | reset
  deriving DecidableEq, Repr

/-- Why a diagnostic cannot be rendered to its end. -/
inductive RenderError where
  | sourceMissing
  | spanOutOfBounds
  /-- A span starts or stops inside a character of the line that is underlined. -/
  | splitCharacter
  deriving DecidableEq, Repr

structure Rendering where
  events : List Event
  /-- The error that broke the rendering off. -/
  error? : Option RenderError
  deriving DecidableEq, Repr

namespace Rendering

def ofEvents (events : List Event) : Rendering := ⟨events, none⟩

def ofError (e : RenderError) : Rendering := ⟨[], some e⟩

protected def append (r s : Rendering) : Rendering :=
  match r.error? with
  | none => ⟨r.events ++ s.events, s.error?⟩
  | some _ => r

instance : Append Rendering := ⟨Rendering.append⟩

/-- One rendering after the other, up to the first that breaks off. -/
def concat : List Rendering → Rendering
  | [] => ofEvents []
  | r :: rs => r ++ concat rs

theorem append_of_error {r : Rendering} {e : RenderError} (h : r.error? = some e)
    (s : Rendering) : r ++ s = r := by
  change r.append s = r
  simp [Rendering.append, h]

theorem append_of_none {r : Rendering} (h : r.error? = none) (s : Rendering) :
    r ++ s = ⟨r.events ++ s.events, s.error?⟩ := by
  change r.append s = _
  simp [Rendering.append, h]

theorem append_assoc (r s t : Rendering) : r ++ s ++ t = r ++ (s ++ t) := by
  cases hr : r.error? with
  | some e => rw [append_of_error hr, append_of_error hr, append_of_error hr]
  | none =>
    cases hs : s.error? with
    | some e =>
      rw [append_of_error hs, append_of_none hr,
        append_of_error (r := ⟨r.events ++ s.events, s.error?⟩) hs]
    | none =>
      rw [append_of_none hs, append_of_none hr, append_of_none hr,
        append_of_none (r := ⟨r.events ++ s.events, s.error?⟩) hs, List.append_assoc]

end Rendering

/-! ## As text -/

/-- What an output makes of changes of style. -/
inductive Palette where
  /-- Leaves them out. -/
  | plain
  /-- Sends the control sequences of a terminal. -/
  | terminal
  deriving DecidableEq, Repr

def Event.text (palette : Palette) : Event → String
  | write text => text
  | setStyle style => match palette with
    | .plain => ""
    | .terminal => style.escapes
  | reset => match palette with
    | .plain => ""
    | .terminal => resetSequence

def eventsText (palette : Palette) (events : List Event) : String :=
  String.ofList (events.flatMap fun e => (e.text palette).toList)

def Rendering.output (palette : Palette) (r : Rendering) : String := eventsText palette r.events

theorem eventsText_append (palette : Palette) (xs ys : List Event) :
    eventsText palette (xs ++ ys) = eventsText palette xs ++ eventsText palette ys := by
  simp [eventsText, String.ofList_append]

theorem eventsText_flatMap {α : Type} (palette : Palette) (f : α → List Event) (xs : List α) :
    eventsText palette (xs.flatMap f) = String.join (xs.map fun x => eventsText palette (f x)) := by
  induction xs with
  | nil => rfl
  | cons x xs ih =>
    rw [List.flatMap_cons, eventsText_append, ih, List.map_cons, String.join_cons]

end ExprLang
