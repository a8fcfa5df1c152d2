import ExprLang.Proofs.BlockText

/-!
# Open styles

A rendering sets a style only when none is open, and has reset it when it ends, in whatever way it
ends. Messages and lines of sources are written without style. On a terminal a rendering ends as it
does on a stream without styles, and its text differs by the control sequences alone.

* `Orderly`: how styles are set and reset, and which texts are written in between.
* `Diagnostic.PlainText`, `Diagnostic.StyledText`: what a rendering writes without and with style.
* `orderly_underlineRow`, `orderly_rows`, `orderly_block`, `orderly_render`: each part of a
  rendering is orderly, also where it breaks off.
* `Inserted`, `inserted_eventsText`: text with and without control sequences.
* `Rendering.send_eq`: what a stream holds of a rendering, and how sending it ends.
* `Diagnostic.render_styles`: diagnostics.
-/

namespace ExprLang

open Text

/-! ## Orderly events -/

/-- Events that are orderly where a style is open before them, or none: a style is set only while
none is open, only an open style is reset, and behind the last event none is open. What is written
without style is `plain`, and what is written in a style is `styled` for it. -/
inductive Orderly (plain : String → Prop) (styled : Style → String → Prop) :
    Option Style → List Event → Prop
  | done : Orderly plain styled none []
  | plain {text : String} {events : List Event} (h : plain text)
      (hrest : Orderly plain styled none events) :
      Orderly plain styled none (.write text :: events)
  | styled {style : Style} {text : String} {events : List Event} (h : styled style text)
      (hrest : Orderly plain styled (some style) events) :
      Orderly plain styled (some style) (.write text :: events)
  | setStyle {style : Style} {events : List Event}
      (hrest : Orderly plain styled (some style) events) :
      Orderly plain styled none (.setStyle style :: events)
  | reset {style : Style} {events : List Event} (hrest : Orderly plain styled none events) :
      Orderly plain styled (some style) (.reset :: events)

section

variable {plain : String → Prop} {styled : Style → String → Prop} {style? : Option Style}
  {xs ys : List Event} {r s : Rendering}

theorem Orderly.append (hx : Orderly plain styled style? xs) (hy : Orderly plain styled none ys) :
    Orderly plain styled style? (xs ++ ys) := by
  induction hx with
  | done => exact hy
  | plain h _ ih => exact .plain h ih
  | styled h _ ih => exact .styled h ih
  | setStyle _ ih => exact .setStyle ih
  | reset _ ih => exact .reset ih

/-- A rendering that broke off has left no style open, and nothing comes behind it. -/
theorem orderly_append (hr : Orderly plain styled none r.events)
    (hs : Orderly plain styled none s.events) : Orderly plain styled none (r ++ s).events := by
  cases h : r.error? with
  | some e =>
    rw [Rendering.append_of_error h]
    exact hr
  | none =>
    rw [Rendering.append_of_none h]
    exact hr.append hs

theorem orderly_concat {rs : List Rendering} (h : ∀ r ∈ rs, Orderly plain styled none r.events) :
    Orderly plain styled none (Rendering.concat rs).events := by
  induction rs with
  | nil => exact .done
  | cons r rs ih =>
    obtain ⟨hr, hrs⟩ := List.forall_mem_cons.mp h
    exact orderly_append hr (ih hrs)

end

/-! ## Texts with and without style -/

section

variable {ι : Type}

/-- What the rendering of a diagnostic writes without style: the message, lines of the sources of
its snippets with their tabs expanded, and empty lines. -/
inductive Diagnostic.PlainText (sources : ι → Option Source) (d : Diagnostic ι) : String → Prop
  | message {message : String} (h : d.message? = some message) :
      PlainText sources d (" " ++ message ++ "\n")
  | line {s : Snippet ι} {source : Source} {i : Nat} {line : String} (hs : s ∈ d.snippets)
      (hsource : sources s.source = some source) (hline : source.lineText? i = some line) :
      PlainText sources d (String.ofList (expandTabs line.toList) ++ "\n")
  | empty : PlainText sources d "\n"

/-- What the rendering of a diagnostic writes in a style: the title and the underlines with their
labels as an error, locations, number fields and gutters less visibly. -/
inductive Diagnostic.StyledText (config : Config) (sources : ι → Option Source)
    (d : Diagnostic ι) : Style → String → Prop
  | title : StyledText config sources d config.errorStyle "Error:"
  | location {s : Snippet ι} {source : Source} (hs : s ∈ d.snippets)
      (hsource : sources s.source = some source) (line column : Nat) :
      StyledText config sources d config.subtleStyle
        ("In " ++ source.name ++ ":" ++ line.repr ++ ":" ++ column.repr ++ "\n")
  | number (width n : Nat) :
      StyledText config sources d config.subtleStyle
        (String.ofList (n.repr.toList.leftpad width ' '))
  | blanks (width : Nat) :
      StyledText config sources d config.subtleStyle (String.ofList (List.replicate width ' '))
  | gutter : StyledText config sources d config.subtleStyle (" " ++ config.gutter ++ " ")
  | indent (n : Nat) : StyledText config sources d config.errorStyle (repeatText n " ")
  | underline (n : Nat) :
      StyledText config sources d config.errorStyle (repeatText n config.underline)
  | label {s : Snippet ι} (hs : s ∈ d.snippets) :
      StyledText config sources d config.errorStyle (config.underlineGap ++ s.label ++ "\n")

end

/-! ## Parts of a rendering -/

section

variable {ι : Type} {config : Config} {sources : ι → Option Source} {d : Diagnostic ι}
  {s : Snippet ι} {source : Source}

/-- The events of a part of the rendering of a diagnostic are orderly. -/
abbrev Diagnostic.Tidy (config : Config) (sources : ι → Option Source) (d : Diagnostic ι)
    (events : List Event) : Prop :=
  Orderly (d.PlainText sources) (d.StyledText config sources) none events

theorem orderly_headerEvents (config : Config) (sources : ι → Option Source) (d : Diagnostic ι) :
    d.Tidy config sources (headerEvents config d.message?) := by
  refine .setStyle (.styled .title (.reset (.plain ?_ .done)))
  cases h : d.message? with
  | none => exact .empty
  | some message => exact .message h

theorem orderly_gutterEvents (config : Config) (sources : ι → Option Source) (d : Diagnostic ι)
    (width : Nat) (number? : Option Nat) :
    d.Tidy config sources (gutterEvents config width number?) := by
  refine .setStyle (.styled ?_ (.styled .gutter (.reset .done)))
  cases number? with
  | none =>
    have hblanks : alignRight width [] = List.replicate width ' ' := List.append_nil _
    rw [hblanks]
    exact .blanks width
  | some n =>
    have hnumber : alignRight width (Nat.toDigits 10 n) = n.repr.toList.leftpad width ' ' := by
      rw [Nat.repr_eq_ofList_toDigits, String.toList_ofList]
      rfl
    dsimp only
    rw [hnumber]
    exact .number width n

theorem orderly_locationEvents (hs : s ∈ d.snippets) (hsource : sources s.source = some source)
    (line column : Nat) : d.Tidy config sources (locationEvents config source (line, column)) := by
  refine .setStyle (.styled ?_ (.reset .done))
  have hlocation : d.StyledText config sources config.subtleStyle
      ("In " ++ source.name ++ ":" ++ line.repr ++ ":" ++ column.repr ++ "\n") :=
    .location hs hsource line column
  simp only [String.append_assoc] at hlocation ⊢
  exact hlocation

theorem orderly_underlineRow (hs : s ∈ d.snippets) (width : Nat) (line : List Char)
    (column length : Nat) :
    d.Tidy config sources (underlineRow config width line column length s.label).events := by
  refine orderly_append (orderly_gutterEvents config sources d width none) ?_
  cases underlined? line column length with
  -- The gutter has been reset, and the style of the underline is not set yet.
  | none => exact .done
  | some parts =>
    exact .setStyle (.styled (.indent _) (.styled (.underline _) (.styled (.label hs)
      (.reset .done))))

theorem orderly_rows (hs : s ∈ d.snippets) (hsource : sources s.source = some source)
    (place : Place) (length : Nat) :
    ∀ r ∈ rows config source place length s.label, d.Tidy config sources r.events := by
  intro r hr
  obtain ⟨⟨text, i⟩, hwindow, rfl⟩ := List.mem_map.mp hr
  have hline := Source.lineText?_of_getElem? (getElem?_of_mem_window hwindow)
  have hplain := Diagnostic.PlainText.line hs hsource hline
  rw [String.toList_ofList] at hplain
  refine orderly_append ?_ ?_
  · exact (orderly_gutterEvents config sources d _ _).append (.plain hplain .done)
  · split
    · exact orderly_underlineRow hs _ _ _ _
    · exact .done

theorem orderly_block (hs : s ∈ d.snippets) (hsource : sources s.source = some source) :
    d.Tidy config sources (block config source s.span s.label).events := by
  unfold block
  split
  · exact .done
  · rename_i line column _
    refine orderly_append (orderly_append ?_ ?_) (.plain .empty .done)
    · exact orderly_locationEvents hs hsource line column
    · exact orderly_concat (orderly_rows hs hsource _ s.span.length)

theorem orderly_snippet (hs : s ∈ d.snippets) :
    d.Tidy config sources (s.render config sources).events := by
  unfold Snippet.render
  split
  · exact .done
  · rename_i source hsource
    exact orderly_block hs hsource

theorem orderly_render (config : Config) (sources : ι → Option Source) (d : Diagnostic ι) :
    d.Tidy config sources (d.render config sources).events := by
  refine orderly_append (orderly_headerEvents config sources d) (orderly_concat ?_)
  intro r hr
  obtain ⟨s, hs, rfl⟩ := List.mem_map.mp hr
  exact orderly_snippet hs

end

/-! ## Text with control sequences -/

/-- The control sequence that a terminal is sent for an event. -/
def Event.control? : Event → Option String
  | write _ => none
  | setStyle style => some style.escapes
  | reset => some resetSequence

/-- Of the events, `text` holds what is written, and `whole` holds it with the control sequences
of the changes of style inserted at their places. -/
inductive Inserted : List Event → String → String → Prop
  | done : Inserted [] "" ""
  | write (piece : String) {events : List Event} {text whole : String}
      (h : Inserted events text whole) :
      Inserted (.write piece :: events) (piece ++ text) (piece ++ whole)
  | control {e : Event} {sequence : String} {events : List Event} {text whole : String}
      (hcontrol : e.control? = some sequence) (h : Inserted events text whole) :
      Inserted (e :: events) text (sequence ++ whole)

theorem inserted_eventsText (events : List Event) :
    Inserted events (eventsText .plain events) (eventsText .terminal events) := by
  induction events with
  | nil => exact .done
  | cons e events ih =>
    rw [eventsText_cons, eventsText_cons]
    cases e with
    | write text => exact .write text ih
    | setStyle style =>
      rw [Event.text, String.empty_append]
      exact .control rfl ih
    | reset =>
      rw [Event.text, String.empty_append]
      exact .control rfl ih

/-! ## Streams -/

/-- Sends a rendering to a stream of text, event by event, up to where it breaks off. -/
def Rendering.send (palette : Palette) (r : Rendering) : EStateM RenderError String Unit := do
  r.events.forM fun e => modify (· ++ e.text palette)
  match r.error? with
  | some error => throw error
  | none => pure ()

theorem forM_modify_eq (palette : Palette) (events : List Event) (text : String) :
    (events.forM fun e => modify (· ++ e.text palette) : EStateM RenderError String Unit) text =
      .ok () (text ++ eventsText palette events) := by
  induction events generalizing text with
  | nil => exact congrArg (EStateM.Result.ok ()) String.append_empty.symm
  | cons e events ih =>
    rw [eventsText_cons, ← String.append_assoc, ← ih]
    rfl

/-- A stream ends with the text of the rendering, and with its error, if it has one. -/
theorem Rendering.send_eq (palette : Palette) (r : Rendering) (text : String) :
    r.send palette text = match r.error? with
      | some error => .error error (text ++ r.output palette)
      | none => .ok () (text ++ r.output palette) := by
  change EStateM.bind _ _ text = _
  unfold EStateM.bind
  rw [forM_modify_eq]
  cases r.error? <;> rfl

/-! ## Diagnostics -/

section

variable {ι : Type}

/-- **Styles of a diagnostic.** However the rendering of a diagnostic ends, no style is set while
another is open, and none is open in the end. The message and the lines of sources are written
without style; what is written in a style is the title, and the locations, number fields, gutters,
underlines and labels of blocks. Sent to a terminal, the rendering ends as it does on a stream
without styles, with the same text but for the control sequences of its changes of style. -/
theorem Diagnostic.render_styles (config : Config) (sources : ι → Option Source)
    (d : Diagnostic ι) :
    Orderly (d.PlainText sources) (d.StyledText config sources) none
      (d.render config sources).events ∧
    headerEvents config d.message? <+: (d.render config sources).events ∧
    ∃ plain terminal,
      Inserted (d.render config sources).events plain terminal ∧
      ((d.render config sources).send .plain "" = .ok () plain ∧
          (d.render config sources).send .terminal "" = .ok () terminal ∨
        ∃ error, (d.render config sources).send .plain "" = .error error plain ∧
          (d.render config sources).send .terminal "" = .error error terminal) := by
  refine ⟨orderly_render config sources d, ?_, (d.render config sources).output .plain,
    (d.render config sources).output .terminal, inserted_eventsText _, ?_⟩
  · rw [render, Rendering.append_of_none rfl]
    exact List.prefix_append _ _
  · rw [Rendering.send_eq, Rendering.send_eq, String.empty_append, String.empty_append]
    cases (d.render config sources).error? with
    | none => exact Or.inl ⟨rfl, rfl⟩
    | some error => exact Or.inr ⟨error, rfl, rfl⟩

end

end ExprLang
