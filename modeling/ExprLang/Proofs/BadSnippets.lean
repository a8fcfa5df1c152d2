import ExprLang.Proofs.Blocks

/-!
# Snippets that cannot be drawn

A snippet is bad if its source is missing, if it starts behind the end of the source, or if its
underline would cut a character. A diagnostic is drawn up to its first bad snippet, and the block
of a snippet does not depend on the other snippets.

* `IsBoundary`, `underlined?_eq_some_iff`: an underline has to start and stop between characters.
* `SplitsCharacter.block_eq`: a block that breaks off in its underline.
* `Snippet.drawn_or_bad`, `Snippet.Drawn.not_bad`: the snippets that are not bad are those that
  have a complete block.
* `window_lookup`: the lines that a block shows all exist.
* `Diagnostic.render_cases`: how a diagnostic is rendered.
-/

namespace ExprLang

open Text

/-! ## Character boundaries -/

/-- The first `n` bytes of a text are whole characters. -/
def IsBoundary (cs : List Char) (n : Nat) : Prop := ∃ front, front <+: cs ∧ byteSize front = n

/-- An offset that is a boundary of a line as it is shown is one of the line. Behind what is shown
there is only the end of the line. -/
theorem isBoundary_of_dropReturn {line : List Char} {column : Nat} (hc : column ≤ byteSize line)
    (h : IsBoundary (dropReturn line) (min column (byteSize (dropReturn line)))) :
    IsBoundary line column := by
  have hcr : '\r'.utf8Size = 1 := by decide
  obtain ⟨front, hfront, hsize⟩ := h
  by_cases hle : column ≤ byteSize (dropReturn line)
  · rw [Nat.min_eq_left hle] at hsize
    exact ⟨front, hfront.trans (dropReturn_front line), hsize⟩
  · refine ⟨line, List.prefix_rfl, ?_⟩
    rcases dropReturn_eq_or line with heq | heq
    · rw [← heq] at hle
      exact absurd hc hle
    · have hline : byteSize line = byteSize (dropReturn line) + 1 := by
        conv_lhs => rw [heq, byteSize_append, byteSize_cons, hcr, byteSize_nil]
      omega

/-- A boundary of a line is one of the text. -/
theorem exists_front_of_isBoundary {cs line : List Char} {l column : Nat}
    (hline : (lines cs)[l]? = some line) (h : IsBoundary line column) :
    ∃ front back, cs = front ++ back ∧ byteSize front = lineStart (lines cs) l + column := by
  obtain ⟨before, after, htext, hbefore⟩ := exists_eq_append_line hline
  obtain ⟨front, ⟨back, rfl⟩, hfront⟩ := h
  refine ⟨before ++ front, back ++ after, ?_, ?_⟩
  · rw [htext]
    simp only [List.append_assoc]
  · rw [byteSize_append, hbefore, hfront]

/-- Where an underline starts. -/
def underlineStart (line : List Char) (column : Nat) : Nat := min column (byteSize line)

/-- Where an underline stops. -/
def underlineStop (line : List Char) (column length : Nat) : Nat :=
  max (underlineStart line column) (min (column + length) (byteSize line))

section

variable {line before under : List Char} {column length : Nat}

theorem underlined?_eq_some_iff :
    underlined? line column length = some (before, under) ↔
      Underlines line column length before under := by
  constructor
  · intro h
    unfold underlined? at h
    obtain ⟨⟨front, rest⟩, hfront, h⟩ := Option.bind_eq_some_iff.mp h
    obtain ⟨⟨middle, back⟩, hmiddle, h⟩ := Option.bind_eq_some_iff.mp h
    cases h
    obtain ⟨rfl, hstart⟩ := splitBytes?_eq_some_iff.mp hfront
    obtain ⟨rfl, hstop⟩ := splitBytes?_eq_some_iff.mp hmiddle
    refine ⟨⟨back, List.append_assoc _ _ _⟩, hstart, ?_⟩
    rw [byteSize_append, hstart, hstop]
    omega
  · exact Underlines.underlined?_eq

theorem exists_underlines_iff :
    (∃ before under, Underlines line column length before under) ↔
      IsBoundary line (underlineStart line column) ∧
        IsBoundary line (underlineStop line column length) := by
  have hstop : underlineStop line column length = min (column + length) (byteSize line) := by
    unfold underlineStop underlineStart
    omega
  rw [hstop]
  constructor
  · rintro ⟨before, under, h⟩
    have hbefore : before <+: line := (List.prefix_append before under).trans h.front
    exact ⟨⟨before, hbefore, h.start⟩, ⟨before ++ under, h.front, h.stop⟩⟩
  · rintro ⟨⟨before, hbefore, hsize⟩, ⟨front, hfront, hsize'⟩⟩
    have hle : byteSize before ≤ byteSize front := by
      rw [hsize, hsize', underlineStart]
      omega
    obtain ⟨under, rfl⟩ := prefix_of_byteSize_le hbefore hfront hle
    exact ⟨before, under, hfront, hsize, hsize'⟩

theorem underlined?_eq_none_iff :
    underlined? line column length = none ↔
      ¬ IsBoundary line (underlineStart line column) ∨
        ¬ IsBoundary line (underlineStop line column length) := by
  rw [← not_and_or, ← exists_underlines_iff]
  constructor
  · rintro hnone ⟨before, under, h⟩
    rw [h.underlined?_eq] at hnone
    cases hnone
  · intro hnot
    apply Option.eq_none_iff_forall_ne_some.mpr
    rintro ⟨before, under⟩ h
    exact hnot ⟨before, under, underlined?_eq_some_iff.mp h⟩

end

/-! ## Blocks that break off -/

/-- The span starts in a line of the source, and its underline would cut a character there. -/
structure SplitsCharacter (source : Source) (span : Span) (place : Place) (text : List Char) :
    Prop where
  line : source.lines[place.line]? = some text
  column : place.column ≤ byteSize text
  start : lineStart source.lines place.line + place.column = span.start
  split : ¬ IsBoundary (dropReturn text) (underlineStart (dropReturn text) place.column) ∨
    ¬ IsBoundary (dropReturn text) (underlineStop (dropReturn text) place.column span.length)

/-- What is drawn of a block before its underline. -/
def brokenEvents (config : Config) (source : Source) (place : Place) (text : List Char) :
    List Event :=
  let width := numberWidth source.lines config.contextSize place.line
  locationEvents config source place.shown ++
    ((linesAbove source.lines config.contextSize place.line).flatMap (rowEvents config width) ++
      (rowEvents config width (text, place.line) ++ gutterEvents config width none))

theorem SplitsCharacter.block_eq {source : Source} {span : Span} {place : Place}
    {text : List Char} (h : SplitsCharacter source span place text) (config : Config)
    (label : String) :
    block config source span label =
      ⟨brokenEvents config source place text, some .splitCharacter⟩ := by
  have hplace : source.place? span.start = some place :=
    place?_eq_some_iff.mpr ⟨text, h.line, h.column, h.start⟩
  have hunderline : ∀ width, underlineRow config width (dropReturn text) place.column
      span.length label = ⟨gutterEvents config width none, some .splitCharacter⟩ := by
    intro width
    rw [underlineRow, underlined?_eq_none_iff.mpr h.split, Rendering.append_of_none rfl]
    exact congrArg (Rendering.mk · _) (List.append_nil _)
  rw [block_of_place? hplace, rows_eq h.line, hunderline, Rendering.concat_append,
    Rendering.concat_map_ofEvents, Rendering.concat,
    Rendering.append_of_none (r := .ofEvents _) rfl,
    Rendering.append_of_error rfl, Rendering.append_of_none (r := .ofEvents _) rfl,
    Rendering.append_of_none (r := .ofEvents _) rfl, Rendering.append_of_error rfl]
  rfl

/-- Where an underline starts between characters, so does its span. -/
theorem exists_completeBlock_of_isBoundary {source : Source} {span : Span} {place : Place}
    {text : List Char} (hline : source.lines[place.line]? = some text)
    (hcolumn : place.column ≤ byteSize text)
    (hoffset : lineStart source.lines place.line + place.column = span.start)
    (h : IsBoundary (dropReturn text) (underlineStart (dropReturn text) place.column) ∧
      IsBoundary (dropReturn text) (underlineStop (dropReturn text) place.column span.length))
    (config : Config) (label : String) :
    ∃ events, CompleteBlock config source span label events := by
  obtain ⟨before, under, hunder⟩ := exists_underlines_iff.mpr h
  obtain ⟨front, back, htext, hfront⟩ :=
    exists_front_of_isBoundary hline (isBoundary_of_dropReturn hcolumn h.1)
  have hplace : place? source.text.toList (byteSize front) = some place :=
    place?_eq_some_iff.mpr ⟨text, hline, hcolumn, hfront.symm⟩
  rw [htext, place?_byteSize] at hplace
  cases hplace
  exact ⟨_, .mk htext (hoffset.symm.trans hfront.symm) hline hunder⟩

/-! ## Look-ups of lines -/

/-- Each line that a block shows exists. -/
theorem window_lookup (source : Source) {contextSize line i : Nat}
    (hfirst : line - contextSize ≤ i)
    (hstop : i < min (line + 1 + contextSize) source.lines.length) :
    ∃ text, (text, i) ∈ window source.lines contextSize line ∧
      source.lineText? i = some (String.ofList (dropReturn text)) := by
  have hlt : i < source.lines.length := by omega
  have hline : source.lines[i]? = some source.lines[i] := List.getElem?_eq_getElem hlt
  refine ⟨source.lines[i], ?_, ?_⟩
  · rw [window_eq_map]
    refine List.mem_map.mpr ⟨i, List.Ico.mem.mpr ⟨hfirst, by omega⟩, ?_⟩
    rw [hline, Option.getD_some]
  · rw [Source.lineText?_eq, hline, Option.map_some]

/-! ## Snippets -/

section

variable {ι : Type}

/-- The snippet is bad, for this reason. -/
inductive Snippet.Bad (sources : ι → Option Source) (s : Snippet ι) : RenderError → Prop
  | missing (h : sources s.source = none) : Bad sources s .sourceMissing
  | outside {source : Source} (hsource : sources s.source = some source)
      (hstart : source.text.utf8ByteSize < s.span.start) : Bad sources s .spanOutOfBounds
  | split {source : Source} {place : Place} {text : List Char}
      (hsource : sources s.source = some source) (h : SplitsCharacter source s.span place text) :
      Bad sources s .splitCharacter

/-- The block of the snippet is complete. No source but its own matters for it. -/
def Snippet.Drawn (config : Config) (sources : ι → Option Source) (s : Snippet ι)
    (events : List Event) : Prop :=
  ∃ source, sources s.source = some source ∧ CompleteBlock config source s.span s.label events

namespace Snippet

variable {config : Config} {sources : ι → Option Source} {s : Snippet ι}

theorem render_of_some {source : Source} (h : sources s.source = some source) :
    s.render config sources = block config source s.span s.label := by
  rw [render, h]

theorem Drawn.render_eq {events : List Event} (h : s.Drawn config sources events) :
    s.render config sources = .ofEvents events := by
  obtain ⟨source, hsource, hblock⟩ := h
  rw [render_of_some hsource, hblock.block_eq]

/-- Only the block of a bad snippet whose underline would cut a character is begun. -/
theorem Bad.exists_render {error : RenderError} (h : s.Bad sources error) (config : Config) :
    ∃ drawn, s.render config sources = ⟨drawn, some error⟩ ∧
      (error ≠ .splitCharacter → drawn = []) := by
  cases h with
  | missing hsource =>
    refine ⟨[], ?_, fun _ => rfl⟩
    rw [render, hsource]
    rfl
  | @outside source hsource hstart =>
    have hplace : source.place? s.span.start = none := by
      apply Option.not_isSome_iff_eq_none.mp
      intro hsome
      have hle := place?_isSome_iff.mp hsome
      rw [byteSize_toList] at hle
      omega
    refine ⟨[], ?_, fun _ => rfl⟩
    rw [render_of_some hsource, block_of_none hplace]
    rfl
  | @split source place text hsource h =>
    refine ⟨brokenEvents config source place text, ?_, fun hne => absurd rfl hne⟩
    rw [render_of_some hsource, h.block_eq]

theorem Drawn.not_bad {events : List Event} (h : s.Drawn config sources events)
    (error : RenderError) : ¬ s.Bad sources error := by
  intro hbad
  obtain ⟨drawn, hrender, -⟩ := hbad.exists_render config
  rw [h.render_eq] at hrender
  cases hrender

theorem drawn_or_bad (config : Config) (sources : ι → Option Source) (s : Snippet ι) :
    (∃ events, s.Drawn config sources events) ∨ ∃ error, s.Bad sources error := by
  cases hsource : sources s.source with
  | none => exact Or.inr ⟨_, .missing hsource⟩
  | some source =>
    by_cases hstart : source.text.utf8ByteSize < s.span.start
    · exact Or.inr ⟨_, .outside hsource hstart⟩
    · rw [← byteSize_toList] at hstart
      obtain ⟨place, hplace⟩ := Option.isSome_iff_exists.mp
        (place?_isSome_iff.mpr (Nat.le_of_not_lt hstart))
      obtain ⟨text, hline, hcolumn, hoffset⟩ := place?_eq_some_iff.mp hplace
      by_cases hsplit :
          IsBoundary (dropReturn text) (underlineStart (dropReturn text) place.column) ∧
            IsBoundary (dropReturn text)
              (underlineStop (dropReturn text) place.column s.span.length)
      · obtain ⟨events, hblock⟩ :=
          exists_completeBlock_of_isBoundary hline hcolumn hoffset hsplit config s.label
        exact Or.inl ⟨events, source, hsource, hblock⟩
      · exact Or.inr ⟨_, .split hsource ⟨hline, hcolumn, hoffset, not_and_or.mp hsplit⟩⟩

end Snippet

/-! ## Diagnostics -/

theorem concat_of_drawn {config : Config} {sources : ι → Option Source}
    {snippets : List (Snippet ι)} {blocks : List (List Event)}
    (h : List.Forall₂ (Snippet.Drawn config sources) snippets blocks) (rest : List Rendering) :
    Rendering.concat (snippets.map (Snippet.render config sources) ++ rest) =
      .ofEvents blocks.flatten ++ .concat rest := by
  induction h with
  | nil => exact (Rendering.append_of_none (r := .ofEvents []) rfl _).symm
  | cons hs _ ih =>
    rw [List.map_cons, List.cons_append, Rendering.concat, hs.render_eq, ih,
      ← Rendering.append_assoc, Rendering.ofEvents_append]
    rfl

/-- Before the first bad snippet, if there is one, all blocks are complete. -/
theorem exists_drawn_front (config : Config) (sources : ι → Option Source)
    (snippets : List (Snippet ι)) :
    ∃ front rest blocks, snippets = front ++ rest ∧
      List.Forall₂ (Snippet.Drawn config sources) front blocks ∧
      (rest = [] ∨ ∃ s back error, rest = s :: back ∧ s.Bad sources error) := by
  induction snippets with
  | nil => exact ⟨[], [], [], rfl, .nil, Or.inl rfl⟩
  | cons s snippets ih =>
    rcases s.drawn_or_bad config sources with ⟨events, hs⟩ | ⟨error, hbad⟩
    · obtain ⟨front, rest, blocks, rfl, hblocks, hrest⟩ := ih
      exact ⟨s :: front, rest, events :: blocks, rfl, .cons hs hblocks, hrest⟩
    · exact ⟨[], s :: snippets, [], rfl, .nil, Or.inr ⟨s, snippets, error, rfl, hbad⟩⟩

theorem not_bad_of_mem {config : Config} {sources : ι → Option Source}
    {snippets : List (Snippet ι)} {blocks : List (List Event)}
    (h : List.Forall₂ (Snippet.Drawn config sources) snippets blocks) :
    ∀ s ∈ snippets, ∀ error, ¬ s.Bad sources error := by
  induction h with
  | nil => simp
  | cons hs _ ih => exact List.forall_mem_cons.mpr ⟨hs.not_bad, ih⟩

/-- **Rendering a diagnostic.** Without bad snippets a diagnostic is rendered to its end, as its
header and the complete blocks of its snippets. Otherwise the first bad snippet decides with which
error it breaks off, behind the header and the complete blocks of the snippets before. Of the bad
snippet itself nothing is drawn, unless its underline would cut a character. No line that is
looked up for a block is missing. -/
theorem Diagnostic.render_cases (config : Config) (sources : ι → Option Source)
    (d : Diagnostic ι) :
    ((∃ blocks, (∀ s ∈ d.snippets, ∀ error, ¬ s.Bad sources error) ∧
        List.Forall₂ (Snippet.Drawn config sources) d.snippets blocks ∧
        d.render config sources =
          .ofEvents (headerEvents config d.message? ++ blocks.flatten) ∧
        ∀ palette, (d.render config sources).output palette =
          eventsText palette (headerEvents config d.message?) ++
            String.join (blocks.map (eventsText palette))) ∨
      ∃ front s back error blocks drawn, d.snippets = front ++ s :: back ∧
        (∀ s' ∈ front, ∀ error', ¬ s'.Bad sources error') ∧ s.Bad sources error ∧
        List.Forall₂ (Snippet.Drawn config sources) front blocks ∧
        (error ≠ .splitCharacter → drawn = []) ∧
        d.render config sources =
          ⟨headerEvents config d.message? ++ blocks.flatten ++ drawn, some error⟩ ∧
        ∀ palette, (d.render config sources).output palette =
          eventsText palette (headerEvents config d.message?) ++
            String.join (blocks.map (eventsText palette)) ++ eventsText palette drawn) ∧
    ∀ (source : Source) (line i : Nat), line - config.contextSize ≤ i →
      i < min (line + 1 + config.contextSize) source.lines.length →
      ∃ text, (text, i) ∈ window source.lines config.contextSize line ∧
        source.lineText? i = some (String.ofList (dropReturn text)) := by
  have htext : ∀ (blocks : List (List Event)) palette,
      eventsText palette (headerEvents config d.message? ++ blocks.flatten) =
        eventsText palette (headerEvents config d.message?) ++
          String.join (blocks.map (eventsText palette)) := by
    intro blocks palette
    rw [eventsText_append, ← List.flatMap_id', eventsText_flatMap]
  refine ⟨?_, fun source line i => window_lookup source⟩
  obtain ⟨front, rest, blocks, hsnippets, hblocks, hrest⟩ :=
    exists_drawn_front config sources d.snippets
  have hrender : d.render config sources =
      .ofEvents (headerEvents config d.message? ++ blocks.flatten) ++
        .concat (rest.map (Snippet.render config sources)) := by
    rw [render, hsnippets, List.map_append, concat_of_drawn hblocks, ← Rendering.append_assoc,
      Rendering.ofEvents_append]
  rcases hrest with rfl | ⟨s, back, error, rfl, hbad⟩
  · rw [List.append_nil] at hsnippets
    have hend : d.render config sources =
        .ofEvents (headerEvents config d.message? ++ blocks.flatten) := by
      rw [hrender, List.map_nil, Rendering.concat, Rendering.ofEvents_append, List.append_nil]
    refine Or.inl ⟨blocks, ?_, ?_, hend, ?_⟩
    · rw [hsnippets]
      exact not_bad_of_mem hblocks
    · rw [hsnippets]
      exact hblocks
    · intro palette
      rw [hend]
      exact htext blocks palette
  · obtain ⟨drawn, hs, hdrawn⟩ := hbad.exists_render config
    have hend : d.render config sources =
        ⟨headerEvents config d.message? ++ blocks.flatten ++ drawn, some error⟩ := by
      rw [hrender, List.map_cons, Rendering.concat, hs,
        Rendering.append_of_error (r := ⟨drawn, some error⟩) rfl, Rendering.append_of_none rfl]
      rfl
    refine Or.inr ⟨front, s, back, error, blocks, drawn, hsnippets, not_bad_of_mem hblocks, hbad,
      hblocks, hdrawn, hend, ?_⟩
    intro palette
    rw [hend, ← htext]
    exact eventsText_append palette _ drawn

end

/-- A span that starts inside a character. -/
example :
    Diagnostic.render {} (fun () => some ⟨"main", "1;\né"⟩) ⟨none, [⟨"here", (), ⟨4, 5⟩⟩]⟩ =
      ⟨headerEvents {} none ++ brokenEvents {} ⟨"main", "1;\né"⟩ ⟨1, 1⟩ ['é'],
        some .splitCharacter⟩ := by
  decide

end ExprLang
