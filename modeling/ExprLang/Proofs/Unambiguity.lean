import ExprLang.Proofs.RoundTrip

/-!
# One text, one program

The grammar is not ambiguous: a row of tokens is a program in one way, as far as the expressions
go. As the text of a program has the tokens of a program of the grammar, it tells which program
it is, spans apart. The nesting limit has no part in this: a program that is too deep to be read
back has a text of its own as well.

* `Sentence.append_inj`: where the first statement of a row of tokens ends.
* `Sentences.expr_unique`: the expressions of a row of tokens.
* `Program.text_eq_iff`: programs with the same text.
-/

namespace ExprLang

open Text

/-! ## Programs of the grammar -/

section

variable {v v' w w' : List Token} {kind kind' : StmtKind} {c c' : Concrete}

/-- A statement ends with the first semicolon. -/
theorem Sentence.afterSemicolon_prepend (h : Sentence v kind c) (ts : TokenStream) :
    (ts.prepend v).afterSemicolon = ts := by
  cases h with
  | mk h hs =>
    rw [← TokenStream.prepend_prepend, TokenStream.afterSemicolon_prepend _ h.kind_ne_semicolon,
      ts.afterSemicolon_prepend_semicolon hs]

theorem Sentence.append_inj (h : Sentence v kind c) (h' : Sentence v' kind' c')
    (heq : v ++ w = v' ++ w') : v = v' ∧ w = w' := by
  have hafter := h.afterSemicolon_prepend ⟨w, .empty 0⟩
  have hafter' := h'.afterSemicolon_prepend ⟨w', .empty 0⟩
  rw [TokenStream.prepend] at hafter hafter'
  rw [heq, hafter'] at hafter
  obtain rfl : w' = w := congrArg TokenStream.pending hafter
  exact ⟨List.append_cancel_right heq, rfl⟩

theorem Sentence.expr_unique {e e' : Expr} (h : Sentence v kind c) (h' : Sentence v kind' c')
    (he : c.expr? = some e) (he' : c'.expr? = some e') : kind = kind' ∧ e = e' := by
  generalize hv : v = u at h'
  cases h with
  | mk h hs =>
    cases h' with
    | mk h' hs' =>
      obtain ⟨rfl, -⟩ := List.append_inj' hv rfl
      exact h.expr_unique h' he he'

theorem Sentence.ne_nil (h : Sentence v kind c) : v ≠ [] := by
  cases h with
  | mk => simp

/-- However a program is derived, it has the same statements. -/
theorem Sentences.expr_unique {stmts stmts' : List (StmtKind × Concrete)} (h : Sentences w stmts)
    (h' : Sentences w stmts') (hr : ∀ t ∈ w, t.Readable) :
    stmts.map (fun s => (s.1, s.2.expr?)) = stmts'.map fun s => (s.1, s.2.expr?) := by
  induction h generalizing stmts' with
  | nil =>
    generalize hw : ([] : List Token) = w at h'
    cases h' with
    | nil => rfl
    | cons hv' _ => exact absurd (List.append_eq_nil_iff.mp hw.symm).1 hv'.ne_nil
  | @cons v w kind c rest hv _ ih =>
    generalize hw : v ++ w = w' at h'
    cases h' with
    | nil => exact absurd (List.append_eq_nil_iff.mp hw).1 hv.ne_nil
    | @cons _ _ kind' c' rest' hv' hw' =>
      obtain ⟨rfl, rfl⟩ := hv.append_inj hv' hw
      obtain ⟨hrv, hrw⟩ := List.forall_mem_append.mp hr
      obtain ⟨e, he⟩ := hv.exists_expr?_iff.mpr hrv
      obtain ⟨e', he'⟩ := hv'.exists_expr?_iff.mpr hrv
      obtain ⟨rfl, rfl⟩ := hv.expr_unique hv' he he'
      rw [List.map_cons, List.map_cons, he, he', ih hw' hrw]

end

/-! ## Written programs -/

/-- The statements that trees show, spans apart. -/
theorem map_bare_of_shows {written : List Stmt} {stmts : List (StmtKind × Concrete)}
    (h : List.Forall₂ (fun s r => r.1 = s.kind ∧ r.2.Shows s.expr) written stmts) :
    written.map Stmt.bare = (stmts.map fun s => (s.1, s.2.expr?)).filterMap fun r =>
      r.2.map fun e => Stmt.bare ⟨r.1, e, .empty 0⟩ := by
  induction h with
  | nil => rfl
  | @cons s r written stmts hfirst _ ih =>
    obtain ⟨hkind, ⟨e, he, hbare⟩, -⟩ := hfirst
    have hstmt : Stmt.bare ⟨r.1, e, .empty 0⟩ = s.bare :=
      congrArg₂ (fun kind e => Stmt.mk kind e (.empty 0)) hkind hbare
    rw [List.map_cons, List.map_cons, ih, List.filterMap_cons_some (b := s.bare)]
    rw [he, Option.map_some, hstmt]

/-- **Text of programs.** Where the numbers of two programs are finite and have no sign, and their
strings are as they would be written, the programs have the same text exactly if they differ in
nothing but spans. -/
theorem Program.text_eq_iff {a b : Program} (ha : a.Printable) (hb : b.Printable) :
    a.text = b.text ↔ a.bare = b.bare := by
  constructor
  · intro h
    obtain ⟨w, stmts, hlex, hw, hshows⟩ := a.exists_sentences_chars ha 0 []
    obtain ⟨w', stmts', hlex', hw', hshows'⟩ := b.exists_sentences_chars hb 0 []
    have htokens : lex a.text = w := hlex.lex_eq
    have htokens' : lex b.text = w' := hlex'.lex_eq
    obtain rfl : w = w' := by rw [← htokens, ← htokens', h]
    have hread := hw.readable_iff.mpr (exists_expr?_of_shows hshows)
    have hstmts := hw.expr_unique hw' hread
    apply congrArg Program.mk
    calc a.statements.map Stmt.bare
      _ = _ := map_bare_of_shows hshows
      _ = _ := by rw [hstmts]
      _ = b.statements.map Stmt.bare := (map_bare_of_shows hshows').symm
  · intro h
    have hchars : a.bare.chars = b.bare.chars := by rw [h]
    unfold bare at hchars
    rw [chars_mapSpan, chars_mapSpan] at hchars
    exact congrArg String.ofList hchars

/-- Two programs with the same leaves and operators in the same order, one of them a string that
looks like parentheses and a sign. -/
theorem text_eq_iff_regrouped :
    let number : Expr := .number (.ofBits 0x3FF8000000000000) (.empty 0)
    let string : Expr := .string "\") - (\"" (.empty 0)
    let left : Program :=
      ⟨[⟨.print, .binary .sub (.binary .sub number string (.empty 0)) number (.empty 0), .empty 0⟩]⟩
    let right : Program :=
      ⟨[⟨.print, .binary .sub number (.binary .sub string number (.empty 0)) (.empty 0), .empty 0⟩]⟩
    left.Printable ∧ right.Printable ∧ left.bare ≠ right.bare ∧ left.text ≠ right.text := by
  intro number string left right
  have hnumber : number.Printable := ⟨by decide, by decide⟩
  have hstring : string.Printable := ⟨[')', ' ', '-', ' ', '('], by decide, rfl⟩
  have hleft : left.Printable := List.forall_mem_singleton.mpr ⟨⟨hnumber, hstring⟩, hnumber⟩
  have hright : right.Printable := List.forall_mem_singleton.mpr ⟨hnumber, hstring, hnumber⟩
  have hbare : left.bare ≠ right.bare := nofun
  exact ⟨hleft, hright, hbare, mt (Program.text_eq_iff hleft hright).mp hbare⟩

end ExprLang
