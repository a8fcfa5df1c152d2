import ExprLang.Proofs.LexicalGrammar
import ExprLang.Proofs.TokenOrder

/-!
# Tokens and trivia make up the text

A lexer leaves nothing out. Wherever it starts in a text, the rest of the text is made of the
tokens it answers and of trivia before, between and behind them; and the span of a token tells
where its text stands.

* `Trivia back cs`: the text `cs`, in front of the text `back`, is blanks and comments.
* `Tiles p cs w`: the text `cs`, which starts at the byte `p`, is the texts of the tokens `w` and
  trivia.
* `lexer_tiles`: the tokens of a lexer that starts anywhere, as a whole and call by call.
-/

namespace ExprLang

open Text

/-! ## Trivia -/

/-- Blanks and comments, in front of the text `back`. A comment runs through the end of its line;
in the last line of the text that is the end of the text. -/
inductive Trivia (back : List Char) : List Char → Prop
  | nil : Trivia back []
  | blank {c : Char} {cs : List Char} (h : isBlank c = true) (hcs : Trivia back cs) :
      Trivia back (c :: cs)
  | comment {line cs : List Char} (h : '\n' ∉ line) (hcs : Trivia back cs) :
      Trivia back ('/' :: '/' :: (line ++ '\n' :: cs))
  | lastComment {line : List Char} (h : '\n' ∉ line) (hback : back = []) :
      Trivia back ('/' :: '/' :: line)

/-! ## Tokens and trivia -/

/-- The text `cs`, which starts at the byte `p`, is the texts of the tokens `w`, none of them
empty, with trivia before, between and behind them. -/
inductive Tiles : Nat → List Char → List Token → Prop
  | trivia {p : Nat} {cs : List Char} (h : Trivia [] cs) : Tiles p cs []
  | token {p : Nat} {gap lexeme rest : List Char} {kind : TokenKind} {w : List Token}
      (hgap : Trivia (lexeme ++ rest) gap) (hne : lexeme ≠ [])
      (hw : Tiles (p + byteSize gap + byteSize lexeme) rest w) :
      Tiles p (gap ++ (lexeme ++ rest)) (.ofText kind lexeme (p + byteSize gap) :: w)

namespace Tiles

variable {p : Nat} {cs : List Char} {w : List Token}

/-- What may stand before trivia may stand before tokens and trivia. -/
theorem prepend {front : List Char}
    (hfront : ∀ back gap, Trivia back gap → Trivia back (front ++ gap))
    (h : Tiles (p + byteSize front) cs w) : Tiles p (front ++ cs) w := by
  cases h with
  | trivia h => exact .trivia (hfront _ _ h)
  | @token _ gap lexeme rest kind w hgap hne hw =>
    rw [Nat.add_assoc p, ← byteSize_append] at hw ⊢
    rw [← List.append_assoc]
    exact .token (hfront _ _ hgap) hne hw

theorem of_tokenization (h : Tokenization p cs w) : Tiles p cs w := by
  induction h with
  | nil p => exact .trivia .nil
  | @blank p c cs w h hw ih =>
    have hfront : ∀ back gap, Trivia back gap → Trivia back ([c] ++ gap) :=
      fun back gap hgap => .blank h hgap
    exact Tiles.prepend hfront (by simpa using ih)
  | @comment p line cs w h hw ih =>
    have hfront : ∀ back gap, Trivia back gap →
        Trivia back ('/' :: '/' :: (line ++ ['\n']) ++ gap) := by
      intro back gap hgap
      simpa using Trivia.comment h hgap
    simpa using Tiles.prepend hfront ih
  | lastComment p h => exact .trivia (.lastComment h rfl)
  | @token p c cs lexeme rest kind w hblank hcomment h hw ih =>
    obtain ⟨more, rfl, rfl⟩ := exists_cons_of_scan h.scan_eq
    have hgap : Trivia (c :: more ++ rest) [] := .nil
    exact Tiles.token hgap (by simp) ih

theorem length_le (h : Tiles p cs w) : w.length ≤ cs.length := by
  induction h with
  | trivia => exact Nat.zero_le _
  | token hgap hne hw ih =>
    have hpos := List.length_pos_iff.mpr hne
    simp only [List.length_cons, List.length_append]
    omega

end Tiles

/-! ## Lexers call by call -/

namespace Lexer

/-- The lexer that starts where the text `front` ends and the text `back` starts. -/
def between (front back : String) : Lexer :=
  ⟨front ++ back, ⟨front.utf8ByteSize, back.toList⟩⟩

theorem startingAt?_append (front back : String) :
    startingAt? (front ++ back) front.utf8ByteSize = some (between front back) := by
  have hsplit := splitBytes?_byteSize front.toList back.toList
  rw [byteSize_toList, ← String.toList_append] at hsplit
  rw [startingAt?, Cursor.startingAt?, hsplit]
  rfl

theorem position_next (l : Lexer) : l.next.2.position = l.next.1.span.stop := by
  unfold next
  cases h : nextToken? l.cursor with
  | none => rfl
  | some r =>
    obtain ⟨t, c⟩ := r
    exact (position_of_token? h).2.2

theorem drop_succ (n : Nat) (l : Lexer) : l.drop (n + 1) = (l.drop n).next.2 := by
  induction n generalizing l with
  | zero => rfl
  | succ n ih => exact ih l.next.2

theorem kind_ne_endOfInput (l : Lexer) : ∀ t ∈ l.tokens, t.kind ≠ .endOfInput := by
  unfold tokens
  fun_induction tokensFrom l.cursor with
  | case1 c h => exact List.forall_mem_nil _
  | case2 c t c' h ih => exact List.forall_mem_cons.mpr ⟨kind_ne_endOfInput_of_token? h, ih⟩

end Lexer

theorem Token.StandsIn.slice?_eq {cs : List Char} {t : Token} (h : t.StandsIn cs) :
    slice? t.span.start t.span.stop cs = some t.lexeme.toList ∧
      t.span.stop ≤ byteSize cs := by
  obtain ⟨front, lexeme, back, rfl, ht⟩ := h
  rw [ht]
  refine ⟨?_, ?_⟩
  · rw [Token.ofText, String.toList_ofList]
    exact slice?_append front lexeme back
  · simp only [Token.ofText, byteSize_append]
    omega

theorem stop_le_of_mem_lex {source : String} {t : Token} (ht : t ∈ lex source) :
    t.span.stop ≤ byteSize source.toList := by
  have hfront : (Cursor.ofString source).position = byteSize [] := rfl
  exact (standsIn_of_mem_tokensFrom hfront t ht).slice?_eq.2

/-- **Tiling.** A lexer that starts anywhere in a text answers tokens that are not empty and stand
one behind the other from there on, each the part of the text that its span says. They make up the
rest of the text together with trivia, so there are no more of them than characters. Behind the
last one the lexer answers the end of input, for ever, and after each answer it stands where the
span of the answer ends. -/
theorem lexer_tiles (front back : String) :
    ∃ l, Lexer.startingAt? (front ++ back) front.utf8ByteSize = some l ∧
      InOrder l.tokens ∧
      (∀ t ∈ l.tokens, t.kind ≠ .endOfInput ∧ front.utf8ByteSize ≤ t.span.start ∧
        t.span.stop ≤ (front ++ back).utf8ByteSize ∧
        slice? t.span.start t.span.stop (front ++ back).toList = some t.lexeme.toList) ∧
      Tiles front.utf8ByteSize back.toList l.tokens ∧
      l.tokens.length ≤ back.length ∧
      ∀ n, (l.drop n).next.1 =
          l.tokens[n]?.getD (.endOfInput (.empty (front ++ back).utf8ByteSize)) ∧
        (l.drop (n + 1)).position = (l.drop n).next.1.span.stop := by
  have hstart := Lexer.startingAt?_append front back
  obtain ⟨hstands, hend⟩ := Lexer.standsIn_of_mem_tokens hstart
  obtain ⟨hafter, horder⟩ := inOrder_tokensFrom (Lexer.between front back).cursor
  have htiles : Tiles front.utf8ByteSize back.toList (Lexer.between front back).tokens :=
    .of_tokenization (tokenization_tokensFrom _ _)
  refine ⟨_, hstart, horder, fun t ht => ?_, htiles, htiles.length_le, fun n => ⟨?_, ?_⟩⟩
  · obtain ⟨hslice, hstop⟩ := (hstands t ht).slice?_eq
    rw [byteSize_toList] at hstop
    exact ⟨Lexer.kind_ne_endOfInput _ t ht, hafter t ht, hstop, hslice⟩
  · rw [Lexer.next_drop, hend, byteSize_toList]
  · rw [Lexer.drop_succ, Lexer.position_next]

end ExprLang
