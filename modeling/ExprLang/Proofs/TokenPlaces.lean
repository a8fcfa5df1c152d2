import ExprLang.Proofs.Lexing

/-!
# Where tokens stand in their text

A lexer passes over trivia, then over the text of one token, and so on to the end of its text.
So every token is a part of the text, and its span says which part.

* `exists_of_token?`: what one step of the lexer passes over.
* `Lexer.tokens_drop`, `Lexer.next_drop`: what a lexer answers call by call.
* `Lexer.standsIn_of_mem_tokens`: the span of a token is where its text stands.
-/

namespace ExprLang

open Text

/-- A step of the lexer passes over trivia and over the text of the token. -/
theorem exists_of_token? {c c' : Cursor} {t : Token} (h : nextToken? c = some (t, c')) :
    ∃ trivia lexeme, c.rest = trivia ++ (lexeme ++ c'.rest) ∧ lexeme ≠ [] ∧
      t = .ofText t.kind lexeme (c.position + byteSize trivia) ∧ c'.position = t.span.stop := by
  have happ := Scan.splitTrivia_append false c.rest
  unfold nextToken? at h
  dsimp only at h
  split at h
  · cases h
  · rename_i first more hrest
    cases h
    rw [hrest, ← Scan.scan_append first more] at happ
    exact ⟨_, _, happ.symm, Scan.scan_lexeme_ne_nil first more, rfl, rfl⟩

/-! ## Call by call -/

namespace Lexer

theorem next_eq (l : Lexer) :
    l.next.1 = l.tokens.headD (.endOfInput (.empty l.finish.position)) ∧
      l.next.2.tokens = l.tokens.tail ∧ l.next.2.finish.position = l.finish.position := by
  unfold next tokens
  cases h : nextToken? l.cursor with
  | none =>
    rw [tokensFrom_of_none h]
    exact ⟨rfl, tokensFrom_of_none rfl, rfl⟩
  | some r =>
    obtain ⟨t, c'⟩ := r
    rw [tokensFrom_of_some h]
    obtain ⟨trivia, lexeme, hrest, -, ht, hposition⟩ := exists_of_token? h
    refine ⟨rfl, rfl, ?_⟩
    simp only [finish, position, Cursor.position_skip, hposition, hrest]
    rw [ht]
    simp only [Token.ofText, byteSize_append]
    omega

theorem tokens_drop (n : Nat) (l : Lexer) : (l.drop n).tokens = l.tokens.drop n := by
  induction n generalizing l with
  | zero => rfl
  | succ n ih => rw [drop, ih, l.next_eq.2.1, List.drop_tail]

theorem finish_drop (n : Nat) (l : Lexer) : (l.drop n).finish.position = l.finish.position := by
  induction n generalizing l with
  | zero => rfl
  | succ n ih => rw [drop, ih, l.next_eq.2.2]

/-- After the last token every call answers the end of input. -/
theorem next_drop (n : Nat) (l : Lexer) :
    (l.drop n).next.1 = l.tokens[n]?.getD (.endOfInput (.empty l.finish.position)) := by
  rw [(l.drop n).next_eq.1, tokens_drop, finish_drop, List.headD_eq_head?_getD, List.head?_drop]

end Lexer

/-! ## Parts of a text -/

/-- The token is a part of the text `cs`, and its span is where that part stands. -/
def Token.StandsIn (cs : List Char) (t : Token) : Prop :=
  ∃ front lexeme back, cs = front ++ lexeme ++ back ∧
    t = .ofText t.kind lexeme (byteSize front)

theorem standsIn_of_mem_tokensFrom {front : List Char} {c : Cursor}
    (hfront : c.position = byteSize front) : ∀ t ∈ tokensFrom c, t.StandsIn (front ++ c.rest) := by
  fun_induction tokensFrom c generalizing front with
  | case1 c h => simp
  | case2 c t c' h ih =>
    obtain ⟨trivia, lexeme, hrest, -, ht, hposition⟩ := exists_of_token? h
    have hspan : c'.position = byteSize (front ++ trivia ++ lexeme) := by
      rw [hposition, ht]
      simp only [Token.ofText, byteSize_append, hfront]
    have htext : front ++ c.rest = front ++ trivia ++ lexeme ++ c'.rest := by
      simp [hrest]
    rw [hfront, ← byteSize_append] at ht
    intro u hu
    rw [htext]
    rcases List.mem_cons.mp hu with rfl | hu
    · exact ⟨front ++ trivia, lexeme, c'.rest, rfl, ht⟩
    · exact ih hspan u hu

/-- A lexer that was started somewhere in a text has tokens of that text. -/
theorem Lexer.standsIn_of_mem_tokens {source : String} {offset : Nat} {l : Lexer}
    (h : startingAt? source offset = some l) :
    (∀ t ∈ l.tokens, t.StandsIn source.toList) ∧ l.finish.position = byteSize source.toList := by
  obtain ⟨c, hc, rfl⟩ := Option.map_eq_some_iff.mp h
  obtain ⟨⟨front, back⟩, hsplit, rfl⟩ := Option.map_eq_some_iff.mp hc
  obtain ⟨htext, rfl⟩ := splitBytes?_eq_some_iff.mp hsplit
  rw [htext]
  refine ⟨standsIn_of_mem_tokensFrom rfl, ?_⟩
  rw [byteSize_append]
  rfl

end ExprLang
