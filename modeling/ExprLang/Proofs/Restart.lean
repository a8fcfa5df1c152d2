import ExprLang.Proofs.Run
import ExprLang.Proofs.SideBySide
import ExprLang.Proofs.Slices
import ExprLang.Proofs.Tiling

/-!
# Starting in the middle of a text

A lexer keeps nothing in mind but the place where it stands. So starting at a place is the same
as taking the text from there on by itself, apart from the spans; and a lexer that has read some
tokens can be replaced by one that starts where it stands, or where its next token starts.

* `Lexer.HasRead front l`: what the lexer `l` has read of its source is the text `front`.
* `Lexer.atToken`: a lexer in front of its next token.
* `Lexer.HasRead.exists_restart`: starting again at the place or at the next token of a lexer.
* `parse_startingAt`: a parser that starts in the middle of a text.
-/

namespace ExprLang

open Text

namespace Lexer

/-! ## Where a lexer stands -/

/-- What the lexer has read of its source is the text `front`. -/
structure HasRead (front : List Char) (l : Lexer) : Prop where
  source_eq : l.source.toList = front ++ l.cursor.rest
  position_eq : l.position = byteSize front

section

variable {front read rest : List Char} {l : Lexer}

/-- A lexer is the one that starts where it stands. -/
theorem HasRead.startingAt?_eq (h : l.HasRead front) :
    startingAt? l.source l.position = some l := by
  have hsplit := splitBytes?_byteSize front l.cursor.rest
  rw [← h.source_eq, ← h.position_eq] at hsplit
  rw [startingAt?, Cursor.startingAt?, hsplit]
  rfl

theorem HasRead.finish_position (h : l.HasRead front) :
    l.finish.position = byteSize l.source.toList := by
  have hposition : l.cursor.position = byteSize front := h.position_eq
  rw [h.source_eq, byteSize_append, ← hposition]
  rfl

theorem HasRead.skip (h : l.HasRead front) (hrest : l.cursor.rest = read ++ rest) :
    HasRead (front ++ read) { l with cursor := l.cursor.skip read rest } := by
  constructor
  · simpa [hrest] using h.source_eq
  · rw [byteSize_append, ← h.position_eq]
    rfl

theorem source_next (l : Lexer) : l.next.2.source = l.source := by
  unfold next
  split <;> rfl

theorem source_drop (n : Nat) (l : Lexer) : (l.drop n).source = l.source := by
  induction n generalizing l with
  | zero => rfl
  | succ n ih => rw [drop, ih, source_next]

theorem HasRead.next (h : l.HasRead front) : ∃ more, l.next.2.HasRead (front ++ more) := by
  unfold Lexer.next
  cases htoken : nextToken? l.cursor with
  | none => exact ⟨l.cursor.rest, h.skip (List.append_nil _).symm⟩
  | some r =>
    obtain ⟨t, c⟩ := r
    obtain ⟨trivia, lexeme, hrest, -, ht, hposition⟩ := exists_of_token? htoken
    have hc : c = l.cursor.skip (trivia ++ lexeme) c.rest := by
      rw [ht] at hposition
      simp only [Token.ofText, Nat.add_assoc, ← byteSize_append] at hposition
      rw [Cursor.skip, ← hposition]
    refine ⟨trivia ++ lexeme, ?_⟩
    dsimp only
    rw [hc]
    exact h.skip (by simpa using hrest)

theorem HasRead.drop (h : l.HasRead front) (n : Nat) : ∃ read, (l.drop n).HasRead read := by
  induction n generalizing l front with
  | zero => exact ⟨front, h⟩
  | succ n ih =>
    obtain ⟨more, hnext⟩ := h.next
    exact ih hnext

end

/-! ## In front of the next token -/

/-- The lexer after the trivia that it stands at. -/
def atToken (l : Lexer) : Lexer :=
  { l with
    cursor := l.cursor.skip (Scan.splitTrivia false l.cursor.rest).1
      (Scan.splitTrivia false l.cursor.rest).2 }

theorem splitTrivia_splitTrivia (cs : List Char) :
    Scan.splitTrivia false (Scan.splitTrivia false cs).2 = ([], (Scan.splitTrivia false cs).2) := by
  cases hrest : (Scan.splitTrivia false cs).2 with
  | nil => rfl
  | cons c rest =>
    obtain ⟨hblank, hcomment⟩ := Scan.splitTrivia_rest hrest
    rw [Scan.splitTrivia, if_neg (by decide), if_neg (by simp [hblank]), if_neg hcomment]

theorem nextToken?_atToken (l : Lexer) : nextToken? l.atToken.cursor = nextToken? l.cursor := by
  unfold nextToken? atToken
  simp only [Cursor.rest_skip, splitTrivia_splitTrivia, Cursor.skip_skip, List.append_nil]

theorem position_atToken (l : Lexer) : l.atToken.position = l.next.1.span.start := by
  have happ := Scan.splitTrivia_append false l.cursor.rest
  unfold next nextToken?
  dsimp only
  cases hrest : (Scan.splitTrivia false l.cursor.rest).2 with
  | nil =>
    rw [hrest, List.append_nil] at happ
    simp only [atToken, position, Cursor.position_skip, happ]
    rfl
  | cons c more => rfl

theorem HasRead.atToken {front : List Char} {l : Lexer} (h : l.HasRead front) :
    ∃ read, l.atToken.HasRead read :=
  ⟨_, h.skip (Scan.splitTrivia_append false l.cursor.rest).symm⟩

/-! ## Starting again -/

theorem drop_drop (m n : Nat) (l : Lexer) : (l.drop m).drop n = l.drop (m + n) := by
  induction m generalizing l with
  | zero => rw [Nat.zero_add, drop]
  | succ m ih => rw [drop, ih, Nat.succ_add, drop]

/-- What a lexer answers call by call is what its stream shows. -/
theorem next_drop_eq_current (n : Nat) (l : Lexer) :
    (l.drop n).next.1 = ((TokenStream.ofLexer l).drop n).current := by
  rw [next_drop, TokenStream.current, List.headD_eq_head?_getD]
  change _ = (l.tokens.drop n).head?.getD _
  rw [List.head?_drop]
  rfl

/-- A lexer can be replaced by one that starts where it stands or where its next token starts. -/
theorem HasRead.exists_restart {front : List Char} {l : Lexer} (h : l.HasRead front) :
    ∀ start ∈ [l.position, l.next.1.span.start], ∃ m, startingAt? l.source start = some m ∧
      TokenStream.ofLexer m = TokenStream.ofLexer l := by
  obtain ⟨read, hread⟩ := h.atToken
  have hstart := hread.startingAt?_eq
  rw [position_atToken] at hstart
  have htokens : l.atToken.tokens = l.tokens := tokensFrom_congr l.nextToken?_atToken
  have hend : l.atToken.finish.position = l.finish.position :=
    hread.finish_position.trans h.finish_position.symm
  have hstream : TokenStream.ofLexer l.atToken = TokenStream.ofLexer l := by
    rw [TokenStream.ofLexer, TokenStream.ofLexer, htokens, hend]
  exact List.forall_mem_cons.mpr ⟨⟨l, h.startingAt?_eq, rfl⟩,
    List.forall_mem_singleton.mpr ⟨l.atToken, hstart, hstream⟩⟩

/-! ## A part of a text by itself -/

theorem hasRead_between (front back : String) : (between front back).HasRead front.toList :=
  ⟨String.toList_append, (byteSize_toList front).symm⟩

theorem stream_between (front back : String) :
    TokenStream.ofLexer (between front back) =
      (TokenStream.ofLexer (ofSource back)).mapSpan (Span.shift front.utf8ByteSize) := by
  have hend : (between front back).finish.position =
      (ofSource back).finish.position + front.utf8ByteSize := by
    change front.utf8ByteSize + byteSize back.toList = 0 + byteSize back.toList + _
    rw [Nat.zero_add, Nat.add_comm]
  have htokens : (between front back).tokens = (ofSource back).tokens.map _ :=
    tokensFrom_eq_map_lex front.utf8ByteSize back
  rw [TokenStream.ofLexer, htokens, hend]
  rfl

end Lexer

/-- **Starting in the middle.** A lexer that starts at a byte of a text, and a parser over it,
answer what they answer to the text from there on by itself, moved to where it starts. And a
lexer that has read some tokens goes on like one that starts where it stands, or where its next
token starts; so does a parser over it, whatever it reports to. -/
theorem parse_startingAt (front back : String) :
    ∃ l, Lexer.startingAt? (front ++ back) front.utf8ByteSize = some l ∧
      (∀ n, (l.drop n).next.1 =
        ((Lexer.ofSource back).drop n).next.1.mapSpan (Span.shift front.utf8ByteSize)) ∧
      (∃ hadErrors program, ∃ p q : Parser Collector,
        Parser.parseProgram (.ofLexer (.ofSource back) {}) = .ok (hadErrors, program) p ∧
        Parser.parseProgram (.ofLexer l {}) =
          .ok (hadErrors, program.mapSpan (Span.shift front.utf8ByteSize)) q ∧
        q.reporter.collected =
          p.reporter.collected.map (Issue.mapSpan (Span.shift front.utf8ByteSize))) ∧
      ∀ k, ∀ start ∈ [(l.drop k).position, (l.drop k).next.1.span.start], ∃ m,
        Lexer.startingAt? (front ++ back) start = some m ∧
        (∀ n, (m.drop n).next.1 = (l.drop (k + n)).next.1) ∧
        ∀ {ρ : Type} [Reporter ρ] (r : ρ), Parser.parseProgram (.ofLexer m r) =
          Parser.parseProgram (.ofLexer (l.drop k) r) := by
  have hstream := Lexer.stream_between front back
  refine ⟨.between front back, Lexer.startingAt?_append front back, fun n => ?_, ?_, fun k => ?_⟩
  · rw [Lexer.next_drop_eq_current, Lexer.next_drop_eq_current, hstream, TokenStream.drop_mapSpan,
      TokenStream.current_mapSpan]
  · obtain ⟨p, hp, hpissues⟩ := Parser.parseProgram_collects (.ofSource back)
    obtain ⟨q, hq, hqissues⟩ := Parser.parseProgram_collects (.between front back)
    rw [hstream, parseStream_mapSpan (Span.shift_union _)] at hq hqissues
    refine ⟨_, _, p, q, hp, ?_, ?_⟩
    · rw [hq]
      simp [Parsed.mapSpan]
    · rw [hqissues, hpissues]
      rfl
  · obtain ⟨read, hread⟩ := (Lexer.hasRead_between front back).drop k
    intro start hstart
    obtain ⟨m, hm, hrest⟩ := hread.exists_restart start hstart
    rw [Lexer.source_drop] at hm
    refine ⟨m, hm, fun n => ?_, fun r => ?_⟩
    · rw [← Lexer.drop_drop, Lexer.next_drop_eq_current, hrest, ← Lexer.next_drop_eq_current]
    · rw [Parser.ofLexer, Parser.ofLexer, hrest]

end ExprLang
