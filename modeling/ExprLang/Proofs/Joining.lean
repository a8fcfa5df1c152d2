import ExprLang.Proofs.Run
import ExprLang.Proofs.SideBySide
import ExprLang.Proofs.Slices

/-!
# Texts one below the other

A newline ends a comment, a number and a word. Only a string runs over it. So a text without an
open string can be put above any other text, and each of the two has the tokens that it has by
itself. Where the upper one ends with a semicolon, each also has its own statements and issues.

* `Tokenization.lexes_newline`: the tokens of a text with a newline behind it.
* `lex_append_newline`: the tokens of two texts.
* `exists_open_string`: the tokens of a text that goes on behind an open string.
* `lex_append_newline_cases`: the tokens of any two texts, an open string above or none.
* `parse_append_newline`: the statements and the issues of two texts.
-/

namespace ExprLang

open Text

/-! ## Tokens in front of a newline -/

theorem clear_newline (rest : List Char) : Clear ('\n' :: rest) :=
  ⟨Ends.cons rfl (by decide) rest, by simp⟩

theorem clear_quote (rest : List Char) : Clear ('"' :: rest) :=
  ⟨Ends.cons rfl (by decide) rest, by simp⟩

theorem lexes_open {body : List Char} (h : '"' ∉ body) (p : Nat) :
    Lexes p ('"' :: body) [] [.ofText .unterminatedString ('"' :: body) p] := by
  refine lexes_scan (by decide) (by simp) ?_ p
  rw [List.append_nil]
  exact scan_unterminated h

theorem TokenClass.HasKind.ne_unterminated {k : TokenClass} {cs : List Char} {kind : TokenKind}
    (h : k.HasKind cs kind) : kind ≠ .unterminatedString := by
  cases h with
  | number | keyword | identifier | string | other => exact nofun
  | sign h =>
    rintro rfl
    have hsign := mem_signs_iff.mp h
    unfold Scan.punctuation? at hsign
    split at hsign <;> cases hsign

namespace Tokenization

variable {p : Nat} {cs : List Char} {w : List Token}

theorem eq_nil (h : Tokenization p [] w) : w = [] :=
  h.eq_tokensFrom.trans (tokensFrom_of_none rfl)

/-- Only the last token of a text can be an open string. -/
theorem kind_ne_unterminated (h : Tokenization p cs w) :
    ∀ t ∈ w.dropLast, t.kind ≠ .unterminatedString := by
  induction h with
  | nil | lastComment => exact nofun
  | blank h hw ih => exact ih
  | comment h hw ih => exact ih
  | @token p c cs lexeme rest kind w hblank hcomment h hw ih =>
    cases h with
    | longest hstarts hcut hlongest hkind =>
      cases w with
      | nil => exact nofun
      | cons u w => exact List.forall_mem_cons.mpr ⟨hkind.ne_unterminated, ih⟩
    | unterminated h =>
      obtain rfl := hw.eq_nil
      exact nofun

/-- A text without an open string has its tokens in front of a newline, whatever follows. -/
theorem lexes_newline (h : Tokenization p cs w) (hw : ∀ t ∈ w, t.kind ≠ .unterminatedString)
    (rest : List Char) : Lexes p (cs ++ ['\n']) rest w := by
  induction h with
  | nil p => exact lexes_blank rfl p rest
  | blank h _ ih => exact (lexes_blank h _ _).append (ih hw)
  | @comment p line cs w h _ ih =>
    have hline := (lexes_comment h p (cs ++ ['\n'] ++ rest)).append (ih hw)
    simpa using hline
  | lastComment p h => exact lexes_comment h p rest
  | @token p c cs lexeme behind kind w hblank hcomment h _ ih =>
    obtain ⟨hkind, hclosed⟩ := List.forall_mem_cons.mp hw
    obtain ⟨more, rfl, rfl⟩ := exists_cons_of_scan h.scan_eq
    have hclear := clear_newline rest
    -- The text ends here, so there is nothing to cut off before the newline is put there.
    have h : Munch (c :: (more ++ behind ++ [])) kind (c :: more) (behind ++ []) := by simpa using h
    have hcomment : ¬ ['/', '/'] <+: c :: (more ++ behind ++ []) := by simpa using hcomment
    have hscan := (h.change_tail rfl hkind hclear).scan_eq
    have htoken := tokensFrom_token hblank (not_comment_change_tail hcomment hclear) hscan p
    have hbehind := ih hclosed
    unfold Lexes at *
    simp only [List.append_assoc, List.cons_append, List.nil_append, byteSize_append,
      byteSize_cons, Nat.add_assoc] at *
    rw [htoken, hbehind]

/-- What stands before an open string has its tokens in front of any other string as well. -/
theorem exists_open (h : Tokenization p cs w) (hw : ∃ t ∈ w, t.kind = .unterminatedString) :
    ∃ front body v, cs = front ++ '"' :: body ∧ '"' ∉ body ∧
      w = v ++ [.ofText .unterminatedString ('"' :: body) (p + byteSize front)] ∧
      Settled p front v := by
  induction h with
  | nil | lastComment => simp at hw
  | @blank p c cs w h _ ih =>
    obtain ⟨front, body, v, rfl, hbody, rfl, hfront⟩ := ih hw
    refine ⟨c :: front, body, v, rfl, hbody, ?_, ?_⟩
    · rw [byteSize_cons, ← Nat.add_assoc]
    · have hblank : ∀ rest, Lexes p [c] rest [] := lexes_blank h p
      exact .of_trivia hblank hfront
  | @comment p line cs w h _ ih =>
    obtain ⟨front, body, v, rfl, hbody, rfl, hfront⟩ := ih hw
    refine ⟨'/' :: '/' :: (line ++ ['\n']) ++ front, body, v, by simp, hbody, ?_, ?_⟩
    · rw [byteSize_append, ← Nat.add_assoc]
    · exact .of_trivia (fun rest => lexes_comment h p rest) hfront
  | @token p c cs lexeme behind kind w hblank hcomment h hbehind ih =>
    cases h with
    | unterminated hbody =>
      obtain rfl := hbehind.eq_nil
      exact ⟨[], cs, [], rfl, hbody, rfl, fun rest _ => lexes_nil p rest⟩
    | longest hstarts hcut hlongest hkind =>
      have hopen : ∃ t ∈ w, t.kind = .unterminatedString := by
        obtain ⟨t, ht, hopen⟩ := hw
        rcases List.mem_cons.mp ht with rfl | ht
        · exact absurd hopen hkind.ne_unterminated
        · exact ⟨t, ht, hopen⟩
      obtain ⟨front, body, v, rfl, hbody, rfl, hfront⟩ := ih hopen
      have h := Munch.longest hstarts hcut hlongest hkind
      obtain ⟨more, rfl, rfl⟩ := exists_cons_of_scan h.scan_eq
      rw [← List.append_assoc] at h hcomment
      have hsize : byteSize (c :: (more ++ front)) = byteSize (c :: more) + byteSize front :=
        byteSize_append (c :: more) front
      refine ⟨c :: (more ++ front), body, .ofText kind (c :: more) p :: v, by simp, hbody, ?_, ?_⟩
      · rw [hsize, ← Nat.add_assoc]
        rfl
      · exact .cons hblank hcomment h rfl hkind.ne_unterminated hfront

end Tokenization

/-! ## Two texts -/

theorem Lexes.lex_append {a b : String} {w : List Token} (h : Lexes 0 a.toList b.toList w) :
    lex (a ++ b) = w ++ (lex b).map (Token.mapSpan (Span.shift a.utf8ByteSize)) := by
  unfold Lexes at h
  rw [← String.toList_append, Nat.zero_add, byteSize_toList,
    tokensFrom_eq_map_lex a.utf8ByteSize] at h
  exact h

/-- A text without an open string and the text below it have the tokens of both. -/
theorem lex_append_newline {a b : String} (h : ∀ t ∈ lex a, t.kind ≠ .unterminatedString) :
    lex (a ++ "\n" ++ b) =
      lex a ++ (lex b).map (Token.mapSpan (Span.shift (a.utf8ByteSize + 1))) := by
  have hjoined := (tokenization_tokensFrom 0 a.toList).lexes_newline h b.toList
  have htext : a.toList ++ ['\n'] = (a ++ "\n").toList := by simp
  have hsize : (a ++ "\n").utf8ByteSize = a.utf8ByteSize + 1 := String.utf8ByteSize_append
  rw [htext] at hjoined
  rw [hjoined.lex_append, hsize]
  rfl

theorem Token.ofText_eq {kind : TokenKind} {cs : List Char} {lexeme : String} {p stop : Nat}
    (hlexeme : lexeme.toList = cs) (hstop : p + byteSize cs = stop) :
    Token.ofText kind cs p = ⟨kind, lexeme, ⟨p, stop⟩⟩ := by
  rw [← hstop, ← hlexeme, Token.ofText, String.ofList_toList]

/-- Behind an open string of a text, the string goes on up to the first quote. -/
theorem exists_open_string {a : String} (h : ∃ t ∈ lex a, t.kind = .unterminatedString) :
    ∃ v t, lex a = v ++ [t] ∧ t.kind = .unterminatedString ∧
      ∀ inside : String, '"' ∉ inside.toList →
        (∀ behind : String, lex (a ++ inside ++ "\"" ++ behind) =
          v ++ ⟨.string, t.lexeme ++ inside ++ "\"",
              ⟨t.span.start, (a ++ inside ++ "\"").utf8ByteSize⟩⟩ ::
            (lex behind).map
              (Token.mapSpan (Span.shift (a ++ inside ++ "\"").utf8ByteSize))) ∧
        lex (a ++ inside) =
          v ++ [⟨.unterminatedString, t.lexeme ++ inside,
            ⟨t.span.start, (a ++ inside).utf8ByteSize⟩⟩] := by
  obtain ⟨front, body, v, htext, hbody, hlex, hfront⟩ :=
    (tokenization_tokensFrom 0 a.toList).exists_open h
  refine ⟨v, _, hlex, rfl, fun inside hinside => ?_⟩
  have hnot : '"' ∉ body ++ inside.toList := by simp [hbody, hinside]
  have hopen : front ++ '"' :: (body ++ inside.toList) = (a ++ inside).toList := by simp [htext]
  constructor
  · intro behind
    have hclosed : front ++ '"' :: (body ++ inside.toList ++ ['"']) =
        (a ++ inside ++ "\"").toList := by
      rw [String.toList_append, ← hopen]
      simp
    have hlexes := (hfront _ (clear_quote _)).append (lexes_string hnot _ behind.toList)
    rw [hclosed] at hlexes
    rw [hlexes.lex_append, List.append_assoc, Token.ofText_eq]
    · rfl
    · simp [Token.ofText]
    · rw [Nat.zero_add, ← byteSize_append, hclosed, byteSize_toList]
  · have hlexes := (hfront _ (clear_quote _)).append (lexes_open hnot _)
    have hjoined := hlexes.lex_eq
    rw [hopen, String.ofList_toList] at hjoined
    rw [hjoined, Token.ofText_eq]
    · rfl
    · simp [Token.ofText]
    · rw [Nat.zero_add, ← byteSize_append, hopen, byteSize_toList]

theorem exists_eq_append_quote {s : String} (h : '"' ∈ s.toList) :
    ∃ front back : String, s = front ++ "\"" ++ back ∧ '"' ∉ front.toList := by
  obtain ⟨front, back, hs, hfront⟩ := List.eq_append_cons_of_mem h
  refine ⟨String.ofList front, String.ofList back, ?_, by simpa using hfront⟩
  apply String.toList_injective
  simp [hs]

/-- **Locality.** Below a text without an open string, any text has the tokens that it has by
itself, moved to where it starts. Below an open string, the string goes on through the newline:
its token starts where it did, the tokens before it are the same, and it ends at the first quote
of the lower text, behind which the tokens are again those of the rest by itself. Without a quote
there, the string takes both texts to the end. -/
theorem lex_append_newline_cases (a b : String) :
    ((∀ t ∈ lex a, t.kind ≠ .unterminatedString) ∧
      lex (a ++ "\n" ++ b) =
        lex a ++ (lex b).map (Token.mapSpan (Span.shift (a.utf8ByteSize + 1)))) ∨
    ∃ v t, lex a = v ++ [t] ∧ t.kind = .unterminatedString ∧
      ((∃ inside behind, b = inside ++ "\"" ++ behind ∧ '"' ∉ inside.toList ∧
          lex (a ++ "\n" ++ b) =
            v ++ ⟨.string, t.lexeme ++ "\n" ++ inside ++ "\"",
                ⟨t.span.start, (a ++ "\n" ++ inside ++ "\"").utf8ByteSize⟩⟩ ::
              (lex behind).map
                (Token.mapSpan (Span.shift (a ++ "\n" ++ inside ++ "\"").utf8ByteSize))) ∨
        '"' ∉ b.toList ∧
          lex (a ++ "\n" ++ b) =
            v ++ [⟨.unterminatedString, t.lexeme ++ "\n" ++ b,
              ⟨t.span.start, (a ++ "\n" ++ b).utf8ByteSize⟩⟩]) := by
  by_cases hclosed : ∀ t ∈ lex a, t.kind ≠ .unterminatedString
  · exact Or.inl ⟨hclosed, lex_append_newline hclosed⟩
  · have hopen : ∃ t ∈ lex a, t.kind = .unterminatedString := by simpa using hclosed
    obtain ⟨v, t, hlex, hkind, hgoesOn⟩ := exists_open_string hopen
    refine Or.inr ⟨v, t, hlex, hkind, ?_⟩
    by_cases hb : '"' ∈ b.toList
    · obtain ⟨inside, behind, rfl, hinside⟩ := exists_eq_append_quote hb
      have hline : '"' ∉ ("\n" ++ inside).toList := by simpa using hinside
      have hstring := (hgoesOn ("\n" ++ inside) hline).1 behind
      refine Or.inl ⟨inside, behind, rfl, hinside, ?_⟩
      simpa only [← String.append_assoc] using hstring
    · have hline : '"' ∉ ("\n" ++ b).toList := by simpa using hb
      have hstring := (hgoesOn ("\n" ++ b) hline).2
      refine Or.inr ⟨hb, ?_⟩
      simpa only [← String.append_assoc] using hstring

/-- The string is closed in the second line, and what looks like a comment stands in it. -/
example : (lex "1 \"a\nb // \" + c").map (fun t => (t.kind, t.span)) =
    [(.number, ⟨0, 1⟩), (.string, ⟨2, 11⟩), (.operator .add, ⟨12, 13⟩),
      (.identifier, ⟨14, 15⟩)] := by
  decide +kernel

theorem Closed.kind_ne_unterminated {source : String} (h : Closed (lex source)) :
    ∀ t ∈ lex source, t.kind ≠ .unterminatedString := by
  have hfront := (tokenization_tokensFrom 0 source.toList).kind_ne_unterminated
  change ∀ t ∈ (lex source).dropLast, _ at hfront
  intro t ht
  by_cases hne : lex source = []
  · simp [hne] at ht
  · rw [← List.dropLast_concat_getLast hne] at ht
    rcases List.mem_append.mp ht with ht | ht
    · exact hfront t ht
    · rw [List.mem_singleton.mp ht, h _ (List.getLast?_eq_getLast_of_ne_nil hne)]
      exact nofun

theorem endSpan_append_newline (a b : String) :
    endSpan (a ++ "\n" ++ b) = (endSpan b).shift (a.utf8ByteSize + 1) := by
  simp only [endSpan, byteSize_toList, Span.shift, Span.map_empty, String.utf8ByteSize_append]
  congr 1
  rw [Nat.add_comm]
  rfl

theorem Parsed.ofAttempts_append (as bs : List Attempt) :
    Parsed.ofAttempts (as ++ bs) =
      ⟨⟨(Parsed.ofAttempts as).program.statements ++ (Parsed.ofAttempts bs).program.statements⟩,
        (Parsed.ofAttempts as).issues ++ (Parsed.ofAttempts bs).issues⟩ := by
  simp [Parsed.ofAttempts]

/-- **Synchronisation.** A text that has no tokens or ends with a semicolon, and any text below
it, are read each as by itself: first the statements and the issues of the one, then those of the
other, moved to where it starts. -/
theorem parse_append_newline {a : String} (h : Closed (lex a)) (b : String) :
    parse (a ++ "\n" ++ b) =
      ⟨⟨(parse a).program.statements ++
          (parse b).program.statements.map (Stmt.mapSpan (Span.shift (a.utf8ByteSize + 1)))⟩,
        (parse a).issues ++
          (parse b).issues.map (Issue.mapSpan (Span.shift (a.utf8ByteSize + 1)))⟩ := by
  have hstream : (⟨lex (a ++ "\n" ++ b), endSpan (a ++ "\n" ++ b)⟩ : TokenStream) =
      (TokenStream.mapSpan (Span.shift (a.utf8ByteSize + 1)) ⟨lex b, endSpan b⟩).prepend
        (lex a) := by
    rw [lex_append_newline h.kind_ne_unterminated, endSpan_append_newline]
    rfl
  rw [parse_eq, hstream, attempts_prepend_of_closed _ h (endSpan a),
    attempts_mapSpan (Span.shift_union _), Parsed.ofAttempts_append, Parsed.ofAttempts_map,
    ← parse_eq, ← parse_eq]
  rfl

/-- A statement that cannot be read and a comment that the newline ends, above two statements of
which the first cannot be read either and the second is not over. -/
theorem parse_append_newline_broken :
    Closed (lex "(1; // a") ∧
    parse ("(1; // a" ++ "\n" ++ "+ 2; 3") =
      ⟨⟨[⟨.expr, .number (.ofBits 0x4008000000000000) ⟨14, 15⟩, ⟨14, 15⟩⟩]⟩,
        [⟨"Expected ')' after expression, found ';'.", ⟨2, 3⟩⟩,
          ⟨"Expected an expression, found '+'.", ⟨9, 10⟩⟩,
          ⟨"Expected ';' after expression, found end of input.", ⟨15, 15⟩⟩]⟩ := by
  have hlex : lex "(1; // a" =
      [⟨.openParen, "(", ⟨0, 1⟩⟩, ⟨.number, "1", ⟨1, 2⟩⟩, ⟨.semicolon, ";", ⟨2, 3⟩⟩] := by
    decide +kernel
  have hclosed : Closed (lex "(1; // a") := by
    rw [hlex]
    rintro _ ⟨⟩
    rfl
  refine ⟨hclosed, ?_⟩
  rw [parse_append_newline hclosed]
  decide +kernel

end ExprLang
