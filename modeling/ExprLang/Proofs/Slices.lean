import ExprLang.Proofs.LexicalGrammar
import ExprLang.Proofs.TokenOrder

/-!
# Parts of a text by themselves

What stands before a row of tokens has no influence on them, and what follows has none as long
as it does not go on with the last one. So a part of a text, from the start of a token to the
end of one, has the same tokens by itself, moved to where the part starts.

* `Clear rest`: no number or word goes on in `rest`, and no comment starts there.
* `Settled p cs w`: in front of any such text, `cs` has the tokens `w`.
* `Tokenization.exists_settled`: the part of a text that a row of its tokens covers.
* `exists_part`: the tokens of the part by itself.
-/

namespace ExprLang

open Text

/-! ## Text behind a token -/

/-- No number or word goes on in the text, and no comment starts there with a slash before. -/
structure Clear (rest : List Char) : Prop where
  ends : Ends rest
  slash : rest.head? ≠ some '/'

theorem clear_nil : Clear [] := ⟨nofun, nofun⟩

theorem clear_semicolon (rest : List Char) : Clear (';' :: rest) :=
  ⟨ends_punctuation rfl rest, by simp⟩

namespace TokenClass

theorem isWordRest_of_mem_number {cs : List Char} (h : cs ∈ number.language) :
    ∀ c ∈ cs, isWordRest c = true ∨ c = '.' := by
  have hdigits : ∀ ds ∈ digits, ∀ c ∈ ds, isWordRest c = true ∨ c = '.' := fun ds hds c hc =>
    Or.inl (isWordRest_of_isDigit (isDigit_iff.mpr ((mem_digits_iff.mp hds).2 c hc)))
  rcases mem_number_iff.mp h with h | ⟨whole, fraction, hw, hf, rfl⟩
  · exact hdigits cs h
  · exact List.forall_mem_append.mpr ⟨hdigits whole hw,
      List.forall_mem_cons.mpr ⟨Or.inr rfl, hdigits fraction hf⟩⟩

theorem isWordRest_of_mem_word {cs : List Char} (h : cs ∈ word.language) :
    ∀ c ∈ cs, isWordRest c = true := by
  obtain ⟨c, rest, rfl, hc, hrest⟩ := mem_word_iff.mp h
  exact List.forall_mem_cons.mpr ⟨isWordRest_iff.mpr (Or.inl hc),
    fun d hd => isWordRest_iff.mpr (hrest d hd)⟩

/-- Of two strings one of which starts with the other, both are the same. -/
theorem string_eq_of_front {u v : List Char} (hu : u ∈ string.language)
    (hv : v ∈ string.language) (h : u <+: v) : u = v := by
  obtain ⟨back, rfl⟩ := h
  obtain ⟨body, hbody, rfl⟩ := mem_string_iff.mp hu
  obtain ⟨body', hbody', heq⟩ := mem_string_iff.mp hv
  have hshort := longest_string hbody back
  have hlong := longest_string hbody' []
  rw [heq]
  apply hshort.unique
  simpa [← heq] using hlong

theorem length_eq_one_of_mem_oneOf {p : Char → Prop} {cs : List Char} (h : cs ∈ oneOf p) :
    cs.length = 1 := by
  obtain ⟨c, -, rfl⟩ := h
  rfl

/-- No text of a class runs over the end of a token of the class into clear text. -/
theorem length_le_of_clear {k : TokenClass} {u lexeme xs rest : List Char}
    (hu : u ∈ k.language) (hlexeme : lexeme ∈ k.language) (hfront : lexeme <+: xs)
    (hrest : Clear rest) (hurest : u <+: xs ++ rest) : u <+: xs ∨ u.length ≤ lexeme.length := by
  by_cases hlength : u.length ≤ xs.length
  · exact Or.inl (List.prefix_of_prefix_length_le hurest (List.prefix_append xs rest) hlength)
  right
  have hxs : xs <+: u := List.prefix_of_prefix_length_le (List.prefix_append xs rest) hurest
    (by omega)
  obtain ⟨more, rfl⟩ := hxs
  obtain ⟨d, more, rfl⟩ := List.exists_cons_of_ne_nil (l := more) (by rintro rfl; simp at hlength)
  have hd : rest.head? = some d := by
    obtain ⟨back, hback⟩ := hurest
    rw [List.append_assoc, List.append_cancel_left_eq] at hback
    simp [← hback]
  obtain ⟨hword, hpoint⟩ := hrest.ends d hd
  have hmem : d ∈ xs ++ d :: more := by simp
  cases k with
  | number =>
    rcases isWordRest_of_mem_number hu d hmem with h | h
    · rw [hword] at h
      cases h
    · exact absurd h hpoint
  | word =>
    have h := isWordRest_of_mem_word hu d hmem
    rw [hword] at h
    cases h
  | string =>
    have heq := string_eq_of_front hlexeme hu (hfront.trans (List.prefix_append xs _))
    exact Nat.le_of_eq (congrArg List.length heq.symm)
  | sign | other =>
    rw [length_eq_one_of_mem_oneOf hu, length_eq_one_of_mem_oneOf hlexeme]

end TokenClass

/-- A token stays the same where the text behind it is cut off and clear text put there. -/
theorem Munch.change_tail {c : Char} {xs ys back rest lexeme : List Char} {kind : TokenKind}
    (h : Munch (c :: (xs ++ back)) kind lexeme (ys ++ back)) (hcut : c :: xs = lexeme ++ ys)
    (hkind : kind ≠ .unterminatedString) (hrest : Clear rest) :
    Munch (c :: (xs ++ rest)) kind lexeme (ys ++ rest) := by
  generalize htext : xs ++ back = text at h
  generalize hbehind : ys ++ back = behind at h
  cases h with
  | longest hstarts _ hlongest hclass =>
    subst htext
    have hfront : lexeme <+: c :: xs := ⟨ys, hcut.symm⟩
    refine .longest hstarts ?_ ⟨?_, hlongest.mem, fun u hu hmem => ?_⟩ hclass
    · rw [← List.append_assoc, ← hcut]
      rfl
    · exact hfront.trans (List.prefix_append (c :: xs) rest)
    · rcases TokenClass.length_le_of_clear hmem hlongest.mem hfront hrest hu with hshort | hle
      · exact hlongest.longest u (hshort.trans (List.prefix_append (c :: xs) back)) hmem
      · exact hle
  | unterminated => exact absurd rfl hkind

theorem not_comment_change_tail {c : Char} {xs back rest : List Char}
    (h : ¬ ['/', '/'] <+: c :: (xs ++ back)) (hrest : Clear rest) :
    ¬ ['/', '/'] <+: c :: (xs ++ rest) := by
  intro hcomment
  obtain ⟨rfl, hsecond⟩ := List.cons_prefix_cons.mp hcomment
  cases xs with
  | nil =>
    obtain ⟨more, rfl⟩ := hsecond
    exact hrest.slash rfl
  | cons d xs =>
    obtain ⟨rfl, -⟩ := List.cons_prefix_cons.mp hsecond
    exact h ⟨xs ++ back, rfl⟩

/-! ## Parts of a text -/

/-- In front of clear text, the text `cs` has the tokens `w`. -/
def Settled (p : Nat) (cs : List Char) (w : List Token) : Prop :=
  ∀ rest, Clear rest → Lexes p cs rest w

theorem Settled.cons {p : Nat} {c : Char} {xs ys back lexeme : List Char} {kind : TokenKind}
    {w : List Token} (hblank : isBlank c = false) (hcomment : ¬ ['/', '/'] <+: c :: (xs ++ back))
    (h : Munch (c :: (xs ++ back)) kind lexeme (ys ++ back)) (hcut : c :: xs = lexeme ++ ys)
    (hkind : kind ≠ .unterminatedString) (hys : Settled (p + byteSize lexeme) ys w) :
    Settled p (c :: xs) (.ofText kind lexeme p :: w) := by
  intro rest hrest
  have hscan := (h.change_tail hcut hkind hrest).scan_eq
  have htoken := tokensFrom_token hblank (not_comment_change_tail hcomment hrest) hscan p
  have hsize : byteSize (c :: xs) = byteSize lexeme + byteSize ys := by
    rw [hcut, byteSize_append]
  unfold Lexes
  rw [List.cons_append, htoken, hys rest hrest, hsize, ← Nat.add_assoc]
  rfl

theorem Settled.of_trivia {p : Nat} {trivia cs : List Char} {w : List Token}
    (htrivia : ∀ rest, Lexes p trivia rest []) (h : Settled (p + byteSize trivia) cs w) :
    Settled p (trivia ++ cs) w :=
  fun rest hrest => (htrivia (cs ++ rest)).append (h rest hrest)

namespace Tokenization

variable {p : Nat} {cs : List Char} {u v w : List Token}

/-- The rest of a text from the end of some of its tokens on. -/
theorem exists_drop (h : Tokenization p cs (u ++ w)) :
    ∃ front back, cs = front ++ back ∧ Tokenization (p + byteSize front) back w := by
  generalize hv : u ++ w = v at h
  induction h generalizing u with
  | nil p =>
    obtain ⟨-, rfl⟩ := List.append_eq_nil_iff.mp hv
    exact ⟨[], [], rfl, .nil p⟩
  | @blank p c cs v h hw ih =>
    obtain ⟨front, back, rfl, hback⟩ := ih hv
    refine ⟨c :: front, back, rfl, ?_⟩
    rwa [byteSize_cons, ← Nat.add_assoc]
  | @comment p line cs v h hw ih =>
    obtain ⟨front, back, rfl, hback⟩ := ih hv
    refine ⟨'/' :: '/' :: (line ++ ['\n']) ++ front, back, by simp, ?_⟩
    rwa [byteSize_append, ← Nat.add_assoc]
  | @lastComment line p h =>
    obtain ⟨-, rfl⟩ := List.append_eq_nil_iff.mp hv
    exact ⟨[], _, rfl, .lastComment p h⟩
  | @token p c cs lexeme rest kind v hblank hcomment h hw ih =>
    cases u with
    | nil =>
      obtain rfl : w = _ :: v := hv
      exact ⟨[], _, rfl, .token hblank hcomment h hw⟩
    | cons t u =>
      obtain ⟨front, back, rfl, hback⟩ := ih (List.cons.inj hv).2
      obtain ⟨more, rfl, rfl⟩ := exists_cons_of_scan h.scan_eq
      refine ⟨c :: more ++ front, back, by simp, ?_⟩
      rwa [byteSize_append, ← Nat.add_assoc]

/-- The part of a text that the first of its tokens cover, up to clear text. -/
theorem exists_settled (h : Tokenization p cs (v ++ w)) (hne : v ≠ [])
    (hclosed : ∀ t ∈ v, t.kind ≠ .unterminatedString) :
    ∃ trivia part back, cs = trivia ++ (part ++ back) ∧ (∀ rest, Lexes p trivia rest []) ∧
      spanOf v = ⟨p + byteSize trivia, p + byteSize trivia + byteSize part⟩ ∧
      Settled (p + byteSize trivia) part v := by
  generalize hu : v ++ w = u at h
  induction h generalizing v with
  | nil p => exact absurd (List.append_eq_nil_iff.mp hu).1 hne
  | @blank p c cs u h hw ih =>
    obtain ⟨trivia, part, back, rfl, htrivia, hspan, hpart⟩ := ih hne hclosed hu
    rw [Nat.add_assoc, ← byteSize_cons] at hspan hpart
    refine ⟨c :: trivia, part, back, rfl, fun rest => ?_, hspan, hpart⟩
    exact (lexes_blank h p _).append (htrivia rest)
  | @comment p line cs u h hw ih =>
    obtain ⟨trivia, part, back, rfl, htrivia, hspan, hpart⟩ := ih hne hclosed hu
    rw [Nat.add_assoc, ← byteSize_append] at hspan hpart
    refine ⟨_, part, back, by simp, fun rest => ?_, hspan, hpart⟩
    exact (lexes_comment h p _).append (htrivia rest)
  | lastComment p h => exact absurd (List.append_eq_nil_iff.mp hu).1 hne
  | @token p c cs lexeme rest kind u hblank hcomment h hw ih =>
    obtain ⟨t, v, rfl⟩ := List.exists_cons_of_ne_nil hne
    obtain ⟨rfl, hbehind⟩ : t = .ofText kind lexeme p ∧ v ++ w = u := by simpa using hu
    obtain ⟨hkind, hclosed⟩ := List.forall_mem_cons.mp hclosed
    -- What the other tokens cover, from the end of this one on.
    obtain ⟨ys, back, rfl, hspan, hys⟩ : ∃ ys back, rest = ys ++ back ∧
        (spanOf (.ofText kind lexeme p :: v)).stop = p + byteSize lexeme + byteSize ys ∧
        Settled (p + byteSize lexeme) ys v := by
      by_cases hv : v = []
      · subst hv
        exact ⟨[], rest, rfl, rfl, fun rest _ => lexes_nil _ rest⟩
      · obtain ⟨trivia, part, back, rfl, htrivia, hspan, hpart⟩ := ih hv hclosed hbehind
        refine ⟨trivia ++ part, back, by simp, ?_, .of_trivia htrivia hpart⟩
        rw [spanOf_stop_eq_of_back (List.suffix_cons _ v) hv, hspan, byteSize_append,
          ← Nat.add_assoc]
    obtain ⟨more, rfl, rfl⟩ := exists_cons_of_scan h.scan_eq
    rw [← List.append_assoc] at h hcomment
    refine ⟨[], c :: (more ++ ys), back, by simp, fun rest => lexes_nil p rest, ?_, ?_⟩
    · ext
      · rfl
      · rw [hspan, ← List.cons_append, byteSize_append, Nat.add_assoc]
        rfl
    · exact .cons hblank hcomment h rfl hkind hys

/-- The tokens of a text that starts further on. -/
theorem shift (n : Nat) (h : Tokenization p cs w) :
    Tokenization (p + n) cs (w.map (Token.mapSpan (Span.shift n))) := by
  induction h with
  | nil p => exact .nil (p + n)
  | blank h hw ih =>
    rw [Nat.add_right_comm] at ih
    exact .blank h ih
  | comment h hw ih =>
    rw [Nat.add_right_comm] at ih
    exact .comment h ih
  | lastComment p h => exact .lastComment (p + n) h
  | @token p c cs lexeme rest kind w hblank hcomment h hw ih =>
    have htoken : (Token.ofText kind lexeme p).mapSpan (Span.shift n) =
        .ofText kind lexeme (p + n) := by
      simp [Token.mapSpan, Token.ofText, Span.shift, Span.map, Nat.add_right_comm]
    rw [Nat.add_right_comm] at ih
    rw [List.map_cons, htoken]
    exact .token hblank hcomment h ih

end Tokenization

/-- The tokens of a text do not depend on where it starts, apart from their spans. -/
theorem tokensFrom_shift (n p : Nat) (cs : List Char) :
    tokensFrom ⟨p + n, cs⟩ = (tokensFrom ⟨p, cs⟩).map (Token.mapSpan (Span.shift n)) :=
  ((tokenization_tokensFrom p cs).shift n).eq_tokensFrom.symm

theorem tokensFrom_eq_map_lex (n : Nat) (s : String) :
    tokensFrom ⟨n, s.toList⟩ = (lex s).map (Token.mapSpan (Span.shift n)) := by
  have hshift := tokensFrom_shift n 0 s.toList
  rwa [Nat.zero_add] at hshift

/-- The tokens of a part of a text by itself, moved to where the part starts. -/
theorem Settled.map_lex_eq {p : Nat} {cs rest : List Char} {w : List Token} (h : Settled p cs w)
    (hrest : Clear rest) :
    (lex (String.ofList (cs ++ rest))).map (Token.mapSpan (Span.shift p)) =
      w ++ tokensFrom ⟨p + byteSize cs, rest⟩ := by
  have hlex := tokensFrom_eq_map_lex p (String.ofList (cs ++ rest))
  rw [String.toList_ofList] at hlex
  rw [← hlex]
  exact h rest hrest

/-- The text under a row of tokens has these tokens by itself. -/
theorem exists_part {source : String} {w : List Token} (hw : w <:+: lex source) (hne : w ≠ [])
    (hclosed : ∀ t ∈ w, t.kind ≠ .unterminatedString) :
    ∃ part, slice? (spanOf w).start (spanOf w).stop source.toList = some part ∧
      ∀ rest, Clear rest →
        (lex (String.ofList (part ++ rest))).map (Token.mapSpan (Span.shift (spanOf w).start)) =
          w ++ tokensFrom ⟨(spanOf w).stop, rest⟩ := by
  obtain ⟨u, v, hlex⟩ := hw
  have hrow : tokensFrom ⟨0, source.toList⟩ = u ++ (w ++ v) := by
    rw [← List.append_assoc, hlex]
    rfl
  have htokens := tokenization_tokensFrom 0 source.toList
  rw [hrow] at htokens
  obtain ⟨front, text, hsource, htext⟩ := htokens.exists_drop
  obtain ⟨trivia, part, back, rfl, -, hspan, hpart⟩ := htext.exists_settled hne hclosed
  rw [Nat.zero_add, ← byteSize_append] at hspan hpart
  rw [hspan]
  refine ⟨part, ?_, fun rest hrest => hpart.map_lex_eq hrest⟩
  rw [hsource, ← List.append_assoc, ← List.append_assoc]
  exact slice?_append (front ++ trivia) part back

end ExprLang
