import ExprLang.Proofs.Joining
import ExprLang.Proofs.Layout

/-!
# Spacing

What stands between the tokens of a text can be replaced by single blanks: a blank ends every
token that could go on, and no token needs more than a blank to be told from the next one. So each
token is found again out of the place where it was, and the text of a spaced text is itself.

* `Munch.tokensFrom_eq`: a token in front of any text that does not go on with it.
* `Tokenization.tokensFrom_spaced`: the texts of a row of tokens with blanks between them.
* `lex_respaced`: a text with its comments and its spacing removed.
-/

namespace ExprLang

open Text

/-! ## Tokens in another place -/

/-- A token stays the same in front of another text, unless it is an open string. -/
theorem Munch.change_rest {c : Char} {more rest rest' : List Char} {kind : TokenKind}
    (h : Munch (c :: (more ++ rest)) kind (c :: more) rest) (hrest : Clear rest')
    (hopen : kind = .unterminatedString → rest' = []) :
    Munch (c :: (more ++ rest')) kind (c :: more) rest' := by
  by_cases hkind : kind = .unterminatedString
  · obtain rfl := hopen hkind
    generalize htext : more ++ rest = text at h
    cases h with
    | longest _ _ _ hclass => exact absurd hkind hclass.ne_unterminated
    | unterminated hbody =>
      rw [List.append_nil] at *
      exact .unterminated hbody
  · have hcut : c :: more = c :: more ++ [] := (List.append_nil _).symm
    exact h.change_tail hcut hkind hrest

/-- A token that the lexer cuts off in one place is cut off in any other. -/
theorem Munch.tokensFrom_eq {c : Char} {more rest rest' : List Char} {kind : TokenKind}
    (h : Munch (c :: (more ++ rest)) kind (c :: more) rest) (hblank : isBlank c = false)
    (hcomment : ¬ ['/', '/'] <+: c :: (more ++ rest)) (hrest : Clear rest')
    (hopen : kind = .unterminatedString → rest' = []) (q : Nat) :
    tokensFrom ⟨q, c :: (more ++ rest')⟩ =
      .ofText kind (c :: more) q :: tokensFrom ⟨q + byteSize (c :: more), rest'⟩ :=
  tokensFrom_token hblank (not_comment_change_tail hcomment hrest)
    (h.change_rest hrest hopen).scan_eq q

/-! ## Tokens with blanks between them -/

/-- The texts of tokens, with a blank between each two. -/
def spaced (w : List Token) : String := " ".intercalate (w.map Token.lexeme)

/-- A text without its comments, and with single blanks between its tokens. -/
def respaced (source : String) : String := spaced (lex source)

theorem spaced_singleton (t : Token) : spaced [t] = t.lexeme := String.intercalate_singleton

theorem spaced_cons_cons (t u : Token) (w : List Token) :
    spaced (t :: u :: w) = t.lexeme ++ " " ++ spaced (u :: w) := String.intercalate_cons_cons

theorem clear_blank (rest : List Char) : Clear (' ' :: rest) :=
  ⟨Ends.cons rfl (by decide) rest, by simp⟩

/-- Behind an open string there are no tokens. -/
theorem Tokenization.eq_nil_of_open {p : Nat} {c : Char} {cs lexeme rest : List Char}
    {w : List Token} (h : Munch (c :: cs) .unterminatedString lexeme rest)
    (hw : Tokenization p rest w) : w = [] := by
  generalize hkind : TokenKind.unterminatedString = kind at h
  cases h with
  | longest _ _ _ hclass => exact absurd hkind.symm hclass.ne_unterminated
  | unterminated => exact hw.eq_nil

theorem Tokenization.tokensFrom_spaced {p : Nat} {cs : List Char} {w : List Token}
    (h : Tokenization p cs w) (q : Nat) :
    (tokensFrom ⟨q, (spaced w).toList⟩).map Token.content = w.map Token.content := by
  induction h generalizing q with
  | nil | lastComment => rw [tokensFrom_of_none rfl]
  | blank h hw ih => exact ih q
  | comment h hw ih => exact ih q
  | @token p c cs lexeme rest kind w hblank hcomment h hw ih =>
    obtain ⟨more, rfl, rfl⟩ := exists_cons_of_scan h.scan_eq
    cases w with
    | nil =>
      have htoken := h.tokensFrom_eq hblank hcomment clear_nil (fun _ => rfl) q
      have hspaced : (spaced [.ofText kind (c :: more) p]).toList = c :: (more ++ []) := by
        rw [spaced_singleton, Token.ofText, String.toList_ofList, List.append_nil]
      rw [hspaced, htoken, tokensFrom_of_none rfl]
      rfl
    | cons u w =>
      have hkind : kind ≠ .unterminatedString := by
        rintro rfl
        cases eq_nil_of_open h hw
      have htoken := h.tokensFrom_eq hblank hcomment (clear_blank (spaced (u :: w)).toList)
        (fun hopen => absurd hopen hkind) q
      have hspaced : (spaced (.ofText kind (c :: more) p :: u :: w)).toList =
          c :: (more ++ ' ' :: (spaced (u :: w)).toList) := by
        rw [spaced_cons_cons]
        simp [Token.ofText]
      have hgap : tokensFrom ⟨q + byteSize (c :: more), ' ' :: (spaced (u :: w)).toList⟩ =
          tokensFrom ⟨q + byteSize (c :: more) + byteSize [' '], (spaced (u :: w)).toList⟩ :=
        lexes_blank (by decide) _ _
      rw [hspaced, htoken, hgap, List.map_cons, ih]
      rfl

/-- **Spacing.** A text without its comments, and with single blanks between its tokens, has the
tokens of the text, with the same kinds and the same texts. That includes a string that is not
closed; it can only be the last token and stands behind the last blank. So removing comments and
spacing a second time changes nothing. -/
theorem lex_respaced (source : String) :
    (lex (respaced source)).map Token.content = (lex source).map Token.content ∧
    (∀ t ∈ (lex source).dropLast, t.kind ≠ .unterminatedString) ∧
    respaced (respaced source) = respaced source := by
  have htokens := tokenization_tokensFrom 0 source.toList
  have hcontents : (lex (respaced source)).map Token.content = (lex source).map Token.content :=
    htokens.tokensFrom_spaced 0
  refine ⟨hcontents, htokens.kind_ne_unterminated, ?_⟩
  have hlexemes : (lex (respaced source)).map Token.lexeme = (lex source).map Token.lexeme := by
    have hsecond := congrArg (List.map Prod.snd) hcontents
    rw [List.map_map, List.map_map] at hsecond
    exact hsecond
  exact congrArg (String.intercalate " ") hlexemes

example : respaced "print(1.2/ 3 );//c\n. /x\"a // b" = "print ( 1.2 / 3 ) ; . / x \"a // b" := by
  decide +kernel

end ExprLang
