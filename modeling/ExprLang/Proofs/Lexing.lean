import ExprLang.Number.Shortest
import ExprLang.Token.Lexer

/-!
# Tokens of a text in front of a text

`Lexes p cs rest w` says that the text `cs`, which starts at the byte `p` and has `rest`
behind it, has the tokens `w`. Texts put together have their tokens put together, as long as
none of them runs on into the next.

* `Lexes.append`: two texts one after the other.
* `lexes_blank`, `lexes_punctuation`, `lexes_string`, `lexes_numeral`, `lexes_keyword`: texts
  of at most one token. A number or a word needs an end that it cannot run on into.
-/

namespace ExprLang

open Text

/-! ## Texts -/

def Lexes (p : Nat) (cs rest : List Char) (w : List Token) : Prop :=
  tokensFrom ⟨p, cs ++ rest⟩ = w ++ tokensFrom ⟨p + byteSize cs, rest⟩

/-- The token that the text `cs` is at the byte `p`. -/
def Token.ofText (kind : TokenKind) (cs : List Char) (p : Nat) : Token :=
  ⟨kind, String.ofList cs, ⟨p, p + byteSize cs⟩⟩

section

variable {p : Nat} {cs ds rest : List Char} {v w : List Token}

theorem Lexes.append (hv : Lexes p cs (ds ++ rest) v) (hw : Lexes (p + byteSize cs) ds rest w) :
    Lexes p (cs ++ ds) rest (v ++ w) := by
  unfold Lexes at *
  rw [List.append_assoc, hv, hw, List.append_assoc, byteSize_append, Nat.add_assoc]

theorem lexes_nil (p : Nat) (rest : List Char) : Lexes p [] rest [] := rfl

theorem Lexes.lex_eq (h : Lexes 0 cs [] w) : lex (String.ofList cs) = w := by
  have hend : tokensFrom ⟨0 + byteSize cs, []⟩ = [] := tokensFrom_of_none rfl
  unfold Lexes at h
  rw [hend, List.append_nil, List.append_nil] at h
  simpa [lex, Lexer.tokens, Lexer.ofSource, Cursor.ofString] using h

end

/-! ## One token -/

theorem tokensFrom_congr {c c' : Cursor} (h : nextToken? c = nextToken? c') :
    tokensFrom c = tokensFrom c' := by
  cases h' : nextToken? c' with
  | none => rw [tokensFrom_of_none h', tokensFrom_of_none (h.trans h')]
  | some r =>
    obtain ⟨t, c''⟩ := r
    rw [tokensFrom_of_some h', tokensFrom_of_some (h.trans h')]

/-- A text that trivia runs over on its way to the next token has no tokens. -/
theorem lexes_of_splitTrivia {cs rest : List Char}
    (h : Scan.splitTrivia false (cs ++ rest) =
      (cs ++ (Scan.splitTrivia false rest).1, (Scan.splitTrivia false rest).2)) (p : Nat) :
    Lexes p cs rest [] := by
  apply tokensFrom_congr
  unfold nextToken?
  rw [h]
  dsimp only
  cases (Scan.splitTrivia false rest).2 with
  | nil => rfl
  | cons first more => simp [Cursor.skip, Nat.add_assoc]

theorem lexes_blank {c : Char} (h : isBlank c = true) (p : Nat) (rest : List Char) :
    Lexes p [c] rest [] := by
  apply lexes_of_splitTrivia
  rw [List.singleton_append, Scan.splitTrivia, if_neg (by decide), if_pos h]
  rfl

theorem lexes_scan {c : Char} {cs rest : List Char} {kind : TokenKind}
    (hblank : isBlank c = false) (hcomment : c = '/' → (cs ++ rest).head? ≠ some '/')
    (hscan : Scan.scan c (cs ++ rest) = ⟨kind, c :: cs, rest⟩) (p : Nat) :
    Lexes p (c :: cs) rest [.ofText kind (c :: cs) p] := by
  have hsplit : Scan.splitTrivia false (c :: (cs ++ rest)) = ([], c :: (cs ++ rest)) := by
    rw [Scan.splitTrivia, if_neg (by decide), if_neg (by simp [hblank]), if_neg]
    exact fun h => hcomment h.1 h.2
  apply tokensFrom_of_some
  unfold nextToken?
  rw [List.cons_append, hsplit]
  simp only [hscan, Cursor.skip, byteSize_nil, Nat.add_zero]
  rfl

/-! ## Signs and strings -/

theorem isBlank_of_punctuation? {c : Char} {kind : TokenKind}
    (h : Scan.punctuation? c = some kind) : isBlank c = false := by
  unfold Scan.punctuation? at h
  split at h <;> first | decide | cases h

theorem lexes_punctuation {c : Char} {kind : TokenKind} (h : Scan.punctuation? c = some kind)
    {rest : List Char} (hrest : c = '/' → rest.head? ≠ some '/') (p : Nat) :
    Lexes p [c] rest [.ofText kind [c] p] := by
  have hscan : Scan.scan c ([] ++ rest) = ⟨kind, [c], rest⟩ := by
    unfold Scan.scan
    rw [h]
    rfl
  have hcomment : c = '/' → ([] ++ rest).head? ≠ some '/' := hrest
  exact lexes_scan (isBlank_of_punctuation? h) hcomment hscan p

theorem scanString_closed {body : List Char} (h : '"' ∉ body) (rest : List Char) :
    Scan.scanString (body ++ '"' :: rest) = ⟨.string, '"' :: (body ++ ['"']), rest⟩ := by
  have hall : ∀ c ∈ body, (c != '"') = true := by
    intro c hc
    simpa using fun heq : c = '"' => h (heq ▸ hc)
  unfold Scan.scanString
  rw [List.takeWhile_append_of_pos hall, List.dropWhile_append_of_pos hall]
  simp

theorem lexes_string {body : List Char} (h : '"' ∉ body) (p : Nat) (rest : List Char) :
    Lexes p ('"' :: (body ++ ['"'])) rest [.ofText .string ('"' :: (body ++ ['"'])) p] := by
  refine lexes_scan (by decide) (by simp) ?_ p
  rw [List.append_assoc, List.singleton_append, ← scanString_closed h rest]
  rfl

/-! ## Numbers and words -/

/-- No number and no word runs on into the text. -/
def Ends (rest : List Char) : Prop := ∀ c ∈ rest.head?, isWordRest c = false ∧ c ≠ '.'

theorem Ends.cons {c : Char} (hword : isWordRest c = false) (hpoint : c ≠ '.')
    (rest : List Char) : Ends (c :: rest) := by
  intro d hd
  cases hd
  exact ⟨hword, hpoint⟩

theorem ends_punctuation {c : Char} {kind : TokenKind} (h : Scan.punctuation? c = some kind)
    (rest : List Char) : Ends (c :: rest) := by
  unfold Scan.punctuation? at h
  split at h <;> first | exact Ends.cons rfl (by decide) rest | cases h

theorem isWordRest_of_isDigit {c : Char} (h : isDigit c = true) : isWordRest c = true := by
  unfold isDigit at h
  simp [isWordRest, Char.isAlphanum, h]

theorem takeWhile_append_of_ends {q : Char → Bool} (hq : ∀ c, q c = true → isWordRest c = true)
    {cs rest : List Char} (hcs : ∀ c ∈ cs, q c = true) (hrest : Ends rest) :
    (cs ++ rest).takeWhile q = cs ∧ (cs ++ rest).dropWhile q = rest := by
  rw [List.takeWhile_append_of_pos hcs, List.dropWhile_append_of_pos hcs]
  cases rest with
  | nil => simp
  | cons c more =>
    have hc : ¬ q c = true := by
      intro h
      have hword := (hrest c rfl).1
      rw [hq c h] at hword
      cases hword
    simp [hc]

theorem isBlank_of_isDigit {c : Char} (h : isDigit c = true) : isBlank c = false := by
  have hdigit : 48 ≤ c.toNat ∧ c.toNat ≤ 57 := by
    simpa [isDigit, Char.isDigit, UInt32.le_iff_toNat_le] using h
  have hblanks : ∀ r ∈ blanks, r.2 < 48 ∨ 57 < r.1 := by decide
  apply List.any_eq_false.mpr
  intro r hr
  have hr := hblanks r hr
  simp only [Bool.and_eq_true, decide_eq_true_eq]
  omega

theorem scan_of_isDigit {c : Char} (h : isDigit c = true) (cs : List Char) :
    Scan.scan c cs = Scan.scanNumber (c :: cs) := by
  have hpunctuation : Scan.punctuation? c = none := by
    unfold Scan.punctuation?
    split <;> first | rfl | exact absurd h (by decide)
  have hquote : c ≠ '"' := by
    rintro rfl
    exact absurd h (by decide)
  unfold Scan.scan
  rw [hpunctuation]
  dsimp only
  rw [if_neg hquote, if_pos h]

theorem scanNumber_numeral (d : Decimal) {rest : List Char} (hrest : Ends rest) :
    Scan.scanNumber (d.numeral ++ rest) = ⟨.number, d.numeral, rest⟩ := by
  have hwhole : ∀ n, ∀ c ∈ Nat.toDigits 10 n, isDigit c = true :=
    fun n c hc => Decimal.isDigit_of_mem_toDigits hc
  obtain ⟨n, places⟩ := d
  unfold Scan.scanNumber Decimal.numeral
  by_cases hp : places = 0
  · obtain ⟨htake, hdrop⟩ :=
      takeWhile_append_of_ends (fun c => isWordRest_of_isDigit) (hwhole n) hrest
    have hfraction : Scan.splitFraction rest = ([], rest) := by
      unfold Scan.splitFraction
      split
      · exact absurd rfl (hrest '.' rfl).2
      · rfl
    simp only [hp, if_true, htake, hdrop, hfraction, List.append_nil]
  · have hdigits : ∀ c ∈ Decimal.fixedDigits places n, isDigit c = true :=
      fun c hc => Decimal.isDigit_of_mem_fixedDigits hc
    obtain ⟨htake, hdrop⟩ :=
      takeWhile_append_of_ends (fun c => isWordRest_of_isDigit) hdigits hrest
    have hfraction : Scan.splitFraction ('.' :: (Decimal.fixedDigits places n ++ rest)) =
        ('.' :: Decimal.fixedDigits places n, rest) := by
      have hany : (Decimal.fixedDigits places n ++ rest).head?.any isDigit = true := by
        cases hfixed : Decimal.fixedDigits places n with
        | nil =>
          have hlength := Decimal.length_fixedDigits places n
          rw [hfixed] at hlength
          exact absurd hlength.symm hp
        | cons c cs => exact hdigits c (by simp [hfixed])
      simp only [Scan.splitFraction, hany, if_true, htake, hdrop]
    obtain ⟨htake', hdrop'⟩ := Decimal.takeWhile_toDigits_append (n / Nat.pow 10 places)
      ('.' :: (Decimal.fixedDigits places n ++ rest)) rfl
    simp only [hp, if_false, List.append_assoc, List.cons_append, htake', hdrop', hfraction]

theorem Decimal.exists_numeral_eq_cons (d : Decimal) :
    ∃ c cs, d.numeral = c :: cs ∧ isDigit c = true := by
  have hwhole : ∀ n, ∃ c cs, Nat.toDigits 10 n = c :: cs ∧ isDigit c = true := by
    intro n
    obtain ⟨c, cs, hn⟩ := List.exists_cons_of_ne_nil (Nat.toDigits_ne_nil (n := n) (b := 10))
    exact ⟨c, cs, hn, isDigit_of_mem_toDigits (hn ▸ List.mem_cons_self)⟩
  unfold numeral
  split
  · exact hwhole _
  · obtain ⟨c, cs, hn, hc⟩ := hwhole (d.coefficient / Nat.pow 10 d.places)
    rw [hn]
    exact ⟨c, _, rfl, hc⟩

theorem lexes_numeral (d : Decimal) {rest : List Char} (hrest : Ends rest) (p : Nat) :
    Lexes p d.numeral rest [.ofText .number d.numeral p] := by
  obtain ⟨c, cs, hd, hc⟩ := d.exists_numeral_eq_cons
  have hscan := scanNumber_numeral d hrest
  rw [hd] at hscan ⊢
  rw [List.cons_append, ← scan_of_isDigit hc] at hscan
  refine lexes_scan (isBlank_of_isDigit hc) ?_ hscan p
  rintro rfl
  exact absurd hc (by decide)

theorem Keyword.exists_word_eq_cons (k : Keyword) :
    ∃ c cs, k.word.toList = c :: cs ∧ isBlank c = false ∧ c ≠ '/' ∧
      ∀ ds, Scan.scan c ds = Scan.scanWord (c :: ds) := by
  rcases k with _ | _ | _
  · exact ⟨'p', ['r', 'i', 'n', 't'], rfl, by decide, by decide, fun _ => rfl⟩
  · exact ⟨'f', ['a', 'l', 's', 'e'], rfl, by decide, by decide, fun _ => rfl⟩
  · exact ⟨'t', ['r', 'u', 'e'], rfl, by decide, by decide, fun _ => rfl⟩

theorem lexes_keyword (k : Keyword) {rest : List Char} (hrest : Ends rest) (p : Nat) :
    Lexes p k.word.toList rest [.ofText (.keyword k) k.word.toList p] := by
  have hword : k.word.toList.all isWordRest = true := by rcases k with _ | _ | _ <;> rfl
  obtain ⟨htake, hdrop⟩ :=
    takeWhile_append_of_ends (fun c h => h) (List.all_eq_true.mp hword) hrest
  have hscan : Scan.scanWord (k.word.toList ++ rest) = ⟨.keyword k, k.word.toList, rest⟩ := by
    simp only [Scan.scanWord, htake, hdrop, Scan.wordKind, String.ofList_toList,
      Keyword.ofWord?_word]
  obtain ⟨c, cs, hk, hblank, hslash, hscanWord⟩ := k.exists_word_eq_cons
  rw [hk] at hscan ⊢
  rw [List.cons_append, ← hscanWord] at hscan
  exact lexes_scan hblank (fun h => absurd h hslash) hscan p

end ExprLang
