import ExprLang.Proofs.TokenPlaces
import ExprLang.Proofs.Run
import Mathlib.Computability.Language
import Mathlib.Data.List.TakeWhile

/-!
# The lexical grammar

Each class of tokens is a regular language, and the first character of a token selects its
class. The token itself is then the longest part of the text that the class allows:

    number = [0-9]+ ("." [0-9]+)?     word = [A-Za-z_] [A-Za-z_0-9]*     string = '"' [^"]* '"'
    sign   = one of ( ) ; + - * /     other = any other character

A quote that is not closed takes the text to its end. Nothing here refers to the lexer.

* `Munch cs kind lexeme rest`: the text `cs` has the token `lexeme` in front of `rest`.
* `munch_scan`, `Munch.scan_eq`: what the lexer cuts off is that token, and there is no other.
* `Tokenization p cs w`: the text `cs`, which starts at the byte `p`, has the tokens `w`.
* `lex_maximal_munch`: the tokens of a text, as a whole and call by call.
-/

namespace ExprLang

open Text
open scoped Computability

/-! ## Languages -/

/-- The texts of one character of the kind `p`. -/
def oneOf (p : Char → Prop) : Language Char := {cs | ∃ c, p c ∧ cs = [c]}

/-- An ASCII digit. -/
def Digit (c : Char) : Prop := '0' ≤ c ∧ c ≤ '9'

/-- An ASCII letter or an underscore. -/
def Letter (c : Char) : Prop := 'A' ≤ c ∧ c ≤ 'Z' ∨ 'a' ≤ c ∧ c ≤ 'z' ∨ c = '_'

def digits : Language Char := oneOf Digit * (oneOf Digit)∗

/-- The characters that are tokens by themselves. -/
def signs : List (Char × TokenKind) :=
  [('(', .openParen), (')', .closeParen), (';', .semicolon), ('+', .operator .add),
   ('-', .operator .sub), ('*', .operator .mul), ('/', .operator .div)]

inductive TokenClass where
  | number
  | word
  | string
  | sign
  /-- A character that starts no other token. -/
  | other
  deriving DecidableEq, Repr

namespace TokenClass

/-- The first characters of the tokens of a class. -/
def Starts : TokenClass → Char → Prop
  | number, c => Digit c
  | word, c => Letter c
  | string, c => c = '"'
  | sign, c => ∃ kind, (c, kind) ∈ signs
  | other, c => ¬ Digit c ∧ ¬ Letter c ∧ c ≠ '"' ∧ ∀ kind, (c, kind) ∉ signs

def language : TokenClass → Language Char
  | number => digits * (1 + oneOf (· = '.') * digits)
  | word => oneOf Letter * (oneOf fun c => Letter c ∨ Digit c)∗
  | string => oneOf (· = '"') * (oneOf (· ≠ '"'))∗ * oneOf (· = '"')
  | sign => oneOf sign.Starts
  | other => oneOf other.Starts

/-- The kinds of the tokens of a class. A word is a keyword only as a whole. -/
inductive HasKind : TokenClass → List Char → TokenKind → Prop
  | number (cs : List Char) : HasKind number cs .number
  | keyword (k : Keyword) : HasKind word k.word.toList (.keyword k)
  | identifier {cs : List Char} (h : ∀ k : Keyword, cs ≠ k.word.toList) :
      HasKind word cs .identifier
  | string (cs : List Char) : HasKind string cs .string
  | sign {c : Char} {kind : TokenKind} (h : (c, kind) ∈ signs) : HasKind sign [c] kind
  | other (cs : List Char) : HasKind other cs .invalid

end TokenClass

/-- `lexeme` is the longest part of the language that `cs` starts with. -/
structure Longest (L : Language Char) (cs lexeme : List Char) : Prop where
  front : lexeme <+: cs
  mem : lexeme ∈ L
  longest : ∀ u, u <+: cs → u ∈ L → u.length ≤ lexeme.length

/-- The text `cs` has the token `lexeme` in front of `rest`. -/
inductive Munch : List Char → TokenKind → List Char → List Char → Prop
  | longest {k : TokenClass} {c : Char} {cs lexeme rest : List Char} {kind : TokenKind}
      (hstarts : k.Starts c) (hcut : c :: cs = lexeme ++ rest)
      (hlongest : Longest k.language (c :: cs) lexeme) (hkind : k.HasKind lexeme kind) :
      Munch (c :: cs) kind lexeme rest
  /-- A quote that is not closed takes the text to its end. -/
  | unterminated {cs : List Char} (h : '"' ∉ cs) :
      Munch ('"' :: cs) .unterminatedString ('"' :: cs) []

/-- The text `cs`, which starts at the byte `p`, has the tokens `w`. -/
inductive Tokenization : Nat → List Char → List Token → Prop
  | nil (p : Nat) : Tokenization p [] []
  | blank {p : Nat} {c : Char} {cs : List Char} {w : List Token} (h : isBlank c = true)
      (hw : Tokenization (p + c.utf8Size) cs w) : Tokenization p (c :: cs) w
  | comment {p : Nat} {line cs : List Char} {w : List Token} (h : '\n' ∉ line)
      (hw : Tokenization (p + byteSize ('/' :: '/' :: (line ++ ['\n']))) cs w) :
      Tokenization p ('/' :: '/' :: (line ++ '\n' :: cs)) w
  | lastComment {line : List Char} (p : Nat) (h : '\n' ∉ line) :
      Tokenization p ('/' :: '/' :: line) []
  | token {p : Nat} {c : Char} {cs lexeme rest : List Char} {kind : TokenKind} {w : List Token}
      (hblank : isBlank c = false) (hcomment : ¬ ['/', '/'] <+: c :: cs)
      (h : Munch (c :: cs) kind lexeme rest) (hw : Tokenization (p + byteSize lexeme) rest w) :
      Tokenization p (c :: cs) (.ofText kind lexeme p :: w)

/-! ## Texts of a language -/

theorem mem_star_oneOf_iff {p : Char → Prop} {cs : List Char} :
    cs ∈ (oneOf p)∗ ↔ ∀ c ∈ cs, p c := by
  rw [Language.mem_kstar]
  constructor
  · rintro ⟨parts, rfl, hparts⟩ c hc
    obtain ⟨part, hpart, hc⟩ := List.mem_flatten.mp hc
    obtain ⟨d, hd, rfl⟩ := hparts part hpart
    rwa [List.mem_singleton.mp hc]
  · intro h
    refine ⟨cs.map fun c => [c], ?_, ?_⟩
    · rw [← List.flatMap_def, List.flatMap_singleton']
    intro part hpart
    obtain ⟨c, hc, rfl⟩ := List.mem_map.mp hpart
    exact ⟨c, h c hc, rfl⟩

theorem mem_oneOf_mul_iff {p : Char → Prop} {L : Language Char} {cs : List Char} :
    cs ∈ oneOf p * L ↔ ∃ c rest, cs = c :: rest ∧ p c ∧ rest ∈ L := by
  rw [Language.mem_mul]
  constructor
  · rintro ⟨_, ⟨c, hc, rfl⟩, rest, hrest, rfl⟩
    exact ⟨c, rest, rfl, hc, hrest⟩
  · rintro ⟨c, rest, rfl, hc, hrest⟩
    exact ⟨[c], ⟨c, hc, rfl⟩, rest, hrest, rfl⟩

theorem mem_digits_iff {cs : List Char} : cs ∈ digits ↔ cs ≠ [] ∧ ∀ c ∈ cs, Digit c := by
  rw [digits, mem_oneOf_mul_iff]
  constructor
  · rintro ⟨c, rest, rfl, hc, hrest⟩
    exact ⟨by simp, List.forall_mem_cons.mpr ⟨hc, mem_star_oneOf_iff.mp hrest⟩⟩
  · rintro ⟨hne, hall⟩
    obtain ⟨c, rest, rfl⟩ := List.exists_cons_of_ne_nil hne
    obtain ⟨hc, hrest⟩ := List.forall_mem_cons.mp hall
    exact ⟨c, rest, rfl, hc, mem_star_oneOf_iff.mpr hrest⟩

theorem mem_number_iff {cs : List Char} :
    cs ∈ TokenClass.number.language ↔
      cs ∈ digits ∨ ∃ whole fraction, whole ∈ digits ∧ fraction ∈ digits ∧
        cs = whole ++ '.' :: fraction := by
  rw [TokenClass.language, Language.mem_mul]
  simp only [Language.mem_add, Language.mem_one, mem_oneOf_mul_iff]
  constructor
  · rintro ⟨whole, hwhole, _, rfl | ⟨_, fraction, rfl, rfl, hfraction⟩, rfl⟩
    · exact Or.inl (by simpa using hwhole)
    · exact Or.inr ⟨whole, fraction, hwhole, hfraction, rfl⟩
  · rintro (h | ⟨whole, fraction, hwhole, hfraction, rfl⟩)
    · exact ⟨cs, h, [], Or.inl rfl, List.append_nil cs⟩
    · exact ⟨whole, hwhole, _, Or.inr ⟨'.', fraction, rfl, rfl, hfraction⟩, rfl⟩

theorem mem_word_iff {cs : List Char} :
    cs ∈ TokenClass.word.language ↔
      ∃ c rest, cs = c :: rest ∧ Letter c ∧ ∀ d ∈ rest, Letter d ∨ Digit d := by
  simp only [TokenClass.language, mem_oneOf_mul_iff, mem_star_oneOf_iff]

theorem mem_string_iff {cs : List Char} :
    cs ∈ TokenClass.string.language ↔ ∃ body, '"' ∉ body ∧ cs = '"' :: (body ++ ['"']) := by
  rw [TokenClass.language, mul_assoc, mem_oneOf_mul_iff]
  simp only [Language.mem_mul, mem_star_oneOf_iff]
  constructor
  · rintro ⟨_, _, rfl, rfl, body, hbody, _, ⟨_, rfl, rfl⟩, rfl⟩
    exact ⟨body, fun h => hbody _ h rfl, rfl⟩
  · rintro ⟨body, hbody, rfl⟩
    have hne : ∀ c ∈ body, c ≠ '"' := by
      rintro c hc rfl
      exact hbody hc
    exact ⟨_, _, rfl, rfl, body, hne, _, ⟨_, rfl, rfl⟩, rfl⟩

/-! ## Classes of characters -/

theorem isDigit_iff {c : Char} : isDigit c = true ↔ Digit c := by
  simp [isDigit, Char.isDigit, Digit, Char.le_def]

theorem isWordStart_iff {c : Char} : isWordStart c = true ↔ Letter c := by
  have hupper : c.isUpper = true ↔ 'A' ≤ c ∧ c ≤ 'Z' := decide_eq_true_iff
  have hlower : c.isLower = true ↔ 'a' ≤ c ∧ c ≤ 'z' :=
    Bool.and_eq_true_iff.trans (and_congr decide_eq_true_iff decide_eq_true_iff)
  have halpha : c.isAlpha = true ↔ c.isUpper = true ∨ c.isLower = true := Bool.or_eq_true_iff
  rw [isWordStart, Bool.or_eq_true, halpha, hupper, hlower, beq_iff_eq, Letter, or_assoc]

theorem isWordRest_iff {c : Char} : isWordRest c = true ↔ Letter c ∨ Digit c := by
  rw [← isWordStart_iff, ← isDigit_iff]
  simp only [isWordRest, isWordStart, isDigit, Char.isAlphanum, Bool.or_eq_true]
  tauto

theorem mem_signs_iff {c : Char} {kind : TokenKind} :
    (c, kind) ∈ signs ↔ Scan.punctuation? c = some kind := by
  constructor
  · intro h
    simp only [signs, List.mem_cons, Prod.mk.injEq, List.not_mem_nil, or_false] at h
    rcases h with ⟨rfl, rfl⟩ | ⟨rfl, rfl⟩ | ⟨rfl, rfl⟩ | ⟨rfl, rfl⟩ | ⟨rfl, rfl⟩ | ⟨rfl, rfl⟩ |
      ⟨rfl, rfl⟩ <;> rfl
  · intro h
    unfold Scan.punctuation? at h
    split at h <;> first | (cases h; decide) | cases h

theorem punctuation?_of_notMem_signs {c : Char} (h : ∀ kind, (c, kind) ∉ signs) :
    Scan.punctuation? c = none :=
  Option.eq_none_iff_forall_ne_some.mpr fun kind hkind => h kind (mem_signs_iff.mpr hkind)

theorem punctuation?_of_isWordRest {c : Char} (h : isWordRest c = true) :
    Scan.punctuation? c = none := by
  unfold Scan.punctuation?
  split <;> first | rfl | exact absurd h (by decide)

theorem ne_quote_of_isWordRest {c : Char} (h : isWordRest c = true) : c ≠ '"' := by
  rintro rfl
  exact absurd h (by decide)

theorem not_digit_of_letter {c : Char} (h : Letter c) : ¬ Digit c := by
  simp only [Letter, Digit, Char.le_def, UInt32.le_iff_toNat_le] at *
  intro hd
  rcases h with h | h | rfl
  · have hA : 'A'.val.toNat = 65 := rfl
    have h9 : '9'.val.toNat = 57 := rfl
    omega
  · have ha : 'a'.val.toNat = 97 := rfl
    have h9 : '9'.val.toNat = 57 := rfl
    omega
  · exact absurd hd (by decide)

namespace TokenClass

/-- The class that the lexer chooses by the first character. -/
def ofChar (c : Char) : TokenClass :=
  if isDigit c then number
  else if isWordStart c then word
  else if c = '"' then string
  else if (Scan.punctuation? c).isSome then sign
  else other

theorem starts_ofChar (c : Char) : (ofChar c).Starts c := by
  unfold ofChar
  split
  · exact isDigit_iff.mp ‹_›
  · split
    · exact isWordStart_iff.mp ‹_›
    · split
      · assumption
      · rename_i hdigit hletter hquote
        cases hsign : Scan.punctuation? c with
        | some kind => exact ⟨kind, mem_signs_iff.mpr hsign⟩
        | none =>
          refine ⟨mt isDigit_iff.mpr hdigit, mt isWordStart_iff.mpr hletter, hquote, ?_⟩
          intro kind hkind
          rw [mem_signs_iff.mp hkind] at hsign
          cases hsign

theorem ofChar_eq {k : TokenClass} {c : Char} (h : k.Starts c) : ofChar c = k := by
  cases k with
  | number => exact if_pos (isDigit_iff.mpr h)
  | word =>
    have hdigit : ¬ isDigit c = true := mt isDigit_iff.mp (not_digit_of_letter h)
    exact (if_neg hdigit).trans (if_pos (isWordStart_iff.mpr h))
  | string =>
    obtain rfl : c = '"' := h
    rfl
  | sign =>
    obtain ⟨kind, hkind⟩ := h
    have hsign := mem_signs_iff.mp hkind
    have hword : ¬ isWordRest c = true := by
      intro hc
      rw [punctuation?_of_isWordRest hc] at hsign
      cases hsign
    have hdigit : ¬ isDigit c = true := mt isWordRest_of_isDigit hword
    have hletter : ¬ isWordStart c = true := mt isWordRest_of_isWordStart hword
    have hquote : c ≠ '"' := by
      rintro rfl
      cases hsign
    simp [ofChar, hdigit, hletter, hquote, hsign]
  | other =>
    obtain ⟨hdigit, hletter, hquote, hsign⟩ := h
    rw [← isDigit_iff] at hdigit
    rw [← isWordStart_iff] at hletter
    have hnone := punctuation?_of_notMem_signs hsign
    simp [ofChar, hdigit, hletter, hquote, hnone]

/-- The first character of a token selects one class. -/
theorem existsUnique_starts (c : Char) : ∃! k : TokenClass, k.Starts c :=
  ⟨ofChar c, starts_ofChar c, fun _ h => (ofChar_eq h).symm⟩

theorem hasKind_number_iff {cs : List Char} {kind : TokenKind} :
    number.HasKind cs kind ↔ kind = .number :=
  ⟨by rintro ⟨⟩; rfl, by rintro rfl; exact .number cs⟩

theorem hasKind_string_iff {cs : List Char} {kind : TokenKind} :
    string.HasKind cs kind ↔ kind = .string :=
  ⟨by rintro ⟨⟩; rfl, by rintro rfl; exact .string cs⟩

theorem hasKind_other_iff {cs : List Char} {kind : TokenKind} :
    other.HasKind cs kind ↔ kind = .invalid :=
  ⟨by rintro ⟨⟩; rfl, by rintro rfl; exact .other cs⟩

theorem hasKind_sign_iff {c : Char} {kind : TokenKind} :
    sign.HasKind [c] kind ↔ (c, kind) ∈ signs :=
  ⟨by rintro ⟨⟩; assumption, .sign⟩

theorem hasKind_word_iff {cs : List Char} {kind : TokenKind} :
    word.HasKind cs kind ↔ kind = Scan.wordKind cs := by
  have hword : ∀ k : Keyword, Keyword.ofWord? (String.ofList cs) = some k ↔ cs = k.word.toList := by
    intro k
    rw [Keyword.ofWord?_eq_some_iff, ← String.toList_inj, String.toList_ofList]
  unfold Scan.wordKind
  constructor
  · rintro (_ | k | h)
    · rw [(hword k).mpr rfl]
    · rw [Option.eq_none_iff_forall_ne_some.mpr fun k hk => h k ((hword k).mp hk)]
  · rintro rfl
    split
    · rename_i k hk
      rw [(hword k).mp hk]
      exact .keyword k
    · rename_i hnone
      refine .identifier fun k hk => ?_
      rw [(hword k).mpr hk] at hnone
      cases hnone

end TokenClass

/-! ## Longest tokens -/

theorem length_le_takeWhile {p : Char → Bool} {u cs : List Char} (hu : u <+: cs)
    (hall : ∀ c ∈ u, p c = true) : u.length ≤ (cs.takeWhile p).length := by
  obtain ⟨v, rfl⟩ := hu
  rw [List.takeWhile_append_of_pos hall, List.length_append]
  exact Nat.le_add_right _ _

theorem Longest.unique {L : Language Char} {cs u v : List Char} (hu : Longest L cs u)
    (hv : Longest L cs v) : u = v := by
  have hle := hv.longest u hu.front hu.mem
  have hge := hu.longest v hv.front hv.mem
  exact (List.prefix_of_prefix_length_le hu.front hv.front hle).eq_of_length
    (Nat.le_antisymm hle hge)

theorem takeWhile_mem_digits {c : Char} (hc : isDigit c = true) (cs : List Char) :
    (c :: cs).takeWhile isDigit ∈ digits := by
  refine mem_digits_iff.mpr ⟨by simp [hc], fun d hd => isDigit_iff.mp ?_⟩
  exact List.all_eq_true.mp List.all_takeWhile d hd

theorem splitFraction_point {d : Char} (hd : isDigit d = true) (ds : List Char) :
    (Scan.splitFraction ('.' :: d :: ds)).1 = '.' :: (d :: ds).takeWhile isDigit := by
  have hany : (d :: ds).head?.any isDigit = true := hd
  rw [Scan.splitFraction, if_pos hany]

theorem splitFraction_cases (cs : List Char) :
    (∃ d ds, isDigit d = true ∧ cs = '.' :: d :: ds) ∨ (Scan.splitFraction cs).1 = [] := by
  unfold Scan.splitFraction
  split
  · rename_i ds
    split
    · rename_i hdigit
      cases ds with
      | nil => cases hdigit
      | cons d ds => exact Or.inl ⟨d, ds, hdigit, rfl⟩
    · exact Or.inr rfl
  · exact Or.inr rfl

theorem longest_number {c : Char} (hc : isDigit c = true) (cs : List Char) :
    Longest TokenClass.number.language (c :: cs) (Scan.scanNumber (c :: cs)).lexeme := by
  have hlexeme : (Scan.scanNumber (c :: cs)).lexeme =
      (c :: cs).takeWhile isDigit ++ (Scan.splitFraction ((c :: cs).dropWhile isDigit)).1 := rfl
  have hwhole := takeWhile_mem_digits hc cs
  refine ⟨⟨_, Scan.scanNumber_append (c :: cs)⟩, ?_, fun u hu hmem => ?_⟩
  · rw [hlexeme]
    apply mem_number_iff.mpr
    rcases splitFraction_cases ((c :: cs).dropWhile isDigit) with ⟨d, ds, hd, hafter⟩ | hnil
    · rw [hafter, splitFraction_point hd]
      exact Or.inr ⟨_, _, hwhole, takeWhile_mem_digits hd ds, rfl⟩
    · rw [hnil, List.append_nil]
      exact Or.inl hwhole
  · rcases mem_number_iff.mp hmem with hdigits | ⟨whole, fraction, hw, hf, rfl⟩
    · have hall : ∀ d ∈ u, isDigit d = true :=
        fun d hd => isDigit_iff.mpr ((mem_digits_iff.mp hdigits).2 d hd)
      have hle := length_le_takeWhile hu hall
      rw [hlexeme, List.length_append]
      omega
    -- The digits before the point are all that the text has there, so the point is taken.
    · obtain ⟨back, hback⟩ := hu
      obtain ⟨hne, hfraction⟩ := mem_digits_iff.mp hf
      obtain ⟨d, ds, rfl⟩ := List.exists_cons_of_ne_nil hne
      have hallw : ∀ e ∈ whole, isDigit e = true :=
        fun e he => isDigit_iff.mpr ((mem_digits_iff.mp hw).2 e he)
      have hallf : ∀ e ∈ d :: ds, isDigit e = true := fun e he => isDigit_iff.mpr (hfraction e he)
      have htext : c :: cs = whole ++ '.' :: d :: (ds ++ back) := by
        rw [← hback]
        simp
      have hle := length_le_takeWhile (List.prefix_append (d :: ds) back) hallf
      have htake : (c :: cs).takeWhile isDigit = whole := by
        rw [htext, List.takeWhile_append_of_pos hallw, List.takeWhile_cons_of_neg (by decide),
          List.append_nil]
      have hdrop : (c :: cs).dropWhile isDigit = '.' :: d :: (ds ++ back) := by
        rw [htext, List.dropWhile_append_of_pos hallw, List.dropWhile_cons_of_neg (by decide)]
      rw [hlexeme, htake, hdrop, splitFraction_point (hallf d List.mem_cons_self)]
      simp only [List.length_append, List.length_cons, List.cons_append] at *
      omega

theorem longest_word {c : Char} (hc : isWordStart c = true) (cs : List Char) :
    Longest TokenClass.word.language (c :: cs) (Scan.scanWord (c :: cs)).lexeme := by
  refine ⟨⟨_, Scan.scanWord_append (c :: cs)⟩, mem_word_iff.mpr ?_, fun u hu hmem => ?_⟩
  · refine ⟨c, cs.takeWhile isWordRest, ?_, isWordStart_iff.mp hc, fun d hd => ?_⟩
    · simp [Scan.scanWord, isWordRest_of_isWordStart hc]
    · exact isWordRest_iff.mp (List.all_eq_true.mp List.all_takeWhile d hd)
  · obtain ⟨d, rest, rfl, hd, hrest⟩ := mem_word_iff.mp hmem
    apply length_le_takeWhile hu
    refine List.forall_mem_cons.mpr ⟨isWordRest_iff.mpr (Or.inl hd), fun e he => ?_⟩
    exact isWordRest_iff.mpr (hrest e he)

theorem longest_string {body : List Char} (h : '"' ∉ body) (rest : List Char) :
    Longest TokenClass.string.language ('"' :: (body ++ '"' :: rest))
      ('"' :: (body ++ ['"'])) := by
  refine ⟨⟨rest, by simp⟩, mem_string_iff.mpr ⟨body, h, rfl⟩, fun u hu hmem => ?_⟩
  obtain ⟨body', h', rfl⟩ := mem_string_iff.mp hmem
  obtain ⟨back, hback⟩ := hu
  have hclosed := scanString_closed h' back
  have heq : body' ++ '"' :: back = body ++ '"' :: rest := by simpa using hback
  rw [heq, scanString_closed h rest] at hclosed
  exact Nat.le_of_eq (congrArg List.length (congrArg Scan.Scanned.lexeme hclosed.symm))

theorem longest_oneOf {p : Char → Prop} {c : Char} (hc : p c) (cs : List Char) :
    Longest (oneOf p) (c :: cs) [c] := by
  refine ⟨⟨cs, rfl⟩, ⟨c, hc, rfl⟩, fun u _ hmem => ?_⟩
  obtain ⟨d, -, rfl⟩ := hmem
  exact Nat.le_refl 1

/-! ## What the lexer cuts off -/

theorem scan_of_isWordStart {c : Char} (h : isWordStart c = true) (hd : isDigit c = false)
    (cs : List Char) : Scan.scan c cs = Scan.scanWord (c :: cs) := by
  have hrest := isWordRest_of_isWordStart h
  unfold Scan.scan
  rw [punctuation?_of_isWordRest hrest]
  simp [ne_quote_of_isWordRest hrest, hd, h]

theorem scan_of_punctuation? {c : Char} {kind : TokenKind} (h : Scan.punctuation? c = some kind)
    (cs : List Char) : Scan.scan c cs = ⟨kind, [c], cs⟩ := by
  unfold Scan.scan
  rw [h]

theorem scan_of_other {c : Char} (h : TokenClass.other.Starts c) (cs : List Char) :
    Scan.scan c cs = ⟨.invalid, [c], cs⟩ := by
  obtain ⟨hdigit, hletter, hquote, hsign⟩ := h
  have hpunctuation := punctuation?_of_notMem_signs hsign
  rw [← isDigit_iff] at hdigit
  rw [← isWordStart_iff] at hletter
  unfold Scan.scan
  rw [hpunctuation]
  simp [hquote, hdigit, hletter]

/-- Where the class of strings is not selected, or a string is closed, the lexer cuts off the
longest token of the class and tells its kind. -/
theorem scan_longest {k : TokenClass} {c : Char} {cs : List Char} (hk : k.Starts c)
    (hclosed : k = .string → '"' ∈ cs) :
    Longest k.language (c :: cs) (Scan.scan c cs).lexeme ∧
      ∀ kind, k.HasKind (Scan.scan c cs).lexeme kind ↔ kind = (Scan.scan c cs).kind := by
  cases k with
  | number =>
    have hc := isDigit_iff.mpr hk
    rw [scan_of_isDigit hc]
    exact ⟨longest_number hc cs, fun kind => TokenClass.hasKind_number_iff⟩
  | word =>
    have hc := isWordStart_iff.mpr hk
    have hd : isDigit c = false :=
      Bool.eq_false_iff.mpr (mt isDigit_iff.mp (not_digit_of_letter hk))
    rw [scan_of_isWordStart hc hd]
    exact ⟨longest_word hc cs, fun kind => TokenClass.hasKind_word_iff⟩
  | string =>
    obtain rfl : c = '"' := hk
    obtain ⟨body, rest, rfl, hbody⟩ := List.eq_append_cons_of_mem (hclosed rfl)
    have hscan : Scan.scan '"' (body ++ '"' :: rest) = Scan.scanString (body ++ '"' :: rest) := rfl
    rw [hscan, scanString_closed hbody rest]
    exact ⟨longest_string hbody rest, fun kind => TokenClass.hasKind_string_iff⟩
  | sign =>
    obtain ⟨kind, hkind⟩ := hk
    have hsign := mem_signs_iff.mp hkind
    rw [scan_of_punctuation? hsign]
    refine ⟨longest_oneOf ⟨kind, hkind⟩ cs, fun kind' => ?_⟩
    rw [TokenClass.hasKind_sign_iff, mem_signs_iff, hsign, Option.some_inj]
    exact eq_comm
  | other =>
    rw [scan_of_other hk]
    exact ⟨longest_oneOf hk cs, fun kind => TokenClass.hasKind_other_iff⟩

theorem scan_unterminated {cs : List Char} (h : '"' ∉ cs) :
    Scan.scan '"' cs = ⟨.unterminatedString, '"' :: cs, []⟩ := by
  have hdrop : cs.dropWhile (· != '"') = [] := by
    apply List.dropWhile_eq_nil_iff.mpr
    intro c hc
    simpa using fun heq : c = '"' => h (heq ▸ hc)
  have hscan : Scan.scan '"' cs = Scan.scanString cs := rfl
  rw [hscan, Scan.scanString, hdrop]

/-- The lexer cuts off the token of the grammar. -/
theorem munch_scan (c : Char) (cs : List Char) :
    Munch (c :: cs) (Scan.scan c cs).kind (Scan.scan c cs).lexeme (Scan.scan c cs).rest := by
  have hstarts := TokenClass.starts_ofChar c
  by_cases hclosed : TokenClass.ofChar c = .string → '"' ∈ cs
  · obtain ⟨hlongest, hkind⟩ := scan_longest hstarts hclosed
    exact .longest hstarts (Scan.scan_append c cs).symm hlongest ((hkind _).mpr rfl)
  · obtain ⟨hstring, hopen⟩ := Classical.not_imp.mp hclosed
    rw [hstring] at hstarts
    obtain rfl : c = '"' := hstarts
    rw [scan_unterminated hopen]
    exact .unterminated hopen

/-- The grammar allows no other token. -/
theorem Munch.scan_eq {c : Char} {cs lexeme rest : List Char} {kind : TokenKind}
    (h : Munch (c :: cs) kind lexeme rest) : Scan.scan c cs = ⟨kind, lexeme, rest⟩ := by
  cases h with
  | @longest k _ _ _ _ _ hstarts hcut hlongest hkind =>
    have hclosed : k = .string → '"' ∈ cs := by
      rintro rfl
      obtain ⟨body, -, rfl⟩ := mem_string_iff.mp hlongest.mem
      obtain ⟨-, rfl⟩ : c = '"' ∧ cs = body ++ '"' :: rest := by simpa using hcut
      simp
    obtain ⟨hscan, hkinds⟩ := scan_longest hstarts hclosed
    obtain rfl := hlongest.unique hscan
    have happ := Scan.scan_append c cs
    rw [hcut, List.append_cancel_left_eq] at happ
    rw [(hkinds kind).mp hkind, ← happ]
  | unterminated h => exact scan_unterminated h

/-! ## Trivia and tokens one by one -/

theorem splitTrivia_line {line : List Char} (h : '\n' ∉ line) (rest : List Char) :
    Scan.splitTrivia true (line ++ '\n' :: rest) =
      (line ++ '\n' :: (Scan.splitTrivia false rest).1, (Scan.splitTrivia false rest).2) := by
  induction line with
  | nil => rfl
  | cons c line ih =>
    obtain ⟨hc, hline⟩ := not_or.mp (mt List.mem_cons.mpr h)
    have hne : (c != '\n') = true := by simpa using Ne.symm hc
    rw [List.cons_append, Scan.splitTrivia, if_pos rfl, hne, ih hline]
    rfl

theorem lexes_comment {line : List Char} (h : '\n' ∉ line) (p : Nat) (rest : List Char) :
    Lexes p ('/' :: '/' :: (line ++ ['\n'])) rest [] := by
  apply lexes_of_splitTrivia
  have hslash : '\n' ∉ '/' :: line := by simpa using h
  have hline := splitTrivia_line hslash rest
  rw [List.cons_append, List.cons_append, List.append_assoc, List.singleton_append,
    Scan.splitTrivia, if_neg (by decide), if_neg (by decide), if_pos ⟨rfl, rfl⟩, ← List.cons_append,
    hline]
  simp

theorem tokensFrom_lastComment {line : List Char} (h : '\n' ∉ line) (p : Nat) :
    tokensFrom ⟨p, '/' :: '/' :: line⟩ = [] := by
  have hline : ∀ line : List Char, '\n' ∉ line → (Scan.splitTrivia true line).2 = [] := by
    intro line
    induction line with
    | nil => exact fun _ => rfl
    | cons c line ih =>
      intro h
      obtain ⟨hc, hline⟩ := not_or.mp (mt List.mem_cons.mpr h)
      have hne : (c != '\n') = true := by simpa using Ne.symm hc
      rw [Scan.splitTrivia, if_pos rfl, hne]
      exact ih hline
  apply tokensFrom_of_none
  have hrest : (Scan.splitTrivia false ('/' :: '/' :: line)).2 = [] := by
    rw [Scan.splitTrivia, if_neg (by decide), if_neg (by decide), if_pos ⟨rfl, rfl⟩]
    exact hline _ (by simpa using h)
  unfold nextToken?
  dsimp only
  rw [hrest]

theorem exists_cons_of_scan {c : Char} {cs lexeme rest : List Char} {kind : TokenKind}
    (h : Scan.scan c cs = ⟨kind, lexeme, rest⟩) :
    ∃ more, lexeme = c :: more ∧ cs = more ++ rest := by
  have happ := Scan.scan_append c cs
  have hne := Scan.scan_lexeme_ne_nil c cs
  rw [h] at happ hne
  obtain ⟨d, more, rfl⟩ := List.exists_cons_of_ne_nil hne
  obtain ⟨rfl, rfl⟩ : d = c ∧ more ++ rest = cs := by simpa using happ
  exact ⟨more, rfl, rfl⟩

theorem tokensFrom_token {c : Char} {cs lexeme rest : List Char} {kind : TokenKind}
    (hblank : isBlank c = false) (hcomment : ¬ ['/', '/'] <+: c :: cs)
    (hscan : Scan.scan c cs = ⟨kind, lexeme, rest⟩) (p : Nat) :
    tokensFrom ⟨p, c :: cs⟩ = .ofText kind lexeme p :: tokensFrom ⟨p + byteSize lexeme, rest⟩ := by
  obtain ⟨more, rfl, rfl⟩ := exists_cons_of_scan hscan
  refine lexes_scan hblank (fun hslash hhead => hcomment ?_) hscan p
  obtain ⟨back, hback⟩ := List.head?_eq_some_iff.mp hhead
  rw [hslash, hback]
  exact ⟨back, rfl⟩

/-! ## All tokens -/

theorem Tokenization.eq_tokensFrom {p : Nat} {cs : List Char} {w : List Token}
    (h : Tokenization p cs w) : w = tokensFrom ⟨p, cs⟩ := by
  induction h with
  | nil p => exact (tokensFrom_of_none rfl).symm
  | @blank p c cs w h hw ih =>
    have hblank := lexes_blank h p cs
    rw [ih]
    simpa [Lexes] using hblank.symm
  | @comment p line cs w h hw ih =>
    have hcomment := lexes_comment h p cs
    rw [ih]
    simpa [Lexes] using hcomment.symm
  | lastComment p h => exact (tokensFrom_lastComment h p).symm
  | token hblank hcomment h hw ih => rw [tokensFrom_token hblank hcomment h.scan_eq, ih]

theorem tokenization_tokensFrom (p : Nat) (cs : List Char) :
    Tokenization p cs (tokensFrom ⟨p, cs⟩) := by
  induction hn : cs.length using Nat.strong_induction_on generalizing p cs with
  | _ n ih =>
    subst hn
    have ih : ∀ (q : Nat) (ds : List Char), ds.length < cs.length →
        Tokenization q ds (tokensFrom ⟨q, ds⟩) := fun q ds h => ih _ h q ds rfl
    cases cs with
    | nil =>
      rw [tokensFrom_of_none rfl]
      exact .nil p
    | cons c cs =>
      cases hblank : isBlank c with
      | true =>
        have hw : tokensFrom ⟨p, c :: cs⟩ = tokensFrom ⟨p + c.utf8Size, cs⟩ := by
          simpa [Lexes] using lexes_blank hblank p cs
        rw [hw]
        exact .blank hblank (ih _ cs (by simp))
      | false =>
        by_cases hcomment : ['/', '/'] <+: c :: cs
        · obtain ⟨line, hline⟩ := hcomment
          obtain ⟨rfl, rfl⟩ : '/' = c ∧ '/' :: line = cs := by simpa using hline
          by_cases hnewline : '\n' ∈ line
          · obtain ⟨line, rest, rfl, hnotMem⟩ := List.eq_append_cons_of_mem hnewline
            have hw : tokensFrom ⟨p, '/' :: '/' :: (line ++ '\n' :: rest)⟩ =
                tokensFrom ⟨p + byteSize ('/' :: '/' :: (line ++ ['\n'])), rest⟩ := by
              simpa [Lexes] using lexes_comment hnotMem p rest
            rw [hw]
            exact .comment hnotMem (ih _ rest (by simp; omega))
          · rw [tokensFrom_lastComment hnewline]
            exact .lastComment p hnewline
        · rw [tokensFrom_token hblank hcomment rfl]
          exact .token hblank hcomment (munch_scan c cs)
            (ih _ _ (Scan.length_scan_rest_lt c cs))

theorem tokenization_iff {p : Nat} {cs : List Char} {w : List Token} :
    Tokenization p cs w ↔ w = tokensFrom ⟨p, cs⟩ := by
  constructor
  · exact Tokenization.eq_tokensFrom
  · rintro rfl
    exact tokenization_tokensFrom p cs

/-- **Maximal munch.** The tokens of a text are those that the lexical grammar cuts off it, each
the longest of the one class that its first character selects. The lexer answers them one by
one, and after the last of them the end of input, for ever. -/
theorem lex_maximal_munch (source : String) :
    (∀ c, ∃! k : TokenClass, k.Starts c) ∧
    (∀ w, Tokenization 0 source.toList w ↔ w = lex source) ∧
    ∀ n, ((Lexer.ofSource source).drop n).next.1 =
      (lex source)[n]?.getD (.endOfInput (endSpan source)) := by
  refine ⟨TokenClass.existsUnique_starts, fun w => tokenization_iff, fun n => ?_⟩
  have hposition : (Lexer.ofSource source).finish.position = byteSize source.toList := by
    simp [Lexer.finish, Lexer.position, Lexer.ofSource, Cursor.ofString]
  rw [Lexer.next_drop, hposition]
  rfl

end ExprLang
