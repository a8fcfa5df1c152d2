import ExprLang.Text.CharClass

/-!
# Decimal numerals

A decimal is a natural number of units of some power of ten: `coefficient / 10 ^ places`.
Its numeral is written in digits, with a point before the last `places` of them, and never
with an exponent.

* `ofNumeral? (numeral d) = some d` (`ofNumeral?_numeral`): reading a written numeral gives
  the same coefficient and the same number of places back.
* `trim` drops zeros at the end of the fractional part without changing the value
  (`trim_value`).
-/

namespace ExprLang

open Text

/-- The number `coefficient / 10 ^ places`. -/
structure Decimal where
  coefficient : Nat
  places : Nat
  deriving DecidableEq, Repr

namespace Decimal

/-! ## Writing -/

/-- The last `width` digits of a number, with zeros in front where it has fewer. -/
def fixedDigits : Nat → Nat → List Char
  | 0, _ => []
  | width + 1, n => fixedDigits width (n / 10) ++ [Nat.digitChar (n % 10)]

/-- Digits, and a point before the last `places` of them unless there are none. -/
def numeral (d : Decimal) : List Char :=
  if d.places = 0 then
    Nat.toDigits 10 d.coefficient
  else
    Nat.toDigits 10 (d.coefficient / Nat.pow 10 d.places) ++
      '.' :: fixedDigits d.places d.coefficient

/-! ## Reading -/

/-- Reads a numeral: digits, or digits with a point that has a digit on either side. -/
def ofNumeral? (cs : List Char) : Option Decimal :=
  let whole := cs.takeWhile isDigit
  if whole = [] then
    none
  else
    match cs.dropWhile isDigit with
    | [] => some ⟨Nat.ofDigitChars 10 whole 0, 0⟩
    | '.' :: fraction =>
      if fraction ≠ [] ∧ fraction.all isDigit then
        some ⟨Nat.ofDigitChars 10 (whole ++ fraction) 0, fraction.length⟩
      else
        none
    | _ => none

/-! ## Zeros at the end -/

/-- Drops the zeros at the end of the fractional part. -/
def trim : Decimal → Decimal
  | ⟨coefficient, 0⟩ => ⟨coefficient, 0⟩
  | ⟨coefficient, places + 1⟩ =>
    if coefficient % 10 = 0 then trim ⟨coefficient / 10, places⟩ else ⟨coefficient, places + 1⟩
termination_by d => d.places

theorem trim_value (d : Decimal) :
    d.trim.coefficient * Nat.pow 10 d.places = d.coefficient * Nat.pow 10 d.trim.places := by
  simp only [Nat.pow_eq]
  fun_induction trim d with
  | case1 => rfl
  | case2 coefficient places h ih =>
    have hc : coefficient = coefficient / 10 * 10 := by omega
    have hcalc : (trim ⟨coefficient / 10, places⟩).coefficient * 10 ^ (places + 1) =
        coefficient / 10 * 10 ^ (trim ⟨coefficient / 10, places⟩).places * 10 := by
      rw [Nat.pow_succ, ← Nat.mul_assoc]
      exact congrArg (· * 10) ih
    dsimp only
    rw [hcalc, Nat.mul_right_comm, ← hc]
  | case3 => rfl

/-! ## Writing and reading -/

theorem length_fixedDigits (width n : Nat) : (fixedDigits width n).length = width := by
  induction width generalizing n with
  | zero => rfl
  | succ width ih => simp [fixedDigits, ih]

theorem isDigit_of_mem_fixedDigits {width n : Nat} {c : Char} (h : c ∈ fixedDigits width n) :
    isDigit c = true := by
  induction width generalizing n with
  | zero => cases h
  | succ width ih =>
    rcases List.mem_append.mp h with h | h
    · exact ih h
    · rw [List.mem_singleton.mp h, isDigit, Nat.isDigit_digitChar]
      exact decide_eq_true (Nat.mod_lt _ (by decide))

theorem isDigit_of_mem_toDigits {n : Nat} {c : Char} (h : c ∈ Nat.toDigits 10 n) :
    isDigit c = true :=
  Nat.isDigit_of_mem_toDigits (by decide) (by decide) h

theorem ofDigitChars_append_digit (cs : List Char) {d : Nat} (hd : d < 10) :
    Nat.ofDigitChars 10 (cs ++ [Nat.digitChar d]) 0 = 10 * Nat.ofDigitChars 10 cs 0 + d := by
  have hzero : ('0').toNat = 48 := rfl
  simp only [Nat.ofDigitChars, List.foldl_append, List.foldl_cons, List.foldl_nil, hzero,
    Nat.toNat_digitChar_sub_48_of_lt_ten hd]

theorem ofDigitChars_append_fixedDigits (width n : Nat) :
    Nat.ofDigitChars 10 (Nat.toDigits 10 (n / Nat.pow 10 width) ++ fixedDigits width n) 0 = n := by
  induction width generalizing n with
  | zero => simp [fixedDigits]
  | succ width ih =>
    have hdiv : n / Nat.pow 10 (width + 1) = n / 10 / Nat.pow 10 width := by
      simp only [Nat.pow_eq]
      rw [Nat.pow_succ, Nat.mul_comm, Nat.div_div_eq_div_mul]
    rw [fixedDigits, ← List.append_assoc, ofDigitChars_append_digit _ (Nat.mod_lt _ (by decide)),
      hdiv, ih]
    omega

theorem takeWhile_toDigits_append (n : Nat) (rest : List Char)
    (h : rest.head?.all fun c => !isDigit c) :
    (Nat.toDigits 10 n ++ rest).takeWhile isDigit = Nat.toDigits 10 n ∧
      (Nat.toDigits 10 n ++ rest).dropWhile isDigit = rest := by
  have hall : ∀ c ∈ Nat.toDigits 10 n, isDigit c = true := fun c hc => isDigit_of_mem_toDigits hc
  rw [List.takeWhile_append_of_pos hall, List.dropWhile_append_of_pos hall]
  cases rest <;> simp_all

/-- Reading undoes writing. -/
theorem ofNumeral?_numeral (d : Decimal) : ofNumeral? d.numeral = some d := by
  obtain ⟨n, places⟩ := d
  unfold ofNumeral? numeral
  by_cases hp : places = 0
  · subst hp
    obtain ⟨h₁, h₂⟩ := takeWhile_toDigits_append n [] rfl
    rw [List.append_nil] at h₁ h₂
    simp only [if_true, h₁, h₂, Nat.toDigits_ne_nil, if_false, Nat.ofDigitChars_ten_toDigits]
  · obtain ⟨h₁, h₂⟩ := takeWhile_toDigits_append (n / Nat.pow 10 places)
      ('.' :: fixedDigits places n) rfl
    have hne : fixedDigits places n ≠ [] := by
      intro h
      have := congrArg List.length h
      rw [length_fixedDigits] at this
      exact hp this
    have hall : (fixedDigits places n).all isDigit = true :=
      List.all_eq_true.mpr fun c hc => isDigit_of_mem_fixedDigits hc
    simp only [hp, if_false, h₁, h₂, Nat.toDigits_ne_nil, hne, hall, ne_eq, not_false_eq_true,
      and_self, if_true, ofDigitChars_append_fixedDigits, length_fixedDigits]

end Decimal

end ExprLang
