import ExprLang.Number.Binary64
import ExprLang.Number.Decimal

/-!
# Rounding to the nearest double

A quotient of units of `2 ^ -1074` is rounded to the nearest magnitude, a tie going to the
even one. Below `2 ^ 53` units magnitudes are neighbours one unit apart; above, the
quotient keeps its 53 leading bits.

* `roundQuotient_mul`: an exact quotient is kept.
* `nearestMagnitude_units`: every magnitude is the nearest to its own value.
* `ofDecimal?` reads a decimal as the nearest double; it refuses a decimal too great for a
  finite one.
-/

namespace ExprLang.Binary64

/-- `n / d` rounded to the nearest number, a tie going to the even one. -/
def roundQuotient (n d : Nat) : Nat :=
  let q := n / d
  let r := n % d
  if 2 * r < d then q
  else if d < 2 * r then q + 1
  else q + q % 2

/-- The magnitude nearest to `n / d` units. -/
def nearestMagnitude (n d : Nat) : Nat :=
  let shift := (n / d).log2 - 52
  shift * Nat.pow 2 52 + roundQuotient n (d * Nat.pow 2 shift)

/-- The non-negative double nearest to a decimal; `none` where that is infinity. -/
def ofDecimal? (d : Decimal) : Option Binary64 :=
  let magnitude := nearestMagnitude (d.coefficient * unitsPerOne) (Nat.pow 10 d.places)
  if h : magnitude < infinity then some (ofMagnitude magnitude h) else none

/-- The double that a numeral denotes. -/
def ofNumeral? (text : String) : Option Binary64 :=
  (Decimal.ofNumeral? text.toList).bind ofDecimal?

theorem ofDecimal?_eq_some {d : Decimal} {m : Nat}
    (hm : nearestMagnitude (d.coefficient * unitsPerOne) (Nat.pow 10 d.places) = m)
    (h : m < infinity) : ofDecimal? d = some (ofMagnitude m h) := by
  subst hm
  exact dif_pos h

/-! ## Exact values -/

theorem roundQuotient_mul (q : Nat) {d : Nat} (hd : 0 < d) : roundQuotient (q * d) d = q := by
  simp [roundQuotient, Nat.mul_div_cancel _ hd, hd]

theorem log2_eq {n k : Nat} (h₁ : Nat.pow 2 k ≤ n) (h₂ : n < Nat.pow 2 (k + 1)) : n.log2 = k := by
  have hn : n ≠ 0 := by
    have := Nat.two_pow_pos k
    simp only [Nat.pow_eq] at h₁
    omega
  have h₃ := (Nat.le_log2 hn).mpr h₁
  have h₄ := (Nat.log2_lt hn).mpr h₂
  omega

/-- Every magnitude is the nearest to its own value. -/
theorem nearestMagnitude_units (k : Nat) {d : Nat} (hd : 0 < d) :
    nearestMagnitude (units k * d) d = k := by
  unfold nearestMagnitude
  rw [Nat.mul_div_cancel _ hd]
  unfold units
  simp only [Nat.pow_eq]
  by_cases hk : k < 2 ^ 52
  · have hlog : k.log2 - 52 = 0 := by
      by_cases h0 : k = 0
      · subst h0
        rfl
      · have := (Nat.log2_lt h0).mpr hk
        omega
    simp only [hk, if_true, hlog, Nat.zero_mul, Nat.zero_add, Nat.pow_zero, Nat.mul_one]
    exact roundQuotient_mul k hd
  · simp only [hk, if_false]
    have hfield : 1 ≤ k / 2 ^ 52 := by omega
    have hmod : k % 2 ^ 52 < 2 ^ 52 := Nat.mod_lt _ (by decide)
    have hpow := Nat.two_pow_pos (k / 2 ^ 52 - 1)
    have hlog : ((k % 2 ^ 52 + 2 ^ 52) * 2 ^ (k / 2 ^ 52 - 1)).log2 = 52 + (k / 2 ^ 52 - 1) := by
      apply log2_eq
      · rw [Nat.pow_eq, Nat.pow_add]
        exact Nat.mul_le_mul_right _ (by omega)
      · rw [Nat.pow_eq, Nat.add_right_comm, Nat.pow_add]
        exact Nat.mul_lt_mul_of_pos_right (by omega) hpow
    rw [hlog, Nat.add_sub_cancel_left, Nat.mul_assoc, Nat.mul_comm (2 ^ _) d,
      roundQuotient_mul _ (Nat.mul_pos hd hpow)]
    obtain ⟨field, hf⟩ : ∃ field, k / 2 ^ 52 = field + 1 := ⟨k / 2 ^ 52 - 1, by omega⟩
    have hsum := Nat.div_add_mod k (2 ^ 52)
    rw [hf, Nat.mul_comm, Nat.add_mul, Nat.one_mul] at hsum
    rw [hf, Nat.add_sub_cancel, Nat.add_comm (k % 2 ^ 52), ← Nat.add_assoc]
    exact hsum

end ExprLang.Binary64
