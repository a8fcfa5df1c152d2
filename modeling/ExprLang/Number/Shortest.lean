import ExprLang.Number.Rounding

/-!
# The shortest numeral of a double

A finite double is written with the fewest digits that read back as it. For each number of
leading digits from one to seventeen, the value has two neighbours on the decimal grid of
that many digits; the first grid with a neighbour that reads back is taken, of two such
neighbours the nearer, and on a tie the greater. Where no grid serves, the value is
written in full.

* `readsBack_shortest`: the decimal chosen is read as the double it was chosen for.
-/

namespace ExprLang.Binary64

/-! ## Grids of decimals -/

/-- Reading `d` gives the finite magnitude `m`. -/
def ReadsBack (m : Nat) (d : Decimal) : Prop :=
  nearestMagnitude (d.coefficient * unitsPerOne) (Nat.pow 10 d.places) = m

instance (m : Nat) (d : Decimal) : Decidable (ReadsBack m d) := by
  unfold ReadsBack
  infer_instance

/-- The number of digits of `units` before the place `10 ^ -324`. No finite value but zero
is less than one unit of that place. -/
def leadingPlace (units : Nat) : Nat :=
  (Nat.toDigits 10 (units * Nat.pow 10 324 / unitsPerOne)).length

/-- The decimal on the grid of `digits` leading digits that is nearest to a value among
those that read back as `m`. -/
def candidate? (m digits : Nat) : Option Decimal :=
  let value := units m
  let zeros := leadingPlace value - (digits + 324)
  let places := digits + 324 - leadingPlace value
  let gap := unitsPerOne * Nat.pow 10 zeros
  let below := value * Nat.pow 10 places / gap
  let lower : Decimal := ⟨below * Nat.pow 10 zeros, places⟩
  let upper : Decimal := ⟨(below + 1) * Nat.pow 10 zeros, places⟩
  if ReadsBack m lower ∧
      (2 * (value * Nat.pow 10 places % gap) < gap ∨ ¬ ReadsBack m upper) then
    some lower
  else if ReadsBack m upper then
    some upper
  else
    none

/-- The value in full: a power of one half is a power of five, divided by one of ten. -/
def inFull (m : Nat) : Decimal := ⟨units m * Nat.pow 5 unitPlaces, unitPlaces⟩

/-- The decimal that stands for a finite magnitude. -/
def shortest (m : Nat) : Decimal :=
  (((List.range 17).findSome? fun n => candidate? m (n + 1)).getD (inFull m)).trim

/-! ## Text -/

/-- The text of a double: sign and numeral, or a word where it is not finite. -/
def text (x : Binary64) : String :=
  if x.isNaN then
    "NaN"
  else
    (if x.negative then "-" else "") ++
      (if x.isInfinite then "inf" else String.ofList (shortest x.magnitude).numeral)

/-! ## Reading back -/

theorem nearestMagnitude_mul_right (n d : Nat) {k : Nat} (hk : 0 < k) :
    nearestMagnitude (n * k) (d * k) = nearestMagnitude n d := by
  have hround : ∀ e, roundQuotient (n * k) (e * k) = roundQuotient n e := by
    intro e
    simp only [roundQuotient, Nat.mul_div_mul_right _ _ hk, Nat.mul_mod_mul_right,
      ← Nat.mul_assoc, Nat.mul_lt_mul_right hk]
  unfold nearestMagnitude
  simp only [Nat.mul_div_mul_right _ _ hk, Nat.mul_right_comm d k, hround]

/-- Decimals of one value are read alike. -/
theorem readsBack_of_value_eq {m : Nat} {d e : Decimal}
    (h : d.coefficient * Nat.pow 10 e.places = e.coefficient * Nat.pow 10 d.places)
    (hd : ReadsBack m d) :
    ReadsBack m e := by
  have hpos : ∀ n : Nat, 0 < Nat.pow 10 n := fun n => Nat.pow_pos (by decide)
  unfold ReadsBack at *
  rw [← hd, ← nearestMagnitude_mul_right _ _ (hpos d.places),
    ← nearestMagnitude_mul_right (d.coefficient * unitsPerOne) _ (hpos e.places)]
  rw [Nat.mul_right_comm, Nat.mul_right_comm d.coefficient, h, Nat.mul_comm (Nat.pow 10 d.places)]

theorem readsBack_inFull (m : Nat) : ReadsBack m (inFull m) := by
  have hten : ∀ e : Nat, Nat.pow 10 e = Nat.pow 5 e * Nat.pow 2 e := fun e => Nat.mul_pow 5 2 e
  have hpos : 0 < Nat.pow 5 unitPlaces * unitsPerOne :=
    Nat.mul_pos (Nat.pow_pos (by decide)) unitsPerOne_pos
  unfold ReadsBack inFull
  dsimp only
  rw [hten, Nat.mul_assoc, ← unitsPerOne_eq]
  exact nearestMagnitude_units m hpos

theorem readsBack_candidate {m digits : Nat} {d : Decimal} (h : candidate? m digits = some d) :
    ReadsBack m d := by
  unfold candidate? at h
  dsimp only at h
  split at h
  · rename_i hl
    exact Option.some.inj h ▸ hl.1
  · split at h
    · rename_i hu
      exact Option.some.inj h ▸ hu
    · cases h

/-- Whatever decimal is chosen is read as the magnitude it was chosen for. -/
theorem readsBack_shortest (m : Nat) : ReadsBack m (shortest m) := by
  unfold shortest
  refine readsBack_of_value_eq (Decimal.trim_value _).symm ?_
  cases h : (List.range 17).findSome? fun n => candidate? m (n + 1) with
  | none => exact readsBack_inFull m
  | some d =>
    obtain ⟨n, -, hn⟩ := List.exists_of_findSome?_eq_some h
    exact readsBack_candidate hn

/-- The numeral of a finite magnitude is read as the non-negative double of it. -/
theorem ofNumeral?_shortest {m : Nat} (h : m < infinity) :
    ofNumeral? (String.ofList (shortest m).numeral) = some (ofMagnitude m h) := by
  rw [ofNumeral?, String.toList_ofList, Decimal.ofNumeral?_numeral, Option.bind_some]
  exact ofDecimal?_eq_some (readsBack_shortest m) h

end ExprLang.Binary64
