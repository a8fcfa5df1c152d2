/-!
# Double-precision numbers

A double is a sign and a magnitude, the exponent and fraction fields of its encoding read
as one number. Magnitudes are ordered as the absolute values they stand for: finite ones
come first, then infinity, then the NaNs.

* `units k` is the value of the finite magnitude `k`, counted in units of `2 ^ -1074`, the
  least positive double; `unitsPerOne` of them make one.
* `==` is IEEE comparison: a NaN differs from itself, and the two zeros are equal
  (`beq_self_iff`, `zero_beq_negZero`).

Powers are written `Nat.pow`: no definition here depends on which instance of `^` is in scope.
-/

namespace ExprLang

structure Binary64 where
  negative : Bool
  magnitude : Nat
  magnitude_lt : magnitude < Nat.pow 2 63
  deriving DecidableEq, Repr

namespace Binary64

/-- The magnitude of infinity: all exponent bits set, no fraction bit. -/
def infinity : Nat := 2047 * Nat.pow 2 52

theorem infinity_lt : infinity < Nat.pow 2 63 := by decide

/-- The finite double of a magnitude, with the sign bit clear. -/
def ofMagnitude (magnitude : Nat) (h : magnitude < infinity) : Binary64 :=
  ⟨false, magnitude, Nat.lt_trans h infinity_lt⟩

/-- The double that 64 bits encode; higher bits do not matter. -/
def ofBits (bits : Nat) : Binary64 :=
  ⟨bits / Nat.pow 2 63 % 2 == 1, bits % Nat.pow 2 63, Nat.mod_lt _ (by decide)⟩

def isNaN (x : Binary64) : Bool := infinity < x.magnitude

def isInfinite (x : Binary64) : Bool := x.magnitude == infinity

def isFinite (x : Binary64) : Bool := x.magnitude < infinity

def isZero (x : Binary64) : Bool := x.magnitude == 0

/-- IEEE comparison. -/
protected def beq (x y : Binary64) : Bool :=
  !x.isNaN && !y.isNaN &&
    (x.isZero && y.isZero || x.negative == y.negative && x.magnitude == y.magnitude)

instance : BEq Binary64 := ⟨Binary64.beq⟩

theorem beq_def (x y : Binary64) : (x == y) = (!x.isNaN && !y.isNaN &&
    (x.isZero && y.isZero || x.negative == y.negative && x.magnitude == y.magnitude)) := rfl

theorem beq_self_iff (x : Binary64) : (x == x) = true ↔ x.isNaN = false := by
  simp [beq_def]

theorem zero_beq_negZero : (ofBits 0 == ofBits (Nat.pow 2 63)) = true := by decide

theorem isNaN_eq_false_of_isFinite {x : Binary64} (h : x.isFinite = true) : x.isNaN = false := by
  simp only [isFinite, isNaN, decide_eq_true_eq, decide_eq_false_iff_not] at *
  omega

/-- The least positive double is `2 ^ -unitPlaces`, a decimal of as many places. -/
@[irreducible] def unitPlaces : Nat := 1074

@[irreducible] def unitsPerOne : Nat := Nat.pow 2 unitPlaces

theorem unitsPerOne_eq : unitsPerOne = Nat.pow 2 unitPlaces := by
  unfold unitsPerOne
  rfl

theorem unitsPerOne_pos : 0 < unitsPerOne := by
  rw [unitsPerOne_eq]
  exact Nat.two_pow_pos _

/-- The value of a finite magnitude in units of `2 ^ -1074`. The least magnitudes count
units; from `2 ^ 52` on, each step of `2 ^ 52` doubles the distance of neighbours. -/
def units (magnitude : Nat) : Nat :=
  if magnitude < Nat.pow 2 52 then
    magnitude
  else
    (magnitude % Nat.pow 2 52 + Nat.pow 2 52) * Nat.pow 2 (magnitude / Nat.pow 2 52 - 1)

end Binary64

end ExprLang
