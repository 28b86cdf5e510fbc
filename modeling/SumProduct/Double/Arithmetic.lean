import SumProduct.Double.Basic
import SumProduct.Number.Rounding

/-!
# Sums and products of doubles

The exact result is rounded once, to the nearest double with ties to even. A result too large for
a finite double is an infinity. NaN comes from NaN, from infinities of both signs in a sum, and
from zero times infinity.
-/

namespace SumProduct.Double

/-- The double nearest to `num / den` units, with the given sign. -/
def round (negative : Bool) (num den : Nat) : Double :=
  (Number.nearest? num den).elim (.infinite negative) (.finite negative)

@[simp] theorem negative_round {negative : Bool} {num den : Nat} :
    (round negative num den).negative = negative := by
  rw [round]
  cases Number.nearest? num den with
  | none => rw [Option.elim, Double.negative]
  | some magnitude => rw [Option.elim, Double.negative]

theorem round_eq_toDouble_iff {num den : Nat} {v : Number} :
    round false num den = v.toDouble ↔ Number.nearest? num den = some v := by
  rw [round]
  cases Number.nearest? num den <;> simp [Number.toDouble]

/-- The exact value of a finite double, in units. -/
def signedUnits (negative : Bool) (magnitude : Number) : Int :=
  if negative then -(magnitude.units : Int) else magnitude.units

/-- The sum. A sum of zero has a minus sign only if both operands have one. -/
def add : Double → Double → Double
  | .nan, _ | _, .nan => .nan
  | .infinite s, .infinite t => if s = t then .infinite s else .nan
  | .infinite s, .finite .. => .infinite s
  | .finite .., .infinite t => .infinite t
  | .finite s a, .finite t b =>
    let total := signedUnits s a + signedUnits t b
    if total = 0 then .finite (s && t) .zero else round (total < 0) total.natAbs 1

/-- The product. Its sign is minus if exactly one operand has a minus sign. -/
def mul : Double → Double → Double
  | .nan, _ | _, .nan => .nan
  | .infinite s, .infinite t => .infinite (s ^^ t)
  | .infinite s, .finite t b => if b = .zero then .nan else .infinite (s ^^ t)
  | .finite s a, .infinite t => if a = .zero then .nan else .infinite (s ^^ t)
  | .finite s a, .finite t b => round (s ^^ t) (a.units * b.units) unitsPerOne

instance : Add Double := ⟨add⟩

instance : Mul Double := ⟨mul⟩

theorem toDouble_add_toDouble (a b : Number) :
    a.toDouble + b.toDouble = round false (a.units + b.units) 1 := by
  have total : signedUnits false a + signedUnits false b = ((a.units + b.units : Nat) : Int) := rfl
  show add (.finite false a) (.finite false b) = _
  simp only [add]
  rw [total]
  rcases Nat.eq_zero_or_pos (a.units + b.units) with zero | positive
  · simp [zero, round]
  · rw [if_neg (by omega), decide_eq_false (by omega), Int.natAbs_natCast]

theorem toDouble_mul_toDouble (a b : Number) :
    a.toDouble * b.toDouble = round false (a.units * b.units) unitsPerOne := by
  show mul (.finite false a) (.finite false b) = _
  rw [mul, Bool.xor_false]

@[simp]
theorem negative_add_toDouble (a b : Number) : (a.toDouble + b.toDouble).negative = false := by
  simp [toDouble_add_toDouble]

@[simp]
theorem negative_mul_toDouble (a b : Number) : (a.toDouble * b.toDouble).negative = false := by
  simp [toDouble_mul_toDouble]

end SumProduct.Double
