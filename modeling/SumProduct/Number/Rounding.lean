import SumProduct.Number.Basic

/-!
# Rounding to the nearest number

An exact value is given as a quotient of two natural numbers, in units of `2 ^ -1074`. It is
rounded to the nearest number, and a value halfway between two numbers goes to the one of even
rank.

Below `2 ^ 53` units every natural number is the value of a rank. Above, the neighbours of a value
are multiples of a power of two that leaves a quotient of 53 bits. In both cases the rank is the
rounded quotient plus the ranks of the blocks below, so a quotient that rounds up to `2 ^ 53` is
already the first rank of the next block.

A number is written with a fixed count of decimal places: the exact value is rounded to a multiple
of `10 ^ -places`, and all digits of the count are written, without an exponent.
-/

namespace SumProduct

/-- `num / den` rounded to the nearest natural number, a half to the even neighbour. -/
def roundHalfEven (num den : Nat) : Nat :=
  let quotient := num / den
  let twice := 2 * (num % den)
  if twice < den ∨ (twice = den ∧ quotient % 2 = 0) then quotient else quotient + 1

/-- The rank nearest to `num / den` units, as if the ranks had no end. -/
def nearestRank (num den : Nat) : Nat :=
  let doublings := (num / den).log2 - 52
  doublings * 2 ^ 52 + roundHalfEven num (den * 2 ^ doublings)

@[simp] theorem nearestRank_zero {den : Nat} : nearestRank 0 den = 0 := by
  simp [nearestRank, roundHalfEven]
  omega

/-- The number nearest to `num / den` units, if that is finite. -/
def Number.nearest? (num den : Nat) : Option Number :=
  if finite : nearestRank num den < rankLimit then some ⟨nearestRank num den, finite⟩ else none

@[simp] theorem Number.nearest?_zero {den : Nat} : nearest? 0 den = some zero := by
  have finite : nearestRank 0 den < rankLimit := by simp
  rw [nearest?, dif_pos finite]
  exact congrArg some (Number.ext nearestRank_zero)

/-! ## Decimal places -/

/-- `n` with leading zeros up to `width` digits. -/
def paddedDigits (width n : Nat) : List Char :=
  (Nat.toDigits 10 n).leftpad width '0'

namespace Number

/-- The value as a count of `10 ^ -places`, rounded. -/
def scaled (v : Number) (places : Nat) : Nat :=
  roundHalfEven (v.units * 10 ^ places) unitsPerOne

def fixed (v : Number) (places : Nat) : List Char :=
  let count := v.scaled places
  Nat.toDigits 10 (count / 10 ^ places) ++ '.' :: paddedDigits places (count % 10 ^ places)

/-- The text of a number in an expression: four decimal places. -/
def text (v : Number) : List Char := v.fixed 4

end Number

end SumProduct
