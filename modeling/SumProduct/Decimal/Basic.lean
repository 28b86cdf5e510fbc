import SumProduct.Double.Arithmetic

/-!
# Decimals and their texts

A decimal is a count of some power of ten. Its double is the nearest one, ties to even, at any
number of digits and any exponent. Exponents far outside the range of finite values are settled
first, by the size of the digits alone, so that no huge power is formed.

The text of a double is an optional sign, and then `inf`, `infinity` or `nan` in any case, or a
decimal. A decimal has digits before or after an optional point, at least one in all, and may end
in an exponent: `e` or `E`, an optional sign, and at least one digit.
-/

namespace SumProduct

/-- The value `digits * 10 ^ exponent`. -/
structure Decimal where
  digits : Nat
  exponent : Int
deriving DecidableEq

namespace Decimal

/-- The number nearest to a decimal, if that is finite. -/
def nearest? (d : Decimal) : Option Number :=
  if d.digits = 0 then some .zero
  else if 400 < d.exponent then none
  else if (d.digits.log2 + 1100 : Int) < -d.exponent then some .zero
  else Number.nearest? (d.digits * 10 ^ d.exponent.toNat * unitsPerOne) (10 ^ (-d.exponent).toNat)

/-- The double nearest to a decimal with a sign. -/
def toDouble (d : Decimal) (negative : Bool) : Double :=
  match d.nearest? with
  | some magnitude => .finite negative magnitude
  | none => .infinite negative

/-- The decimal with these digits before and after the point. -/
def ofDigits (whole fraction : List Char) : Decimal :=
  ⟨Nat.ofDigitChars 10 (whole ++ fraction) 0, -(fraction.length : Int)⟩

end Decimal

/-! ## Reading -/

/-- The leading digits of a text, and what follows them. -/
def splitDigits (text : List Char) : List Char × List Char :=
  (text.takeWhile Char.isDigit, text.dropWhile Char.isDigit)

@[simp] theorem splitDigits_append (text : List Char) :
    (splitDigits text).1 ++ (splitDigits text).2 = text :=
  List.takeWhile_append_dropWhile

/-- The digits after a point, if the text starts with one, and what follows them. -/
def splitFraction : List Char → List Char × List Char
  | '.' :: rest => splitDigits rest
  | rest => ([], rest)

theorem splitFraction_append {text : List Char} (nonempty : (splitFraction text).1 ≠ []) :
    '.' :: (splitFraction text).1 ++ (splitFraction text).2 = text := by
  unfold splitFraction at nonempty ⊢
  split at nonempty
  · simp
  · simp at nonempty

/-- Whether a text starts with a minus sign, and what follows a sign of either kind. -/
def splitSign : List Char → Bool × List Char
  | '+' :: rest => (false, rest)
  | '-' :: rest => (true, rest)
  | rest => (false, rest)

namespace Decimal

/-- The exponent that ends a decimal; nothing at all stands for zero. -/
def exponent? : List Char → Option Int
  | [] => some 0
  | mark :: rest =>
    let signed := splitSign rest
    if (mark = 'e' ∨ mark = 'E') ∧ signed.2 ≠ [] ∧ signed.2.all Char.isDigit then
      let magnitude : Int := Nat.ofDigitChars 10 signed.2 0
      some (if signed.1 then -magnitude else magnitude)
    else none

/-- The decimal with its point moved to the right. -/
def shift (d : Decimal) (places : Int) : Decimal := ⟨d.digits, d.exponent + places⟩

def ofText? (text : List Char) : Option Decimal :=
  let whole := splitDigits text
  let fraction := splitFraction whole.2
  if whole.1 ++ fraction.1 = [] then none
  else (exponent? fraction.2).map (ofDigits whole.1 fraction.1).shift

end Decimal

def Double.ofText? (text : List Char) : Option Double :=
  let signed := splitSign text
  let word := String.ofList (signed.2.map Char.toLower)
  if word = "inf" ∨ word = "infinity" then some (.infinite signed.1)
  else if word = "nan" then some .nan
  else (Decimal.ofText? signed.2).map (·.toDouble signed.1)

end SumProduct
