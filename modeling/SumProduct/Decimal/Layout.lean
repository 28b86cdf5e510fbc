import SumProduct.Decimal.Basic

/-!
# Written numbers

Among the decimals whose nearest number is `v`, one on the coarsest grid has the fewest digits.
The grids are the multiples of the powers of ten. They are tried from coarse to fine, and on each
only the two neighbours of `v` have to be read back: if any multiple reads back as `v`, one of
these does. When both do, the nearer one is taken, and of two at the same distance the larger. The
finest grid is that of `10 ^ -1074`. It holds `v` itself, so the search ends there at the latest.

A decimal is written with all its digits (`plain`), with all its digits and always a point
(`pointed`), or with one digit before the point and an exponent (`scientific`). The first two
differ only for whole decimals, which `pointed` ends in `.0`.
-/

namespace SumProduct

/-! ## Shortest decimals -/

namespace Number

/-- A multiple of `10 ^ grid` next to `v` that reads back as `v`, the nearest if there are two. -/
def onGrid? (v : Number) (grid : Int) : Option Decimal :=
  let num := v.units * 10 ^ (-grid).toNat
  let den := unitsPerOne * 10 ^ grid.toNat
  let below : Decimal := ⟨num / den, grid⟩
  let above : Decimal := ⟨num / den + 1, grid⟩
  if below.nearest? = some v then
    if above.nearest? = some v ∧ den ≤ 2 * (num % den) then some above else some below
  else if above.nearest? = some v then some above
  else none

/-- The coarsest hit among the grids `10 ^ (n - 1074)` and finer ones. -/
def shortestFrom (v : Number) : (n : Nat) → Decimal
  | 0 => ⟨v.units * 5 ^ 1074, -1074⟩
  | n + 1 => (v.onGrid? (n + 1 - 1074)).getD (v.shortestFrom n)

/-- A grid whose step is above `v`, as the `n` of `10 ^ (n - 1074)`. The binary logarithm of the
units gives a power of two above `v`. Where that is above one, each three doublings make at most
one decimal place; below one, each ten halvings make at least three. -/
def coarsestGrid (v : Number) : Nat :=
  let l := v.units.log2
  if 1074 ≤ l then 1074 + ((l - 1073) / 3 + 1) else 1074 - 3 * ((1073 - l) / 10)

/-- The decimal with the fewest digits that reads back as `v`. -/
def shortest (v : Number) : Decimal :=
  if v = zero then ⟨0, 0⟩ else v.shortestFrom v.coarsestGrid

end Number

/-! ## Written forms -/

namespace Decimal

/-- The digits of a decimal, in positional notation without an exponent. -/
def plain (d : Decimal) : List Char :=
  if 0 ≤ d.exponent then
    if d.digits = 0 then ['0']
    else Nat.toDigits 10 d.digits ++ List.replicate d.exponent.toNat '0'
  else
    let places := (-d.exponent).toNat
    let text := paddedDigits (places + 1) d.digits
    text.take (text.length - places) ++ '.' :: text.drop (text.length - places)

def pointed (d : Decimal) : List Char :=
  if 0 ≤ d.exponent then d.plain ++ ['.', '0'] else d.plain

/-- The digits with a point after the first, and the exponent that puts it there. A single digit
has no point. -/
def scientific (d : Decimal) : List Char :=
  let text := Nat.toDigits 10 d.digits
  let point := if text.length = 1 then [] else ['.']
  let exponent := d.exponent + (text.length - 1 : Nat)
  text.take 1 ++ point ++ text.drop 1 ++ 'e' :: (toString exponent).toList

end Decimal

namespace Number

/-- Whether a number is written with an exponent where it is described: when it is at least `10 ^
16`, or below `10 ^ -4` and not zero. -/
def isExtreme (v : Number) : Bool :=
  10 ^ 16 * unitsPerOne ≤ v.units || (v ≠ zero && v.units * 10 ^ 4 < unitsPerOne)

/-- The shortest text that tells a number apart, with a point or an exponent. -/
def described (v : Number) : List Char :=
  if v.isExtreme then v.shortest.scientific else v.shortest.pointed

end Number

/-- The text of a double in a message: shortest digits without an exponent, a minus sign in front
of a negative value, and words for what is not finite. -/
def Double.text : Double → String
  | .finite negative magnitude => signed negative (String.ofList magnitude.shortest.plain)
  | .infinite negative => signed negative "inf"
  | .nan => "NaN"
where
  signed (negative : Bool) (text : String) : String := if negative then "-" ++ text else text

end SumProduct
