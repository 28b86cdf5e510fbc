/-!
# Numbers

A number is a finite binary64 value that is zero or positive. It is kept as its *rank*: the values
in increasing order have the ranks 0, 1, 2, and so on. The rank is also the bit pattern of the
value, so nothing has to be decoded to compare two numbers.

Every number is a whole multiple of `2 ^ -1074`, the smallest positive one. `Number.units` counts
these. All arithmetic on numbers is exact arithmetic on their units, followed by one rounding.
-/

namespace SumProduct

-- Powers of naturals are those of the core library, whatever else is imported.
attribute [instance (2000), default_instance 10001] instPowNat

/-- The rank at which the finite values end. -/
@[irreducible]
def rankLimit : Nat := 2047 * 2 ^ 52

/-- How many units make one: a unit is `2 ^ -1074`. -/
@[irreducible]
def unitsPerOne : Nat := 2 ^ 1074

theorem rankLimit_eq : rankLimit = 2047 * 2 ^ 52 := by
  unfold rankLimit
  rfl

theorem unitsPerOne_eq : unitsPerOne = 2 ^ 1074 := by
  unfold unitsPerOne
  rfl

@[simp] theorem rankLimit_pos : 0 < rankLimit := by
  rw [rankLimit_eq]
  decide

@[simp] theorem unitsPerOne_pos : 0 < unitsPerOne := by
  unfold unitsPerOne
  apply Nat.pow_pos
  decide

/-- The exact value of a rank, in units. Ranks below `2 ^ 53` are their own value. From there on
each further block of `2 ^ 52` ranks doubles the step between neighbours. -/
def unitsOfRank (rank : Nat) : Nat :=
  let doublings := rank / 2 ^ 52 - 1
  (rank - doublings * 2 ^ 52) * 2 ^ doublings

/-- A finite value that is zero or positive. -/
structure Number where
  rank : Nat
  rank_lt : rank < rankLimit
deriving DecidableEq

namespace Number

instance : Hashable Number where
  hash v := hash v.rank

/-- The exact value, in units of `2 ^ -1074`. -/
def units (v : Number) : Nat := unitsOfRank v.rank

def zero : Number := ⟨0, rankLimit_pos⟩

def one : Number := ⟨1023 * 2 ^ 52, by rw [rankLimit_eq]; decide⟩

@[ext]
theorem ext {v w : Number} (same : v.rank = w.rank) : v = w := by
  cases v
  cases w
  cases same
  rfl

@[simp] theorem units_zero : zero.units = 0 := by decide

@[simp] theorem units_one : one.units = unitsPerOne := by decide +kernel

end Number

end SumProduct
