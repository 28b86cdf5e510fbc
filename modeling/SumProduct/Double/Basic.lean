import SumProduct.Number.Basic

/-!
# Doubles

A double is any binary64 value: a number with a sign, an infinity, or a NaN. All NaNs are one
value. The bit pattern has the sign in bit 63. The bits below it are the rank of a finite value;
the rank limit stands for infinity, and everything above for NaN.
-/

namespace SumProduct

inductive Double where
  | finite (negative : Bool) (magnitude : Number)
  | infinite (negative : Bool)
  | nan
deriving DecidableEq

namespace Double

/-- The double with a sign and the bits below it. -/
def ofRank (negative : Bool) (rank : Nat) : Double :=
  if isFinite : rank < rankLimit then .finite negative ⟨rank, isFinite⟩
  else if rank = rankLimit then .infinite negative
  else .nan

/-- The double of a pattern of 64 bits. -/
def ofBits (bits : Nat) : Double := ofRank (bits.testBit 63) (bits % 2 ^ 63)

/-- The bits below the sign. For NaN they are one pattern of many. -/
def rank : Double → Nat
  | .finite _ magnitude => magnitude.rank
  | .infinite _ => rankLimit
  | .nan => rankLimit + 2 ^ 51

def negative : Double → Bool
  | .finite negative _ | .infinite negative => negative
  | .nan => false

/-- The pattern of 64 bits. -/
def bits (d : Double) : Nat := (if d.negative then 2 ^ 63 else 0) + d.rank

@[simp] theorem ofRank_rank (d : Double) : ofRank d.negative d.rank = d := by
  cases d with
  | finite negative magnitude => exact dif_pos magnitude.rank_lt
  | infinite negative => exact (dif_neg (Nat.lt_irrefl rankLimit)).trans (if_pos rfl)
  | nan =>
    have above : rankLimit < rankLimit + 2 ^ 51 := Nat.lt_add_of_pos_right (Nat.two_pow_pos 51)
    exact (dif_neg (Nat.lt_asymm above)).trans (if_neg (Nat.ne_of_gt above))

theorem rank_lt (d : Double) : d.rank < 2 ^ 63 := by
  have limit : rankLimit + 2 ^ 51 < 2 ^ 63 := by
    rw [rankLimit_eq]
    decide
  cases d with
  | finite _ magnitude =>
    exact Nat.lt_trans magnitude.rank_lt (Nat.lt_of_le_of_lt (Nat.le_add_right _ _) limit)
  | infinite _ => exact Nat.lt_of_le_of_lt (Nat.le_add_right _ _) limit
  | nan => exact limit

theorem bits_mod (d : Double) : d.bits % 2 ^ 63 = d.rank := by
  unfold bits
  split
  · rw [Nat.add_mod_left, Nat.mod_eq_of_lt d.rank_lt]
  · rw [Nat.zero_add, Nat.mod_eq_of_lt d.rank_lt]

@[simp] theorem testBit_bits (d : Double) : d.bits.testBit 63 = d.negative := by
  unfold bits
  split
  · next negative =>
    rw [Nat.testBit_two_pow_add_eq, Nat.testBit_lt_two_pow d.rank_lt, negative, Bool.not_false]
  · next positive =>
    rw [Nat.zero_add, Nat.testBit_lt_two_pow d.rank_lt, Bool.eq_false_iff.2 positive]

@[simp] theorem ofBits_bits (d : Double) : ofBits d.bits = d := by
  rw [ofBits, testBit_bits, bits_mod, ofRank_rank]

end Double

/-- A number is the double with a plus sign. -/
def Number.toDouble (v : Number) : Double := .finite false v

end SumProduct
