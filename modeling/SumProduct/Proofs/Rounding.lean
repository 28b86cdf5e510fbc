import Mathlib.Tactic.Ring
import SumProduct.Number.Rounding

/-!
# Rounding to the nearest number

The ranks cut the line of exact values into cells: a value is rounded to `rank` or below if it is
under the midpoint between `rank` and `rank + 1`, or on it and `rank` is even
(`nearestRank_le_iff`). This says all there is to say about the nearest rank. From it follows where
the finite numbers end (`nearestRank_lt_rankLimit_iff`).
-/

namespace SumProduct

/-! ## Rounding a quotient -/

theorem roundHalfEven_le_iff {num den k : Nat} (den_pos : 0 < den) :
    roundHalfEven num den ≤ k ↔
      2 * num < (2 * k + 1) * den ∨ (2 * num = (2 * k + 1) * den ∧ k % 2 = 0) := by
  have split : den * (num / den) + num % den = num := Nat.div_add_mod num den
  have small : num % den < den := Nat.mod_lt num den_pos
  have expand : (2 * k + 1) * den = 2 * (den * k) + den := by ring
  rw [expand]
  simp only [roundHalfEven]
  generalize num / den = q at *
  generalize num % den = r at *
  rcases Nat.lt_trichotomy k q with below | same | above
  · have step : den * k + den ≤ den * q := by
      rw [← Nat.mul_succ]
      exact Nat.mul_le_mul_left den below
    have up : k < q ∧ k < q + 1 := ⟨below, Nat.lt_succ_of_lt below⟩
    constructor
    · intro le
      split at le <;> omega
    · omega
  · subst same
    split <;> omega
  · have step : den * q + den ≤ den * k := by
      rw [← Nat.mul_succ]
      exact Nat.mul_le_mul_left den above
    constructor
    · omega
    · intro _
      split <;> omega

theorem roundHalfEven_le {num den k : Nat} (den_pos : 0 < den) (le : num ≤ k * den) :
    roundHalfEven num den ≤ k := by
  have expand : (2 * k + 1) * den = 2 * (k * den) + den := by ring
  rw [roundHalfEven_le_iff den_pos, expand]
  omega

theorem le_roundHalfEven {num den k : Nat} (den_pos : 0 < den) (le : k * den ≤ num) :
    k ≤ roundHalfEven num den := by
  cases k with
  | zero => exact Nat.zero_le _
  | succ k =>
    have expand : (2 * k + 1) * den + den = 2 * ((k + 1) * den) := by ring
    rw [Nat.succ_le_iff, ← Nat.not_le, roundHalfEven_le_iff den_pos]
    omega

/-- Rounding goes up by half a step at most. -/
theorem two_mul_roundHalfEven_le (num : Nat) {den : Nat} (den_pos : 0 < den) :
    2 * (roundHalfEven num den * den) ≤ 2 * num + den := by
  rcases rounded : roundHalfEven num den with _ | k
  · omega
  · have above : ¬roundHalfEven num den ≤ k := by omega
    rw [roundHalfEven_le_iff den_pos] at above
    have expand : 2 * ((k + 1) * den) = (2 * k + 1) * den + den := by ring
    omega

/-! ## The exact value of a rank -/

/-- Ranks come in blocks of `2 ^ 52`. Two of them make up the first `2 ^ 53` ranks; in each later
block the significand has 53 bits. -/
theorem exists_block (rank : Nat) :
    ∃ doublings significand, rank = doublings * 2 ^ 52 + significand ∧ significand < 2 ^ 53 ∧
      (doublings = 0 ∨ 2 ^ 52 ≤ significand) :=
  ⟨rank / 2 ^ 52 - 1, rank - (rank / 2 ^ 52 - 1) * 2 ^ 52, by omega, by omega, by omega⟩

/-- The value in a block. It also holds at the end of the block, which is the start of the next. -/
theorem unitsOfRank_block {doublings significand : Nat} (le : significand ≤ 2 ^ 53)
    (normal : doublings = 0 ∨ 2 ^ 52 ≤ significand) :
    unitsOfRank (doublings * 2 ^ 52 + significand) = significand * 2 ^ doublings := by
  unfold unitsOfRank
  rcases Nat.lt_or_eq_of_le le with lt | rfl
  · have block : (doublings * 2 ^ 52 + significand) / 2 ^ 52 - 1 = doublings := by omega
    rw [block]
    simp
  · have block : (doublings * 2 ^ 52 + 2 ^ 53) / 2 ^ 52 - 1 = doublings + 1 := by omega
    have first : doublings * 2 ^ 52 + 2 ^ 53 - (doublings + 1) * 2 ^ 52 = 2 ^ 52 := by omega
    rw [block]
    simp only [first]
    ring

/-! ## The nearest rank -/

/-- The nearest rank lies in the block where the quotient has at most 53 bits, and 53 bits unless it
is the first block. -/
theorem exists_shift (num : Nat) {den : Nat} (den_pos : 0 < den) : ∃ shift,
    nearestRank num den = shift * 2 ^ 52 + roundHalfEven num (den * 2 ^ shift) ∧
    num < 2 ^ 53 * (den * 2 ^ shift) ∧ (shift = 0 ∨ 2 ^ 52 * (den * 2 ^ shift) ≤ num) := by
  have split (bits shift : Nat) : 2 ^ bits * (den * 2 ^ shift) = 2 ^ (bits + shift) * den := by ring
  refine ⟨(num / den).log2 - 52, rfl, ?_, ?_⟩
  · have bits : (num / den).log2 + 1 ≤ 53 + ((num / den).log2 - 52) := by omega
    rw [split, ← Nat.div_lt_iff_lt_mul den_pos]
    exact Nat.lt_of_lt_of_le Nat.lt_log2_self (Nat.pow_le_pow_right Nat.two_pos bits)
  · rcases Nat.eq_zero_or_pos ((num / den).log2 - 52) with none | some
    · exact .inl none
    · have bits : 52 + ((num / den).log2 - 52) = (num / den).log2 := by omega
      have nonzero : num / den ≠ 0 := by
        intro zero
        simp [zero] at some
      right
      rw [split, ← Nat.le_div_iff_mul_le den_pos, bits]
      exact Nat.log2_self_le nonzero

/-- In the block of a rank, rounding to the nearest rank is rounding to the nearest significand. -/
theorem nearestRank_le_block_iff {num den doublings significand : Nat} (den_pos : 0 < den)
    (lt : significand < 2 ^ 53) (normal : doublings = 0 ∨ 2 ^ 52 ≤ significand) :
    nearestRank num den ≤ doublings * 2 ^ 52 + significand ↔
      roundHalfEven num (den * 2 ^ doublings) ≤ significand := by
  obtain ⟨shift, rank_eq, upper, lower⟩ := exists_shift num den_pos
  have step_pos (n : Nat) : 0 < den * 2 ^ n := Nat.mul_pos den_pos (Nat.two_pow_pos n)
  have doubled {m n : Nat} (lt : m < n) : 2 * (den * 2 ^ m) ≤ den * 2 ^ n := by
    have le := Nat.mul_le_mul_left den (Nat.pow_le_pow_right Nat.two_pos lt)
    rwa [Nat.pow_succ', Nat.mul_left_comm] at le
  have ends : roundHalfEven num (den * 2 ^ shift) ≤ 2 ^ 53 :=
    roundHalfEven_le (step_pos shift) (Nat.le_of_lt upper)
  have starts : shift = 0 ∨ 2 ^ 52 ≤ roundHalfEven num (den * 2 ^ shift) :=
    lower.imp_right (le_roundHalfEven (step_pos shift))
  rw [rank_eq]
  -- In a lower block than that of the rank, the nearest rank is below it on both sides; in a
  -- higher one it is above.
  rcases Nat.lt_trichotomy shift doublings with above | rfl | below
  · have room := doubled above
    have big : 2 ^ 52 * (den * 2 ^ doublings) ≤ significand * (den * 2 ^ doublings) :=
      Nat.mul_le_mul_right _ (by omega)
    have rounds : roundHalfEven num (den * 2 ^ doublings) ≤ significand :=
      roundHalfEven_le (step_pos doublings) (by omega)
    omega
  · omega
  · have room := doubled below
    have small : (significand + 1) * (den * 2 ^ doublings) ≤ 2 ^ 53 * (den * 2 ^ doublings) :=
      Nat.mul_le_mul_right _ lt
    have rounds : significand + 1 ≤ roundHalfEven num (den * 2 ^ doublings) :=
      le_roundHalfEven (step_pos doublings) (by omega)
    omega

theorem nearestRank_le_iff {num den rank : Nat} (den_pos : 0 < den) :
    nearestRank num den ≤ rank ↔
      2 * num < (unitsOfRank rank + unitsOfRank (rank + 1)) * den ∨
      (2 * num = (unitsOfRank rank + unitsOfRank (rank + 1)) * den ∧ rank % 2 = 0) := by
  obtain ⟨doublings, significand, rfl, lt, normal⟩ := exists_block rank
  have next : unitsOfRank (doublings * 2 ^ 52 + significand + 1) =
      (significand + 1) * 2 ^ doublings := by
    rw [Nat.add_assoc, unitsOfRank_block (by omega) (by omega)]
  have midpoint : (significand * 2 ^ doublings + (significand + 1) * 2 ^ doublings) * den =
      (2 * significand + 1) * (den * 2 ^ doublings) := by ring
  have parity : (doublings * 2 ^ 52 + significand) % 2 = significand % 2 := by omega
  rw [nearestRank_le_block_iff den_pos lt normal,
    roundHalfEven_le_iff (Nat.mul_pos den_pos (Nat.two_pow_pos doublings)),
    unitsOfRank_block (Nat.le_of_lt lt) normal, next, midpoint, parity]

/-! ## The end of the finite numbers -/

/-- The midpoint between the last number and the value that would follow it: `2 ^ 1024 - 2 ^ 970`,
in units. -/
@[irreducible]
def overflowUnits : Nat := 18014398509481983 * 2 ^ 2044

theorem overflowUnits_eq : overflowUnits = 18014398509481983 * 2 ^ 2044 := by
  unfold overflowUnits
  rfl

/-- The exponents as variables, so that nothing computes the powers. -/
theorem exists_last_block : ∃ m n, m ≤ n ∧ unitsPerOne = 2 ^ m ∧
    rankLimit = (n + 1) * 2 ^ 52 + 9007199254740991 + 1 ∧
    overflowUnits = 18014398509481983 * 2 ^ n :=
  ⟨1074, 2044, by decide, unitsPerOne_eq, rankLimit_eq, overflowUnits_eq⟩

theorem nearestRank_lt_rankLimit_iff {num den : Nat} (den_pos : 0 < den) :
    nearestRank num den < rankLimit ↔ num < overflowUnits * den := by
  obtain ⟨-, n, -, -, limit, overflow⟩ := exists_last_block
  have last : unitsOfRank ((n + 1) * 2 ^ 52 + 9007199254740991) =
      9007199254740991 * 2 ^ (n + 1) :=
    unitsOfRank_block (by decide) (.inr (by decide))
  have next : unitsOfRank ((n + 1) * 2 ^ 52 + 9007199254740991 + 1) =
      9007199254740992 * 2 ^ (n + 1) := by
    rw [Nat.add_assoc]
    exact unitsOfRank_block (by decide) (.inr (by decide))
  have midpoint : (9007199254740991 * 2 ^ (n + 1) + 9007199254740992 * 2 ^ (n + 1)) * den =
      2 * (18014398509481983 * 2 ^ n * den) := by ring
  have odd : ((n + 1) * 2 ^ 52 + 9007199254740991) % 2 = 1 := by omega
  rw [limit, overflow, Nat.lt_succ_iff, nearestRank_le_iff den_pos, last, next, midpoint, odd]
  omega

theorem Number.nearest?_eq_none_iff {num den : Nat} (den_pos : 0 < den) :
    Number.nearest? num den = none ↔ overflowUnits * den ≤ num := by
  rw [Number.nearest?, ← Nat.not_lt, ← nearestRank_lt_rankLimit_iff den_pos]
  split <;> simp [*]

/-- Adding one to a number does not carry it over the end. -/
theorem Number.units_add_one_le (v : Number) : v.units + unitsPerOne ≤ overflowUnits := by
  obtain ⟨m, n, large, one, limit, overflow⟩ := exists_last_block
  obtain ⟨doublings, significand, rank, lt, normal⟩ := exists_block v.rank
  have finite := v.rank_lt
  have one_le : unitsPerOne ≤ 2 ^ n := one ▸ Nat.pow_le_pow_right Nat.two_pos large
  have value : v.units = significand * 2 ^ doublings := by
    rw [Number.units, rank, unitsOfRank_block (Nat.le_of_lt lt) normal]
  have le : significand * 2 ^ doublings ≤ 9007199254740991 * 2 ^ (n + 1) :=
    Nat.mul_le_mul (by omega) (Nat.pow_le_pow_right Nat.two_pos (by omega))
  rw [Nat.pow_succ] at le
  omega

theorem Number.units_lt_overflowUnits (v : Number) : v.units < overflowUnits :=
  Nat.lt_of_lt_of_le (Nat.lt_add_of_pos_right unitsPerOne_pos) v.units_add_one_le

end SumProduct
