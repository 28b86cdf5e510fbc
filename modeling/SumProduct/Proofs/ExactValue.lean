import Mathlib.Algebra.Order.Field.Basic
import Mathlib.Data.Rat.Cast.Order
import Mathlib.Tactic.Linarith
import SumProduct.Proofs.Rounding

/-!
# Exact values

A number has a rational value, its units divided by those of one. Numbers in the order of their
ranks are in the order of their values. Each whole number up to `2 ^ 53` is the value of a number
(`Number.exists_toRat_eq`), and the numbers from `2 ^ 52` on are all whole (`Number.isWhole_of_le`).
-/

namespace SumProduct

/-! ## Units in the order of the ranks -/

/-- The step from a rank to the next is a power of two. The value is a multiple of it, with at most
53 bits, and with 53 bits unless the step is a unit. -/
theorem exists_step (rank : Nat) : ∃ doublings significand,
    rank = doublings * 2 ^ 52 + significand ∧
    unitsOfRank rank = significand * 2 ^ doublings ∧
    unitsOfRank (rank + 1) = (significand + 1) * 2 ^ doublings ∧
    significand < 2 ^ 53 ∧ (doublings = 0 ∨ 2 ^ 52 ≤ significand) := by
  obtain ⟨doublings, significand, rfl, lt, normal⟩ := exists_block rank
  refine ⟨doublings, significand, rfl, unitsOfRank_block (Nat.le_of_lt lt) normal, ?_, lt, normal⟩
  rw [Nat.add_assoc, unitsOfRank_block (by omega) (by omega)]

theorem unitsOfRank_strictMono : StrictMono unitsOfRank := by
  refine strictMono_nat_of_lt_succ fun rank => ?_
  obtain ⟨doublings, significand, -, value, next, -, -⟩ := exists_step rank
  rw [value, next]
  exact Nat.mul_lt_mul_of_pos_right (Nat.lt_succ_self significand) (Nat.two_pow_pos doublings)

/-- A multiple of a power of two is the value of a rank if the factor has 53 bits at most. By
induction on the exponent: a factor of fewer bits leaves room to be doubled. -/
theorem exists_unitsOfRank_eq {factor : Nat} (le : factor ≤ 2 ^ 53) (exponent : Nat) :
    ∃ rank, unitsOfRank rank = factor * 2 ^ exponent := by
  induction exponent generalizing factor with
  | zero => exact ⟨0 * 2 ^ 52 + factor, unitsOfRank_block le (.inl rfl)⟩
  | succ exponent ih =>
    rcases Nat.lt_or_ge factor (2 ^ 52) with short | long
    · obtain ⟨rank, value⟩ := @ih (2 * factor) (by omega)
      refine ⟨rank, value.trans ?_⟩
      ring
    · exact ⟨_, unitsOfRank_block le (.inr long)⟩

namespace Number

/-! ## Rational values -/

/-- The exact value of a number. -/
def toRat (v : Number) : ℚ := v.units / unitsPerOne

@[simp] theorem toRat_zero : zero.toRat = 0 := by
  simp [toRat]

@[simp] theorem toRat_one : one.toRat = 1 := by
  simp [toRat, Nat.ne_of_gt]

theorem cast_unitsPerOne_pos : (0 : ℚ) < unitsPerOne := Nat.cast_pos.mpr unitsPerOne_pos

@[simp] theorem toRat_nonneg (v : Number) : 0 ≤ v.toRat :=
  div_nonneg (Nat.cast_nonneg _) (le_of_lt cast_unitsPerOne_pos)

/-- The value from which on nothing is rounded to a number. -/
theorem cast_overflowUnits : (overflowUnits : ℚ) = (2 ^ 1024 - 2 ^ 970) * unitsPerOne := by
  -- The exponents are variables, so that nothing computes the powers.
  obtain ⟨k, m, n, low, high, sum, one, limit⟩ : ∃ k m n, 970 = k ∧ 1024 = k + 54 ∧ n = k + m ∧
      unitsPerOne = 2 ^ m ∧ overflowUnits = 18014398509481983 * 2 ^ n :=
    ⟨970, 1074, 2044, rfl, rfl, rfl, unitsPerOne_eq, overflowUnits_eq⟩
  rw [limit, one, low, high, sum]
  push_cast
  ring

theorem le_div_unitsPerOne_iff {units : ℕ} :
    2 ^ 1024 - 2 ^ 970 ≤ (units : ℚ) / unitsPerOne ↔ overflowUnits ≤ units := by
  rw [le_div_iff₀ cast_unitsPerOne_pos, ← cast_overflowUnits, Nat.cast_le]

variable {v w : Number}

theorem units_lt_units_iff : v.units < w.units ↔ v.rank < w.rank :=
  unitsOfRank_strictMono.lt_iff_lt

theorem toRat_lt_toRat_iff : v.toRat < w.toRat ↔ v.rank < w.rank := by
  rw [toRat, toRat, div_lt_div_iff_of_pos_right cast_unitsPerOne_pos, Nat.cast_lt,
    units_lt_units_iff]

theorem toRat_le_toRat_iff : v.toRat ≤ w.toRat ↔ v.rank ≤ w.rank := by
  rw [← not_lt, toRat_lt_toRat_iff, Nat.not_lt]

@[simp] theorem toRat_inj : v.toRat = w.toRat ↔ v = w := by
  refine ⟨fun same => Number.ext ?_, congrArg toRat⟩
  have notBelow : ¬v.rank < w.rank := by
    rw [← toRat_lt_toRat_iff, same]
    exact lt_irrefl _
  have notAbove : ¬w.rank < v.rank := by
    rw [← toRat_lt_toRat_iff, same]
    exact lt_irrefl _
  omega

/-! ## Whole numbers -/

/-- The value is a natural number. -/
def IsWhole (v : Number) : Prop := ∃ n : ℕ, v.toRat = n

theorem toRat_eq_of_units {n : ℕ} (units : v.units = n * unitsPerOne) : v.toRat = n := by
  rw [toRat, units, Nat.cast_mul, mul_div_cancel_right₀ _ (ne_of_gt cast_unitsPerOne_pos)]

theorem exists_toRat_eq {n : ℕ} (le : n ≤ 2 ^ 53) : ∃ v : Number, v.toRat = n := by
  obtain ⟨m, k, large, one, limit, -⟩ := exists_last_block
  obtain ⟨rank, value⟩ := exists_unitsOfRank_eq le m
  have last : unitsOfRank rankLimit = 2 ^ 53 * 2 ^ (k + 1) := by
    rw [limit, Nat.add_assoc]
    exact unitsOfRank_block (by decide) (.inr (by decide))
  have finite : rank < rankLimit := by
    rw [← unitsOfRank_strictMono.lt_iff_lt, value, last]
    refine Nat.lt_of_le_of_lt (Nat.mul_le_mul_right _ le) ?_
    exact Nat.mul_lt_mul_of_pos_left (Nat.pow_lt_pow_right (by decide) (Nat.lt_succ_of_le large))
      (by decide)
  exact ⟨⟨rank, finite⟩, toRat_eq_of_units (value.trans (by rw [one]))⟩

/-- A number has 53 bits at most, so a large one is a multiple of a power of two. -/
theorem two_pow_dvd_units {k : Nat} (le : 2 ^ 52 * 2 ^ k ≤ v.units) : 2 ^ k ∣ v.units := by
  obtain ⟨doublings, significand, -, value, -, lt, -⟩ := exists_step v.rank
  rw [units, value] at le ⊢
  have short : 2 ^ (52 + k) < 2 ^ (53 + doublings) := by
    rw [Nat.pow_add, Nat.pow_add]
    exact Nat.lt_of_le_of_lt le (Nat.mul_lt_mul_of_pos_right lt (Nat.two_pow_pos doublings))
  have long := (Nat.pow_lt_pow_iff_right (by decide)).mp short
  exact (Nat.pow_dvd_pow 2 (by omega)).mul_left significand

theorem isWhole_of_le (le : 2 ^ 52 ≤ v.toRat) : v.IsWhole := by
  obtain ⟨m, -, -, one, -, -⟩ := exists_last_block
  rw [toRat, le_div_iff₀ cast_unitsPerOne_pos, one] at le
  obtain ⟨n, value⟩ := two_pow_dvd_units (by exact_mod_cast le)
  exact ⟨n, toRat_eq_of_units (by rw [value, one, Nat.mul_comm])⟩

end Number

end SumProduct
