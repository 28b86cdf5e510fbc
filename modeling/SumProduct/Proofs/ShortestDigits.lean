import SumProduct.Decimal.Layout
import SumProduct.Proofs.Nearest

/-!
# The shortest decimal of a number

The values that are rounded to a number have no gaps (`RoundsTo.between`). So if any multiple of a
power of ten is rounded to a number, one of the two next to the number is, and the search for the
shortest decimal need not look at others. It finds the coarsest multiple (`coarsest_shortestFrom`).

The coarsest multiple has the fewest digits (`shortest_digits_lt`): if another one had fewer, then a
power of ten would lie between the two, and that would be coarser.
-/

namespace SumProduct

theorem zpow_ten_pos (exponent : Int) : (0 : ℚ) < 10 ^ exponent := zpow_pos (by norm_num) exponent

theorem zpow_ten_le {k l : Int} (le : k ≤ l) : (10 : ℚ) ^ k ≤ 10 ^ l :=
  zpow_le_zpow_right₀ (by norm_num) le

namespace Number

variable {v : Number} {d : Decimal} {grid top : Int}

/-! ## One grid -/

/-- How many steps of a grid are in a number. -/
def stepsBelow (v : Number) (grid : Int) : Nat :=
  v.units * 10 ^ (-grid).toNat / (unitsPerOne * 10 ^ grid.toNat)

theorem stepsBelow_bounds (v : Number) (grid : Int) :
    v.stepsBelow grid * 10 ^ grid ≤ v.toRat ∧ v.toRat < (v.stepsBelow grid + 1) * 10 ^ grid := by
  have value : v.toRat / 10 ^ grid =
      (v.units * 10 ^ (-grid).toNat : Nat) / (unitsPerOne * 10 ^ grid.toNat : Nat) := by
    rw [toRat, Decimal.zpow_ten_eq, Nat.cast_mul, Nat.cast_mul, div_div_div_eq]
    push_cast
    rfl
  have den_pos : 0 < unitsPerOne * 10 ^ grid.toNat :=
    Nat.mul_pos unitsPerOne_pos (Nat.pow_pos (by decide))
  rw [← le_div_iff₀ (zpow_ten_pos grid), ← div_lt_iff₀ (zpow_ten_pos grid), value, stepsBelow]
  generalize v.units * 10 ^ (-grid).toNat = num
  generalize unitsPerOne * 10 ^ grid.toNat = den at den_pos ⊢
  rw [le_div_iff₀ (Nat.cast_pos.mpr den_pos), div_lt_iff₀ (Nat.cast_pos.mpr den_pos)]
  norm_cast
  rw [Nat.mul_comm (num / den + 1)]
  exact ⟨Nat.div_mul_le_self num den, Nat.lt_mul_div_succ num den_pos⟩

/-- A hit is one of the two neighbours, and so at most one step above the number. -/
theorem onGrid?_eq_some (hit : v.onGrid? grid = some d) :
    d.exponent = grid ∧ RoundsTo d.toRat v ∧ d.toRat ≤ v.toRat + 10 ^ grid := by
  have neighbour : (d = ⟨v.stepsBelow grid, grid⟩ ∨ d = ⟨v.stepsBelow grid + 1, grid⟩) ∧
      d.nearest? = some v := by
    simp only [onGrid?] at hit
    split at hit
    · next below =>
      split at hit
      · next closer =>
        cases hit
        exact ⟨.inr rfl, closer.1⟩
      · cases hit
        exact ⟨.inl rfl, below⟩
    · split at hit
      · next above =>
        cases hit
        exact ⟨.inr rfl, above⟩
      · cases hit
  obtain ⟨le, -⟩ := v.stepsBelow_bounds grid
  rw [Decimal.nearest?_eq_some_iff] at neighbour
  obtain ⟨rfl | rfl, rounds⟩ := neighbour
  · exact ⟨rfl, rounds, le.trans (le_add_of_nonneg_right (zpow_ten_pos grid).le)⟩
  · refine ⟨rfl, rounds, ?_⟩
    rw [Decimal.toRat, Nat.cast_succ, add_mul, one_mul]
    exact add_le_add_left le _

/-- Where both neighbours are missed, so are the multiples on either side. -/
theorem onGrid?_eq_none (miss : v.onGrid? grid = none) (m : ℕ) : ¬RoundsTo (m * 10 ^ grid) v := by
  obtain ⟨le, lt⟩ := v.stepsBelow_bounds grid
  have missed : ¬RoundsTo (Decimal.toRat ⟨v.stepsBelow grid, grid⟩) v ∧
      ¬RoundsTo (Decimal.toRat ⟨v.stepsBelow grid + 1, grid⟩) v := by
    rw [← Decimal.nearest?_eq_some_iff, ← Decimal.nearest?_eq_some_iff]
    simp only [onGrid?] at miss
    split at miss
    · split at miss <;> cases miss
    · split at miss
      · cases miss
      · next below above => exact ⟨below, above⟩
  intro rounds
  rcases Nat.lt_or_ge (v.stepsBelow grid) m with above | below
  · refine missed.2 ((RoundsTo.self v).between rounds ?_ ?_)
    · exact_mod_cast lt.le
    · exact mul_le_mul_of_nonneg_right (Nat.cast_le.mpr above) (zpow_ten_pos grid).le
  · refine missed.1 (rounds.between (RoundsTo.self v) ?_ le)
    exact mul_le_mul_of_nonneg_right (Nat.cast_le.mpr below) (zpow_ten_pos grid).le

/-! ## The search -/

/-- A multiple of a power of ten that is rounded to the number, at most one step above it. No power
from there to the one on top has such a multiple. -/
structure Coarsest (v : Number) (top : Int) (d : Decimal) : Prop where
  le : d.exponent ≤ top
  rounded : RoundsTo d.toRat v
  near : d.toRat ≤ v.toRat + 10 ^ d.exponent
  coarser : ∀ k, d.exponent < k → k ≤ top → ∀ m : ℕ, ¬RoundsTo (m * 10 ^ k) v

/-- By induction on the grids: a hit is at most a step above the number, and a miss leaves the
search to the finer grids. On the finest one the number itself is a multiple. -/
theorem coarsest_shortestFrom (v : Number) (n : Nat) :
    Coarsest v (n - 1074) (v.shortestFrom n) := by
  induction n with
  | zero =>
    have exact : (v.shortestFrom 0).toRat = v.toRat :=
      @Decimal.toRat_units v 1074 unitsPerOne_eq
    refine ⟨le_rfl, exact ▸ .self v, ?_, fun k above le => ?_⟩
    · rw [exact]
      exact le_add_of_nonneg_right (zpow_ten_pos _).le
    · exact absurd le (not_le.mpr above)
  | succ n ih =>
    rw [shortestFrom, Nat.cast_succ]
    cases found : v.onGrid? (n + 1 - 1074) with
    | some d =>
      obtain ⟨same, rounds, near⟩ := onGrid?_eq_some found
      rw [Option.getD_some]
      exact ⟨same.le, rounds, same.symm ▸ near,
        fun k above le => absurd le (not_le.mpr (same ▸ above))⟩
    | none =>
      obtain ⟨le, rounded, near, coarser⟩ := ih
      rw [Option.getD_none]
      refine ⟨le.trans (by omega), rounded, near, fun k above le => ?_⟩
      rcases eq_or_ne k (n + 1 - 1074) with rfl | finer
      · exact onGrid?_eq_none found
      · exact coarser k above (by omega)

/-- No value is as large as a step of the first grid. Above one, three doublings make less than one
decimal place; below one, ten halvings make more than three. -/
theorem toRat_lt_coarsestGrid (v : Number) : v.toRat < 10 ^ ((v.coarsestGrid : Int) - 1074) := by
  obtain ⟨m, m_eq, one⟩ := exists_unitsPerOne_eq
  have bits : v.units < 2 ^ (v.units.log2 + 1) := Nat.lt_log2_self
  rw [toRat, div_lt_iff₀ cast_unitsPerOne_pos, one, coarsestGrid]
  generalize v.units.log2 = l at bits ⊢
  split
  · next large =>
    obtain ⟨n, n_eq⟩ : ∃ n, n = (l - 1073) / 3 + 1 := ⟨_, rfl⟩
    have exponent : ((1074 + ((l - 1073) / 3 + 1) : Nat) : Int) - 1074 = n := by omega
    have lt : v.units < 10 ^ n * 2 ^ m := calc
      v.units < 2 ^ (l + 1) := bits
      _ ≤ 2 ^ (3 * n + m) := Nat.pow_le_pow_right Nat.two_pos (by omega)
      _ = 8 ^ n * 2 ^ m := by rw [Nat.pow_add, Nat.pow_mul]
      _ ≤ 10 ^ n * 2 ^ m := Nat.mul_le_mul_right _ (Nat.pow_le_pow_left (by decide) n)
    rw [exponent, zpow_natCast]
    exact_mod_cast lt
  · next small =>
    obtain ⟨n, n_eq⟩ : ∃ n, n = (1073 - l) / 10 := ⟨_, rfl⟩
    have exponent : ((1074 - 3 * ((1073 - l) / 10) : Nat) : Int) - 1074 = -(3 * n : Nat) := by
      omega
    have lt : v.units * 10 ^ (3 * n) < 2 ^ m := calc
      v.units * 10 ^ (3 * n) < 2 ^ (l + 1) * 10 ^ (3 * n) :=
        Nat.mul_lt_mul_of_pos_right bits (Nat.pow_pos (by decide))
      _ = 2 ^ (l + 1) * 1000 ^ n := by rw [Nat.pow_mul]
      _ ≤ 2 ^ (l + 1) * 1024 ^ n := Nat.mul_le_mul_left _ (Nat.pow_le_pow_left (by decide) n)
      _ = 2 ^ (l + 1 + 10 * n) := by rw [Nat.pow_add 2 (l + 1), Nat.pow_mul]
      _ ≤ 2 ^ m := Nat.pow_le_pow_right Nat.two_pos (by omega)
    rw [exponent, zpow_neg, zpow_natCast, inv_mul_eq_div, lt_div_iff₀ (by positivity)]
    exact_mod_cast lt

/-! ## Fewest digits -/

section Fewest

variable {m s : ℕ} {k : Int}

/-- Where the search gets past the grid on top, no power of ten beyond the grid of its result has a
multiple that is rounded to the number: beyond the top the first multiple would be a hit there. -/
theorem Coarsest.not_roundsTo (coarsest : Coarsest v top d) (top_lt : v.toRat < 10 ^ top)
    (fine : d.exponent < top) (above : d.exponent < k) (m_pos : 0 < m) :
    ¬RoundsTo (m * 10 ^ k) v := by
  intro rounds
  rcases le_or_gt k top with tried | beyond
  · exact coarsest.coarser k above tried m rounds
  · have le : (10 : ℚ) ^ top ≤ m * 10 ^ k := calc
      (10 : ℚ) ^ top ≤ 10 ^ k := zpow_ten_le beyond.le
      _ ≤ m * 10 ^ k := le_mul_of_one_le_left (zpow_ten_pos k).le (Nat.one_le_cast.mpr m_pos)
    refine coarsest.coarser top fine le_rfl 1 ?_
    rw [Nat.cast_one, one_mul]
    exact (RoundsTo.self v).between rounds top_lt.le le

/-- A hit on the grid on top has one digit. Below the top, a multiple with fewer digits would leave
a power of ten between the two. -/
theorem Coarsest.digits_lt (coarsest : Coarsest v top d) (top_lt : v.toRat < 10 ^ top)
    (m_pos : 0 < m) (rounds : RoundsTo (m * 10 ^ k) v) (lt : m < 10 ^ s) : d.digits < 10 ^ s := by
  have s_pos : 0 < s := by
    rcases Nat.eq_zero_or_pos s with rfl | s_pos
    · exact absurd lt (Nat.not_lt.mpr m_pos)
    · exact s_pos
  rcases lt_or_eq_of_le coarsest.le with fine | last
  · by_contra long
    have le : k ≤ d.exponent := by
      by_contra above
      exact coarsest.not_roundsTo top_lt fine (not_le.mp above) m_pos rounds
    have low : (m : ℚ) * 10 ^ k ≤ 10 ^ s * 10 ^ d.exponent :=
      mul_le_mul (by exact_mod_cast lt.le) (zpow_ten_le le) (zpow_ten_pos k).le (by positivity)
    have high : (10 : ℚ) ^ s * 10 ^ d.exponent ≤ d.toRat :=
      mul_le_mul_of_nonneg_right (by exact_mod_cast Nat.not_lt.mp long) (zpow_ten_pos _).le
    have power : (10 : ℚ) ^ s * 10 ^ d.exponent = (1 : ℕ) * 10 ^ (s + d.exponent) := by
      rw [Nat.cast_one, one_mul, zpow_add₀ (by norm_num), zpow_natCast]
    have between := rounds.between coarsest.rounded low high
    exact coarsest.not_roundsTo top_lt fine (by omega) Nat.one_pos (power ▸ between)
  · have small : (d.digits : ℚ) * 10 ^ top < 2 * 10 ^ top := calc
      (d.digits : ℚ) * 10 ^ top = d.toRat := by rw [Decimal.toRat, last]
      _ ≤ v.toRat + 10 ^ top := last ▸ coarsest.near
      _ < 2 * 10 ^ top := by linarith
    have short : d.digits < 2 := by
      exact_mod_cast lt_of_mul_lt_mul_right small (zpow_ten_pos top).le
    have ten_le : 10 ^ 1 ≤ 10 ^ s := Nat.pow_le_pow_right (by decide) s_pos
    exact short.trans_le ((by decide : 2 ≤ 10 ^ 1).trans ten_le)

@[simp] theorem shortest_zero : zero.shortest = ⟨0, 0⟩ := if_pos rfl

theorem coarsest_shortest (v_ne : v ≠ zero) : Coarsest v (v.coarsestGrid - 1074) v.shortest := by
  rw [shortest, if_neg v_ne]
  exact v.coarsest_shortestFrom v.coarsestGrid

theorem roundsTo_shortest (v : Number) : RoundsTo v.shortest.toRat v := by
  rcases eq_or_ne v zero with rfl | v_ne
  · have exact : zero.shortest.toRat = zero.toRat := by
      simp [Decimal.toRat]
    exact exact ▸ .self zero
  · exact (coarsest_shortest v_ne).rounded

theorem shortest_digits_lt (rounds : RoundsTo (m * 10 ^ k) v) (lt : m < 10 ^ s) :
    v.shortest.digits < 10 ^ s := by
  rcases eq_or_ne v zero with rfl | v_ne
  · simp
  · have m_pos : 0 < m := by
      rcases Nat.eq_zero_or_pos m with rfl | m_pos
      · rw [Nat.cast_zero, zero_mul, ← toRat_zero] at rounds
        exact absurd (rounds.nearest.unique zero.isNearest_self) v_ne
      · exact m_pos
    exact (coarsest_shortest v_ne).digits_lt v.toRat_lt_coarsestGrid m_pos rounds lt

end Fewest

/-- A whole number is a multiple of one, which is coarse enough. -/
theorem exponent_shortest_nonneg (whole : v.IsWhole) : 0 ≤ v.shortest.exponent := by
  rcases eq_or_ne v zero with rfl | v_ne
  · simp
  · obtain ⟨n, value⟩ := whole
    have n_pos : 0 < n := by
      rcases Nat.eq_zero_or_pos n with rfl | n_pos
      · rw [Nat.cast_zero, ← toRat_zero] at value
        exact absurd (toRat_inj.mp value) v_ne
      · exact n_pos
    have top_lt := v.toRat_lt_coarsestGrid
    have top_nonneg : 0 ≤ (v.coarsestGrid : Int) - 1074 := by
      by_contra below
      have le : (10 : ℚ) ^ ((v.coarsestGrid : Int) - 1074) ≤ 10 ^ (0 : Int) :=
        zpow_ten_le (not_le.mp below).le
      have one_le : (1 : ℚ) ≤ n := Nat.one_le_cast.mpr n_pos
      rw [zpow_zero] at le
      linarith
    by_contra fine
    refine (coarsest_shortest v_ne).coarser 0 (not_le.mp fine) top_nonneg n ?_
    rw [zpow_zero, mul_one, ← value]
    exact .self v

end Number

end SumProduct
