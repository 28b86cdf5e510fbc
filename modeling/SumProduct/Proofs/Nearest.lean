import SumProduct.Decimal.Basic
import SumProduct.Number.Rounding
import SumProduct.Proofs.ExactValue

/-!
# Nearest values

`Nearest value even q i` says that among all values of a family that of `i` is nearest to `q`, and
that `i` is even where another value is as near. The families are the numbers, where a number is
even if its rank is, and the multiples of a power of ten.

Results:
1. `Number.nearest?_eq_some_iff`: a quotient is rounded to exactly the number that is nearest to it,
   as long as it lies below the end of the numbers (`RoundsTo`).
2. `Number.nearest_scaled`: the digits written of a number count the nearest multiple.
3. `Decimal.nearest?_eq_some_iff`: a decimal of any size is read as exactly the number that is
   nearest to it, although the powers of far exponents are never formed.
-/

namespace SumProduct

/-- Among all values that of `i` is nearest to `q`. Where another one is as near, `i` is even. -/
structure Nearest {ι : Type} (value : ι → ℚ) (even : ι → Prop) (q : ℚ) (i : ι) : Prop where
  le : ∀ j, |value i - q| ≤ |value j - q|
  tie : ∀ j, value j ≠ value i → |value j - q| = |value i - q| → even i

/-! ## Midpoints -/

section Midpoints

variable {a b q : ℚ}

/-- Of two values the one nearer to `q` is on the same side of their midpoint. -/
theorem abs_sub_lt_abs_sub_iff (lt : a < b) : |a - q| < |b - q| ↔ 2 * q < a + b := by
  have factor : (b - q) ^ 2 - (a - q) ^ 2 = (b - a) * (a + b - 2 * q) := by ring
  rw [← sq_lt_sq, ← sub_pos, factor, mul_pos_iff_of_pos_left (sub_pos.mpr lt), sub_pos]

theorem abs_sub_lt_abs_sub_iff' (lt : a < b) : |b - q| < |a - q| ↔ a + b < 2 * q := by
  have factor : (a - q) ^ 2 - (b - q) ^ 2 = (b - a) * (2 * q - (a + b)) := by ring
  rw [← sq_lt_sq, ← sub_pos, factor, mul_pos_iff_of_pos_left (sub_pos.mpr lt), sub_pos]

theorem abs_sub_eq_abs_sub_iff (lt : a < b) : |a - q| = |b - q| ↔ 2 * q = a + b := by
  rw [le_antisymm_iff, ← not_lt, ← not_lt, abs_sub_lt_abs_sub_iff' lt, abs_sub_lt_abs_sub_iff lt,
    not_lt, not_lt, ← le_antisymm_iff]

end Midpoints

namespace Nearest

variable {ι : Type} {value : ι → ℚ} {even : ι → Prop} {q : ℚ} {i j : ι}

theorem two_mul_le (nearest : Nearest value even q i) (lt : value i < value j) :
    2 * q ≤ value i + value j := by
  rw [← not_lt, ← abs_sub_lt_abs_sub_iff' lt, not_lt]
  exact nearest.le j

theorem le_two_mul (nearest : Nearest value even q i) (lt : value j < value i) :
    value j + value i ≤ 2 * q := by
  rw [← not_lt, ← abs_sub_lt_abs_sub_iff lt, not_lt]
  exact nearest.le j

theorem above (nearest : Nearest value even q i) (lt : value i < value j) :
    2 * q < value i + value j ∨ (2 * q = value i + value j ∧ even i) := by
  refine (lt_or_eq_of_le (nearest.two_mul_le lt)).imp_right fun half => ⟨half, ?_⟩
  exact nearest.tie j (ne_of_gt lt) ((abs_sub_eq_abs_sub_iff lt).mpr half).symm

theorem below (nearest : Nearest value even q i) (lt : value j < value i) :
    value j + value i < 2 * q ∨ (2 * q = value j + value i ∧ even i) := by
  refine (lt_or_eq_of_le (nearest.le_two_mul lt)).imp_right fun half => ⟨half.symm, ?_⟩
  exact nearest.tie j (ne_of_lt lt) ((abs_sub_eq_abs_sub_iff lt).mpr half.symm)

/-- It is enough to look at the midpoints with the other values. -/
theorem of_midpoints
    (above : ∀ j, value i < value j →
      2 * q < value i + value j ∨ (2 * q = value i + value j ∧ even i))
    (below : ∀ j, value j < value i →
      value j + value i < 2 * q ∨ (2 * q = value j + value i ∧ even i)) :
    Nearest value even q i where
  le j := by
    rcases lt_trichotomy (value i) (value j) with lt | same | lt
    · rw [← not_lt, abs_sub_lt_abs_sub_iff' lt, not_lt]
      exact (above j lt).elim le_of_lt fun half => le_of_eq half.1
    · rw [same]
    · rw [← not_lt, abs_sub_lt_abs_sub_iff lt, not_lt]
      exact (below j lt).elim le_of_lt fun half => le_of_eq half.1.symm
  tie j other same := by
    rcases lt_or_gt_of_ne other with lt | lt
    · rw [abs_sub_eq_abs_sub_iff lt] at same
      exact (below j lt).elim (fun inside => absurd same (ne_of_gt inside)) And.right
    · rw [eq_comm, abs_sub_eq_abs_sub_iff lt] at same
      exact (above j lt).elim (fun inside => absurd same (ne_of_lt inside)) And.right

/-- Two nearest values are the same if there is a value between any two that are even. -/
theorem unique (between : ∀ i j, even i → even j → value i < value j →
    ∃ k, value i < value k ∧ value k < value j)
    (left : Nearest value even q i) (right : Nearest value even q j) : value i = value j := by
  -- A value between the two would be nearer than one of them.
  have apart {i j : ι} (left : Nearest value even q i) (right : Nearest value even q j)
      (evens : even i ∧ even j) : ¬value i < value j := by
    intro lt
    obtain ⟨k, above, below⟩ := between i j evens.1 evens.2 lt
    have upper := left.two_mul_le above
    have lower := right.le_two_mul below
    linarith
  have same := le_antisymm (left.le j) (right.le i)
  by_contra other
  have evens : even i ∧ even j :=
    ⟨left.tie j (Ne.symm other) same.symm, right.tie i other same⟩
  exact other (le_antisymm (not_lt.mp (apart right left evens.symm))
    (not_lt.mp (apart left right evens)))

/-- What lies between two values with the same nearest one has it too. -/
theorem between {a b : ℚ} (low : Nearest value even a i) (high : Nearest value even b i)
    (le : a ≤ q) (le' : q ≤ b) : Nearest value even q i := by
  refine .of_midpoints (fun j lt => ?_) (fun j lt => ?_)
  · rcases high.above lt with inside | ⟨half, isEven⟩
    · exact .inl (by linarith)
    · exact (lt_or_eq_of_le (show 2 * q ≤ value i + value j by linarith)).imp_right (⟨·, isEven⟩)
  · rcases low.below lt with inside | ⟨half, isEven⟩
    · exact .inl (by linarith)
    · exact (lt_or_eq_of_le (show value j + value i ≤ 2 * q by linarith)).imp_right
        (⟨·.symm, isEven⟩)

/-- Part of a family. -/
theorem comap {κ : Type} (f : κ → ι) {k : κ} (nearest : Nearest value even q (f k)) :
    Nearest (fun k => value (f k)) (fun k => even (f k)) q k :=
  ⟨fun j => nearest.le (f j), fun j => nearest.tie (f j)⟩

/-- Another unit. -/
theorem div {c : ℚ} (pos : 0 < c) (nearest : Nearest value even q i) :
    Nearest (fun i => value i / c) even (q / c) i := by
  have scale (a : ℚ) : |a / c - q / c| = |a - q| / c := by
    rw [← sub_div, abs_div, abs_of_pos pos]
  constructor
  · intro j
    rw [scale, scale]
    exact (div_le_div_iff_of_pos_right pos).mpr (nearest.le j)
  · intro j other same
    rw [scale, scale, div_left_inj' (ne_of_gt pos)] at same
    exact nearest.tie j (fun equal => other (congrArg (· / c) equal)) same

end Nearest

/-- The cells of a rounding are those of the nearest value: it rounds to `k` or below on one side of
the midpoint between `k` and `k + 1`. -/
theorem nearest_of_le_iff {value : Nat → ℚ} {q : ℚ} {n : Nat} (mono : StrictMono value)
    (cells : ∀ k, n ≤ k ↔
      2 * q < value k + value (k + 1) ∨ (2 * q = value k + value (k + 1) ∧ k % 2 = 0)) :
    Nearest value (· % 2 = 0) q n := by
  refine .of_midpoints (fun j above => ?_) (fun j below => ?_)
  · have step : value (n + 1) ≤ value j := mono.monotone (mono.lt_iff_lt.mp above)
    rcases (cells n).mp (Nat.le_refl n) with inside | ⟨half, isEven⟩
    · exact .inl (by linarith)
    · rcases lt_or_eq_of_le step with beyond | next
      · exact .inl (by linarith)
      · exact .inr ⟨next ▸ half, isEven⟩
  · have lt : j < n := mono.lt_iff_lt.mp below
    obtain ⟨k, rfl⟩ : ∃ k, n = k + 1 := ⟨n - 1, by omega⟩
    have step : value j ≤ value k := mono.monotone (Nat.le_of_lt_succ lt)
    have outside := mt (cells k).mpr (Nat.not_succ_le_self k)
    rw [not_or, not_lt, not_and] at outside
    rcases lt_or_eq_of_le step with beyond | next
    · exact .inl (by linarith)
    · rcases lt_or_eq_of_le outside.1 with inside | half
      · exact .inl (by rwa [next])
      · have odd := outside.2 half.symm
        exact .inr ⟨by rw [next, half], by omega⟩

/-- The nearest multiple of a value that is not negative is the nearest natural one. -/
theorem Nearest.int {c q : ℚ} {n : Nat} (c_pos : 0 < c) (q_nonneg : 0 ≤ q)
    (nearest : Nearest (fun k : Nat => k / c) (· % 2 = 0) q n) :
    Nearest (fun k : Int => k / c) (· % 2 = 0) q n := by
  have negative (k : Nat) : |((n : Int) : ℚ) / c - q| < |((Int.negSucc k : Int) : ℚ) / c - q| := by
    have below : ((Int.negSucc k : Int) : ℚ) / c < 0 :=
      div_neg_of_neg_of_pos (Int.cast_lt_zero.mpr (Int.negSucc_lt_zero k)) c_pos
    have zero := nearest.le 0
    simp only [Nat.cast_zero, zero_div, zero_sub, abs_neg, abs_of_nonneg q_nonneg] at zero
    rw [Int.cast_natCast, abs_of_neg (show ((Int.negSucc k : Int) : ℚ) / c - q < 0 by linarith)]
    linarith
  constructor
  · rintro (k | k)
    · exact nearest.le k
    · exact le_of_lt (negative k)
  · rintro (k | k) other same
    · have isEven := nearest.tie k (by simpa using other) (by simpa using same)
      omega
    · exact absurd same (ne_of_gt (negative k))

/-! ## Rounded quotients -/

section Quotients

variable {num den a b : Nat}

theorem two_mul_div_lt_iff (den_pos : 0 < den) :
    2 * ((num : ℚ) / den) < a + b ↔ 2 * num < (a + b) * den := by
  rw [← mul_div_assoc, div_lt_iff₀ (Nat.cast_pos.mpr den_pos)]
  norm_cast

theorem two_mul_div_eq_iff (den_pos : 0 < den) :
    2 * ((num : ℚ) / den) = a + b ↔ 2 * num = (a + b) * den := by
  rw [← mul_div_assoc, div_eq_iff (Nat.cast_ne_zero.mpr (Nat.ne_of_gt den_pos))]
  norm_cast

theorem nearest_roundHalfEven (den_pos : 0 < den) :
    Nearest (fun k : Nat => (k : ℚ)) (· % 2 = 0) (num / den) (roundHalfEven num den) := by
  refine nearest_of_le_iff Nat.strictMono_cast fun k => ?_
  rw [two_mul_div_lt_iff den_pos, two_mul_div_eq_iff den_pos, ← Nat.add_assoc, ← Nat.two_mul]
  exact roundHalfEven_le_iff den_pos

theorem nearest_nearestRank (den_pos : 0 < den) :
    Nearest (fun rank => (unitsOfRank rank : ℚ)) (· % 2 = 0) (num / den) (nearestRank num den) := by
  refine nearest_of_le_iff (Nat.strictMono_cast.comp unitsOfRank_strictMono) fun rank => ?_
  rw [two_mul_div_lt_iff den_pos, two_mul_div_eq_iff den_pos]
  exact nearestRank_le_iff den_pos

end Quotients

/-! ## Nearest numbers -/

namespace Number

variable {v w : Number} {q : ℚ}

/-- Among all numbers `v` is nearest to `q`, with the even one of two. -/
def IsNearest (v : Number) (q : ℚ) : Prop := Nearest toRat (·.rank % 2 = 0) q v

theorem IsNearest.of_rank
    (nearest : Nearest (fun rank => unitsOfRank rank / unitsPerOne) (· % 2 = 0) q v.rank) :
    v.IsNearest q :=
  nearest.comap rank

theorem IsNearest.unique (left : v.IsNearest q) (right : w.IsNearest q) : v = w := by
  refine toRat_inj.mp (Nearest.unique (fun v w even even' lt => ?_) left right)
  simp only [toRat_lt_toRat_iff] at lt ⊢
  have room : v.rank + 1 < w.rank := by omega
  exact ⟨⟨v.rank + 1, room.trans w.rank_lt⟩, Nat.lt_succ_self v.rank, room⟩

theorem isNearest_self (v : Number) : v.IsNearest v.toRat where
  le w := by
    rw [sub_self, abs_zero]
    exact abs_nonneg _
  tie w other same := by
    rw [sub_self, abs_zero, abs_eq_zero, sub_eq_zero] at same
    exact absurd same other

/-- A whole number up to `2 ^ 53` is itself the nearest one, and above all numbers are whole. -/
theorem IsNearest.isWhole {n : ℕ} (nearest : v.IsNearest n) : v.IsWhole := by
  rcases Nat.le_or_ge n (2 ^ 53) with le | ge
  · obtain ⟨w, value⟩ := exists_toRat_eq le
    exact ⟨n, nearest.unique (value ▸ w.isNearest_self) ▸ value⟩
  · obtain ⟨w, value⟩ := exists_toRat_eq (Nat.le_refl (2 ^ 53))
    refine isWhole_of_le ?_
    by_contra below
    rw [Nat.cast_pow, Nat.cast_ofNat] at value
    have beyond : (2 : ℚ) ^ 53 ≤ n := by exact_mod_cast ge
    have half := nearest.two_mul_le (show v.toRat < w.toRat by linarith)
    linarith

theorem nearest_scaled (v : Number) (places : Nat) :
    Nearest (fun k : Int => k / 10 ^ places) (· % 2 = 0) v.toRat (v.scaled places) := by
  have pos : (0 : ℚ) < 10 ^ places := pow_pos (by norm_num) places
  have value : ((v.units * 10 ^ places : Nat) : ℚ) / unitsPerOne / 10 ^ places = v.toRat := by
    rw [Nat.cast_mul, Nat.cast_pow, Nat.cast_ofNat, mul_div_right_comm,
      mul_div_cancel_right₀ _ (ne_of_gt pos), toRat]
  have nearest : Nearest (fun k : Nat => (k : ℚ) / 10 ^ places) (· % 2 = 0) v.toRat
      (v.scaled places) := by
    rw [← value]
    exact (nearest_roundHalfEven unitsPerOne_pos).div pos
  exact nearest.int pos v.toRat_nonneg

end Number

/-! ## Values that are rounded to a number -/

/-- The value is below the end of the finite ones, and the number is the nearest to it. -/
structure RoundsTo (q : ℚ) (v : Number) : Prop where
  finite : q < 2 ^ 1024 - 2 ^ 970
  nearest : v.IsNearest q

namespace RoundsTo

variable {a b q : ℚ} {v : Number}

theorem self (v : Number) : RoundsTo v.toRat v where
  finite := by
    rw [← not_le, Number.toRat, Number.le_div_unitsPerOne_iff, Nat.not_le]
    exact v.units_lt_overflowUnits
  nearest := v.isNearest_self

theorem between (low : RoundsTo a v) (high : RoundsTo b v) (le : a ≤ q) (le' : q ≤ b) :
    RoundsTo q v :=
  ⟨lt_of_le_of_lt le' high.finite, low.nearest.between high.nearest le le'⟩

end RoundsTo

theorem Number.nearest?_eq_some_iff {num den : Nat} {v : Number} (den_pos : 0 < den) :
    nearest? num den = some v ↔ RoundsTo (num / den / unitsPerOne) v := by
  have finite_iff : nearestRank num den < rankLimit ↔
      (num / den / unitsPerOne : ℚ) < 2 ^ 1024 - 2 ^ 970 := by
    rw [nearestRank_lt_rankLimit_iff den_pos, div_lt_iff₀ cast_unitsPerOne_pos,
      ← cast_overflowUnits, div_lt_iff₀ (Nat.cast_pos.mpr den_pos)]
    norm_cast
  rw [nearest?]
  split
  · next finite =>
    have nearest : IsNearest ⟨nearestRank num den, finite⟩ (num / den / unitsPerOne) :=
      .of_rank ((nearest_nearestRank den_pos).div cast_unitsPerOne_pos)
    rw [Option.some_inj]
    constructor
    · rintro rfl
      exact ⟨finite_iff.mp finite, nearest⟩
    · exact fun other => nearest.unique other.nearest
  · next infinite =>
    exact iff_of_false (Option.some_ne_none v).symm fun rounds =>
      infinite (finite_iff.mpr rounds.finite)

namespace RoundsTo

variable {p q : ℚ} {w : Number}

/-- What is below the end is rounded to some number. -/
theorem exists_of_lt (nonneg : 0 ≤ q) (finite : q < 2 ^ 1024 - 2 ^ 970) : ∃ v, RoundsTo q v := by
  obtain ⟨num, den, den_pos, value⟩ :
      ∃ num den : ℕ, 0 < den ∧ (num / den : ℚ) = q * unitsPerOne := by
    have units_nonneg : 0 ≤ q * unitsPerOne := mul_nonneg nonneg Number.cast_unitsPerOne_pos.le
    refine ⟨(q * unitsPerOne).num.toNat, (q * unitsPerOne).den, (q * unitsPerOne).den_pos, ?_⟩
    rw [← Int.cast_natCast, Int.toNat_of_nonneg (Rat.num_nonneg.mpr units_nonneg), Rat.num_div_den]
  cases nearest : Number.nearest? num den with
  | some v =>
    rw [Number.nearest?_eq_some_iff den_pos, value,
      mul_div_cancel_right₀ _ (ne_of_gt Number.cast_unitsPerOne_pos)] at nearest
    exact ⟨v, nearest⟩
  | none =>
    rw [Number.nearest?_eq_none_iff den_pos] at nearest
    have beyond : (overflowUnits : ℚ) ≤ num / den := by
      rw [le_div_iff₀ (Nat.cast_pos.mpr den_pos)]
      exact_mod_cast nearest
    rw [value, Number.cast_overflowUnits,
      mul_le_mul_iff_of_pos_right Number.cast_unitsPerOne_pos] at beyond
    exact absurd finite (not_lt.mpr beyond)

/-- Rounded values are in the order of the values, and a smaller value overflows no sooner. -/
theorem mono (nonneg : 0 ≤ p) (le : p ≤ q) (rounds : RoundsTo q w) :
    ∃ v, RoundsTo p v ∧ v.toRat ≤ w.toRat := by
  obtain ⟨v, rounds'⟩ := exists_of_lt nonneg (le.trans_lt rounds.finite)
  refine ⟨v, rounds', ?_⟩
  by_contra above
  -- Both values would be on the midpoint, and so the same one.
  have lower := rounds'.nearest.le_two_mul (not_le.mp above)
  have upper := rounds.nearest.two_mul_le (not_le.mp above)
  obtain rfl : p = q := by linarith
  exact above (rounds'.nearest.unique rounds.nearest ▸ le_rfl)

end RoundsTo

/-! ## Nearest numbers of decimals -/

/-- The exponent as a variable, so that nothing computes the power. -/
theorem exists_unitsPerOne_eq : ∃ m, m = 1074 ∧ unitsPerOne = 2 ^ m :=
  ⟨1074, rfl, unitsPerOne_eq⟩

namespace Decimal

theorem nearest?_eq_none_of_large {digits exponent : Nat} (digits_pos : 0 < digits)
    (large : 400 ≤ exponent) : Number.nearest? (digits * 10 ^ exponent * unitsPerOne) 1 = none := by
  obtain ⟨n, n_le, limit⟩ : ∃ n, n ≤ 400 ∧ overflowUnits ≤ 10 ^ n * unitsPerOne :=
    ⟨400, Nat.le_refl 400, by decide +kernel⟩
  have power := Nat.le_trans (Nat.pow_le_pow_right (by decide : 0 < 10) (n_le.trans large))
    (Nat.le_mul_of_pos_left (10 ^ exponent) digits_pos)
  have beyond := Nat.le_trans limit (Nat.mul_le_mul_right unitsPerOne power)
  rw [Number.nearest?, dif_neg]
  rw [nearestRank_lt_rankLimit_iff Nat.one_pos, Nat.mul_one]
  exact Nat.not_lt.mpr beyond

theorem nearest?_eq_zero_of_small {digits places : Nat} (small : digits.log2 + 1100 < places) :
    Number.nearest? (digits * unitsPerOne) (10 ^ places) = some .zero := by
  obtain ⟨m, m_eq, one⟩ := exists_unitsPerOne_eq
  have half : 2 * (digits * unitsPerOne) < 10 ^ places := calc
    2 * (digits * unitsPerOne) < 2 * (2 ^ (digits.log2 + 1) * unitsPerOne) :=
      Nat.mul_lt_mul_of_pos_left
        (Nat.mul_lt_mul_of_pos_right Nat.lt_log2_self unitsPerOne_pos) Nat.two_pos
    _ = 2 ^ (digits.log2 + 2 + m) := by rw [one]; ring
    _ ≤ 2 ^ places := Nat.pow_le_pow_right Nat.two_pos (by omega)
    _ ≤ 10 ^ places := Nat.pow_le_pow_left (by decide) places
  have first : unitsOfRank 0 + unitsOfRank (0 + 1) = 1 := by decide
  have rank_le : nearestRank (digits * unitsPerOne) (10 ^ places) ≤ 0 := by
    rw [nearestRank_le_iff (Nat.pow_pos (by decide)), first, Nat.one_mul]
    exact .inl half
  have rank_eq := Nat.le_zero.mp rank_le
  rw [Number.nearest?, dif_pos (rank_eq ▸ rankLimit_pos)]
  exact congrArg some (Number.ext rank_eq)

/-- Settling far exponents by the size of the digits makes no difference. -/
theorem nearest?_eq (d : Decimal) : d.nearest? =
    Number.nearest? (d.digits * 10 ^ d.exponent.toNat * unitsPerOne)
      (10 ^ (-d.exponent).toNat) := by
  obtain ⟨digits, exponent⟩ := d
  rw [nearest?]
  simp only
  split
  · next none =>
    simp [none]
  split
  · next some large =>
    have whole : (-exponent).toNat = 0 := by omega
    rw [whole, Nat.pow_zero, nearest?_eq_none_of_large (Nat.pos_of_ne_zero some) (by omega)]
  split
  · next small =>
    have whole : exponent.toNat = 0 := by omega
    rw [whole, Nat.pow_zero, Nat.mul_one, nearest?_eq_zero_of_small (by omega)]
  · rfl

/-- The exact value of a decimal. -/
def toRat (d : Decimal) : ℚ := d.digits * 10 ^ d.exponent

/-- A power of ten as a quotient of two, one of which is one. -/
theorem zpow_ten_eq (exponent : Int) :
    (10 : ℚ) ^ exponent = 10 ^ exponent.toNat / 10 ^ (-exponent).toNat := by
  rw [← zpow_natCast, ← zpow_natCast, ← zpow_sub₀ (by norm_num)]
  congr 1
  omega

theorem cast_div_cast_eq (d : Decimal) :
    ((d.digits * 10 ^ d.exponent.toNat * unitsPerOne : Nat) : ℚ) /
      (10 ^ (-d.exponent).toNat : Nat) = d.toRat * unitsPerOne := by
  push_cast
  rw [toRat, zpow_ten_eq]
  ring

/-- There is no nearest number exactly from half a step above the largest one on. -/
theorem nearest?_eq_none_iff {d : Decimal} :
    d.nearest? = none ↔ 2 ^ 1024 - 2 ^ 970 ≤ d.toRat := by
  have places_pos : 0 < 10 ^ (-d.exponent).toNat := Nat.pow_pos (by decide)
  rw [nearest?_eq, Number.nearest?_eq_none_iff places_pos,
    ← mul_le_mul_iff_of_pos_right Number.cast_unitsPerOne_pos, ← Number.cast_overflowUnits,
    ← cast_div_cast_eq, le_div_iff₀ (Nat.cast_pos.mpr places_pos)]
  norm_cast

theorem nearest?_eq_some_iff {d : Decimal} {v : Number} :
    d.nearest? = some v ↔ RoundsTo d.toRat v := by
  rw [nearest?_eq, Number.nearest?_eq_some_iff (Nat.pow_pos (by decide)), cast_div_cast_eq,
    mul_div_cancel_right₀ _ (ne_of_gt Number.cast_unitsPerOne_pos)]

/-- A unit is a power of one half, so with enough places nothing is left over. -/
theorem toRat_units {v : Number} {places : Nat} (one : unitsPerOne = 2 ^ places) :
    toRat ⟨v.units * 5 ^ places, -places⟩ = v.toRat := by
  have five_ne_zero : (5 : ℚ) ^ places ≠ 0 := pow_ne_zero _ (by norm_num)
  have ten : (10 : ℚ) ^ places = 2 ^ places * 5 ^ places := by
    rw [← mul_pow]
    norm_num
  rw [toRat, Number.toRat, one, zpow_neg, zpow_natCast, ← div_eq_mul_inv, ten]
  push_cast
  rw [mul_div_mul_right _ _ five_ne_zero]

end Decimal

end SumProduct
