import Mathlib.Algebra.Order.Round
import Mathlib.Data.Rat.Floor
import SumProduct.Proofs.Nearest
import SumProduct.Proofs.NumberText

/-!
# Four decimal places

The text of a number counts ten-thousandths. Below `2 ^ 39` the numbers are at most `2 ^ -14` apart,
which is less than a ten-thousandth, so a count of ten-thousandths survives being read. From there
on they are multiples of `2 ^ -13`, which is more, so the number itself survives being written.

Either way the text that is read and written again is the same text (`Number.text_reread`). The
number is the same one if it is at least `2 ^ 39` (`Number.reread_of_wide`) or the nearest to some
count of ten-thousandths (`Number.reread_of_isNearest`).
-/

namespace SumProduct

/-! ## The notation -/

/-- Digits, a point and `places` more digits. All of them, read as one, are a count of
`10 ^ -places`. There is no exponent, and a zero in front only where it is the only digit before
the point. -/
structure FixedNotation (places count : Nat) (whole fraction : List Char) : Prop where
  whole_digits : ∀ c ∈ whole, c.isDigit
  whole_ne_nil : whole ≠ []
  no_leading_zero : whole.head? = some '0' → whole = ['0']
  fraction_digits : ∀ c ∈ fraction, c.isDigit
  fraction_length : fraction.length = places
  count_eq : Nat.ofDigitChars 10 (whole ++ fraction) 0 = count

theorem head?_toDigits_ne_zero {n : Nat} (pos : 0 < n) : (Nat.toDigits 10 n).head? ≠ some '0' := by
  have digit : ∀ d < 10, 0 < d → d.digitChar ≠ '0' := by decide
  induction n using Nat.strongRecOn with
  | ind n ih =>
    rw [Nat.toDigits_eq_if (by decide)]
    split
    · next small =>
      simpa using digit n small pos
    · next large =>
      rw [List.head?_append_of_ne_nil _ Nat.toDigits_ne_nil]
      exact ih (n / 10) (by omega) (by omega)

theorem fixedNotation_toDigits {places : Nat} (places_pos : 0 < places) (count : Nat) :
    FixedNotation places count (Nat.toDigits 10 (count / 10 ^ places))
      (paddedDigits places (count % 10 ^ places)) where
  whole_digits := isDigit_of_mem_toDigits
  whole_ne_nil := Nat.toDigits_ne_nil
  no_leading_zero zero := by
    rcases Nat.eq_zero_or_pos (count / 10 ^ places) with none | some
    · rw [none, Nat.toDigits_zero]
    · exact absurd zero (head?_toDigits_ne_zero some)
  fraction_digits := isDigit_of_mem_paddedDigits
  fraction_length := length_paddedDigits places_pos (Nat.mod_lt count (Nat.pow_pos (by decide)))
  count_eq := ofDigitChars_fixed places_pos

/-! ## How far numbers are apart -/

namespace Number

variable {v w : Number} {q : ℚ}

/-- The number `2 ^ 39`. -/
def wide : Number := ⟨1062 * 2 ^ 52, by rw [rankLimit_eq]; decide⟩

theorem toRat_wide : wide.toRat = 2 ^ 39 := by
  have units : wide.units = 2 ^ 39 * unitsPerOne := by decide +kernel
  rw [toRat_eq_of_units units]
  norm_num

theorem rank_lt_of_narrow (lt : v.toRat < 2 ^ 39) : v.rank < wide.rank := by
  rw [← toRat_wide] at lt
  exact toRat_lt_toRat_iff.mp lt

/-- Below `2 ^ 39` the step from a number to the next is at most `2 ^ -14`. -/
theorem toRat_next_le (lt : v.rank < wide.rank) (next : w.rank = v.rank + 1) :
    w.toRat ≤ v.toRat + 1 / 2 ^ 14 := by
  obtain ⟨m, m_eq, one⟩ := exists_unitsPerOne_eq
  obtain ⟨doublings, significand, rank, value, next_value, -, normal⟩ := exists_step v.rank
  have small : doublings + 14 ≤ m := by
    simp only [wide] at lt
    omega
  have units : w.units = v.units + 2 ^ doublings := by
    rw [units, units, next, next_value, value]
    ring
  have step : (2 : ℚ) ^ doublings / 2 ^ m ≤ 1 / 2 ^ 14 := by
    rw [div_le_div_iff₀ (by positivity) (by positivity), ← pow_add, one_mul]
    exact pow_le_pow_right₀ (by norm_num) small
  rw [toRat, toRat, units, one]
  push_cast
  rw [add_div]
  exact add_le_add_right step _

/-- From `2 ^ 39` on the numbers are multiples of `2 ^ -13`. -/
theorem exists_toRat_eq_div (le : 2 ^ 39 ≤ v.toRat) : ∃ k : Int, v.toRat = k / 2 ^ 13 := by
  obtain ⟨m, m_eq, one⟩ := exists_unitsPerOne_eq
  obtain ⟨k, rfl⟩ : ∃ k, m = k + 13 := ⟨m - 13, by omega⟩
  have large : 2 ^ 52 * 2 ^ k ≤ v.units := by
    rw [toRat, le_div_iff₀ cast_unitsPerOne_pos, one] at le
    have split : 2 ^ 39 * 2 ^ (k + 13) = 2 ^ 52 * 2 ^ k := by ring
    exact split ▸ (by exact_mod_cast le)
  obtain ⟨n, value⟩ := two_pow_dvd_units large
  refine ⟨n, ?_⟩
  rw [toRat, value, one, div_eq_div_iff (by positivity) (by positivity)]
  push_cast
  ring

theorem le_abs_sub_of_wide (left : 2 ^ 39 ≤ v.toRat) (right : 2 ^ 39 ≤ w.toRat) (ne : v ≠ w) :
    1 / 2 ^ 13 ≤ |v.toRat - w.toRat| := by
  obtain ⟨k, v_eq⟩ := exists_toRat_eq_div left
  obtain ⟨l, w_eq⟩ := exists_toRat_eq_div right
  have apart : k - l ≠ 0 := by
    intro same
    rw [sub_eq_zero.mp same, ← w_eq] at v_eq
    exact ne (toRat_inj.mp v_eq)
  have one_le : (1 : ℚ) ≤ |(k : ℚ) - l| := by exact_mod_cast Int.one_le_abs apart
  rw [v_eq, w_eq, ← sub_div, abs_div, abs_of_pos (by positivity : (0 : ℚ) < 2 ^ 13)]
  exact (div_le_div_iff_of_pos_right (by positivity)).mpr one_le

/-- Of the numbers from `2 ^ 39` on only the first has others closer to it, the ones below. -/
theorem le_abs_sub_or_below (wide_le : 2 ^ 39 ≤ v.toRat) (ne : w ≠ v) :
    1 / 2 ^ 13 ≤ |w.toRat - v.toRat| ∨ (v = wide ∧ w.toRat < 2 ^ 39) := by
  rcases le_or_gt (2 ^ 39) w.toRat with above | below
  · exact .inl (le_abs_sub_of_wide above wide_le ne)
  rcases eq_or_ne v wide with first | later
  · exact .inr ⟨first, below⟩
  · have gap := le_abs_sub_of_wide wide_le (le_of_eq toRat_wide.symm) later
    rw [toRat_wide, abs_of_nonneg (sub_nonneg.mpr wide_le)] at gap
    rw [abs_sub_comm, abs_of_pos (by linarith)]
    exact .inl (by linarith)

/-! ## How far a value is from the nearest number -/

theorem IsNearest.toRat_le (nearest : v.IsNearest q) (le : q ≤ 2 ^ 39) : v.toRat ≤ 2 ^ 39 := by
  by_contra beyond
  rw [not_le, ← toRat_wide] at beyond
  have half := nearest.le_two_mul beyond
  rw [toRat_wide] at half beyond
  linarith

/-- A value above the nearest number is at most half the step to the next one away. -/
theorem IsNearest.sub_le_of_narrow (nearest : v.IsNearest q) (narrow : v.toRat < 2 ^ 39) :
    q - v.toRat ≤ 1 / 2 ^ 15 := by
  have room := rank_lt_of_narrow narrow
  let next : Number := ⟨v.rank + 1, Nat.lt_of_le_of_lt room wide.rank_lt⟩
  have lt : v.toRat < next.toRat := toRat_lt_toRat_iff.mpr (Nat.lt_succ_self v.rank)
  have half := nearest.two_mul_le lt
  have step := toRat_next_le (w := next) room rfl
  linarith

/-- A value below the nearest number is at most half the step from the previous one away. -/
theorem IsNearest.sub_le_of_lt (nearest : v.IsNearest q) (nonneg : 0 ≤ q) (lt : q < v.toRat)
    (le : v.toRat ≤ 2 ^ 39) : v.toRat - q ≤ 1 / 2 ^ 15 := by
  have positive : zero.toRat < v.toRat := by simpa using lt_of_le_of_lt nonneg lt
  obtain ⟨rank, rank_eq⟩ := Nat.exists_eq_add_of_lt (toRat_lt_toRat_iff.mp positive)
  rw [show zero.rank = 0 from rfl, Nat.zero_add] at rank_eq
  have before : rank < v.rank := rank_eq ▸ Nat.lt_succ_self rank
  let previous : Number := ⟨rank, before.trans v.rank_lt⟩
  have below : previous.toRat < v.toRat := toRat_lt_toRat_iff.mpr before
  have half := nearest.le_two_mul below
  have step := toRat_next_le (v := previous) (rank_lt_of_narrow (below.trans_le le)) rank_eq
  linarith

/-- The number nearest to a value up to `2 ^ 39` is at most half a step away. -/
theorem IsNearest.near (nearest : v.IsNearest q) (nonneg : 0 ≤ q) (le : q ≤ 2 ^ 39) :
    |v.toRat - q| ≤ 1 / 2 ^ 15 := by
  have inside := nearest.toRat_le le
  rcases le_or_gt v.toRat q with below | above
  · rw [abs_sub_comm, abs_of_nonneg (sub_nonneg.mpr below)]
    rcases lt_or_eq_of_le inside with narrow | last
    · exact nearest.sub_le_of_narrow narrow
    · rw [last, sub_eq_zero.mpr (le_antisymm le (last ▸ below))]
      positivity
  · rw [abs_of_pos (sub_pos.mpr above)]
    exact nearest.sub_le_of_lt nonneg above inside

/-! ## The count of ten-thousandths -/

theorem isNearest_of_nearest? {count : Nat} (read : Decimal.nearest? ⟨count, -4⟩ = some v) :
    v.IsNearest (count / 10 ^ 4) := by
  have value : Decimal.toRat ⟨count, -4⟩ = count / 10 ^ 4 := by
    rw [Decimal.toRat, div_eq_mul_inv]
    norm_num
  exact value ▸ (Decimal.nearest?_eq_some_iff.mp read).nearest

theorem isNearest_reread (v : Number) : v.reread.IsNearest (v.scaled 4 / 10 ^ 4) :=
  isNearest_of_nearest? v.nearest?_scaled

theorem abs_scaled_sub_le (v : Number) :
    |(v.scaled 4 : ℚ) / 10 ^ 4 - v.toRat| ≤ 1 / (2 * 10 ^ 4) := by
  have rounded := (v.nearest_scaled 4).le (round (v.toRat * 10 ^ 4))
  have half := abs_sub_round (v.toRat * 10 ^ 4)
  have scale (k : ℚ) : |k / 10 ^ 4 - v.toRat| = |k - v.toRat * 10 ^ 4| / 10 ^ 4 := by
    rw [div_sub' (by norm_num), abs_div, mul_comm, abs_of_pos (by norm_num : (0 : ℚ) < 10 ^ 4)]
  rw [Int.cast_natCast, scale, scale, abs_sub_comm (round _ : ℚ)] at rounded
  rw [scale]
  linarith

/-- A count that is nearer to the number than half a ten-thousandth is the count that is written. -/
theorem scaled_eq_of_near {k : Nat} (near : |v.toRat - k / 10 ^ 4| ≤ 1 / 2 ^ 15) :
    v.scaled 4 = k := by
  have written := (v.nearest_scaled 4).le k
  rw [Int.cast_natCast, Int.cast_natCast, abs_sub_comm (k / _ : ℚ)] at written
  have written_bounds := abs_le.mp (written.trans near)
  have bounds := abs_le.mp near
  have below : (v.scaled 4 : ℚ) < k + 1 := by linarith
  have above : (k : ℚ) < v.scaled 4 + 1 := by linarith
  norm_cast at below above
  omega

theorem IsNearest.scaled_eq {k : Nat} (nearest : v.IsNearest (k / 10 ^ 4))
    (le : (k : ℚ) / 10 ^ 4 ≤ 2 ^ 39) : v.scaled 4 = k :=
  scaled_eq_of_near (nearest.near (by positivity) le)

/-- `2 ^ 39` is a count of ten-thousandths. -/
theorem cast_wide_count : ((2 ^ 39 * 10 ^ 4 : Int) : ℚ) / 10 ^ 4 = 2 ^ 39 := by norm_num

theorem scaled_wide : (wide.scaled 4 : ℚ) / 10 ^ 4 = wide.toRat := by
  have nearest := (wide.nearest_scaled 4).le (2 ^ 39 * 10 ^ 4)
  rw [cast_wide_count, toRat_wide, sub_self, abs_zero, Int.cast_natCast] at nearest
  rw [toRat_wide]
  exact sub_eq_zero.mp (abs_nonpos_iff.mp nearest)

/-- The written count of a number is nearer to it than to any other from `2 ^ 39` on. At `2 ^ 39`
itself, where the numbers below are closer together, it is exact. -/
theorem abs_sub_scaled_lt_of_wide (wide_le : 2 ^ 39 ≤ v.toRat) (ne : w ≠ v) :
    |v.toRat - v.scaled 4 / 10 ^ 4| < |w.toRat - v.scaled 4 / 10 ^ 4| := by
  rcases le_abs_sub_or_below wide_le ne with gap | ⟨rfl, below⟩
  · -- The gap leaves more than the half that rounding takes.
    have half := v.abs_scaled_sub_le
    have triangle := abs_sub_le w.toRat (v.scaled 4 / 10 ^ 4) v.toRat
    rw [abs_sub_comm v.toRat]
    linarith
  · rw [scaled_wide, sub_self, abs_zero, abs_pos, toRat_wide]
    exact ne_of_lt (sub_neg.mpr below)

/-! ## The number that is read back -/

theorem reread_of_wide (wide_le : 2 ^ 39 ≤ v.toRat) : v.reread = v := by
  by_contra other
  exact absurd (v.isNearest_reread.le v) (not_le.mpr (abs_sub_scaled_lt_of_wide wide_le other))

/-- The text that a number is read from is the text that it is written as. -/
@[simp] theorem text_reread (v : Number) : v.reread.text = v.text := by
  rcases le_or_gt (2 ^ 39) v.toRat with wide_le | narrow
  · rw [reread_of_wide wide_le]
  have le : (v.scaled 4 : ℚ) / 10 ^ 4 ≤ 2 ^ 39 := by
    by_contra beyond
    have half := (v.nearest_scaled 4).le_two_mul (j := 2 ^ 39 * 10 ^ 4)
      (cast_wide_count ▸ not_le.mp beyond)
    rw [cast_wide_count, Int.cast_natCast] at half
    linarith
  rw [text_eq, text_eq, v.isNearest_reread.scaled_eq le]

theorem reread_of_isNearest {k : Nat} (nearest : v.IsNearest (k / 10 ^ 4)) : v.reread = v := by
  rcases le_or_gt (2 ^ 39) v.toRat with wide_le | narrow
  · exact reread_of_wide wide_le
  have le : (k : ℚ) / 10 ^ 4 ≤ 2 ^ 39 := by
    have below : v.toRat < wide.toRat := by rwa [toRat_wide]
    have half := nearest.two_mul_le below
    rw [toRat_wide] at half
    linarith
  have reread := v.isNearest_reread
  rw [nearest.scaled_eq le] at reread
  exact reread.unique nearest

theorem scan_text (v : Number) :
    Token.scan (String.ofList v.text) = [.ok ⟨.number v.reread, String.ofList v.text, 0⟩] := by
  have items : Token.scanFrom 0 (v.text ++ []) = _ := v.scanFrom_text .nil
  rw [List.append_nil] at items
  rw [Token.scan, String.toList_ofList, items, Token.scanFrom]

/-- A number is written as the nearest count of ten-thousandths. The text is read as the number
nearest to that count, which is written as the same text. It is the number that was written if that
is at least `2 ^ 39` or the nearest to any count of ten-thousandths. -/
theorem four_decimals (v : Number) :
    ∃ whole fraction count,
      v.text = whole ++ '.' :: fraction ∧
      FixedNotation 4 count whole fraction ∧
      Nearest (fun k : Int => (k : ℚ) / 10 ^ 4) (· % 2 = 0) v.toRat count ∧
      ∃ v' : Number,
        Token.scan (String.ofList v.text) = [.ok ⟨.number v', String.ofList v.text, 0⟩] ∧
        v'.IsNearest (count / 10 ^ 4) ∧
        v'.text = v.text ∧
        (2 ^ 39 ≤ v.toRat ∨ (∃ k : Nat, v.IsNearest (k / 10 ^ 4)) → v' = v) := by
  refine ⟨_, _, v.scaled 4, v.text_eq, fixedNotation_toDigits (by decide) (v.scaled 4),
    v.nearest_scaled 4, v.reread, v.scan_text, v.isNearest_reread, v.text_reread, ?_⟩
  rintro (wide_le | ⟨k, nearest⟩)
  · exact reread_of_wide wide_le
  · exact reread_of_isNearest nearest

/-- One tenth, and the number that follows `2 ^ 39`. -/
theorem four_decimals_tenth :
    let tenth : Number := ⟨4591870180066957722, by rw [rankLimit_eq]; decide⟩
    let next : Number := ⟨1062 * 2 ^ 52 + 1, by rw [rankLimit_eq]; decide⟩
    tenth.IsNearest ((1000 : Nat) / 10 ^ 4) ∧
    Token.scan "0.1000" = [.ok ⟨.number tenth, "0.1000", 0⟩] ∧
    2 ^ 39 ≤ next.toRat ∧
    Token.scan "549755813888.0001" = [.ok ⟨.number next, "549755813888.0001", 0⟩] := by
  intro tenth next
  have nearest : tenth.IsNearest ((1000 : Nat) / 10 ^ 4) :=
    isNearest_of_nearest? (by decide +kernel)
  have wide_le : 2 ^ 39 ≤ next.toRat := by
    rw [← toRat_wide]
    exact le_of_lt (toRat_lt_toRat_iff.mpr (Nat.lt_succ_self _))
  have tenth_text : tenth.text = "0.1000".toList := by decide +kernel
  have next_text : next.text = "549755813888.0001".toList := by decide +kernel
  refine ⟨nearest, ?_, wide_le, ?_⟩
  · obtain ⟨-, -, -, -, -, -, v', scanned, -, -, same⟩ := four_decimals tenth
    rwa [same (.inr ⟨1000, nearest⟩), tenth_text, String.ofList_toList] at scanned
  · obtain ⟨-, -, -, -, -, -, v', scanned, -, -, same⟩ := four_decimals next
    rwa [same (.inl wide_le), next_text, String.ofList_toList] at scanned

end Number

end SumProduct
