import Mathlib.Data.List.DropRight
import SumProduct.Decimal.Layout
import SumProduct.Proofs.Literals
import SumProduct.Proofs.NumberText
import SumProduct.Proofs.ShortestDigits

/-!
# The display of number tokens

The display of a number token ends in the shortest decimal of its number, written with a point and
without an exponent. Zeros fill the places between the digits and the point, and they stand on the
side of the point where there would be no digit.

The text after the literal is a number token itself, and its number is that of the token. It ends in
`.0` exactly for whole numbers. No decimal with fewer significant digits is rounded to the number
(`Token.display_number`).
-/

namespace SumProduct

/-! ## Significant digits -/

/-- The digits without the zeros at both ends. -/
def significant (digits : List Char) : List Char :=
  (digits.dropWhile (· = '0')).rdropWhile (· = '0')

def zeros (n : Nat) : List Char := List.replicate n '0'

section Significant

variable {digits : List Char}

theorem exists_significant (digits : List Char) :
    ∃ i j, digits = zeros i ++ (significant digits ++ zeros j) := by
  obtain ⟨i, front⟩ : ∃ i, digits.takeWhile (· = '0') = zeros i :=
    ⟨_, List.eq_replicate_of_mem fun c mem => by simpa using List.mem_takeWhile_imp mem⟩
  obtain ⟨j, back⟩ : ∃ j, (digits.dropWhile (· = '0')).rtakeWhile (· = '0') = zeros j :=
    ⟨_, List.eq_replicate_of_mem fun c mem => by simpa using List.mem_rtakeWhile_imp mem⟩
  refine ⟨i, j, ?_⟩
  rw [← front, ← back, significant, List.rdropWhile_append_rtakeWhile,
    List.takeWhile_append_dropWhile]

theorem rdropWhile_append_zeros (j : Nat) :
    (digits ++ zeros j).rdropWhile (· = '0') = digits.rdropWhile (· = '0') := by
  induction j with
  | zero => rw [zeros, List.replicate_zero, List.append_nil]
  | succ j ih =>
    rw [zeros, List.replicate_succ', ← List.append_assoc,
      List.rdropWhile_concat_pos _ _ _ (by simp)]
    exact ih

/-- Of digits with zeros around them no others are significant. -/
theorem length_significant_zeros_le (i j : Nat) :
    (significant (zeros i ++ (digits ++ zeros j))).length ≤ digits.length := by
  have front : (zeros i ++ (digits ++ zeros j)).dropWhile (· = '0') =
      (digits ++ zeros j).dropWhile (· = '0') :=
    List.dropWhile_append_of_pos fun c mem => by simpa using List.eq_of_mem_replicate mem
  rw [significant, front, List.dropWhile_append]
  split
  · rw [zeros, List.dropWhile_replicate, if_pos (by simp), List.rdropWhile_nil]
    exact Nat.zero_le _
  · rw [rdropWhile_append_zeros]
    exact (List.rdropWhile_prefix _ _).length_le.trans (List.length_dropWhile_le _ _)

theorem ofDigitChars_zeros (i j : Nat) :
    Nat.ofDigitChars 10 (zeros i ++ (digits ++ zeros j)) 0 =
      Nat.ofDigitChars 10 digits 0 * 10 ^ j := by
  rw [zeros, zeros, Nat.ofDigitChars_append, Nat.ofDigitChars_append,
    Nat.ofDigitChars_replicate_zero, Nat.ofDigitChars_replicate_zero, Nat.mul_zero, Nat.mul_comm]

theorem ofDigitChars_lt (isDigit : ∀ c ∈ digits, c.isDigit) :
    Nat.ofDigitChars 10 digits 0 < 10 ^ digits.length := by
  induction digits with
  | nil => exact Nat.one_pos
  | cons c digits ih =>
    obtain ⟨first, others⟩ := List.forall_mem_cons.mp isDigit
    have le : c.toNat - '0'.toNat ≤ 9 := by
      have digit : c.val ≤ '9'.val := by
        simp only [Char.isDigit, Bool.and_eq_true, decide_eq_true_eq] at first
        exact first.2
      exact Nat.sub_le_sub_right (UInt32.le_iff_toNat_le.mp digit) '0'.toNat
    rw [Nat.ofDigitChars_cons, Nat.ofDigitChars_eq_ofDigitChars_zero, Nat.mul_zero, Nat.zero_add]
    calc 10 ^ digits.length * (c.toNat - '0'.toNat) + Nat.ofDigitChars 10 digits 0
      _ < 10 ^ digits.length * 9 + 10 ^ digits.length :=
        Nat.add_lt_add_of_le_of_lt (Nat.mul_le_mul_left _ le) (ih others)
      _ = 10 ^ (c :: digits).length := by rw [List.length_cons, Nat.pow_succ]; ring

/-- A number is the one of its significant digits times a power of ten. -/
theorem exists_eq_mul_pow (n : Nat) : ∃ m j,
    n = m * 10 ^ j ∧ m < 10 ^ (significant (Nat.toDigits 10 n)).length := by
  obtain ⟨i, j, split⟩ := exists_significant (Nat.toDigits 10 n)
  refine ⟨Nat.ofDigitChars 10 (significant (Nat.toDigits 10 n)) 0, j, ?_, ofDigitChars_lt ?_⟩
  · rw [← ofDigitChars_zeros i, ← split, Nat.ofDigitChars_ten_toDigits]
  · intro c mem
    have mem_digits : c ∈ Nat.toDigits 10 n := by
      rw [split]
      exact List.mem_append_right _ (List.mem_append_left _ mem)
    exact isDigit_of_mem_toDigits c mem_digits

end Significant

/-! ## The notation with a point -/

namespace Decimal

/-- A decimal is written as digits with a point between them. They are its own digits with zeros at
both ends, and the zeros put each digit in its place. -/
structure Pointed (d : Decimal) (whole fraction : List Char) (i j : Nat) : Prop where
  text : d.pointed = whole ++ '.' :: fraction
  whole_ne_nil : whole ≠ []
  fraction_ne_nil : fraction ≠ []
  digits : whole ++ fraction = zeros i ++ (Nat.toDigits 10 d.digits ++ zeros j)
  place : d.digits = 0 ∨ d.exponent + fraction.length = j
  fraction_eq : 0 ≤ d.exponent → fraction = ['0']

/-- With an exponent that is not negative there are no digits behind the point, and `0` is put
there. -/
theorem exists_pointed_of_nonneg {d : Decimal} (nonneg : 0 ≤ d.exponent) :
    ∃ whole j, Pointed d whole ['0'] 0 j := by
  have text : d.pointed = d.plain ++ '.' :: ['0'] := by rw [pointed, if_pos nonneg]
  rcases eq_or_ne d.digits 0 with zero | some
  · have plain : d.plain = ['0'] := by rw [plain, if_pos nonneg, if_pos zero]
    refine ⟨['0'], 1, plain ▸ text, by simp, by simp, ?_, .inl zero, fun _ => rfl⟩
    rw [zero, Nat.toDigits_zero]
    rfl
  · have plain : d.plain = Nat.toDigits 10 d.digits ++ zeros d.exponent.toNat := by
      rw [plain, if_pos nonneg, if_neg some, zeros]
    refine ⟨_, d.exponent.toNat + 1, plain ▸ text, ?_, by simp, ?_, .inr ?_, fun _ => rfl⟩
    · exact List.append_ne_nil_of_left_ne_nil Nat.toDigits_ne_nil _
    · rw [List.append_assoc, zeros, ← List.replicate_succ']
      rfl
    · rw [List.length_singleton]
      omega

/-- With a negative exponent there is a place behind the point for each unit of it, and one more
before the point. -/
theorem exists_pointed_of_neg {d : Decimal} (neg : d.exponent < 0) :
    ∃ whole fraction i, Pointed d whole fraction i 0 := by
  obtain ⟨places, places_eq⟩ : ∃ places, places = (-d.exponent).toNat := ⟨_, rfl⟩
  obtain ⟨text, text_eq⟩ : ∃ text, text = paddedDigits (places + 1) d.digits := ⟨_, rfl⟩
  have long : places + 1 ≤ text.length := by
    rw [text_eq, paddedDigits, List.length_leftpad]
    exact Nat.le_max_left _ _
  have behind : (text.drop (text.length - places)).length = places := by
    rw [List.length_drop]
    omega
  refine ⟨text.take (text.length - places), text.drop (text.length - places),
    places + 1 - (Nat.toDigits 10 d.digits).length, ?_, ?_, ?_, ?_, .inr ?_, fun nonneg => ?_⟩
  · rw [pointed, if_neg (by omega), plain, if_neg (by omega), ← places_eq, text_eq]
  · rw [← List.length_pos_iff, List.length_take]
    omega
  · rw [← List.length_pos_iff, behind]
    omega
  · rw [List.take_append_drop, text_eq, paddedDigits, List.leftpad, zeros, zeros,
      List.replicate_zero, List.append_nil]
  · rw [behind]
    omega
  · omega

theorem exists_pointed (d : Decimal) : ∃ whole fraction i j, Pointed d whole fraction i j := by
  rcases le_or_gt 0 d.exponent with nonneg | neg
  · obtain ⟨whole, j, pointed⟩ := exists_pointed_of_nonneg nonneg
    exact ⟨whole, ['0'], 0, j, pointed⟩
  · obtain ⟨whole, fraction, i, pointed⟩ := exists_pointed_of_neg neg
    exact ⟨whole, fraction, i, 0, pointed⟩

variable {d : Decimal} {whole fraction : List Char} {i j : Nat}

theorem Pointed.isDigit (pointed : Pointed d whole fraction i j) :
    ∀ c ∈ whole ++ fraction, c.isDigit := by
  rw [pointed.digits]
  intro c mem
  rcases List.mem_append.mp mem with zero | mem
  · rw [List.eq_of_mem_replicate zero]
    decide
  rcases List.mem_append.mp mem with digit | zero
  · exact isDigit_of_mem_toDigits c digit
  · rw [List.eq_of_mem_replicate zero]
    decide

theorem Pointed.toRat_ofDigits (pointed : Pointed d whole fraction i j) :
    (ofDigits whole fraction).toRat = d.toRat := by
  rw [toRat, toRat, ofDigits, pointed.digits, ofDigitChars_zeros, Nat.ofDigitChars_ten_toDigits]
  rcases pointed.place with zero | place
  · rw [zero, Nat.zero_mul, Nat.cast_zero, zero_mul, zero_mul]
  · have exponent : d.exponent = j + -fraction.length := by omega
    rw [exponent, zpow_add₀ (by norm_num), zpow_natCast, Nat.cast_mul, Nat.cast_pow, mul_assoc]
    rfl

/-- Only the zero that stands for no digits makes the text end in `.0`. -/
theorem Pointed.ends_iff (pointed : Pointed d whole fraction i j) :
    ['.', '0'] <:+ whole ++ '.' :: fraction ↔ fraction = ['0'] := by
  have digits := List.forall_mem_append.mp pointed.isDigit
  constructor
  · rintro ⟨front, same⟩
    have point_not_mem {part : List Char} (digits : ∀ c ∈ part, c.isDigit) : '.' ∉ part :=
      fun mem => absurd (digits '.' mem) (by decide)
    exact ((List.append_cons_inj_of_notMem (point_not_mem digits.1)
      (point_not_mem digits.2)).mp same.symm).2.2
  · rintro rfl
    exact ⟨whole, rfl⟩

/-- Zeros in front of or behind the digits of a decimal leave no more than these significant. -/
theorem Pointed.length_significant_le (pointed : Pointed d whole fraction i j) {s : ℕ}
    (lt : d.digits < 10 ^ s) : (significant (whole ++ fraction)).length ≤ s := by
  rw [pointed.digits]
  rcases Nat.eq_zero_or_pos s with rfl | s_pos
  · have zero : d.digits = 0 := Nat.lt_one_iff.mp lt
    rw [zero, Nat.toDigits_zero]
    exact @length_significant_zeros_le [] i (j + 1)
  · refine (length_significant_zeros_le i j).trans ?_
    exact (Nat.length_toDigits_le_iff (by decide) s_pos).mpr lt

end Decimal

/-! ## The display of a number -/

section Display

open Token

variable {whole fraction : List Char} {i j : Nat}

theorem Number.scan_pointed (v : Number) (pointed : v.shortest.Pointed whole fraction i j) :
    scan (String.ofList (whole ++ '.' :: fraction)) =
      [.ok ⟨.number v, String.ofList (whole ++ '.' :: fraction), 0⟩] := by
  have nearest : (Decimal.ofDigits whole fraction).nearest? = some v := by
    rw [Decimal.nearest?_eq_some_iff, pointed.toRat_ofDigits]
    exact v.roundsTo_shortest
  obtain ⟨whole_digits, fraction_digits⟩ := List.forall_mem_append.mp pointed.isDigit
  have value : literalValue (whole ++ '.' :: fraction) = .ok v := by
    rw [literalValue_pointed whole_digits fraction_digits, toDouble_of_nearest? nearest,
      ofDouble_toDouble]
  have items : scanFrom 0 (whole ++ '.' :: (fraction ++ [])) = _ :=
    scanFrom_number whole_digits pointed.whole_ne_nil fraction_digits pointed.fraction_ne_nil value
      .nil
  rw [List.append_nil] at items
  rw [scan, String.toList_ofList, items, scanFrom]

/-- A whole number has a whole decimal. Digits with `.0` behind them are a whole value, and so is
the number nearest to that. -/
theorem Number.fraction_pointed_eq_iff (v : Number)
    (pointed : v.shortest.Pointed whole fraction i j) :
    fraction = ['0'] ↔ v.IsWhole := by
  constructor
  · rintro rfl
    have value : v.shortest.toRat = Nat.ofDigitChars 10 whole 0 := by
      rw [← pointed.toRat_ofDigits, Decimal.toRat_ofDigits, positional, wholeValue_eq]
      simp [fractionValue, digitValue]
    have nearest := v.roundsTo_shortest.nearest
    rw [value] at nearest
    exact nearest.isWhole
  · exact fun whole => pointed.fraction_eq (exponent_shortest_nonneg whole)

/-- A decimal that is rounded to the number has at least as many significant digits. -/
theorem Number.length_significant_pointed_le (v : Number)
    (pointed : v.shortest.Pointed whole fraction i j)
    {d : Decimal} (rounds : RoundsTo d.toRat v) :
    (significant (whole ++ fraction)).length ≤ (significant (Nat.toDigits 10 d.digits)).length := by
  obtain ⟨m, k, digits, lt⟩ := exists_eq_mul_pow d.digits
  have value : d.toRat = m * 10 ^ (k + d.exponent) := by
    rw [Decimal.toRat, digits, zpow_add₀ (by norm_num), zpow_natCast, Nat.cast_mul, Nat.cast_pow,
      mul_assoc]
    rfl
  exact pointed.length_significant_le (shortest_digits_lt (value ▸ rounds) lt)

/-- The display of a number token ends in digits with a point between them. They are read back as
one token with the same number, bit for bit. They end in `.0` exactly if it is whole, and of all
decimals that are rounded to it none has fewer significant digits. -/
theorem Token.display_number {token : Token} {v : Number} (number : token.kind = .number v) :
    ∃ value whole fraction,
      token.display = "NUMBER " ++ token.literal ++ " " ++ value ∧
      value.toList = whole ++ '.' :: fraction ∧
      (whole ≠ [] ∧ ∀ c ∈ whole, c.isDigit) ∧ (fraction ≠ [] ∧ ∀ c ∈ fraction, c.isDigit) ∧
      scan value = [.ok ⟨.number v, value, 0⟩] ∧
      (['.', '0'] <:+ value.toList ↔ v.IsWhole) ∧
      ∀ d : Decimal, RoundsTo d.toRat v →
        (significant (whole ++ fraction)).length ≤
          (significant (Nat.toDigits 10 d.digits)).length := by
  obtain ⟨whole, fraction, i, j, pointed⟩ := v.shortest.exists_pointed
  obtain ⟨whole_digits, fraction_digits⟩ := List.forall_mem_append.mp pointed.isDigit
  refine ⟨String.ofList (whole ++ '.' :: fraction), whole, fraction, ?_, String.toList_ofList,
    ⟨pointed.whole_ne_nil, whole_digits⟩, ⟨pointed.fraction_ne_nil, fraction_digits⟩,
    v.scan_pointed pointed, ?_, fun d => v.length_significant_pointed_le pointed⟩
  · rw [display, number, ← pointed.text]
  · rw [String.toList_ofList, pointed.ends_iff, v.fraction_pointed_eq_iff pointed]

/-- A literal that is halfway between `2 ^ 53` and the next number is rounded to `2 ^ 53`. -/
theorem Token.display_number_halfway :
    let v : Number := ⟨1076 * 2 ^ 52, by rw [rankLimit_eq]; decide⟩
    let token : Token := ⟨.number v, "9007199254740993", 0⟩
    scan "9007199254740993" = [.ok token] ∧
      token.display = "NUMBER 9007199254740993 9007199254740992.0" ∧
      RoundsTo (Decimal.toRat ⟨9007199254740993, 0⟩) v ∧ v.IsWhole ∧
      ∃ value whole fraction, token.display = "NUMBER " ++ token.literal ++ " " ++ value ∧
        value.toList = whole ++ '.' :: fraction ∧
        scan value = [.ok ⟨.number v, value, 0⟩] ∧ ['.', '0'] <:+ value.toList ∧
        (significant (whole ++ fraction)).length ≤ 16 := by
  intro v token
  have rounds : RoundsTo (Decimal.toRat ⟨9007199254740993, 0⟩) v := by
    rw [← Decimal.nearest?_eq_some_iff]
    decide +kernel
  have whole : v.IsWhole := ⟨2 ^ 53, Number.toRat_eq_of_units (by decide +kernel)⟩
  have shown : token.display = "NUMBER 9007199254740993 9007199254740992.0" := by decide +kernel
  have scanned : scan "9007199254740993" = [.ok token] := by decide +kernel
  obtain ⟨value, front, fraction, display, text, -, -, back, ends, fewest⟩ :=
    token.display_number (v := v) rfl
  exact ⟨scanned, shown, rounds, whole, value, front, fraction, display, text, back,
    ends.mpr whole, fewest _ rounds⟩

end Display

end SumProduct
