import SumProduct.Proofs.Extension
import SumProduct.Proofs.Lexing
import SumProduct.Proofs.Nearest

/-!
# The values of number literals

A literal has the value of its digits in positional notation. A literal of any length makes a token
with the number nearest to that value, ties to even, unless the value is `2 ^ 1024 - 2 ^ 970` or
more. Then it is an error that shows the whole literal (`Lexer.next_numeral`).
-/

namespace SumProduct

/-! ## Positional notation -/

/-- The value of a digit. -/
def digitValue (c : Char) : ℕ := c.toNat - '0'.toNat

/-- The value of the digits in front of a point. -/
def wholeValue (digits : List Char) : ℚ :=
  digits.foldl (fun (value : ℚ) c => 10 * value + digitValue c) 0

/-- The value of the digits behind a point. -/
def fractionValue (digits : List Char) : ℚ :=
  digits.foldr (fun c (value : ℚ) => (digitValue c + value) / 10) 0

/-- The value of digits with a point between them. -/
def positional (whole fraction : List Char) : ℚ := wholeValue whole + fractionValue fraction

theorem wholeValue_eq (digits : List Char) : wholeValue digits = Nat.ofDigitChars 10 digits 0 := by
  rw [wholeValue, ← Nat.cast_zero (R := ℚ)]
  refine List.foldl_hom Nat.cast fun value c => ?_
  push_cast [digitValue]
  rfl

/-- By induction on the digits, of which the first weighs a tenth and all others a tenth of what
they weigh without it. -/
theorem fractionValue_eq (digits : List Char) :
    fractionValue digits = Nat.ofDigitChars 10 digits 0 / 10 ^ digits.length := by
  rw [fractionValue]
  induction digits with
  | nil => simp
  | cons c digits ih =>
    have power_ne_zero : (10 : ℚ) ^ digits.length ≠ 0 := pow_ne_zero _ (by norm_num)
    have first : Nat.ofDigitChars 10 (c :: digits) 0 =
        10 ^ digits.length * digitValue c + Nat.ofDigitChars 10 digits 0 := by
      rw [Nat.ofDigitChars_cons, Nat.mul_zero, Nat.zero_add, ← digitValue,
        Nat.ofDigitChars_eq_ofDigitChars_zero]
    rw [List.foldr_cons, ih, first, List.length_cons, pow_succ, ← div_div]
    push_cast
    rw [add_div _ _ (10 ^ digits.length : ℚ), mul_div_cancel_left₀ _ power_ne_zero]

theorem Decimal.toRat_ofDigits (whole fraction : List Char) :
    (ofDigits whole fraction).toRat = positional whole fraction := by
  have power_ne_zero : (10 : ℚ) ^ fraction.length ≠ 0 := pow_ne_zero _ (by norm_num)
  rw [positional, wholeValue_eq, fractionValue_eq, toRat, ofDigits, Nat.ofDigitChars_append,
    Nat.ofDigitChars_eq_ofDigitChars_zero, zpow_neg, zpow_natCast, ← div_eq_mul_inv]
  push_cast
  rw [add_div, mul_div_cancel_left₀ _ power_ne_zero]

/-! ## Literals -/

section Literals

open Text Token

variable {whole fraction literal after : List Char}

theorem Token.numeral_whole (nonempty : whole ≠ []) (digits : ∀ c ∈ whole, c.isDigit = true) :
    Numeral whole [] whole [] :=
  .whole ⟨nonempty, digits, nofun⟩ nofun

theorem Token.numeral_pointed (nonempty : whole ≠ []) (digits : ∀ c ∈ whole, c.isDigit = true)
    (some : fraction ≠ []) (behind : ∀ c ∈ fraction, c.isDigit = true) :
    Numeral whole fraction (whole ++ '.' :: fraction) [] := by
  refine .pointed ⟨nonempty, digits, ?_⟩ ⟨some, behind, nofun⟩
  rintro c ⟨⟩
  rfl

/-- A number literal is one item, whose span is all of it. The item is the error of an infinite
value exactly if the value of the literal is `2 ^ 1024 - 2 ^ 970` or more. Otherwise it is a token
with the number nearest to that value, ties to even. -/
theorem Lexer.next_numeral (offset : Nat) (numeral : Numeral whole fraction literal after) :
    ∃ item,
      (Lexer.mk (literal ++ after) offset none).next =
        (some item, ⟨after, offset + size literal, none⟩) ∧
      scanFrom offset (literal ++ after) = item :: scanFrom (offset + size literal) after ∧
      Item.span item = ⟨offset, size literal⟩ ∧
      (item = .error
          (.invalidLiteral (String.ofList literal) offset (.notFinite (.infinite false))) ↔
        2 ^ 1024 - 2 ^ 970 ≤ positional whole fraction) ∧
      (positional whole fraction < 2 ^ 1024 - 2 ^ 970 →
        ∃ v, item = .ok ⟨.number v, String.ofList literal, offset⟩ ∧
          ∀ w : Number, w.IsNearest (positional whole fraction) ↔ w = v) := by
  have large_iff := Decimal.nearest?_eq_none_iff (d := .ofDigits whole fraction)
  rw [Decimal.toRat_ofDigits] at large_iff
  cases value : (Decimal.ofDigits whole fraction).nearest? with
  | none =>
    have cut : Cut offset literal after _ := .tooLarge numeral value
    have large := large_iff.mp value
    exact ⟨_, next_cut cut, scanFrom_cut cut, cut.span, iff_of_true rfl large,
      fun below => absurd large (not_le.mpr below)⟩
  | some v =>
    have cut : Cut offset literal after _ := .number numeral value
    have nearest := (Decimal.nearest?_eq_some_iff.mp value).nearest
    rw [Decimal.toRat_ofDigits] at nearest
    refine ⟨_, next_cut cut, scanFrom_cut cut, cut.span, iff_of_false nofun fun large => ?_,
      fun _ => ⟨v, rfl, fun w => ⟨fun other => other.unique nearest, fun same => same ▸ nearest⟩⟩⟩
    rw [large_iff.mpr large] at value
    cases value

/-- The least whole number that is refused, and a literal halfway between `2 ^ 53`, which is even,
and the next number. -/
theorem Lexer.next_numeral_limits :
    let least := Nat.toDigits 10 (2 ^ 1024 - 2 ^ 970)
    let halfway := "9007199254740993".toList
    let v : Number := ⟨1076 * 2 ^ 52, by rw [rankLimit_eq]; decide⟩
    positional least [] = 2 ^ 1024 - 2 ^ 970 ∧
      (Lexer.mk least 0 none).next.1 =
        some (.error (.invalidLiteral (String.ofList least) 0 (.notFinite (.infinite false)))) ∧
      v.units = 2 ^ 53 * unitsPerOne ∧ v.IsNearest (positional halfway ['0']) ∧
      (Lexer.mk (halfway ++ ".0".toList) 7 none).next.1 =
        some (.ok ⟨.number v, "9007199254740993.0", 7⟩) := by
  intro least halfway v
  -- The exponents are variables, so that nothing computes the powers.
  have cast (m n : Nat) (le : m ≤ n) : ((2 ^ n - 2 ^ m : Nat) : ℚ) = 2 ^ n - 2 ^ m := by
    rw [Nat.cast_sub (Nat.pow_le_pow_right Nat.two_pos le), Nat.cast_pow, Nat.cast_pow,
      Nat.cast_ofNat]
  have value : positional least [] = 2 ^ 1024 - 2 ^ 970 := by
    rw [positional, wholeValue_eq, Nat.ofDigitChars_ten_toDigits]
    exact (add_zero _).trans (cast 970 1024 (by decide))
  have numeral : Numeral least [] least [] :=
    numeral_whole Nat.toDigits_ne_nil fun c => Nat.isDigit_of_mem_toDigits (by decide) (by decide)
  have numeral' : Numeral halfway ['0'] (halfway ++ ".0".toList) [] :=
    numeral_pointed (by decide) (List.all_eq_true.mp rfl) (by decide) (List.all_eq_true.mp rfl)
  obtain ⟨item, read, -, -, large_iff, -⟩ := next_numeral 0 numeral
  obtain ⟨item', read', -, -, large_iff', nearest⟩ := next_numeral 7 numeral'
  rw [List.append_nil] at read read'
  have accepted : (Lexer.mk (halfway ++ ".0".toList) 7 none).next.1 =
      some (.ok ⟨.number v, "9007199254740993.0", 7⟩) := by decide +kernel
  have same : item' = _ := Option.some_inj.mp ((congrArg Prod.fst read').symm.trans accepted)
  have finite : positional halfway ['0'] < 2 ^ 1024 - 2 ^ 970 := by
    rw [← not_le, ← large_iff', same]
    nofun
  obtain ⟨w, made, unique⟩ := nearest finite
  obtain rfl : v = w := by
    rw [same] at made
    cases made
    rfl
  rw [read, large_iff.mpr (le_of_eq value.symm)]
  exact ⟨value, rfl, by decide +kernel, (unique v).mpr rfl, accepted⟩

end Literals

end SumProduct
