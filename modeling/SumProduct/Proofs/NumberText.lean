import SumProduct.Proofs.Rounding
import SumProduct.Proofs.Scanning

/-!
# Reading the text of a number

A number in an expression is written as digits, a point and four more digits. These digits count
the ten-thousandths nearest to the number, and the reader takes them back as that count. The count
is never so large that the text is refused: half a ten-thousandth is far too little to carry a
number over the end of the finite ones. So each number has a number that its text reads back to
(`Number.reread`). Any other count of places is read in the same way (`Number.scanFrom_fixed`).
-/

namespace SumProduct

/-! ## Digits -/

theorem isDigit_of_mem_toDigits {n : Nat} : ∀ c ∈ Nat.toDigits 10 n, c.isDigit = true :=
  fun _ mem => Nat.isDigit_of_mem_toDigits (by decide) (by decide) mem

theorem isDigit_of_mem_paddedDigits {width n : Nat} :
    ∀ c ∈ paddedDigits width n, c.isDigit = true := by
  intro c mem
  rw [paddedDigits, List.leftpad, List.mem_append] at mem
  rcases mem with zero | digit
  · rw [List.eq_of_mem_replicate zero]
    decide
  · exact isDigit_of_mem_toDigits c digit

theorem length_paddedDigits {width n : Nat} (width_pos : 0 < width) (lt : n < 10 ^ width) :
    (paddedDigits width n).length = width := by
  have le := (Nat.length_toDigits_le_iff (by decide) width_pos).mpr lt
  rw [paddedDigits, List.length_leftpad, Nat.max_eq_left le]

@[simp] theorem ofDigitChars_paddedDigits {width n : Nat} :
    Nat.ofDigitChars 10 (paddedDigits width n) 0 = n := by
  rw [paddedDigits, List.leftpad, Nat.ofDigitChars_append, Nat.ofDigitChars_replicate_zero,
    Nat.mul_zero, Nat.ofDigitChars_ten_toDigits]

/-- The digits before and after the point, read as one. -/
theorem ofDigitChars_fixed {places count : Nat} (places_pos : 0 < places) :
    Nat.ofDigitChars 10
      (Nat.toDigits 10 (count / 10 ^ places) ++ paddedDigits places (count % 10 ^ places)) 0 =
        count := by
  have lt : count % 10 ^ places < 10 ^ places := Nat.mod_lt count (Nat.pow_pos (by decide))
  rw [Nat.ofDigitChars_append, Nat.ofDigitChars_ten_toDigits,
    Nat.ofDigitChars_eq_ofDigitChars_zero, length_paddedDigits places_pos lt,
    ofDigitChars_paddedDigits, Nat.div_add_mod]

/-! ## The count of ten-thousandths -/

namespace Number

theorem scaled_lt (v : Number) : v.scaled 4 * unitsPerOne < overflowUnits * 10 ^ 4 := by
  have rounded := two_mul_roundHalfEven_le (v.units * 10 ^ 4) unitsPerOne_pos
  have room := Nat.mul_le_mul_right (10 ^ 4) v.units_add_one_le
  have one := unitsPerOne_pos
  rw [scaled]
  omega

theorem isSome_nearest?_scaled (v : Number) : (Decimal.nearest? ⟨v.scaled 4, -4⟩).isSome := by
  have finite : nearestRank (v.scaled 4 * 10 ^ 0 * unitsPerOne) (10 ^ 4) < rankLimit := by
    rw [nearestRank_lt_rankLimit_iff (by decide), Nat.pow_zero, Nat.mul_one]
    exact v.scaled_lt
  unfold Decimal.nearest?
  rw [if_neg (show ¬(400 : Int) < -4 by decide)]
  split
  · rfl
  split
  · rfl
  · exact Option.isSome_of_mem (dif_pos finite)

/-! ## Reading the text -/

theorem toDouble_of_nearest? {d : Decimal} {v : Number} (nearest : d.nearest? = some v) :
    d.toDouble false = v.toDouble := by
  rw [Decimal.toDouble, nearest, toDouble]

/-- The number that the text of a number reads back to: the one nearest to the ten-thousandths. -/
def reread (v : Number) : Number :=
  (Decimal.nearest? ⟨v.scaled 4, -4⟩).get v.isSome_nearest?_scaled

theorem nearest?_scaled (v : Number) : Decimal.nearest? ⟨v.scaled 4, -4⟩ = some v.reread :=
  Option.eq_some_of_isSome v.isSome_nearest?_scaled

section Fixed

variable {v w : Number} {places : Nat} {offset : Nat} {rest : List Char}

/-- The digits of a number with some places behind the point are read back as the number nearest to
the count of these places. -/
theorem literalValue_fixed (places_pos : 0 < places)
    (nearest : Decimal.nearest? ⟨v.scaled places, -places⟩ = some w) :
    Token.literalValue (v.fixed places) = .ok w := by
  have lt : v.scaled places % 10 ^ places < 10 ^ places := Nat.mod_lt _ (Nat.pow_pos (by decide))
  have decimal : Decimal.ofDigits (Nat.toDigits 10 (v.scaled places / 10 ^ places))
      (paddedDigits places (v.scaled places % 10 ^ places)) = ⟨v.scaled places, -places⟩ := by
    rw [Decimal.ofDigits, ofDigitChars_fixed places_pos, length_paddedDigits places_pos lt]
  rw [fixed, Token.literalValue_pointed isDigit_of_mem_toDigits isDigit_of_mem_paddedDigits,
    decimal, toDouble_of_nearest? nearest, ofDouble_toDouble]

/-- They are made of digits and a point. -/
theorem mem_fixed {c : Char} (mem : c ∈ v.fixed places) : c.isDigit ∨ c = '.' := by
  rw [fixed, List.mem_append, List.mem_cons] at mem
  rcases mem with whole | point | fraction
  · exact .inl (isDigit_of_mem_toDigits c whole)
  · exact .inr point
  · exact .inl (isDigit_of_mem_paddedDigits c fraction)

/-- They are one token. -/
theorem scanFrom_fixed (places_pos : 0 < places)
    (nearest : Decimal.nearest? ⟨v.scaled places, -places⟩ = some w)
    (boundary : Token.Boundary rest) :
    Token.scanFrom offset (v.fixed places ++ rest) =
      .ok ⟨.number w, String.ofList (v.fixed places), offset⟩ ::
        Token.scanFrom (offset + Text.size (v.fixed places)) rest := by
  have lt : v.scaled places % 10 ^ places < 10 ^ places := Nat.mod_lt _ (Nat.pow_pos (by decide))
  have fraction_ne_nil : paddedDigits places (v.scaled places % 10 ^ places) ≠ [] := by
    rw [← List.length_pos_iff, length_paddedDigits places_pos lt]
    exact places_pos
  have value := literalValue_fixed places_pos nearest
  rw [fixed] at value ⊢
  rw [List.append_assoc, List.cons_append]
  exact Token.scanFrom_number isDigit_of_mem_toDigits Nat.toDigits_ne_nil
    isDigit_of_mem_paddedDigits fraction_ne_nil value boundary

end Fixed

theorem text_eq (v : Number) :
    v.text =
      Nat.toDigits 10 (v.scaled 4 / 10 ^ 4) ++ '.' :: paddedDigits 4 (v.scaled 4 % 10 ^ 4) := by
  rw [text, fixed]

@[simp] theorem literalValue_text (v : Number) : Token.literalValue v.text = .ok v.reread :=
  literalValue_fixed (by decide) v.nearest?_scaled

/-- The text of a number is made of digits and a point. -/
theorem mem_text (v : Number) {c : Char} (mem : c ∈ v.text) : c.isDigit ∨ c = '.' := mem_fixed mem

/-- The text of a number is one token. -/
theorem scanFrom_text (v : Number) {offset : Nat} {rest : List Char}
    (boundary : Token.Boundary rest) :
    Token.scanFrom offset (v.text ++ rest) =
      .ok ⟨.number v.reread, String.ofList v.text, offset⟩ ::
        Token.scanFrom (offset + Text.size v.text) rest :=
  scanFrom_fixed (by decide) v.nearest?_scaled boundary

end Number

end SumProduct
