import SumProduct.Proofs.Leaves
import SumProduct.Proofs.Literals

/-!
# Texts of doubles

```text
double   := sign? ('inf' | 'infinity' | 'nan' | mantissa exponent?)    words in any case
mantissa := digit+ | digit* '.' digit*    with a digit at least
exponent := ('e' | 'E') sign? digit+
```

`Double.Spelled` is this grammar together with the double that a text of it stands for. The value
of a decimal is that of its digits in positional notation, times a power of ten that may have any
exponent, and the double is that value rounded (`Double.Rounded`).

Results:
1. `Double.exists_rounded` and `Double.Rounded.unique`: each value is rounded to one double.
2. `Double.rounded_zero_iff`: the values that are rounded to zero are those up to `2 ^ (-1075)`.
3. `Double.ofText?_eq_some_iff`: a text is read as a double exactly if it stands for it.
-/

namespace SumProduct

/-! ## Rounded values -/

/-- What a value is rounded to with a sign: the nearest number, ties to even, or from half a step
above the largest one on infinity. -/
inductive Double.Rounded (negative : Bool) (q : ℚ) : Double → Prop
  | finite {v : Number} : RoundsTo q v → Rounded negative q (.finite negative v)
  | infinite : 2 ^ 1024 - 2 ^ 970 ≤ q → Rounded negative q (.infinite negative)

namespace Double

variable {negative : Bool} {q : ℚ} {d d' : Double}

theorem Rounded.unique (rounded : Rounded negative q d) (rounded' : Rounded negative q d') :
    d = d' := by
  cases rounded with
  | finite rounds =>
    cases rounded' with
    | finite rounds' => rw [rounds.nearest.unique rounds'.nearest]
    | infinite large => exact absurd rounds.finite (not_lt.mpr large)
  | infinite large =>
    cases rounded' with
    | finite rounds => exact absurd rounds.finite (not_lt.mpr large)
    | infinite _ => rfl

theorem exists_rounded (negative : Bool) (nonneg : 0 ≤ q) : ∃ d, Rounded negative q d := by
  rcases lt_or_ge q (2 ^ 1024 - 2 ^ 970) with below | large
  · obtain ⟨v, rounds⟩ := RoundsTo.exists_of_lt nonneg below
    exact ⟨_, .finite rounds⟩
  · exact ⟨_, .infinite large⟩

/-- Half of the least number above zero is the last value that is rounded to zero. -/
theorem rounded_zero_iff : Rounded negative q (.finite negative .zero) ↔
    q ≤ 1 / 2 ^ 1075 := by
  have half : (1 : ℚ) / 2 ^ 1075 = 1 / unitsPerOne / 2 := by
    obtain ⟨m, m_eq, one⟩ := exists_unitsPerOne_eq
    rw [one, show 1075 = m + 1 by rw [m_eq], pow_succ, div_div]
    push_cast
    rfl
  rw [half, le_div_iff₀' two_pos]
  constructor
  · intro rounded
    let least : Number := ⟨1, by rw [rankLimit_eq]; decide⟩
    have value : least.toRat = 1 / unitsPerOne := by
      rw [Number.toRat, show least.units = 1 by decide, Nat.cast_one]
    have positive : Number.zero.toRat < least.toRat :=
      Number.toRat_lt_toRat_iff.mpr Nat.one_pos
    cases rounded with
    | finite rounds =>
      have le := rounds.nearest.two_mul_le positive
      rwa [Number.toRat_zero, zero_add, value] at le
  · intro small
    -- Only the numbers above zero compete, and a tie with the least of them goes to zero.
    refine .finite ⟨?_, .of_midpoints (fun v above => ?_) (fun v below => ?_)⟩
    · have one : 1 / (unitsPerOne : ℚ) ≤ 1 :=
        (div_le_one Number.cast_unitsPerOne_pos).mpr (Nat.one_le_cast.mpr unitsPerOne_pos)
      have finite := (RoundsTo.self .one).finite
      rw [Number.toRat_one] at finite
      exact lt_of_le_of_lt (by linarith) finite
    · rw [Number.toRat_zero] at above ⊢
      have units : 1 ≤ v.units := by
        rw [Number.toRat, div_pos_iff_of_pos_right Number.cast_unitsPerOne_pos] at above
        exact Nat.cast_pos.mp above
      have step : 1 / (unitsPerOne : ℚ) ≤ v.toRat :=
        div_le_div_of_nonneg_right (Nat.one_le_cast.mpr units) Number.cast_unitsPerOne_pos.le
      rw [zero_add]
      exact (lt_or_eq_of_le (small.trans step)).imp_right fun same => ⟨same, rfl⟩
    · rw [Number.toRat_zero] at below
      exact absurd below (not_lt.mpr v.toRat_nonneg)

theorem rounded_infinite_iff : Rounded negative q (.infinite negative) ↔
    2 ^ 1024 - 2 ^ 970 ≤ q := by
  constructor
  · intro rounded
    cases rounded with
    | infinite large => exact large
  · exact .infinite

end Double

/-- The double of a decimal is its rounded value. -/
theorem Decimal.toDouble_eq_iff {d : Decimal} {negative : Bool} {x : Double} :
    d.toDouble negative = x ↔ Double.Rounded negative d.toRat x := by
  have rounded : Double.Rounded negative d.toRat (d.toDouble negative) := by
    rw [toDouble]
    cases nearest : d.nearest? with
    | some v => exact .finite (nearest?_eq_some_iff.mp nearest)
    | none => exact .infinite (nearest?_eq_none_iff.mp nearest)
  constructor
  · rintro rfl
    exact rounded
  · exact rounded.unique

/-! ## The grammar -/

/-- A sign or none, and whether it is a minus sign. -/
inductive Sign : List Char → Bool → Prop
  | none : Sign [] false
  | plus : Sign ['+'] false
  | minus : Sign ['-'] true

namespace Decimal

/-- Digits with a point among them or none, and those in front of the point and behind it. -/
inductive Mantissa : (whole fraction text : List Char) → Prop
  | whole {digits : List Char} : digits ≠ [] → (∀ c ∈ digits, c.isDigit = true) →
      Mantissa digits [] digits
  | pointed {whole fraction : List Char} : whole ++ fraction ≠ [] →
      (∀ c ∈ whole, c.isDigit = true) → (∀ c ∈ fraction, c.isDigit = true) →
      Mantissa whole fraction (whole ++ '.' :: fraction)

/-- The power of ten at the end of a decimal. -/
inductive Exponent : List Char → Int → Prop
  | none : Exponent [] 0
  | marked {mark : Char} {sign digits : List Char} {negative : Bool} : mark = 'e' ∨ mark = 'E' →
      Sign sign negative → digits ≠ [] → (∀ c ∈ digits, c.isDigit = true) →
      Exponent (mark :: (sign ++ digits))
        (if negative then -(Nat.ofDigitChars 10 digits 0 : Int) else Nat.ofDigitChars 10 digits 0)

end Decimal

namespace Double

/-- The word is `word` in any case. -/
def AnyCase (word : String) (text : List Char) : Prop := text.map Char.toLower = word.toList

/-- The text stands for the double. -/
inductive Spelled : List Char → Double → Prop
  | infinite {sign word : List Char} {negative : Bool} : Sign sign negative →
      AnyCase "inf" word ∨ AnyCase "infinity" word → Spelled (sign ++ word) (.infinite negative)
  | nan {sign word : List Char} {negative : Bool} : Sign sign negative → AnyCase "nan" word →
      Spelled (sign ++ word) .nan
  | decimal {sign whole fraction mantissa marked : List Char} {negative : Bool} {k : Int}
      {d : Double} : Sign sign negative → Decimal.Mantissa whole fraction mantissa →
      Decimal.Exponent marked k → Rounded negative (positional whole fraction * 10 ^ k) d →
      Spelled (sign ++ (mantissa ++ marked)) d

end Double

/-! ## Reading -/

section Signs

variable {sign rest text : List Char} {negative : Bool}

theorem exists_splitSign (text : List Char) :
    ∃ sign, text = sign ++ (splitSign text).2 ∧ Sign sign (splitSign text).1 := by
  unfold splitSign
  split
  · exact ⟨_, rfl, .plus⟩
  · exact ⟨_, rfl, .minus⟩
  · exact ⟨[], rfl, .none⟩

/-- A sign is cut off if no further one follows. -/
theorem Sign.splitSign (signed : Sign sign negative)
    (unsigned : ∀ c ∈ rest.head?, c ≠ '+' ∧ c ≠ '-') :
    splitSign (sign ++ rest) = (negative, rest) := by
  cases signed with
  | plus | minus => rfl
  | none =>
    unfold SumProduct.splitSign
    split
    · next first => exact absurd rfl (unsigned '+' (by rw [← List.nil_append rest, first]; rfl)).1
    · next first => exact absurd rfl (unsigned '-' (by rw [← List.nil_append rest, first]; rfl)).2
    · rfl

theorem ne_sign_of_digit {c : Char} (digit : c.isDigit = true) : c ≠ '+' ∧ c ≠ '-' :=
  ⟨Token.ne_of_class digit rfl, Token.ne_of_class digit rfl⟩

end Signs

namespace Decimal

section Reading

variable {text whole fraction mantissa marked : List Char} {k : Int} {d : Decimal}

theorem exponent?_eq_some_iff : exponent? text = some k ↔ Exponent text k := by
  constructor
  · intro read
    unfold exponent? at read
    split at read
    · cases read
      exact .none
    · next mark rest =>
      obtain ⟨sign, parts, signed⟩ := exists_splitSign rest
      simp only at read
      split at read
      · next form =>
        obtain ⟨mark, nonempty, digits⟩ := form
        rw [parts, ← Option.some.inj read]
        exact .marked mark signed nonempty (List.all_eq_true.mp digits)
      · cases read
  · rintro (_ | ⟨mark, signed, nonempty, digits⟩)
    · rfl
    · have unsigned : ∀ c ∈ List.head? _, c ≠ '+' ∧ c ≠ '-' := fun c first =>
        ne_sign_of_digit (digits c (List.mem_of_mem_head? first))
      simp only [exponent?, signed.splitSign unsigned]
      rw [if_pos ⟨mark, nonempty, List.all_eq_true.mpr digits⟩]

/-- No mantissa goes on behind an exponent. -/
theorem Exponent.ends (exponent : Exponent marked k) :
    ∀ c ∈ marked.head?, c.isDigit = false ∧ c ≠ '.' := by
  cases exponent with
  | none => nofun
  | marked mark =>
    rintro c ⟨⟩
    rcases mark with rfl | rfl <;> decide

theorem splitFraction_of_ne (other : ∀ c ∈ text.head?, c ≠ '.') :
    splitFraction text = ([], text) := by
  unfold splitFraction
  split
  · next rest => exact absurd rfl (other '.' rfl)
  · rfl

theorem ofText?_eq_some_iff : ofText? text = some d ↔
    ∃ whole fraction mantissa marked k, text = mantissa ++ marked ∧
      Mantissa whole fraction mantissa ∧ Exponent marked k ∧
      d = (ofDigits whole fraction).shift k := by
  have digits (text : List Char) : ∀ c ∈ (splitDigits text).1, c.isDigit = true :=
    List.all_eq_true.mp List.all_takeWhile
  constructor
  · intro read
    simp only [ofText?] at read
    split at read
    · cases read
    · next nonempty =>
      obtain ⟨k, exponent, rfl⟩ := Option.map_eq_some_iff.mp read
      have exponent := exponent?_eq_some_iff.mp exponent
      have parts := splitDigits_append text
      -- The reader takes no fraction both where no point is and where no digits follow one.
      by_cases pointed : ∃ rest, (splitDigits text).2 = '.' :: rest
      · obtain ⟨rest, behind⟩ := pointed
        rw [behind] at nonempty exponent parts ⊢
        refine ⟨_, _, _, _, k, ?_, .pointed nonempty (digits text) (digits rest), exponent, rfl⟩
        rw [List.append_assoc, List.cons_append, splitFraction, splitDigits_append, parts]
      · have other : ∀ c ∈ (splitDigits text).2.head?, c ≠ '.' := by
          rintro c first rfl
          exact pointed ⟨_, List.eq_cons_of_mem_head? first⟩
        rw [splitFraction_of_ne other] at nonempty exponent ⊢
        rw [List.append_nil] at nonempty
        exact ⟨_, _, _, _, k, parts.symm, .whole nonempty (digits text), exponent, rfl⟩
  · rintro ⟨whole, fraction, mantissa, marked, k, rfl, mantissa, exponent, rfl⟩
    have ends := exponent.ends
    have read := exponent?_eq_some_iff.mpr exponent
    cases mantissa with
    | whole nonempty digits =>
      simp only [ofText?, Token.splitDigits_run digits fun c first => (ends c first).1,
        splitFraction_of_ne fun c first => (ends c first).2, List.append_nil, if_neg nonempty, read,
        Option.map_some]
    | pointed nonempty whole fraction =>
      rw [List.append_assoc, List.cons_append]
      simp only [ofText?, Token.splitDigits_pointed whole, splitFraction,
        Token.splitDigits_run fraction fun c first => (ends c first).1, if_neg nonempty, read,
        Option.map_some]

/-- A decimal starts with a digit or a point. -/
theorem Mantissa.exists_cons (form : Mantissa whole fraction mantissa) :
    ∃ first others, mantissa = first :: others ∧ (first.isDigit = true ∨ first = '.') := by
  cases form with
  | whole nonempty digits =>
    obtain ⟨first, others, rfl⟩ := List.exists_cons_of_ne_nil nonempty
    exact ⟨first, others, rfl, .inl (digits first List.mem_cons_self)⟩
  | pointed _ digits _ =>
    cases whole with
    | nil => exact ⟨'.', fraction, rfl, .inr rfl⟩
    | cons first others => exact ⟨first, _, rfl, .inl (digits first List.mem_cons_self)⟩

@[simp] theorem toRat_shift (d : Decimal) (k : Int) : (d.shift k).toRat = d.toRat * 10 ^ k := by
  rw [toRat, toRat, shift, zpow_add₀ (by norm_num), mul_assoc]

end Reading

end Decimal

namespace Double

section Reading

variable {word : String} {text : List Char} {d : Double}

theorem anyCase_iff : AnyCase word text ↔ String.ofList (text.map Char.toLower) = word := by
  rw [AnyCase, ← String.toList_inj, String.toList_ofList]

/-- The first character of a word is one of its letters in some case. -/
theorem AnyCase.head? (spelled : AnyCase word text) :
    word.toList.head? = text.head?.map Char.toLower := by
  rw [← spelled, List.head?_map]

theorem AnyCase.unsigned (spelled : AnyCase word text)
    (letter : word.toList.head?.all Char.isAlpha = true) :
    ∀ c ∈ text.head?, c ≠ '+' ∧ c ≠ '-' := by
  intro c first
  rw [spelled.head?, Option.mem_def.mp first, Option.map_some, Option.all_some] at letter
  constructor <;>
  · rintro rfl
    cases letter

/-- A decimal is no word. -/
theorem not_anyCase_of_mantissa {whole fraction mantissa : List Char}
    (form : Decimal.Mantissa whole fraction mantissa) (marked : List Char)
    (letter : word.toList.head?.all Char.isAlpha = true) :
    ¬AnyCase word (mantissa ++ marked) := by
  intro spelled
  obtain ⟨first, others, rfl, start⟩ := form.exists_cons
  rw [spelled.head?, List.cons_append, List.head?_cons, Option.map_some, Option.all_some] at letter
  rcases start with digit | rfl
  · rw [Token.toLower_digit digit, Token.isAlpha_of_isDigit digit] at letter
    cases letter
  · cases letter

/-- A text is read as a double exactly if it stands for it. -/
theorem ofText?_eq_some_iff : ofText? text = some d ↔ Spelled text d := by
  constructor
  · intro read
    obtain ⟨sign, parts, signed⟩ := exists_splitSign text
    simp only [ofText?] at read
    rw [parts]
    split at read
    · next word =>
      cases read
      exact .infinite signed (word.imp anyCase_iff.mpr anyCase_iff.mpr)
    split at read
    · next word =>
      cases read
      exact .nan signed (anyCase_iff.mpr word)
    · obtain ⟨decimal, found, rounded⟩ := Option.map_eq_some_iff.mp read
      obtain ⟨whole, fraction, mantissa, marked, k, split, form, exponent, rfl⟩ :=
        Decimal.ofText?_eq_some_iff.mp found
      rw [Decimal.toDouble_eq_iff, Decimal.toRat_shift, Decimal.toRat_ofDigits] at rounded
      rw [split]
      exact .decimal signed form exponent rounded
  · intro spelled
    cases spelled with
    | infinite signed word =>
      have unsigned := word.elim (·.unsigned rfl) (·.unsigned rfl)
      simp only [ofText?, signed.splitSign unsigned]
      rw [if_pos (word.imp anyCase_iff.mp anyCase_iff.mp)]
    | @nan sign word _ signed nan =>
      simp only [ofText?, signed.splitSign (nan.unsigned rfl), anyCase_iff.mp nan]
      rw [if_neg (by decide), if_pos trivial]
    | @decimal sign whole fraction mantissa marked negative k _ signed form exponent rounded =>
      have unsigned : ∀ c ∈ (mantissa ++ marked).head?, c ≠ '+' ∧ c ≠ '-' := by
        obtain ⟨first, others, rfl, start⟩ := form.exists_cons
        rintro c ⟨⟩
        rcases start with digit | rfl
        · exact ne_sign_of_digit digit
        · decide
      have other (word : String) (letter : word.toList.head?.all Char.isAlpha = true) :=
        mt anyCase_iff.mpr (not_anyCase_of_mantissa form marked letter)
      have read := Decimal.ofText?_eq_some_iff.mpr
        ⟨whole, fraction, mantissa, marked, k, rfl, form, exponent, rfl⟩
      rw [← Decimal.toRat_ofDigits, ← Decimal.toRat_shift, ← Decimal.toDouble_eq_iff] at rounded
      simp only [ofText?, signed.splitSign unsigned]
      rw [if_neg (not_or.mpr ⟨other "inf" rfl, other "infinity" rfl⟩),
        if_neg (other "nan" rfl), read, Option.map_some, rounded]

end Reading

end Double

end SumProduct
