import SumProduct.Proofs.ExactValue
import SumProduct.Proofs.SyntaxErrors
import SumProduct.Request

/-!
# What leaves hold

Seen from outside, an expression is a tree with doubles and strings at its leaves (`RawTree`).
`Expression.Made` lists the ways to come by an expression. The trees that are made are those whose
doubles are finite, not negative and not minus zero, and whose strings are nonempty words of letters
(`exists_made_iff`).

The checks at the entrances are needed for doubles and strings from outside only. What is cut from a
text is a word of letters or a decimal that the reader of doubles takes, and the sum or product of
two numbers is rounded to a number or to plus infinity. So the only thing that can be wrong with a
literal or with a result is its size (`leaf_invariants`).
-/

namespace SumProduct

/-! ## Doubles of leaves -/

namespace Double

/-- The value of a finite double. -/
def toRat? : Double → Option ℚ
  | .finite negative magnitude => some (if negative then -magnitude.toRat else magnitude.toRat)
  | .infinite _ | .nan => none

/-- Whether a double is finite, not negative and not minus zero. -/
structure Plain (d : Double) : Prop where
  nonneg : ∃ q, d.toRat? = some q ∧ 0 ≤ q
  not_minusZero : d ≠ .finite true .zero

variable {a b d : Double}

@[simp] theorem toRat?_toDouble (v : Number) : v.toDouble.toRat? = some v.toRat := rfl

/-- A magnitude with a minus sign is zero if it is not negative. -/
theorem eq_zero_of_neg_nonneg {magnitude : Number} (nonneg : 0 ≤ -magnitude.toRat) :
    magnitude = .zero := by
  rw [← Number.toRat_inj, Number.toRat_zero]
  exact le_antisymm (neg_nonneg.mp nonneg) magnitude.toRat_nonneg

theorem plain_iff : d.Plain ↔ ∃ v : Number, v.toDouble = d := by
  constructor
  · rintro ⟨⟨q, value, nonneg⟩, notMinusZero⟩
    cases d with
    | infinite negative | nan => cases value
    | finite negative magnitude =>
      cases negative with
      | false => exact ⟨magnitude, rfl⟩
      | true =>
        cases value
        rw [eq_zero_of_neg_nonneg nonneg] at notMinusZero
        exact absurd rfl notMinusZero
  · rintro ⟨v, rfl⟩
    exact ⟨⟨v.toRat, rfl, v.toRat_nonneg⟩, nofun⟩

/-- Plain doubles have the same bits exactly if they have the same value. -/
theorem Plain.bits_eq_iff (left : a.Plain) (right : b.Plain) :
    a.bits = b.bits ↔ a.toRat? = b.toRat? := by
  obtain ⟨v, rfl⟩ := plain_iff.mp left
  obtain ⟨w, rfl⟩ := plain_iff.mp right
  rw [toRat?_toDouble, toRat?_toDouble, Option.some_inj, Number.toRat_inj]
  constructor
  · intro same
    have decoded : v.toDouble = w.toDouble := by
      simpa using congrArg ofBits same
    injection decoded
  · rintro rfl
    rfl

end Double

namespace Number

/-- A double is taken as the number that has its value, and refused if there is none. -/
theorem ofDouble_eq_ok_iff {d : Double} {v : Number} :
    ofDouble d = .ok v ↔ d.toRat? = some v.toRat := by
  cases d with
  | infinite negative | nan => exact iff_of_false nofun nofun
  | finite negative magnitude =>
    cases negative with
    | false => simp [ofDouble, Double.toRat?]
    | true =>
      by_cases zero : magnitude = .zero
      · rw [zero]
        simp [ofDouble, Double.toRat?, ← toRat_inj]
      · refine iff_of_false (by simp [ofDouble, zero]) fun value => zero ?_
        have same : -magnitude.toRat = v.toRat := Option.some.inj value
        exact Double.eq_zero_of_neg_nonneg (same ▸ v.toRat_nonneg)

end Number

/-! ## Names of leaves -/

/-- A nonempty word of letters. -/
def Variable.IsName (name : String) : Prop := name ≠ "" ∧ ∀ c ∈ name.toList, c.isAlpha = true

/-- A string is taken as the variable with this name exactly if it is a nonempty word of letters. -/
theorem Variable.exists_ofName_iff {name : String} :
    (∃ x, ofName name = .ok x) ↔ IsName name := by
  constructor
  · rintro ⟨x, named⟩
    rw [← name_of_ofName named]
    exact ⟨mt String.toList_eq_nil_iff.mpr x.ne_nil, x.letters⟩
  · rintro ⟨nonempty, letters⟩
    exact ⟨_, ofName_name ⟨name, mt String.toList_eq_nil_iff.mp nonempty, letters⟩⟩

/-! ## Literals -/

namespace Token

section Literals

variable {whole fraction literal after : List Char}

/-- A numeral has no exponent: its decimal is that of its digits. -/
theorem Numeral.decimal (numeral : Numeral whole fraction literal after) :
    Decimal.ofText? literal = some (Decimal.ofDigits whole fraction) := by
  have unmoved : (Decimal.ofDigits whole fraction).shift 0 = Decimal.ofDigits whole fraction := by
    rw [Decimal.shift, Int.add_zero]
  cases numeral with
  | whole digits _ =>
    simp only [Decimal.ofText?, splitDigits_digits digits.inside, splitFraction, List.append_nil,
      if_neg digits.nonempty, Decimal.exponent?, Option.map_some, unmoved]
  | pointed digits behind =>
    have nonempty : whole ++ fraction ≠ [] := by simp [digits.nonempty]
    simp only [Decimal.ofText?, splitDigits_pointed digits.inside, splitFraction,
      splitDigits_digits behind.inside, if_neg nonempty, Decimal.exponent?, Option.map_some,
      unmoved]

theorem toLower_digit {c : Char} (digit : c.isDigit = true) : c.toLower = c := by
  have letter := isAlpha_of_isDigit digit
  rw [isAlpha_eq, Bool.or_eq_false_iff] at letter
  exact dif_neg (of_decide_eq_false letter.1)

/-- A text that starts with a digit has no sign and is no word. -/
theorem ofText?_digit {c : Char} (digit : c.isDigit = true) (rest : List Char) :
    Double.ofText? (c :: rest) = (Decimal.ofText? (c :: rest)).map (·.toDouble false) := by
  have unsigned : splitSign (c :: rest) = (false, c :: rest) := by
    unfold splitSign
    split
    · next same => cases same; cases digit
    · next same => cases same; cases digit
    · rfl
  have other (word : String) (outside : word.toList.head?.all (!·.isDigit) = true) :
      String.ofList ((c :: rest).map Char.toLower) ≠ word := by
    rintro rfl
    rw [String.toList_ofList, List.map_cons, toLower_digit digit] at outside
    simp [digit] at outside
  simp only [Double.ofText?, unsigned]
  rw [if_neg (not_or.mpr ⟨other "inf" rfl, other "infinity" rfl⟩), if_neg (other "nan" rfl)]

/-- The reader of doubles takes each numeral. -/
theorem Numeral.ofText? (numeral : Numeral whole fraction literal after) :
    Double.ofText? literal = some ((Decimal.ofDigits whole fraction).toDouble false) := by
  obtain ⟨first, others, rfl, digit⟩ := numeral.exists_cons
  rw [ofText?_digit digit, numeral.decimal, Option.map_some]

/-- The number of a token is the double that its literal spells. -/
theorem ofText?_of_number {text : String} {token : Token} {v : Number}
    (mem : .ok token ∈ scan text) (number : token.kind = .number v) :
    Double.ofText? token.literal.toList = some v.toDouble := by
  obtain ⟨before, lexeme, after, -, cut⟩ := exists_cut_of_mem_scan mem
  cases cut with
  | symbol symbol =>
    rcases mem_symbols.mp symbol with ⟨-, rfl⟩ | ⟨-, rfl⟩ | ⟨-, rfl⟩ | ⟨-, rfl⟩ <;> cases number
  | name word => cases number
  | number numeral value =>
    cases number
    rw [String.toList_ofList, numeral.ofText?, Decimal.toDouble, value]
    rfl

/-- A literal that is no token spells a double as well, one that is too large. -/
theorem ofText?_of_invalidLiteral {text literal : String} {offset : Nat} {cause : InvalidValue}
    (mem : .error (.invalidLiteral literal offset cause) ∈ scan text) :
    Double.ofText? literal.toList = some (.infinite false) ∧
      cause = .notFinite (.infinite false) := by
  obtain ⟨before, lexeme, after, -, cut⟩ := exists_cut_of_mem_scan mem
  cases cut with
  | tooLarge numeral value =>
    rw [String.toList_ofList, numeral.ofText?, Decimal.toDouble, value]
    exact ⟨rfl, rfl⟩

end Literals

end Token

/-- A text is not refused for a name. -/
theorem Expression.cause_of_parse {text literal : String} {offset : Nat} {cause : InvalidValue}
    (failed : parse text = .error (.invalidLiteral literal offset cause)) :
    cause = .notFinite (.infinite false) := by
  cases origin_of_parse failed with
  | item mem => exact (Token.ofText?_of_invalidLiteral mem).2
  | token mem fault => cases fault

theorem Token.exists_ofName {text : String} {token : Token} (mem : .ok token ∈ scan text)
    (ident : token.kind = .ident) : ∃ x, Variable.ofName token.literal = .ok x := by
  obtain ⟨x, named⟩ := Expression.named_scan text token mem ident
  exact ⟨x, named ▸ Variable.ofName_name x⟩

/-! ## Trees of leaves -/

/-- An expression as it looks from outside, with any doubles and any strings. -/
inductive RawTree where
  | num (value : Double)
  | var (name : String)
  | sum (left right : RawTree)
  | prod (left right : RawTree)

def Expression.raw : Expression → RawTree
  | .num v => .num v.toDouble
  | .var x => .var x.name
  | .sum l r => .sum l.raw r.raw
  | .prod l r => .prod l.raw r.raw

/-- All doubles are plain and all strings are names. -/
def RawTree.Valid : RawTree → Prop
  | num d => d.Plain
  | var name => Variable.IsName name
  | sum l r => l.Valid ∧ r.Valid
  | prod l r => l.Valid ∧ r.Valid

/-- The environments that are built one definition after the other. -/
inductive Environment.Defined : Environment → Prop
  | empty : Defined .empty
  | define {env env' : Environment} {name : String} {value : Double} : Defined env →
      env.define name value = .ok env' → Defined env'

namespace Expression

/-- The ways to come by an expression: from a text, from a double or a name, and by operations. -/
inductive Made : Expression → Prop
  | parse {text : String} {e : Expression} : parse text = .ok e → Made e
  | number {d : Double} {v : Number} : Number.ofDouble d = .ok v → Made (.num v)
  | variable {name : String} {x : Variable} : Variable.ofName name = .ok x → Made (.var x)
  | plus {l r : Expression} : Made l → Made r → Made (.sum l r)
  | times {l r : Expression} : Made l → Made r → Made (.prod l r)
  | derivative {e : Expression} (x : String) : Made e → Made (e.derivative x)
  | simplify {e : Expression} {env : Environment} : Made e → env.Defined → Made (e.simplify env)

theorem raw_valid (e : Expression) : e.raw.Valid := by
  induction e with
  | num v => exact Double.plain_iff.mpr ⟨v, rfl⟩
  | var x => exact Variable.exists_ofName_iff.mp ⟨x, Variable.ofName_name x⟩
  | sum l r left right | prod l r left right => exact ⟨left, right⟩

/-- The trees that are made are the valid ones. -/
theorem exists_made_iff (tree : RawTree) : (∃ e, Made e ∧ e.raw = tree) ↔ tree.Valid := by
  constructor
  · rintro ⟨e, -, rfl⟩
    exact e.raw_valid
  · intro valid
    induction tree with
    | num d =>
      obtain ⟨v, rfl⟩ := Double.plain_iff.mp valid
      exact ⟨.num v, .number (Number.ofDouble_toDouble v), rfl⟩
    | var name =>
      obtain ⟨x, named⟩ := Variable.exists_ofName_iff.mpr valid
      exact ⟨.var x, .variable named, congrArg _ (Variable.name_of_ofName named)⟩
    | sum l r left right =>
      obtain ⟨a, a_made, rfl⟩ := left valid.1
      obtain ⟨b, b_made, rfl⟩ := right valid.2
      exact ⟨.sum a b, .plus a_made b_made, rfl⟩
    | prod l r left right =>
      obtain ⟨a, a_made, rfl⟩ := left valid.1
      obtain ⟨b, b_made, rfl⟩ := right valid.2
      exact ⟨.prod a b, .times a_made b_made, rfl⟩

/-- Two numbers are folded to the double that the operation gives, unless that is plus infinity. -/
def Folds (operation : Double → Double → Double) : Prop :=
  ∀ a b : Number, match fold? operation (.num a) (.num b) with
    | some v => operation a.toDouble b.toDouble = v.toDouble
    | none => operation a.toDouble b.toDouble = .infinite false

/-- A rounded result without a sign is a number or plus infinity. -/
theorem folds_of_round {operation : Double → Double → Double}
    (rounded : ∀ a b : Number, ∃ num den,
      operation a.toDouble b.toDouble = Double.round false num den) : Folds operation := by
  intro a b
  obtain ⟨num, den, result⟩ := rounded a b
  have folded : fold? operation (.num a) (.num b) =
      (Number.ofDouble (operation a.toDouble b.toDouble)).toOption := rfl
  rw [folded, result, Double.round]
  cases Number.nearest? num den with
  | none => rfl
  | some v =>
    have accepted : Number.ofDouble (.finite false v) = .ok v := Number.ofDouble_toDouble v
    rw [Option.elim_some, accepted]
    rfl

theorem folds_add : Folds (· + ·) :=
  folds_of_round fun a b => ⟨_, _, Double.toDouble_add_toDouble a b⟩

theorem folds_mul : Folds (· * ·) :=
  folds_of_round fun a b => ⟨_, _, Double.toDouble_mul_toDouble a b⟩

/-- The expressions that can be made are all those, and only those, with doubles that are finite,
not negative and not minus zero, and with nonempty words of letters. A double becomes the number of
its value, and among doubles of leaves the same bits are the same value. No text is refused for a
name: the checks take each name and each number literal that is cut from a text. A sum or product of
two numbers is left as it is only if the result is plus infinity. -/
theorem leaf_invariants :
    (∀ tree : RawTree, (∃ e, Made e ∧ e.raw = tree) ↔ tree.Valid) ∧
    (∀ d v, Number.ofDouble d = .ok v ↔ d.toRat? = some v.toRat) ∧
    (∀ a b : Double, a.Plain → b.Plain → (a.bits = b.bits ↔ a.toRat? = b.toRat?)) ∧
    (∀ text literal offset cause, parse text = .error (.invalidLiteral literal offset cause) →
      cause = .notFinite (.infinite false)) ∧
    (∀ text token, .ok token ∈ Token.scan text →
      (token.kind = .ident → ∃ x, Variable.ofName token.literal = .ok x) ∧
      ∀ v, token.kind = .number v → Double.ofText? token.literal.toList = some v.toDouble) ∧
    (∀ text literal offset cause, .error (.invalidLiteral literal offset cause) ∈ Token.scan text →
      Double.ofText? literal.toList = some (.infinite false)) ∧
    Folds (· + ·) ∧ Folds (· * ·) := by
  refine ⟨exists_made_iff, fun d v => Number.ofDouble_eq_ok_iff, ?_, ?_, ?_, ?_, folds_add,
    folds_mul⟩
  · exact fun a b left right => left.bits_eq_iff right
  · exact fun text literal offset cause failed => cause_of_parse failed
  · intro text token mem
    exact ⟨Token.exists_ofName mem, fun v number => Token.ofText?_of_number mem number⟩
  · exact fun text literal offset cause mem => (Token.ofText?_of_invalidLiteral mem).1

/-- Minus zero becomes zero and is no leaf. The literals of a product are a number and a name, and
the sum of the two largest numbers is not folded. -/
theorem leaf_invariants_limits :
    let largest : Number := ⟨rankLimit - 1, Nat.sub_lt rankLimit_pos Nat.one_pos⟩
    Number.ofDouble (.finite true .zero) = .ok .zero ∧
    (¬∃ e, Made e ∧ e.raw = .num (.finite true .zero)) ∧
    Double.ofText? "1.0".toList = some Number.one.toDouble ∧
    (∃ x, Variable.ofName "xY" = .ok x) ∧
    largest.toDouble + largest.toDouble = .infinite false := by
  intro largest
  obtain ⟨made, taken, -, -, tokens, -, sums, -⟩ := leaf_invariants
  have zero : (Double.finite true .zero).toRat? = some Number.zero.toRat := by
    simp [Double.toRat?]
  have items : Token.scan "1.0*xY" =
      [.ok ⟨.number .one, "1.0", 0⟩, .ok ⟨.star, "*", 3⟩, .ok ⟨.ident, "xY", 4⟩] := by
    decide +kernel
  have unfolded : fold? (· + ·) (.num largest) (.num largest) = none := by decide +kernel
  have overflow := sums largest largest
  rw [unfolded] at overflow
  refine ⟨(taken _ _).mpr zero, fun reached => ?_, ?_, ?_, overflow⟩
  · exact ((made _).mp reached).not_minusZero rfl
  · exact (tokens "1.0*xY" ⟨.number .one, "1.0", 0⟩ (by simp [items])).2 .one rfl
  · exact (tokens "1.0*xY" ⟨.ident, "xY", 4⟩ (by simp [items])).1 rfl

end Expression

end SumProduct
