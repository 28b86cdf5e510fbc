import SumProduct.Token.Scan

/-!
# Where lexemes end

What `Token.scanFrom` does at the start of a text: it passes over white space, and it cuts off a
symbol, a name, or a number with digits on both sides of its point, if the text behind that cannot
make it longer.
-/

namespace SumProduct.Token

/-! ## Runs of a class of characters -/

theorem takeWhile_run {α : Type} {p : α → Bool} {run rest : List α} (inside : ∀ c ∈ run, p c = true)
    (outside : ∀ c ∈ rest.head?, p c = false) : (run ++ rest).takeWhile p = run := by
  rw [List.takeWhile_append_of_pos inside]
  cases rest with
  | nil => simp
  | cons c rest => simp [outside c rfl]

theorem dropWhile_run {α : Type} {p : α → Bool} {run rest : List α} (inside : ∀ c ∈ run, p c = true)
    (outside : ∀ c ∈ rest.head?, p c = false) : (run ++ rest).dropWhile p = rest := by
  rw [List.dropWhile_append_of_pos inside]
  cases rest with
  | nil => simp
  | cons c rest => simp [outside c rfl]

/-- No name and no number goes on in this text: it does not begin with a letter or a digit. -/
def Boundary (rest : List Char) : Prop :=
  ∀ c ∈ rest.head?, c.isAlpha = false ∧ c.isDigit = false

theorem Boundary.nil : Boundary [] := by
  intro c first
  cases first

theorem Boundary.cons {c : Char} {rest : List Char} (letter : c.isAlpha = false)
    (digit : c.isDigit = false) : Boundary (c :: rest) := by
  rintro c ⟨⟩
  exact ⟨letter, digit⟩

/-! ## One lexeme -/

theorem splitDigits_run {run rest : List Char} (digits : ∀ c ∈ run, c.isDigit = true)
    (outside : ∀ c ∈ rest.head?, c.isDigit = false) : splitDigits (run ++ rest) = (run, rest) := by
  rw [splitDigits, takeWhile_run digits outside, dropWhile_run digits outside]

theorem splitDigits_digits {run : List Char} (digits : ∀ c ∈ run, c.isDigit = true) :
    splitDigits run = (run, []) := by
  have split : splitDigits (run ++ []) = (run, []) := splitDigits_run digits (by rintro c ⟨⟩)
  rwa [List.append_nil] at split

/-- A point ends the digits in front of it. -/
theorem splitDigits_pointed {whole : List Char} (digits : ∀ c ∈ whole, c.isDigit = true)
    (rest : List Char) : splitDigits (whole ++ '.' :: rest) = (whole, '.' :: rest) := by
  refine splitDigits_run digits ?_
  rintro c ⟨⟩
  decide

/-- A number with digits on both sides of its point. -/
theorem splitNumber_pointed {whole fraction rest : List Char}
    (whole_digits : ∀ c ∈ whole, c.isDigit = true)
    (fraction_digits : ∀ c ∈ fraction, c.isDigit = true) (fraction_ne_nil : fraction ≠ [])
    (outside : ∀ c ∈ rest.head?, c.isDigit = false) :
    splitNumber (whole ++ '.' :: (fraction ++ rest)) = (whole ++ '.' :: fraction, rest) := by
  simp only [splitNumber, splitDigits_pointed whole_digits, splitFraction,
    splitDigits_run fraction_digits outside, if_neg fraction_ne_nil]

theorem literalValue_pointed {whole fraction : List Char}
    (whole_digits : ∀ c ∈ whole, c.isDigit = true)
    (fraction_digits : ∀ c ∈ fraction, c.isDigit = true) :
    literalValue (whole ++ '.' :: fraction) =
      Number.ofDouble ((Decimal.ofDigits whole fraction).toDouble false) := by
  simp only [literalValue, splitDigits_pointed whole_digits, splitFraction,
    splitDigits_digits fraction_digits]

theorem ne_of_class {p : Char → Bool} {c symbol : Char} (inside : p c)
    (outside : p symbol = false) : c ≠ symbol := by
  rintro rfl
  rw [inside] at outside
  cases outside

/-- The letters are two ranges of code points. -/
theorem isAlpha_eq (c : Char) : c.isAlpha = (decide ('A'.val ≤ c.val ∧ c.val ≤ 'Z'.val) ||
    (decide ('a'.val ≤ c.val) && decide (c.val ≤ 'z'.val))) := rfl

theorem isAlpha_of_isDigit {c : Char} (digit : c.isDigit) : c.isAlpha = false := by
  have nine : '9'.val.toNat = 57 := rfl
  have upper : 'A'.val.toNat = 65 := rfl
  have lower : 'a'.val.toNat = 97 := rfl
  simp only [Char.isDigit, Bool.and_eq_true, decide_eq_true_eq, ge_iff_le,
    UInt32.le_iff_toNat_le] at digit
  rw [isAlpha_eq]
  simp only [Bool.or_eq_false_iff, Bool.and_eq_false_iff, decide_eq_false_iff_not,
    UInt32.le_iff_toNat_le]
  omega

theorem isWhitespace_of_class {p : Char → Bool} {c : Char} (inside : p c)
    (outside : [' ', '\t', '\r', '\n'].all (!p ·) = true) : c.isWhitespace = false := by
  rw [Bool.eq_false_iff]
  intro space
  have mem : c ∈ [' ', '\t', '\r', '\n'] := by simpa [Char.isWhitespace, or_assoc] using space
  have not_inside := List.all_eq_true.mp outside c mem
  rw [inside] at not_inside
  cases not_inside

/-- The characters that are tokens by themselves. -/
def symbols : List (Char × TokenKind) :=
  [('(', .leftParen), (')', .rightParen), ('+', .plus), ('*', .star)]

theorem mem_symbols {c : Char} {kind : TokenKind} : (c, kind) ∈ symbols ↔
    (c = '(' ∧ kind = .leftParen) ∨ (c = ')' ∧ kind = .rightParen) ∨ (c = '+' ∧ kind = .plus) ∨
      (c = '*' ∧ kind = .star) := by
  simp [symbols]

theorem not_mem_symbols_of_class {p : Char → Bool} {c : Char} (inside : p c)
    (outside : symbols.all (!p ·.1) = true) (kind : TokenKind) : (c, kind) ∉ symbols := by
  intro mem
  have not_inside := List.all_eq_true.mp outside _ mem
  rw [inside] at not_inside
  cases not_inside

section Lexemes

variable {c : Char} {lexeme : List Char} {offset : Nat}

/-- A lexeme that starts with no symbol is a name, a number, or nothing. -/
theorem ofLexeme_of_not_symbol (other : ∀ kind, (c, kind) ∉ symbols) :
    ofLexeme c lexeme offset =
      if c.isAlpha then .ok ⟨.ident, String.ofList lexeme, offset⟩
      else if c.isDigit then
        match literalValue lexeme with
        | .ok v => .ok ⟨.number v, String.ofList lexeme, offset⟩
        | .error cause => .error (.invalidLiteral (String.ofList lexeme) offset cause)
      else .error (.unexpectedCharacter c offset) := by
  have differs (symbol : Char) (kind : TokenKind) (mem : (symbol, kind) ∈ symbols) :
      c ≠ symbol := by
    rintro rfl
    exact other kind mem
  rw [ofLexeme]
  refine (if_neg (differs '(' .leftParen (by simp [symbols]))).trans ?_
  refine (if_neg (differs ')' .rightParen (by simp [symbols]))).trans ?_
  refine (if_neg (differs '+' .plus (by simp [symbols]))).trans ?_
  refine (if_neg (differs '*' .star (by simp [symbols]))).trans ?_
  cases literalValue lexeme <;> rfl

theorem ofLexeme_letter (letter : c.isAlpha) :
    ofLexeme c lexeme offset = .ok ⟨.ident, String.ofList lexeme, offset⟩ := by
  rw [ofLexeme_of_not_symbol (not_mem_symbols_of_class letter rfl), if_pos letter]

theorem ofLexeme_digit (digit : c.isDigit) :
    ofLexeme c lexeme offset =
      match literalValue lexeme with
      | .ok v => .ok ⟨.number v, String.ofList lexeme, offset⟩
      | .error cause => .error (.invalidLiteral (String.ofList lexeme) offset cause) := by
  rw [ofLexeme_of_not_symbol (not_mem_symbols_of_class digit rfl),
    if_neg (by simp [isAlpha_of_isDigit digit]), if_pos digit]

end Lexemes

/-! ## The start of a text -/

variable {c : Char} {offset : Nat} {rest : List Char}

theorem scanFrom_space (space : c.isWhitespace) :
    scanFrom offset (c :: rest) = scanFrom (offset + c.utf8Size) rest := by
  rw [scanFrom, if_pos space]

theorem scanFrom_lexeme (visible : c.isWhitespace = false) :
    scanFrom offset (c :: rest) =
      ofLexeme c (splitLexeme c rest).1 offset ::
        scanFrom (offset + Text.size (splitLexeme c rest).1) (splitLexeme c rest).2 := by
  rw [scanFrom, if_neg (by simp [visible])]

theorem scanFrom_symbol {kind : TokenKind} (symbol : (c, kind) ∈ symbols) :
    scanFrom offset (c :: rest) =
      .ok ⟨kind, String.singleton c, offset⟩ :: scanFrom (offset + 1) rest := by
  rcases mem_symbols.mp symbol with ⟨rfl, rfl⟩ | ⟨rfl, rfl⟩ | ⟨rfl, rfl⟩ | ⟨rfl, rfl⟩ <;>
    exact scanFrom_lexeme rfl

theorem scanFrom_name (x : Variable) (boundary : Boundary rest) :
    scanFrom offset (x.name.toList ++ rest) =
      .ok ⟨.ident, x.name, offset⟩ :: scanFrom (offset + Text.size x.name.toList) rest := by
  obtain ⟨first, others, spelled⟩ := List.exists_cons_of_ne_nil x.ne_nil
  have letters := x.letters
  rw [spelled, List.forall_mem_cons] at letters
  have lexeme : splitLexeme first (others ++ rest) = (x.name.toList, rest) := by
    have outside : ∀ c ∈ rest.head?, c.isAlpha = false := fun c first => (boundary c first).1
    rw [splitLexeme, if_pos letters.1, takeWhile_run letters.2 outside,
      dropWhile_run letters.2 outside, spelled]
  rw [spelled, List.cons_append,
    scanFrom_lexeme (isWhitespace_of_class letters.1 rfl), lexeme,
    ofLexeme_letter letters.1, String.ofList_toList, spelled]

/-- A number literal with digits on both sides of its point. -/
theorem scanFrom_number {whole fraction : List Char} {v : Number}
    (whole_digits : ∀ c ∈ whole, c.isDigit = true) (whole_ne_nil : whole ≠ [])
    (fraction_digits : ∀ c ∈ fraction, c.isDigit = true) (fraction_ne_nil : fraction ≠ [])
    (value : literalValue (whole ++ '.' :: fraction) = .ok v) (boundary : Boundary rest) :
    scanFrom offset (whole ++ '.' :: (fraction ++ rest)) =
      .ok ⟨.number v, String.ofList (whole ++ '.' :: fraction), offset⟩ ::
        scanFrom (offset + Text.size (whole ++ '.' :: fraction)) rest := by
  have outside : ∀ c ∈ rest.head?, c.isDigit = false := fun c first => (boundary c first).2
  have cut := splitNumber_pointed whole_digits fraction_digits fraction_ne_nil outside
  obtain ⟨first, others, rfl⟩ := List.exists_cons_of_ne_nil whole_ne_nil
  have digit : first.isDigit := whole_digits first List.mem_cons_self
  rw [List.cons_append] at cut ⊢
  have lexeme : splitLexeme first (others ++ '.' :: (fraction ++ rest)) =
      (first :: others ++ '.' :: fraction, rest) := by
    rw [splitLexeme, if_neg (by simp [isAlpha_of_isDigit digit]), if_pos digit, cut]
  rw [scanFrom_lexeme (isWhitespace_of_class digit rfl), lexeme,
    ofLexeme_digit digit, value]

end SumProduct.Token
