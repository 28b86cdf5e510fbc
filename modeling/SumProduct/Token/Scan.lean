import SumProduct.Decimal.Basic
import SumProduct.SyntaxError

/-!
# Cutting a text into tokens

A text is cut into lexemes with white space between them. A lexeme is the longest word of letters,
the longest number, or a single character. A number is a run of digits, and a point only belongs
to it if more digits follow the point. Each lexeme is then a token, or an error if it is none: a
number too large to be finite, or a character that starts no token. Cutting goes on after an
error.
-/

namespace SumProduct

/-- What a lexeme stands for: a token, or why it is none. -/
abbrev Item := Except SyntaxError Token

namespace Token

/-- The number at the start of a text, and what follows it. -/
def splitNumber (text : List Char) : List Char × List Char :=
  let whole := splitDigits text
  let fraction := splitFraction whole.2
  if fraction.1 = [] then whole else (whole.1 ++ '.' :: fraction.1, fraction.2)

/-- The lexeme that starts with `c`, and what follows it. -/
def splitLexeme (c : Char) (text : List Char) : List Char × List Char :=
  if c.isAlpha then (c :: text.takeWhile Char.isAlpha, text.dropWhile Char.isAlpha)
  else if c.isDigit then splitNumber (c :: text)
  else ([c], text)

@[simp] theorem splitNumber_append (text : List Char) :
    (splitNumber text).1 ++ (splitNumber text).2 = text := by
  simp only [splitNumber]
  split
  · exact splitDigits_append text
  · next nonempty => rw [List.append_assoc, splitFraction_append nonempty, splitDigits_append]

@[simp] theorem splitLexeme_append (c : Char) (text : List Char) :
    (splitLexeme c text).1 ++ (splitLexeme c text).2 = c :: text := by
  unfold splitLexeme
  split
  · simp [List.takeWhile_append_dropWhile]
  split
  · exact splitNumber_append (c :: text)
  · rfl

@[simp] theorem splitLexeme_ne_nil (c : Char) (text : List Char) : (splitLexeme c text).1 ≠ [] := by
  unfold splitLexeme
  split
  · simp
  split
  · next digit =>
    simp only [splitNumber]
    split <;> simp [splitDigits, digit]
  · simp

/-- What follows a lexeme is no longer than what follows its first character. -/
theorem length_splitLexeme_le (c : Char) (text : List Char) :
    (splitLexeme c text).2.length ≤ text.length := by
  have total := congrArg List.length (splitLexeme_append c text)
  have := List.length_pos_iff.2 (splitLexeme_ne_nil c text)
  rw [List.length_append, List.length_cons] at total
  omega

/-- The value of a number literal. -/
def literalValue (literal : List Char) : Except InvalidValue Number :=
  let whole := splitDigits literal
  let fraction := splitFraction whole.2
  Number.ofDouble ((Decimal.ofDigits whole.1 fraction.1).toDouble false)

/-- What a lexeme stands for that starts with `c` and stands at `offset`. -/
def ofLexeme (c : Char) (lexeme : List Char) (offset : Nat) : Item :=
  let literal := String.ofList lexeme
  let token (kind : TokenKind) : Item := .ok ⟨kind, literal, offset⟩
  if c = '(' then token .leftParen
  else if c = ')' then token .rightParen
  else if c = '+' then token .plus
  else if c = '*' then token .star
  else if c.isAlpha then token .ident
  else if c.isDigit then
    match literalValue lexeme with
    | .ok value => token (.number value)
    | .error cause => .error (.invalidLiteral literal offset cause)
  else .error (.unexpectedCharacter c offset)

/-- The items of a text that starts after `offset` bytes. -/
def scanFrom (offset : Nat) (text : List Char) : List Item :=
  match text with
  | [] => []
  | c :: text =>
    if c.isWhitespace then scanFrom (offset + c.utf8Size) text
    else
      let lexeme := (splitLexeme c text).1
      ofLexeme c lexeme offset :: scanFrom (offset + Text.size lexeme) (splitLexeme c text).2
termination_by text.length
decreasing_by
  · simp
  · have := length_splitLexeme_le c text
    simp
    omega

/-- The items of a whole text. -/
def scan (text : String) : List Item := scanFrom 0 text.toList

end Token

end SumProduct
