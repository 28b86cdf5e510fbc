import SumProduct.Text.Position
import SumProduct.Token.Basic

/-!
# Syntax errors

A syntax error says where a text stops being an expression, and why. It holds places in bytes and
not the text itself, so `SyntaxError.line` takes the text again.
-/

namespace SumProduct

/-- A stretch of a text, in bytes. -/
structure Span where
  offset : Nat
  length : Nat
deriving DecidableEq

def Token.span (t : Token) : Span := ⟨t.offset, Text.size t.literal.toList⟩

/-- What should have stood where a token stands. -/
inductive Expectation where
  /-- A number, a variable or an opening parenthesis. -/
  | operand
  /-- Nothing more: the expression was complete. -/
  | nothing
  /-- A token of this kind, for the reason given. -/
  | kind (kind : TokenKind) (reason : String)
  /-- What the caller says. -/
  | told (message : String) (help : Option String)
deriving DecidableEq

/-- The token that ends what an opening parenthesis began. -/
def Expectation.closing : Expectation :=
  .kind .rightParen "expected `)` to close the parenthesis"

inductive SyntaxError where
  | unexpectedCharacter (character : Char) (offset : Nat)
  | invalidLiteral (literal : String) (offset : Nat) (cause : InvalidValue)
  | unexpectedToken (token : Token) (expected : Expectation)
  /-- The text ends after this many bytes, where more was needed. -/
  | unexpectedEnd (bytes : Nat)
  | tooDeep (offset : Nat)
deriving DecidableEq

/-- How many parentheses may be open at once. -/
def nestingLimit : Nat := 256

namespace SyntaxError

/-- The offending stretch of the text. At the end of the text this is the last byte. -/
def span : SyntaxError → Span
  | .unexpectedCharacter c offset => ⟨offset, c.utf8Size⟩
  | .invalidLiteral literal offset _ => ⟨offset, Text.size literal.toList⟩
  | .unexpectedToken token _ => token.span
  | .unexpectedEnd bytes => ⟨bytes - 1, min bytes 1⟩
  | .tooDeep offset => ⟨offset, 1⟩

/-- The line where the offending stretch starts. -/
def line (e : SyntaxError) (text : List Char) : Nat := Text.lineAt e.span.offset text

/-- The failure underneath, if there is one. -/
def cause : SyntaxError → Option InvalidValue
  | .invalidLiteral _ _ cause => some cause
  | _ => none

/-- What is said of the offending stretch itself. -/
def label : SyntaxError → String
  | .unexpectedCharacter .. => "this character"
  | .invalidLiteral .. => "not a valid literal"
  | .unexpectedToken .. => "here"
  | .unexpectedEnd _ => "expected more input here"
  | .tooDeep _ => "this parenthesis is one level too many"

/-- What is said of a token that was not expected. -/
def unexpectedMessage (token : Token) : Expectation → String
  | .operand => s!"expected a number, a variable or `(`, found `{token.literal}`"
  | .nothing => "unexpected input after the end of the expression"
  | .kind _ reason => reason
  | .told message _ => message

def unexpectedHelp : Expectation → Option String
  | .operand => none
  | .nothing => some "join the parts with `+` or `*`, or remove this"
  | .kind kind _ => some ("use `" ++ kind.described ++ "` here instead")
  | .told _ help => help

def diagnostic : SyntaxError → Diagnostic
  | .unexpectedCharacter c _ =>
    { code := "symexpr::lex::unexpected_character"
      message := s!"Unexpected character '{c}'"
      help := some "expressions are built from numbers, letters, `+`, `*` and parentheses" }
  | .invalidLiteral literal _ _ =>
    { code := "symexpr::lex::invalid_literal"
      message := s!"invalid literal `{literal}`"
      help := some "number literals must be finite" }
  | .unexpectedToken token expected =>
    { code := "symexpr::parse::unexpected_token"
      message := unexpectedMessage token expected
      help := unexpectedHelp expected }
  | .unexpectedEnd _ =>
    { code := "symexpr::parse::eof"
      message := "Unexpected end of input"
      help := some
        "the expression ended early, possibly an operand or a closing parenthesis is missing" }
  | .tooDeep _ =>
    { code := "symexpr::parse::too_deep"
      message := "expression is nested too deeply"
      help := some s!"at most {nestingLimit} levels of parentheses are allowed" }

end SyntaxError

end SumProduct
