import SumProduct.Value

/-!
# Tokens

A token is a piece of an expression's text: a parenthesis, an operator, a name or a number. It
keeps its literal text and the byte where that starts.
-/

namespace SumProduct

inductive TokenKind where
  | leftParen
  | rightParen
  | plus
  | star
  | ident
  | number (value : Number)
deriving DecidableEq

structure Token where
  kind : TokenKind
  literal : String
  offset : Nat
deriving DecidableEq

namespace TokenKind

/-- The name of a kind, without the value of a number. -/
def name : TokenKind → String
  | .leftParen => "LeftParen"
  | .rightParen => "RightParen"
  | .plus => "Plus"
  | .star => "Star"
  | .ident => "Ident"
  | .number _ => "Number"

/-- The name of a kind with the value of a number, as advice has it. -/
def described : TokenKind → String
  | .number value => "Number(Number(" ++ String.ofList value.described ++ "))"
  | kind => kind.name

end TokenKind

/-- The line of a token in a listing: its class, its text, and its value or `null`. -/
def Token.display (t : Token) : String :=
  match t.kind with
  | .leftParen => "LEFT_PAREN " ++ t.literal ++ " null"
  | .rightParen => "RIGHT_PAREN " ++ t.literal ++ " null"
  | .plus => "PLUS " ++ t.literal ++ " null"
  | .star => "STAR " ++ t.literal ++ " null"
  | .ident => "IDENTIFIER " ++ t.literal ++ " null"
  | .number value => "NUMBER " ++ t.literal ++ " " ++ String.ofList value.shortest.pointed

end SumProduct
