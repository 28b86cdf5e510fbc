import SumProduct.Token.Scan

/-!
# Reading items one at a time

A lexer gives the items of a text one by one and can look one item ahead. It counts the bytes it
has gone over, with the item it has looked ahead at. White space is gone over when the next item
is asked for, so the count is the length of the text only after its end has been met.
-/

namespace SumProduct

structure Lexer where
  /-- What has not been gone over. -/
  rest : List Char
  /-- How many bytes have been gone over. -/
  byte : Nat
  /-- The item that was looked at but not taken. -/
  ahead : Option Item

namespace Lexer

def ofText (text : String) : Lexer := ⟨text.toList, 0, none⟩

/-- The first item of a text that starts after `offset` bytes, or `none` at its end, and the lexer
behind it. -/
def read (offset : Nat) : (text : List Char) → Option Item × Lexer
  | [] => (none, ⟨[], offset, none⟩)
  | c :: text =>
    if c.isWhitespace then read (offset + c.utf8Size) text
    else
      let lexeme := (Token.splitLexeme c text).1
      (some (Token.ofLexeme c lexeme offset),
        ⟨(Token.splitLexeme c text).2, offset + Text.size lexeme, none⟩)

/-- Reading item by item gives the items of the whole text. -/
theorem scanFrom_eq (offset : Nat) (text : List Char) :
    Token.scanFrom offset text =
      match read offset text with
      | (none, _) => []
      | (some item, after) => item :: Token.scanFrom after.byte after.rest := by
  induction text generalizing offset with
  | nil => rw [Token.scanFrom, read]
  | cons c text ih =>
    rw [Token.scanFrom, read]
    split
    · exact ih _
    · rfl

/-- Takes the next item. At the end there is none, however often it is asked for. -/
def next (l : Lexer) : Option Item × Lexer :=
  match l.ahead with
  | some item => (some item, { l with ahead := none })
  | none => read l.byte l.rest

/-- Looks at the next item without taking it. -/
def peek (l : Lexer) : Option Item × Lexer :=
  match l.ahead with
  | some item => (some item, l)
  | none =>
    let (item, after) := read l.byte l.rest
    (item, { after with ahead := item })

/-- Takes the next item only if it is a token of the kind, or an error. -/
def nextIf (l : Lexer) (kind : TokenKind) : Except SyntaxError (Option Token) × Lexer :=
  match l.peek with
  | (some (.ok token), after) =>
    if token.kind = kind then (.ok (some token), after.next.2) else (.ok none, after)
  | (some (.error e), after) => (.error e, after.next.2)
  | (none, after) => (.ok none, after)

/-- Takes the next item, which has to be a token of the kind. -/
def expect (l : Lexer) (kind : TokenKind) (reason : String) : Except SyntaxError Token × Lexer :=
  match l.next with
  | (some (.ok token), after) =>
    if token.kind = kind then (.ok token, after)
    else (.error (.unexpectedToken token (.kind kind reason)), after)
  | (some (.error e), after) => (.error e, after)
  | (none, after) => (.error (.unexpectedEnd after.byte), after)

end Lexer

end SumProduct
