import SumProduct.Expression.Basic
import SumProduct.Token.Scan

/-!
# Reading expressions

A sum is one or more products joined by `+`, a product one or more operands joined by `*`, and an
operand a number, a variable, or a sum in parentheses. Both operators group to the left. At most
`nestingLimit` parentheses may be open at once.

A reader takes the items of a text and gives a tree and the items behind it. It always takes at
least one item, and the type of its result says so; the readers of chains go on for as long as
their operator follows.
-/

namespace SumProduct.Expression

/-- A tree read from the start of some items, and the items that are left. -/
structure Parsed (items : List Item) where
  tree : Expression
  rest : List Item
  shorter : rest.length < items.length

abbrev Reader := (items : List Item) → Except SyntaxError (Parsed items)

namespace Reader

/-- Adds operands to a tree for as long as the operator follows it. -/
def more {items : List Item} (operator : TokenKind) (join : Expression → Expression → Expression)
    (operand : Reader) (read : Parsed items) : Except SyntaxError (Parsed items) :=
  match left : read.rest with
  | [] => .ok read
  | .error e :: _ => .error e
  | .ok token :: rest =>
    if token.kind = operator then
      match operand rest with
      | .error e => .error e
      | .ok right =>
        more operator join operand
          { tree := join read.tree right.tree
            rest := right.rest
            shorter := by
              have := read.shorter
              have := right.shorter
              simp only [left, List.length_cons] at *
              omega }
    else .ok read
termination_by read.rest.length
decreasing_by
  have := right.shorter
  simp only [left, List.length_cons]
  omega

/-- One or more operands, joined by the operator from the left. -/
def chain (operator : TokenKind) (join : Expression → Expression → Expression) (operand : Reader) :
    Reader := fun items =>
  match operand items with
  | .error e => .error e
  | .ok first => more operator join operand first

/-- What stands in parentheses and the parenthesis that closes it, in a text of so many bytes. -/
def closed (bytes : Nat) (inner : Reader) : Reader := fun items =>
  match inner items with
  | .error e => .error e
  | .ok read =>
    match left : read.rest with
    | [] => .error (.unexpectedEnd bytes)
    | .error e :: _ => .error e
    | .ok token :: rest =>
      if token.kind = .rightParen then
        .ok
          { tree := read.tree
            rest := rest
            shorter := by
              have := read.shorter
              simp only [left, List.length_cons] at this
              omega }
      else .error (.unexpectedToken token .closing)

/-- A number, a variable, or what `group` reads behind an opening parenthesis. -/
def leafOr (bytes : Nat) (group : Token → Reader) : Reader
  | [] => .error (.unexpectedEnd bytes)
  | .error e :: _ => .error e
  | .ok token :: rest =>
    let leaf (tree : Expression) : Except SyntaxError (Parsed (.ok token :: rest)) :=
      .ok { tree := tree, rest := rest, shorter := Nat.lt_succ_self rest.length }
    match token.kind with
    | .number v => leaf (.num v)
    | .ident =>
      match Variable.ofName token.literal with
      | .ok x => leaf (.var x)
      | .error cause => .error (.invalidLiteral token.literal token.offset cause)
    | .leftParen =>
      match group token rest with
      | .error e => .error e
      | .ok read =>
        .ok { tree := read.tree, rest := read.rest, shorter := Nat.lt_succ_of_lt read.shorter }
    | .rightParen | .plus | .star => .error (.unexpectedToken token .operand)

/-- One or more operands joined by `*`, and one or more of these joined by `+`. -/
def sumOf (operand : Reader) : Reader := chain .plus .sum (chain .star .prod operand)

/-- What follows an opening parenthesis, where `levels` parentheses may still be opened, this one
included. -/
def group (bytes : Nat) : (levels : Nat) → Token → Reader
  | 0 => fun token _ => .error (.tooDeep token.offset)
  | levels + 1 => fun _ => closed bytes (sumOf (leafOr bytes (group bytes levels)))

/-- An operand in a text of so many bytes, where `levels` parentheses may still be opened. -/
def operand (bytes levels : Nat) : Reader := leafOr bytes (group bytes levels)

/-- One or more operands joined by `*`. -/
def product (bytes levels : Nat) : Reader := chain .star .prod (operand bytes levels)

/-- One or more products joined by `+`. -/
def sum (bytes levels : Nat) : Reader := chain .plus .sum (product bytes levels)

/-- Behind an opening parenthesis stands a sum with one level less. -/
@[simp] theorem group_succ (bytes levels : Nat) (token : Token) :
    group bytes (levels + 1) token = closed bytes (sum bytes levels) := rfl

end Reader

/-- The expression that some items make up, all of them, in a text of so many bytes. -/
def ofItems (bytes : Nat) (items : List Item) : Except SyntaxError Expression :=
  match Reader.sum bytes nestingLimit items with
  | .error e => .error e
  | .ok read =>
    match read.rest with
    | [] => .ok read.tree
    | .error e :: _ => .error e
    | .ok token :: _ => .error (.unexpectedToken token .nothing)

/-- The expression that a text spells. -/
def parse (text : String) : Except SyntaxError Expression :=
  ofItems (Text.size text.toList) (Token.scan text)

end SumProduct.Expression
