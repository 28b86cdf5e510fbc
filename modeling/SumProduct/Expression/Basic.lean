import SumProduct.Value

/-!
# Expressions

An expression is a number, a variable, or the sum or product of two expressions: a polynomial with
a chosen order of its operations.

In its canonical text a sum is always in parentheses. A product is not, unless it is the right
operand of a product, where the parentheses keep it together. Numbers have four decimal places.
-/

namespace SumProduct

inductive Expression where
  | num (value : Number)
  | var (name : Variable)
  | sum (left right : Expression)
  | prod (left right : Expression)
deriving DecidableEq, Hashable

namespace Expression

/-- What stands at the root of an expression. -/
inductive Kind where
  | num
  | var
  | sum
  | prod
deriving DecidableEq

/-- The word for a kind in messages. -/
def Kind.name : Kind → String
  | .num => "number"
  | .var => "variable"
  | .sum => "sum"
  | .prod => "product"

def kind : Expression → Kind
  | .num _ => .num
  | .var _ => .var
  | .sum .. => .sum
  | .prod .. => .prod

/-- Asking an expression of the given kind for a value it does not have. -/
structure NoValue where
  kind : Kind
deriving DecidableEq

def NoValue.diagnostic (e : NoValue) : Diagnostic :=
  { code := "symexpr::value::unsupported"
    message := s!"a {e.kind.name} expression has no numeric value"
    help := some "check `Expression::has_value` before asking for the value" }

/-- The number that an expression is, if it is one. -/
def number? : Expression → Option Number
  | .num v => some v
  | _ => none

/-- Whether an expression is a number. -/
def hasValue (e : Expression) : Bool := e.number?.isSome

/-- The value of an expression that is a number. -/
def value (e : Expression) : Except NoValue Number :=
  match e.number? with
  | some v => .ok v
  | none => .error ⟨e.kind⟩

/-- Whether an expression is a product. -/
def isProd : Expression → Bool
  | .prod .. => true
  | _ => false

/-! ## Canonical texts -/

/-- The text of an expression, with `rest` after it. -/
def write (e : Expression) (rest : List Char) : List Char :=
  match e with
  | .num v => v.text ++ rest
  | .var x => x.name.toList ++ rest
  | .sum l r => '(' :: l.write (' ' :: '+' :: ' ' :: r.write (')' :: rest))
  | .prod l r =>
    l.write ('*' :: if r.isProd then '(' :: r.write (')' :: rest) else r.write rest)

/-- The canonical text. -/
def text (e : Expression) : String := String.ofList (e.write [])

@[simp]
theorem write_append (e : Expression) (a b : List Char) : e.write (a ++ b) = e.write a ++ b := by
  induction e generalizing a b with
  | num v => simp [write]
  | var x => simp [write]
  | sum l r ihl ihr => simp [write, ← ihl, ← ihr]
  | prod l r ihl ihr =>
    simp only [write]
    split <;> simp [← ihl, ← ihr]

end Expression

end SumProduct
