import SumProduct.Double.Arithmetic
import SumProduct.Environment
import SumProduct.Expression.Basic

/-!
# Values, simplification and derivatives

With a number for each variable an expression has a value: sums and products are those of doubles,
so the value may be infinite or NaN where the exact value is too large.

Simplification goes as far towards the value as an environment allows. Variables with a value are
replaced by it, and a sum or product of two numbers by the rounded result, from the leaves up. An
operation whose result is too large for a number stays as it is. Nothing is reordered, and zeros and
ones get no rules of their own.

The partial derivative follows the rules for sums and products and is not simplified: the derivative
of a number is the number zero, that of a variable one or zero.
-/

namespace SumProduct.Expression

/-- The value of an expression where each variable stands for a number. -/
def eval (assignment : Variable → Number) : Expression → Double
  | .num v => v.toDouble
  | .var x => (assignment x).toDouble
  | .sum l r => l.eval assignment + r.eval assignment
  | .prod l r => l.eval assignment * r.eval assignment

/-! ## Simplification -/

/-- The result of an operation on two numbers, if both are numbers and the result is one too. -/
def fold? (operation : Double → Double → Double) (l r : Expression) : Option Number := do
  let a ← l.number?
  let b ← r.number?
  (Number.ofDouble (operation a.toDouble b.toDouble)).toOption

/-- The sum of two expressions, as a number where possible. -/
def foldSum (l r : Expression) : Expression :=
  match fold? (· + ·) l r with
  | some v => .num v
  | none => .sum l r

/-- The product of two expressions, as a number where possible. -/
def foldProd (l r : Expression) : Expression :=
  match fold? (· * ·) l r with
  | some v => .num v
  | none => .prod l r

def simplify (e : Expression) (env : Environment) : Expression :=
  match e with
  | .num v => .num v
  | .var x =>
    match env.find? x with
    | some v => .num v
    | none => .var x
  | .sum l r => foldSum (l.simplify env) (r.simplify env)
  | .prod l r => foldProd (l.simplify env) (r.simplify env)

/-! ## Derivatives -/

/-- The derivative by the variable named `x`. -/
def derivative (e : Expression) (x : String) : Expression :=
  match e with
  | .num _ => .num .zero
  | .var y => .num (if y.name = x then .one else .zero)
  | .sum l r => .sum (l.derivative x) (r.derivative x)
  | .prod l r => .sum (.prod l (r.derivative x)) (.prod r (l.derivative x))

end SumProduct.Expression
