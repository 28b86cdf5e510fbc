import SumProduct.Proofs.DerivativeText
import SumProduct.Proofs.PartialEvaluation
import SumProduct.Proofs.SimplifiedText

/-!
# The size of derivatives

A derivative is made of the leaves of the expression, of zeros and of ones. The rule for sums keeps
the shape of the expression, and the rule for products repeats both operands: a product adds as many
nodes as it has itself, and one more (`nodeCount_derivative`). A product inside another one is
repeated with it, but is not derived again, so the size of a derivative is at most quadratic
(`nodeCount_derivative_le`).
-/

namespace SumProduct.Expression

/-- The number of nodes of the tree. -/
def nodeCount : Expression → Nat
  | .num _ | .var _ => 1
  | .sum l r | .prod l r => 1 + l.nodeCount + r.nodeCount

/-- What the rule for products adds to a derivative: for each product among some expressions its
nodes and one more. -/
def repeated (parts : List Expression) : Nat :=
  ((parts.filter isProd).map fun product => product.nodeCount + 1).sum

section Repeated

variable (l r : Expression) (parts others : List Expression)

@[simp]
theorem repeated_append : repeated (parts ++ others) = repeated parts + repeated others := by
  rw [repeated, List.filter_append, List.map_append, List.sum_append]
  rfl

theorem repeated_sum : repeated (sum l r).subtrees = repeated l.subtrees + repeated r.subtrees :=
  repeated_append l.subtrees r.subtrees

theorem repeated_prod : repeated (prod l r).subtrees =
    (prod l r).nodeCount + 1 + (repeated l.subtrees + repeated r.subtrees) := by
  rw [← repeated_append]
  rfl

end Repeated

variable (e : Expression) (x : String)

@[simp] theorem nodeCount_pos : 0 < e.nodeCount := by
  cases e with
  | num v | var y => exact Nat.one_pos
  | sum l r | prod l r => exact Nat.add_pos_left (Nat.add_pos_left Nat.one_pos _) _

/-- By induction on the expression: in front of the derivatives of its operands a product puts
copies of them, and an operation more for each copy. -/
theorem nodeCount_derivative :
    (e.derivative x).nodeCount = e.nodeCount + repeated e.subtrees := by
  induction e with
  | num v | var y => rfl
  | sum l r ihl ihr =>
    rw [derivative, nodeCount, ihl, ihr, repeated_sum, nodeCount]
    omega
  | prod l r ihl ihr =>
    rw [derivative, nodeCount, nodeCount, nodeCount, ihl, ihr, repeated_prod, nodeCount]
    omega

/-- By induction on the expression: the product of the sizes of the operands leaves room for the
copies. -/
theorem nodeCount_derivative_le : (e.derivative x).nodeCount ≤ e.nodeCount ^ 2 := by
  induction e with
  | num v | var y => exact Nat.le_refl 1
  | sum l r ihl ihr =>
    rw [derivative, nodeCount, nodeCount]
    calc
      1 + (l.derivative x).nodeCount + (r.derivative x).nodeCount
        ≤ 1 + l.nodeCount ^ 2 + r.nodeCount ^ 2 := by omega
      _ ≤ (1 + l.nodeCount + r.nodeCount) ^ 2 := by
        nlinarith [Nat.zero_le (l.nodeCount * r.nodeCount)]
  | prod l r ihl ihr =>
    have left := l.nodeCount_pos
    have right := r.nodeCount_pos
    rw [derivative, nodeCount, nodeCount, nodeCount, nodeCount]
    calc
      1 + (1 + l.nodeCount + (r.derivative x).nodeCount) +
          (1 + r.nodeCount + (l.derivative x).nodeCount)
        ≤ 3 + l.nodeCount + r.nodeCount + l.nodeCount ^ 2 + r.nodeCount ^ 2 := by omega
      _ ≤ (1 + l.nodeCount + r.nodeCount) ^ 2 := by nlinarith

/-- Deriving copies variables, and adds none. -/
theorem mem_vars_derivative {y : Variable} (mem : y ∈ (e.derivative x).vars) : y ∈ e.vars := by
  induction e with
  | num v | var z => cases mem
  | sum l r ihl ihr =>
    rw [derivative, vars, List.mem_append] at mem
    rw [vars, List.mem_append]
    exact mem.imp ihl ihr
  | prod l r ihl ihr =>
    rw [derivative, vars, vars, vars, List.mem_append, List.mem_append, List.mem_append] at mem
    rw [vars, List.mem_append]
    tauto

/-- A derivative has at most the square of the nodes of the expression, exactly as many as the
expression has itself and those that its products add. It is no product, and its variables and its
numbers are those of the expression, apart from zeros and ones. -/
theorem derivative_size_content :
    (e.derivative x).nodeCount ≤ e.nodeCount ^ 2 ∧
    (∀ l r, e.derivative x ≠ .prod l r) ∧
    (∀ y ∈ (e.derivative x).vars, y ∈ e.vars) ∧
    (∀ v ∈ (e.derivative x).numbers, v ∈ e.numbers ∨ v = .zero ∨ v = .one) ∧
    (e.derivative x).nodeCount = e.nodeCount +
      ((e.subtrees.filter isProd).map fun product => product.nodeCount + 1).sum := by
  refine ⟨e.nodeCount_derivative_le x, fun l r product => ?_, fun y => e.mem_vars_derivative x,
    fun v => e.mem_numbers_derivative x, e.nodeCount_derivative x⟩
  have other := e.isProd_derivative x
  rw [product] at other
  cases other

/-- The derivative of `x*x*x` has ten nodes more than the product. -/
example :
    let x : Variable := ⟨"x", by simp, by simp⟩
    let e : Expression := .prod (.prod (.var x) (.var x)) (.var x)
    e.nodeCount = 5 ∧ (e.derivative "x").nodeCount = 15 := by
  decide

end SumProduct.Expression
