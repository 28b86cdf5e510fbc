import SumProduct.Expression.Evaluation
import SumProduct.Proofs.RoundTrip

/-!
# The canonical texts of derivatives

The rule for products repeats whole operands next to derivatives, yet the parentheses of a
derivative are bounded by the height of the expression (`nest_derivative_le_height`). A derivative
is never a product itself, so it stands without parentheses of its own in the products of the rule,
and an operand that is repeated is nested no deeper than it is high.

So the text of a derivative is read back whenever the expression is no higher than the parentheses
that the reader allows (`derivative_text_accepted`).
-/

namespace SumProduct.Expression

/-- The length of the longest way from the root to a leaf. -/
def height : Expression → Nat
  | .num _ | .var _ => 0
  | .sum l r | .prod l r => 1 + max l.height r.height

/-- Each pair of parentheses belongs to an operation: a sum, or a product that has another one as
its right operand. -/
theorem nest_le_height (e : Expression) : e.nest ≤ e.height := by
  induction e with
  | num v | var x => exact Nat.le_refl 0
  | sum l r ihl ihr =>
    rw [nest, height]
    omega
  | prod l r ihl ihr =>
    rw [nest, height]
    split <;> omega

variable (e : Expression) (x : String)

@[simp] theorem isProd_derivative : (e.derivative x).isProd = false := by
  cases e <;> rfl

theorem nest_derivative_le_height : (e.derivative x).nest ≤ e.height := by
  induction e with
  | num v | var y => exact Nat.le_refl 0
  | sum l r ihl ihr =>
    rw [derivative, nest, height]
    omega
  | prod l r ihl ihr =>
    have left := l.nest_le_height
    have right := r.nest_le_height
    simp only [derivative, nest, height, isProd_derivative, Bool.false_eq_true, if_false]
    omega

/-- Deriving copies numbers, and adds zero and one. -/
theorem mem_numbers_derivative {v : Number} (mem : v ∈ (e.derivative x).numbers) :
    v ∈ e.numbers ∨ v = .zero ∨ v = .one := by
  induction e with
  | num w =>
    exact .inr (.inl (List.mem_singleton.mp mem))
  | var y =>
    rw [derivative, numbers, List.mem_singleton] at mem
    split at mem
    · exact .inr (.inr mem)
    · exact .inr (.inl mem)
  | sum l r ihl ihr =>
    rw [derivative, numbers, List.mem_append] at mem
    rw [numbers, List.mem_append]
    tauto
  | prod l r ihl ihr =>
    rw [derivative, numbers, numbers, numbers, List.mem_append, List.mem_append,
      List.mem_append] at mem
    rw [numbers, List.mem_append]
    tauto

/-- A derivative is nested no deeper than the expression is high. If that is as deep as the reader
allows, and the numbers of the expression are read back as they are, so is the derivative. -/
theorem derivative_text_accepted :
    (e.derivative x).nest ≤ e.height ∧
    (e.height ≤ nestingLimit → (∀ v ∈ e.numbers, Token.literalValue v.text = .ok v) →
      parse (e.derivative x).text = .ok (e.derivative x)) := by
  refine ⟨e.nest_derivative_le_height x, fun le same => ?_⟩
  have unchanged : ∀ v ∈ (e.derivative x).numbers, v.reread = v := by
    intro v mem
    rcases e.mem_numbers_derivative x mem with copied | rfl | rfl
    · have value := same v copied
      simpa using value
    · decide +kernel
    · decide +kernel
  have parsed := parse_text_of_nest_le ((e.nest_derivative_le_height x).trans le)
  rwa [mapNumbers_eq_self unchanged] at parsed

/-- The derivative of `x*(x*(x + 1.0000))`, written and read again. -/
theorem derivative_text_accepted_product :
    let x : Variable := ⟨"x", by simp, by simp⟩
    let e : Expression := .prod (.var x) (.prod (.var x) (.sum (.var x) (.num .one)))
    let shown := "(x*(x*(1.0000 + 0.0000) + (x + 1.0000)*1.0000) + x*(x + 1.0000)*1.0000)"
    e.height ≤ nestingLimit ∧ (∀ v ∈ e.numbers, Token.literalValue v.text = .ok v) ∧
      (e.derivative "x").text = shown ∧ parse shown = .ok (e.derivative "x") := by
  intro x e shown
  have low : e.height ≤ nestingLimit := by decide +kernel
  have same : ∀ v ∈ e.numbers, Token.literalValue v.text = .ok v := by decide +kernel
  have written : (e.derivative "x").text = shown := by decide +kernel
  have accepted := (derivative_text_accepted e "x").2 low same
  rw [written] at accepted
  exact ⟨low, same, written, accepted⟩

end SumProduct.Expression
