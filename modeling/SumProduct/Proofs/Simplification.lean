import SumProduct.Expression.Evaluation

/-!
# Simplification and values

Simplification keeps the value of an expression in double arithmetic, bit for bit. An operation is
only folded if its result is a number, and that number is the very result: no sum and no product of
numbers has a minus sign that could be lost.
-/

namespace SumProduct.Expression

/-! ## Folding -/

section Folding

variable {operation : Double → Double → Double} {l r : Expression} {v : Number}

theorem number?_eq_some {e : Expression} (number : e.number? = some v) : e = .num v := by
  cases e with
  | num w =>
    cases number
    rfl
  | var x => cases number
  | sum l r => cases number
  | prod l r => cases number

/-- What is folded are two numbers whose result is a number. -/
theorem fold?_eq_some (folded : fold? operation l r = some v) :
    ∃ a b, l = .num a ∧ r = .num b ∧
      Number.ofDouble (operation a.toDouble b.toDouble) = .ok v := by
  simp only [fold?, bind, Option.bind_eq_some_iff] at folded
  obtain ⟨a, left, b, right, accepted⟩ := folded
  refine ⟨a, b, number?_eq_some left, number?_eq_some right, ?_⟩
  generalize Number.ofDouble (operation a.toDouble b.toDouble) = result at accepted ⊢
  cases result with
  | error cause => cases accepted
  | ok w =>
    cases accepted
    rfl

/-- A folded number is the result itself, where results have no minus sign. -/
theorem eval_fold (assignment : Variable → Number)
    (positive : ∀ a b : Number, (operation a.toDouble b.toDouble).negative = false)
    (folded : fold? operation l r = some v) :
    v.toDouble = operation (l.eval assignment) (r.eval assignment) := by
  obtain ⟨a, b, rfl, rfl, accepted⟩ := fold?_eq_some folded
  exact (Number.eq_toDouble_of_ofDouble (positive a b) accepted).symm

end Folding

section Evaluation

variable (assignment : Variable → Number)

@[simp] theorem eval_foldSum (l r : Expression) :
    (foldSum l r).eval assignment = l.eval assignment + r.eval assignment := by
  unfold foldSum
  split
  · next v folded => exact eval_fold assignment Double.negative_add_toDouble folded
  · rfl

@[simp] theorem eval_foldProd (l r : Expression) :
    (foldProd l r).eval assignment = l.eval assignment * r.eval assignment := by
  unfold foldProd
  split
  · next v folded => exact eval_fold assignment Double.negative_mul_toDouble folded
  · rfl

end Evaluation

/-! ## Simplifying -/

/-- By induction on the expression: folding is the only step that is no mere substitution. -/
theorem eval_simplify (e : Expression) (env : Environment) (assignment : Variable → Number)
    (agrees : ∀ x v, env.find? x = some v → assignment x = v) :
    (e.simplify env).eval assignment = e.eval assignment := by
  induction e with
  | num v => rfl
  | var x =>
    unfold simplify
    split
    · next v found => rw [eval, eval, agrees x v found]
    · rfl
  | sum l r ihl ihr | prod l r ihl ihr => simp [simplify, eval, ihl, ihr]

/-- The square of a large number is infinite and stays unfolded; times zero it is NaN. -/
theorem eval_simplify_overflow :
    let x : Variable := ⟨"x", by simp, by simp⟩
    let y : Variable := ⟨"y", by simp, by simp⟩
    let large : Number := ⟨2046 * 2 ^ 52, by rw [rankLimit_eq]; decide⟩
    let env := Environment.empty.insert x large
    let assignment : Variable → Number := fun z => if z = x then large else .zero
    let e : Expression := .prod (.prod (.var x) (.var x)) (.var y)
    (e.simplify env).eval assignment = e.eval assignment ∧ e.eval assignment = .nan := by
  intro x y large env assignment e
  have agrees : ∀ z v, env.find? z = some v → assignment z = v := by
    intro z v found
    rw [Environment.find?_insert] at found
    show (if z = x then large else .zero) = v
    split at found
    · next same =>
      rw [if_pos same]
      exact Option.some.inj found
    · cases found
  exact ⟨eval_simplify e env assignment agrees, by decide +kernel⟩

end SumProduct.Expression
