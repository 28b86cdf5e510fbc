import SumProduct.Proofs.DerivativeSize
import SumProduct.Proofs.Differentiation
import SumProduct.Proofs.EvaluableParts

/-!
# Expressions of whole numbers

Every whole number up to `2 ^ 53` is a number, so a sum or product that comes to one is not rounded.
By induction an expression of whole numbers whose parts all stay that small is simplified to its
exact value. The same goes for its derivatives, which are made of the same numbers and of zero and
one (`simplify_exact_of_whole`).
-/

namespace SumProduct

namespace Expression

/-! ## Exact evaluation -/

/-- The numbers of the expression are whole. Its variables have whole values, which are those of the
assignment. -/
structure Whole (assignment : String → ℚ) (env : Environment) (e : Expression) : Prop where
  numbers : ∀ v ∈ e.numbers, v.IsWhole
  bound : ∀ x ∈ e.vars, ∃ v, env.find? x = some v ∧ v.IsWhole ∧ v.toRat = assignment x.name

/-- Each part of the expression comes to `2 ^ 53` at most. -/
def Small (assignment : String → ℚ) (e : Expression) : Prop :=
  ∀ part ∈ e.subtrees, part.interpret assignment ≤ 2 ^ 53

section Exact

variable {assignment : String → ℚ} {env : Environment} {e l r : Expression}

theorem Whole.operands (whole : e.Whole assignment env)
    (numbers : e.numbers = l.numbers ++ r.numbers) (vars : e.vars = l.vars ++ r.vars) :
    l.Whole assignment env ∧ r.Whole assignment env := by
  obtain ⟨fixed, bound⟩ := whole
  rw [numbers, List.forall_mem_append] at fixed
  rw [vars, List.forall_mem_append] at bound
  exact ⟨⟨fixed.1, bound.1⟩, ⟨fixed.2, bound.2⟩⟩

theorem Small.operands (small : e.Small assignment)
    (subtrees : e.subtrees = e :: (l.subtrees ++ r.subtrees)) :
    e.interpret assignment ≤ 2 ^ 53 ∧ l.Small assignment ∧ r.Small assignment := by
  rwa [Small, subtrees, List.forall_mem_cons, List.forall_mem_append] at small

theorem Whole.exists_interpret_eq (whole : e.Whole assignment env) :
    ∃ n : ℕ, e.interpret assignment = n := by
  induction e with
  | num v => exact whole.numbers v (List.mem_singleton_self v)
  | var x =>
    obtain ⟨v, -, ⟨n, value⟩, same⟩ := whole.bound x (List.mem_singleton_self x)
    exact ⟨n, same.symm.trans value⟩
  | sum l r ihl ihr =>
    obtain ⟨whole_left, whole_right⟩ := whole.operands rfl rfl
    obtain ⟨m, left⟩ := ihl whole_left
    obtain ⟨n, right⟩ := ihr whole_right
    exact ⟨m + n, by rw [interpret, left, right, Nat.cast_add]⟩
  | prod l r ihl ihr =>
    obtain ⟨whole_left, whole_right⟩ := whole.operands rfl rfl
    obtain ⟨m, left⟩ := ihl whole_left
    obtain ⟨n, right⟩ := ihr whole_right
    exact ⟨m * n, by rw [interpret, left, right, Nat.cast_mul]⟩

theorem Whole.exists_number (whole : e.Whole assignment env)
    (le : e.interpret assignment ≤ 2 ^ 53) :
    ∃ v : Number, v.IsWhole ∧ v.toRat = e.interpret assignment := by
  obtain ⟨n, value⟩ := whole.exists_interpret_eq
  rw [value] at le ⊢
  obtain ⟨v, same⟩ := Number.exists_toRat_eq (n := n) (by exact_mod_cast le)
  exact ⟨v, ⟨n, same⟩, same⟩

/-- By induction on the expression: the operands are exact, and their exact result is a number. -/
theorem Whole.evaluates (whole : e.Whole assignment env) (small : e.Small assignment) :
    ∃ v, Evaluates env e v ∧ v.IsWhole ∧ v.toRat = e.interpret assignment := by
  induction e with
  | num v => exact ⟨v, .num v, whole.numbers v (List.mem_singleton_self v), rfl⟩
  | var x =>
    obtain ⟨v, found, exact⟩ := whole.bound x (List.mem_singleton_self x)
    exact ⟨v, .var found, exact⟩
  | sum l r ihl ihr =>
    obtain ⟨whole_left, whole_right⟩ := whole.operands rfl rfl
    obtain ⟨le, small_left, small_right⟩ := small.operands rfl
    obtain ⟨a, left, -, a_eq⟩ := ihl whole_left small_left
    obtain ⟨b, right, -, b_eq⟩ := ihr whole_right small_right
    obtain ⟨v, v_whole, v_eq⟩ := whole.exists_number le
    have exact : v.toRat = a.toRat + b.toRat := by rw [a_eq, b_eq, v_eq, interpret]
    exact ⟨v, .sum left right (exact ▸ .self v), v_whole, v_eq⟩
  | prod l r ihl ihr =>
    obtain ⟨whole_left, whole_right⟩ := whole.operands rfl rfl
    obtain ⟨le, small_left, small_right⟩ := small.operands rfl
    obtain ⟨a, left, -, a_eq⟩ := ihl whole_left small_left
    obtain ⟨b, right, -, b_eq⟩ := ihr whole_right small_right
    obtain ⟨v, v_whole, v_eq⟩ := whole.exists_number le
    have exact : v.toRat = a.toRat * b.toRat := by rw [a_eq, b_eq, v_eq, interpret]
    exact ⟨v, .prod left right (exact ▸ .self v), v_whole, v_eq⟩

/-! ## Derivatives -/

theorem Whole.derivative (whole : e.Whole assignment env) (x : String) :
    (e.derivative x).Whole assignment env where
  numbers v mem := by
    rcases e.mem_numbers_derivative x mem with copied | rfl | rfl
    · exact whole.numbers v copied
    · exact ⟨0, Number.toRat_zero⟩
    · exact ⟨1, Number.toRat_one.trans Nat.cast_one.symm⟩
  bound y mem := whole.bound y (e.mem_vars_derivative x mem)

end Exact

/-- An expression of whole numbers is simplified to its exact value if no part of it is above
`2 ^ 53`. A derivative of it is simplified to the exact value of the partial derivative if no part
of the derivative is. -/
theorem simplify_exact_of_whole {e : Expression} {env : Environment} {assignment : String → ℚ}
    (whole : e.Whole assignment env) :
    (e.Small assignment →
      ∃ v, e.simplify env = .num v ∧ v.IsWhole ∧ v.toRat = e.interpret assignment) ∧
    ∀ x, (e.derivative x).Small assignment →
      ∃ v, (e.derivative x).simplify env = .num v ∧ v.IsWhole ∧
        v.toRat = MvPolynomial.eval assignment (MvPolynomial.pderiv x e.polynomial) := by
  refine ⟨fun small => ?_, fun x small => ?_⟩
  · obtain ⟨v, value, exact⟩ := whole.evaluates small
    exact ⟨v, simplify_eq_num_iff.mpr value, exact⟩
  · obtain ⟨v, value, exact⟩ := (whole.derivative x).evaluates small
    rw [← aeval_polynomial, polynomial_derivative, MvPolynomial.aeval_eq_eval] at exact
    exact ⟨v, simplify_eq_num_iff.mpr value, exact⟩

/-- The square of `x` and `y` come to `2 ^ 53` exactly. -/
theorem simplify_exact_of_whole_limit :
    let x : Variable := ⟨"x", by simp, by simp⟩
    let y : Variable := ⟨"y", by simp, by simp⟩
    let e : Expression := .sum (.prod (.var x) (.var x)) (.var y)
    let assignment : String → ℚ := fun name => if name = "x" then 94906265 else 118490767
    let a : Number := ⟨4726141461114912768, by rw [rankLimit_eq]; decide⟩
    let b : Number := ⟨4727724190252138496, by rw [rankLimit_eq]; decide⟩
    let env := (Environment.empty.insert x a).insert y b
    e.Whole assignment env ∧ e.Small assignment ∧ (e.derivative "x").Small assignment ∧
      (∃ v, e.simplify env = .num v ∧ v.IsWhole ∧ v.toRat = 2 ^ 53) ∧
      ∃ v, (e.derivative "x").simplify env = .num v ∧ v.IsWhole ∧
        v.toRat = MvPolynomial.eval assignment (MvPolynomial.pderiv "x" e.polynomial) := by
  intro x y e assignment a b env
  have a_eq : a.toRat = (94906265 : ℕ) := Number.toRat_eq_of_units (by decide +kernel)
  have b_eq : b.toRat = (118490767 : ℕ) := Number.toRat_eq_of_units (by decide +kernel)
  have whole : e.Whole assignment env := by
    constructor
    · exact fun v mem => nomatch mem
    · have found_x : ∃ v, env.find? x = some v ∧ v.IsWhole ∧ v.toRat = assignment x.name :=
        ⟨a, by decide +kernel, ⟨_, a_eq⟩, a_eq⟩
      have found_y : ∃ v, env.find? y = some v ∧ v.IsWhole ∧ v.toRat = assignment y.name :=
        ⟨b, by decide +kernel, ⟨_, b_eq⟩, b_eq⟩
      simpa [e, vars] using And.intro found_x found_y
  have other : "y" ≠ "x" := by decide
  have value : e.interpret assignment = 2 ^ 53 := by
    norm_num [e, interpret, assignment, x, y, other]
  have small : e.Small assignment := by
    norm_num [Small, e, subtrees, interpret, assignment, x, y, other]
  have small' : (e.derivative "x").Small assignment := by
    norm_num [Small, e, derivative, subtrees, interpret, assignment, x, y, other,
      Number.toRat_zero, Number.toRat_one]
  obtain ⟨exact, derived⟩ := simplify_exact_of_whole whole
  exact ⟨whole, small, small', value ▸ exact small, derived "x" small'⟩

end Expression

end SumProduct
