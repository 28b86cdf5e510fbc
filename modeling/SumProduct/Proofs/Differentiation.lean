import Mathlib.Algebra.DualNumber
import Mathlib.Algebra.MvPolynomial.PDeriv
import SumProduct.Expression.Evaluation
import SumProduct.Proofs.ExactValue

/-!
# Derivatives of polynomials

An expression stands for a polynomial over the rationals, whose indeterminates are the names of
its variables. The value of the expression in any algebra over the rationals is the value of this
polynomial. `Expression.derivative` is compared with the partial derivative of polynomials and
with arithmetic on dual numbers.
-/

namespace SumProduct

namespace Expression

open MvPolynomial

section Interpretation

variable {R S : Type} [CommSemiring R] [Algebra ℚ R] [CommSemiring S] [Algebra ℚ S]

/-- The exact value of an expression in an algebra over the rationals, where each name stands for
an element of the algebra. -/
def interpret (assignment : String → R) : Expression → R
  | .num v => algebraMap ℚ R v.toRat
  | .var x => assignment x.name
  | .sum l r => l.interpret assignment + r.interpret assignment
  | .prod l r => l.interpret assignment * r.interpret assignment

/-- A homomorphism of algebras may be applied to the value or to the assignment. -/
theorem map_interpret (f : R →ₐ[ℚ] S) (assignment : String → R) (e : Expression) :
    f (e.interpret assignment) = e.interpret fun y => f (assignment y) := by
  induction e with
  | num v => exact f.commutes v.toRat
  | var x => rfl
  | sum l r ihl ihr => rw [interpret, map_add, ihl, ihr, interpret]
  | prod l r ihl ihr => rw [interpret, map_mul, ihl, ihr, interpret]

/-- The polynomial of an expression. -/
noncomputable def polynomial (e : Expression) : MvPolynomial String ℚ := e.interpret X

@[simp] theorem aeval_polynomial (assignment : String → R) (e : Expression) :
    aeval assignment e.polynomial = e.interpret assignment := by
  rw [polynomial, map_interpret]
  simp only [aeval_X]

end Interpretation

/-! ## The partial derivative -/

theorem polynomial_derivative (e : Expression) (x : String) :
    (e.derivative x).polynomial = pderiv x e.polynomial := by
  unfold polynomial
  induction e with
  | num v =>
    simp [derivative, interpret]
  | var y =>
    rw [derivative, interpret, interpret]
    split
    · next same => simp [same]
    · next other => simp [pderiv_X_of_ne other]
  | sum l r ihl ihr =>
    rw [derivative, interpret, interpret, ihl, ihr, map_add]
  | prod l r ihl ihr =>
    rw [derivative, interpret, interpret, interpret, interpret, ihl, ihr, pderiv_mul]
    ring

/-! ## Dual numbers -/

/-- Each name stands for its rational, but `x` for its rational plus `ε`. -/
def moved (assignment : String → ℚ) (x y : String) : DualNumber ℚ :=
  if y = x then TrivSqZeroExt.inl (assignment y) + DualNumber.eps
  else TrivSqZeroExt.inl (assignment y)

section Moved

variable (assignment : String → ℚ) (x y : String)

@[simp] theorem fst_moved : (moved assignment x y).fst = assignment y := by
  unfold moved
  split
  · rw [TrivSqZeroExt.fst_add, TrivSqZeroExt.fst_inl, DualNumber.fst_eps, add_zero]
  · rw [TrivSqZeroExt.fst_inl]

@[simp] theorem snd_moved : (moved assignment x y).snd = if y = x then 1 else 0 := by
  unfold moved
  split
  · rw [TrivSqZeroExt.snd_add, TrivSqZeroExt.snd_inl, DualNumber.snd_eps, zero_add]
  · rw [TrivSqZeroExt.snd_inl]

@[simp] theorem fst_interpret_moved (e : Expression) :
    (e.interpret (moved assignment x)).fst = e.interpret assignment := by
  have mapped := map_interpret (TrivSqZeroExt.fstHom ℚ ℚ ℚ) (moved assignment x) e
  simp only [TrivSqZeroExt.fstHom_apply, fst_moved] at mapped
  exact mapped

@[simp] theorem snd_interpret_moved (e : Expression) :
    (e.interpret (moved assignment x)).snd = (e.derivative x).interpret assignment := by
  induction e with
  | num v =>
    simp [derivative, interpret, TrivSqZeroExt.algebraMap_eq_inl]
  | var y =>
    simp only [derivative, interpret, snd_moved]
    split <;> simp
  | sum l r ihl ihr =>
    simp [derivative, interpret, ihl, ihr]
  | prod l r ihl ihr =>
    simp [derivative, interpret, ihl, ihr]
    ring

end Moved

/-- The derivative is the partial derivative of the polynomial, and its value at a point is the
coefficient of `ε` when `ε` is added to the variable there. -/
theorem derivative_correct (e : Expression) (x : String) :
    (e.derivative x).polynomial = pderiv x e.polynomial ∧
      ∀ assignment : String → ℚ, (e.derivative x).interpret assignment =
        (e.interpret (moved assignment x)).snd :=
  ⟨polynomial_derivative e x, fun assignment => (snd_interpret_moved assignment x e).symm⟩

end Expression

end SumProduct
