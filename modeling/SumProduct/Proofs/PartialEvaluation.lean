import SumProduct.Expression.Evaluation
import SumProduct.Proofs.Simplification

/-!
# Partial evaluation

What is left of an expression when some of its variables have values can be simplified again or
differentiated. Giving the values in stages is the same as giving them all at once, and giving them
before the derivative is formed is the same as giving them afterwards, down to the last bit of each
number. This also holds where operations overflow and stay unfolded.

Results:
1. `simplify_simplify`: two simplifications are one, by both environments together.
2. `simplify_congr`: only the values of an expression's own variables matter.
3. `simplify_derivative`: simplification may be done before the derivative is formed as well.
-/

namespace SumProduct

namespace Environment

/-- The value of a variable is the value of its name. -/
@[simp] theorem get?_name (env : Environment) (x : Variable) : env.get? x.name = env.find? x := by
  unfold get? find?
  induction env.bindings with
  | nil => rfl
  | cons first rest ih =>
    by_cases same : x = first.1
    · have found : (x == first.1) = true := by simpa using same
      rw [List.find?_cons_of_pos (by simp [same]), List.lookup_cons, found]
      rfl
    · have other : first.1.name ≠ x.name := fun name => same (Variable.ext name.symm)
      have differs : (x == first.1) = false := by simpa using same
      rw [List.find?_cons_of_neg (by simpa using other), List.lookup_cons, differs]
      exact ih

/-- The values of the first environment, and those of the second for all other variables. -/
def orElse (first second : Environment) : Environment :=
  first.bindings.foldr (fun binding env => env.insert binding.1 binding.2) second

@[simp] theorem find?_orElse (first second : Environment) (x : Variable) :
    (first.orElse second).find? x = (first.find? x).or (second.find? x) := by
  unfold orElse
  rw [show first.find? x = first.bindings.lookup x from rfl]
  induction first.bindings with
  | nil => rfl
  | cons binding rest ih =>
    rw [List.foldr_cons, find?_insert, ih, List.lookup_cons]
    by_cases same : x = binding.1
    · simp [same]
    · have differs : (x == binding.1) = false := by simpa using same
      rw [if_neg same, differs]

end Environment

namespace Expression

/-! ## Folding what is simplified -/

section Folding

variable {operation : Double → Double → Double} {l r : Expression} {a b v : Number}

theorem fold?_num (result : operation a.toDouble b.toDouble = v.toDouble) :
    fold? operation (.num a) (.num b) = some v := by
  show (Number.ofDouble (operation a.toDouble b.toDouble)).toOption = some v
  rw [result, Number.ofDouble_toDouble]
  rfl

/-- What is folded is folded again after simplification: both operands are numbers. -/
theorem fold?_simplify (env : Environment) (folded : fold? operation l r = some v) :
    fold? operation (l.simplify env) (r.simplify env) = some v := by
  obtain ⟨a, b, rfl, rfl, -⟩ := fold?_eq_some folded
  exact folded

variable (l r)

@[simp] theorem simplify_foldSum (env : Environment) :
    (foldSum l r).simplify env = foldSum (l.simplify env) (r.simplify env) := by
  rw [foldSum]
  split
  · next v folded =>
    rw [foldSum, fold?_simplify env folded]
    rfl
  · rfl

@[simp] theorem simplify_foldProd (env : Environment) :
    (foldProd l r).simplify env = foldProd (l.simplify env) (r.simplify env) := by
  rw [foldProd]
  split
  · next v folded =>
    rw [foldProd, fold?_simplify env folded]
    rfl
  · rfl

end Folding

/-! ## Stages -/

/-- By induction on the expression: at a variable the environments are asked one after the other,
and a fold of the first stage is done by the second stage as well. -/
theorem simplify_simplify (e : Expression) (first second : Environment) :
    (e.simplify first).simplify second = e.simplify (first.orElse second) := by
  induction e with
  | num v => rfl
  | var x =>
    simp only [simplify, Environment.find?_orElse]
    cases first.find? x with
    | some v => rfl
    | none =>
      rw [Option.none_or]
      rfl
  | sum l r ihl ihr | prod l r ihl ihr => simp [simplify, ihl, ihr]

/-- The variables of an expression, from left to right. -/
def vars : Expression → List Variable
  | .num _ => []
  | .var x => [x]
  | .sum l r | .prod l r => l.vars ++ r.vars

theorem simplify_congr {e : Expression} {env env' : Environment}
    (agree : ∀ x ∈ e.vars, env.find? x = env'.find? x) : e.simplify env = e.simplify env' := by
  induction e with
  | num v => rfl
  | var x => rw [simplify, simplify, agree x (List.mem_singleton_self x)]
  | sum l r ihl ihr | prod l r ihl ihr =>
    rw [simplify, simplify, ihl fun x mem => agree x (List.mem_append_left _ mem),
      ihr fun x mem => agree x (List.mem_append_right _ mem)]

/-- A second simplification by the same environment changes nothing. -/
@[simp] theorem simplify_idem (e : Expression) (env : Environment) :
    (e.simplify env).simplify env = e.simplify env := by
  rw [simplify_simplify]
  refine simplify_congr fun x _ => ?_
  simp

/-- Environments that do not contradict each other may be used in either order. -/
theorem simplify_comm {first second : Environment} (e : Expression)
    (agree : ∀ x v w, first.find? x = some v → second.find? x = some w → v = w) :
    (e.simplify first).simplify second = (e.simplify second).simplify first := by
  rw [simplify_simplify, simplify_simplify]
  refine simplify_congr fun x _ => ?_
  rw [Environment.find?_orElse, Environment.find?_orElse]
  cases found : first.find? x with
  | none => rw [Option.none_or, Option.or_none]
  | some v =>
    cases other : second.find? x with
    | none => rfl
    | some w => rw [agree x v w found other]

/-- Simplifying in stages is simplifying at once, by the values of the first stage and, for the
variables without one, those of the second. So the order of the stages does not matter where they
agree, and no value of a variable that does not occur matters. -/
theorem simplify_stages (e : Expression) (first second : Environment) :
    (∀ both : Environment, (∀ x, both.find? x = (first.find? x).or (second.find? x)) →
      (e.simplify first).simplify second = e.simplify both) ∧
    (∃ both : Environment, ∀ x, both.find? x = (first.find? x).or (second.find? x)) ∧
    ((∀ x v w, first.find? x = some v → second.find? x = some w → v = w) →
      (e.simplify first).simplify second = (e.simplify second).simplify first) ∧
    ((∀ x ∈ e.vars, first.find? x = second.find? x) →
      e.simplify first = e.simplify second) := by
  refine ⟨fun both values => ?_, ⟨first.orElse second, first.find?_orElse second⟩,
    simplify_comm e, simplify_congr⟩
  rw [simplify_simplify]
  refine simplify_congr fun x _ => ?_
  simp [values]

/-- The first stage leaves the square of a large number, and the second stage folds beside it. -/
theorem simplify_stages_overflow :
    let x : Variable := ⟨"x", by simp, by simp⟩
    let y : Variable := ⟨"y", by simp, by simp⟩
    let large : Number := ⟨2046 * 2 ^ 52, by rw [rankLimit_eq]; decide⟩
    let first := Environment.empty.insert x large
    let second := Environment.empty.insert y .zero
    let both := first.insert y .zero
    let square : Expression := .prod (.var x) (.var x)
    let e : Expression := .sum square (.prod (.var y) (.num large))
    (e.simplify first).simplify second = e.simplify both ∧
      (e.simplify first).simplify second = (e.simplify second).simplify first ∧
      square.simplify first = square.simplify both ∧
      e.simplify both = .sum (.prod (.num large) (.num large)) (.num .zero) := by
  intro x y large first second both square e
  have values (z : Variable) : both.find? z = (first.find? z).or (second.find? z) := by
    by_cases isX : z = x
    · subst isX
      decide +kernel
    · simp only [both, first, second, Environment.find?_insert, if_neg isX]
      exact Option.none_or.symm
  have agree (z : Variable) (v w : Number) (found : first.find? z = some v)
      (other : second.find? z = some w) : v = w := by
    simp only [first, second, Environment.find?_insert] at found other
    split at found
    · next isX =>
      subst isX
      rw [if_neg (by decide +kernel)] at other
      cases other
    · cases found
  have same : ∀ z ∈ square.vars, first.find? z = both.find? z := by decide +kernel
  exact ⟨(simplify_stages e first second).1 both values,
    (simplify_stages e first second).2.2.1 agree,
    (simplify_stages square first both).2.2.2 same, by decide +kernel⟩

/-! ## Derivatives -/

section Zeros

variable (a : Number)

@[simp]
theorem toDouble_add_zero : Number.zero.toDouble + Number.zero.toDouble = Number.zero.toDouble := by
  rw [Double.toDouble_add_toDouble, Number.units_zero, Double.round, Number.nearest?_zero]
  rfl

@[simp] theorem toDouble_mul_zero : a.toDouble * Number.zero.toDouble = Number.zero.toDouble := by
  rw [Double.toDouble_mul_toDouble, Number.units_zero, Nat.mul_zero, Double.round,
    Number.nearest?_zero]
  rfl

@[simp] theorem foldSum_zero : foldSum (.num .zero) (.num .zero) = .num .zero := by
  have folded : fold? (· + ·) (.num .zero) (.num .zero) = some .zero := fold?_num toDouble_add_zero
  rw [foldSum, folded]

@[simp] theorem foldProd_zero : foldProd (.num a) (.num .zero) = .num .zero := by
  have folded : fold? (· * ·) (.num a) (.num .zero) = some .zero :=
    fold?_num (toDouble_mul_zero a)
  rw [foldProd, folded]

end Zeros

section Derivatives

variable (l r : Expression) (x : String) (env : Environment)

/-- A folded sum has the derivative zero, which is what the derivatives of its operands fold to. -/
theorem simplify_derivative_foldSum : ((foldSum l r).derivative x).simplify env =
    foldSum ((l.derivative x).simplify env) ((r.derivative x).simplify env) := by
  rw [foldSum]
  split
  · next v folded =>
    obtain ⟨a, b, rfl, rfl, -⟩ := fold?_eq_some folded
    exact foldSum_zero.symm
  · rfl

/-- A folded product has the derivative zero. By the product rule it is the sum of two products
with a factor zero, and these do not overflow. -/
theorem simplify_derivative_foldProd : ((foldProd l r).derivative x).simplify env =
    foldSum (foldProd (l.simplify env) ((r.derivative x).simplify env))
      (foldProd (r.simplify env) ((l.derivative x).simplify env)) := by
  rw [foldProd]
  split
  · next v folded =>
    obtain ⟨a, b, rfl, rfl, -⟩ := fold?_eq_some folded
    show .num .zero = foldSum (foldProd (.num a) (.num .zero)) (foldProd (.num b) (.num .zero))
    simp
  · rfl

end Derivatives

/-- By induction on the expression. Where a variable is replaced by its value, it is not the one of
the derivative, so its derivative was zero before. -/
theorem simplify_derivative (e : Expression) (env : Environment) (x : String)
    (unbound : env.get? x = none) :
    (e.derivative x).simplify env = ((e.simplify env).derivative x).simplify env := by
  induction e with
  | num v => rfl
  | var y =>
    rw [simplify]
    cases found : env.find? y with
    | none => rfl
    | some v =>
      have other : y.name ≠ x := by
        rintro rfl
        rw [Environment.get?_name, found] at unbound
        cases unbound
      show simplify (.num (if y.name = x then .one else .zero)) env = .num .zero
      rw [if_neg other]
      rfl
  | sum l r ihl ihr =>
    rw [simplify, simplify_derivative_foldSum, ← ihl, ← ihr, derivative, simplify]
  | prod l r ihl ihr =>
    rw [simplify, simplify_derivative_foldProd, ← ihl, ← ihr, simplify_idem, simplify_idem,
      derivative, simplify, simplify, simplify]

/-- A product that overflows stays in place, and the product rule has it once. -/
theorem simplify_derivative_overflow :
    let x : Variable := ⟨"x", by simp, by simp⟩
    let y : Variable := ⟨"y", by simp, by simp⟩
    let large : Number := ⟨2046 * 2 ^ 52, by rw [rankLimit_eq]; decide⟩
    let env := Environment.empty.insert y large
    let square : Expression := .prod (.var y) (.var y)
    let e : Expression := .prod square (.var x)
    env.get? "x" = none ∧
      (e.derivative "x").simplify env = ((e.simplify env).derivative "x").simplify env ∧
      (e.derivative "x").simplify env = .sum (.prod (.prod (.num large) (.num large)) (.num .one))
        (.prod (.var x) (.num .zero)) := by
  intro x y large env square e
  have unbound : env.get? "x" = none := by decide +kernel
  exact ⟨unbound, simplify_derivative e env "x" unbound, by decide +kernel⟩

end Expression

end SumProduct
