import SumProduct.Proofs.Leaves
import SumProduct.Proofs.PartialEvaluation
import SumProduct.Proofs.SimplifiedText

/-!
# Normal forms

An expression is in normal form for an environment if none of its variables has a value there, and
if the result of each sum or product of two numbers in it is `2 ^ 1024 - 2 ^ 970` or more. That is
where rounding no longer gives a number (`add_eq_infinite_iff`, `mul_eq_infinite_iff`).

The normal forms are exactly the expressions that simplification leaves as they are
(`simplify_eq_self_iff`). One pass reaches one, and another pass by the same values, or by some of
them, changes nothing (`simplify_normal`).
-/

namespace SumProduct

/-! ## Where rounding ends -/

namespace Double

theorem round_eq_infinite_iff {num den : Nat} (den_pos : 0 < den) :
    round false num den = .infinite false ↔ overflowUnits * den ≤ num := by
  rw [round, ← Number.nearest?_eq_none_iff den_pos]
  cases Number.nearest? num den <;> simp

variable (a b : Number)

theorem add_eq_infinite_iff :
    a.toDouble + b.toDouble = .infinite false ↔ 2 ^ 1024 - 2 ^ 970 ≤ a.toRat + b.toRat := by
  have total : a.toRat + b.toRat = (a.units + b.units : Nat) / unitsPerOne := by
    rw [Number.toRat, Number.toRat, ← add_div, Nat.cast_add]
  rw [toDouble_add_toDouble, round_eq_infinite_iff Nat.one_pos, total,
    Number.le_div_unitsPerOne_iff, Nat.mul_one]

theorem mul_eq_infinite_iff :
    a.toDouble * b.toDouble = .infinite false ↔ 2 ^ 1024 - 2 ^ 970 ≤ a.toRat * b.toRat := by
  have one_pos := Number.cast_unitsPerOne_pos
  rw [toDouble_mul_toDouble, round_eq_infinite_iff unitsPerOne_pos, Number.toRat, Number.toRat,
    div_mul_div_comm, le_div_iff₀ (mul_pos one_pos one_pos), ← mul_assoc,
    ← Number.cast_overflowUnits]
  norm_cast

end Double

namespace Expression

/-! ## What is not folded -/

section Folding

variable {operation : Double → Double → Double} {l r l' r' : Expression}

/-- Operands are left alone unless they are two numbers with a number as their result. -/
theorem fold?_eq_none_iff (folds : Folds operation) : fold? operation l r = none ↔
    ∀ a b : Number, l = .num a → r = .num b →
      operation a.toDouble b.toDouble = .infinite false := by
  constructor
  · rintro unfolded a b rfl rfl
    have result := folds a b
    rwa [unfolded] at result
  · intro infinite
    cases folded : fold? operation l r with
    | none => rfl
    | some v =>
      obtain ⟨a, b, rfl, rfl, accepted⟩ := fold?_eq_some folded
      rw [infinite a b rfl rfl] at accepted
      cases accepted

theorem foldSum_eq_sum_iff :
    foldSum l' r' = .sum l r ↔ l' = l ∧ r' = r ∧ fold? (· + ·) l r = none := by
  rw [foldSum]
  constructor
  · intro kept
    split at kept
    · cases kept
    · next unfolded =>
      cases kept
      exact ⟨rfl, rfl, unfolded⟩
  · rintro ⟨rfl, rfl, unfolded⟩
    rw [unfolded]

theorem foldProd_eq_prod_iff :
    foldProd l' r' = .prod l r ↔ l' = l ∧ r' = r ∧ fold? (· * ·) l r = none := by
  rw [foldProd]
  constructor
  · intro kept
    split at kept
    · cases kept
    · next unfolded =>
      cases kept
      exact ⟨rfl, rfl, unfolded⟩
  · rintro ⟨rfl, rfl, unfolded⟩
    rw [unfolded]

end Folding

/-! ## Normal forms -/

/-- Nothing is left to do at the root: it is no variable with a value, and no operation on two
numbers but one whose result is too large. -/
def Settled (env : Environment) : Expression → Prop
  | .num _ => True
  | .var x => env.find? x = none
  | .sum l r => ∀ a b : Number, l = .num a → r = .num b → 2 ^ 1024 - 2 ^ 970 ≤ a.toRat + b.toRat
  | .prod l r => ∀ a b : Number, l = .num a → r = .num b → 2 ^ 1024 - 2 ^ 970 ≤ a.toRat * b.toRat

/-- Nothing is left to do in any part. -/
def Normal (env : Environment) (e : Expression) : Prop := ∀ part ∈ e.subtrees, part.Settled env

section Normal

variable {env env' : Environment} {e l r : Expression}

theorem var_mem_subtrees_iff {x : Variable} : var x ∈ e.subtrees ↔ x ∈ e.vars := by
  induction e with
  | num v => simp [subtrees, vars]
  | var y => simp [subtrees, vars]
  | sum l r ihl ihr | prod l r ihl ihr => simp [subtrees, vars, ihl, ihr]

@[simp] theorem settled_sum_iff : (sum l r).Settled env ↔ fold? (· + ·) l r = none := by
  simp only [Settled, fold?_eq_none_iff folds_add, Double.add_eq_infinite_iff]

@[simp] theorem settled_prod_iff : (prod l r).Settled env ↔ fold? (· * ·) l r = none := by
  simp only [Settled, fold?_eq_none_iff folds_mul, Double.mul_eq_infinite_iff]

@[simp] theorem normal_sum_iff :
    (sum l r).Normal env ↔ (sum l r).Settled env ∧ l.Normal env ∧ r.Normal env := by
  simp only [Normal, subtrees, List.forall_mem_cons, List.forall_mem_append]

@[simp] theorem normal_prod_iff :
    (prod l r).Normal env ↔ (prod l r).Settled env ∧ l.Normal env ∧ r.Normal env := by
  simp only [Normal, subtrees, List.forall_mem_cons, List.forall_mem_append]

/-- By induction on the expression: a pass changes nothing exactly if there is nothing to do. -/
theorem simplify_eq_self_iff : e.simplify env = e ↔ e.Normal env := by
  induction e with
  | num v => simp [simplify, Normal, subtrees, Settled]
  | var x =>
    rw [simplify, Normal, subtrees, List.forall_mem_singleton, Settled]
    cases env.find? x <;> simp
  | sum l r ihl ihr =>
    rw [simplify, foldSum_eq_sum_iff, ihl, ihr, normal_sum_iff, settled_sum_iff]
    tauto
  | prod l r ihl ihr =>
    rw [simplify, foldProd_eq_prod_iff, ihl, ihr, normal_prod_iff, settled_prod_iff]
    tauto

/-- With fewer values there is less to do. -/
theorem Settled.of_le (settled : e.Settled env)
    (le : ∀ x v, env'.find? x = some v → env.find? x = some v) : e.Settled env' := by
  cases e with
  | num v => trivial
  | var x =>
    cases found : env'.find? x with
    | none => exact found
    | some v => exact absurd ((le x v found).symm.trans settled) nofun
  | sum l r | prod l r => exact settled

end Normal

/-- One pass reaches a normal form: no variable with a value is left in it, and no operation on two
numbers but those with a result of `2 ^ 1024 - 2 ^ 970` or more, which are the ones that are not
rounded to a number. So a pass by values that were used already changes nothing. -/
theorem simplify_normal (e : Expression) (env : Environment) :
    (∀ x ∈ (e.simplify env).vars, env.find? x = none) ∧
    (e.simplify env).Normal env ∧
    (∀ a b : Number,
      (2 ^ 1024 - 2 ^ 970 ≤ a.toRat + b.toRat ↔ a.toDouble + b.toDouble = .infinite false) ∧
      (2 ^ 1024 - 2 ^ 970 ≤ a.toRat * b.toRat ↔ a.toDouble * b.toDouble = .infinite false)) ∧
    ∀ env' : Environment, (∀ x v, env'.find? x = some v → env.find? x = some v) →
      (e.simplify env).simplify env' = e.simplify env := by
  have normal := simplify_eq_self_iff.mp (e.simplify_idem env)
  refine ⟨?_, normal, ?_, ?_⟩
  · exact fun x mem => normal (.var x) (var_mem_subtrees_iff.mpr mem)
  · exact fun a b => ⟨(Double.add_eq_infinite_iff a b).symm, (Double.mul_eq_infinite_iff a b).symm⟩
  · intro env' le
    exact simplify_eq_self_iff.mpr fun part mem => (normal part mem).of_le le

/-- The square of a large number is not folded, and the sum of two zeros beside it is. The next pass
changes nothing. -/
theorem simplify_normal_overflow :
    let x : Variable := ⟨"x", by simp, by simp⟩
    let y : Variable := ⟨"y", by simp, by simp⟩
    let large : Number := ⟨2046 * 2 ^ 52, by rw [rankLimit_eq]; decide⟩
    let env := Environment.empty.insert x large
    let zeros : Expression := .sum (.num .zero) (.num .zero)
    let e : Expression := .sum (.sum (.prod (.var x) (.var x)) zeros) (.var y)
    let simplified : Expression :=
      .sum (.sum (.prod (.num large) (.num large)) (.num .zero)) (.var y)
    e.simplify env = simplified ∧ simplified.simplify env = simplified ∧
      simplified.simplify .empty = simplified := by
  intro x y large env zeros e simplified
  have result : e.simplify env = simplified := by decide +kernel
  obtain ⟨_, _, _, again⟩ := simplify_normal e env
  rw [result] at again
  exact ⟨result, again env fun _ _ found => found, again .empty nofun⟩

end Expression

end SumProduct
