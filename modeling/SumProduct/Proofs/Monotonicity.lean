import SumProduct.Proofs.EvaluableParts

/-!
# Simplification and the order of numbers

Rounding never inverts the order of two values, and a value overflows no sooner than a larger one
(`RoundsTo.mono`). So sums and products of smaller numbers are no larger. By induction the same
holds of whole expressions: with smaller values an expression that had a number as its value still
has one, and it is no larger (`simplify_monotone`).
-/

namespace SumProduct

namespace Expression

/-- All variables have values in both environments, and the values in the first are no larger. -/
def Below (env env' : Environment) (e : Expression) : Prop :=
  ∀ x ∈ e.vars, ∃ v w, env.find? x = some v ∧ env'.find? x = some w ∧ v.toRat ≤ w.toRat

/-- By induction on the evaluation: at a variable the values are compared, and at an operation the
values of its operands. -/
theorem Evaluates.mono {e : Expression} {env env' : Environment} {w : Number}
    (value : Evaluates env' e w) (below : e.Below env env') :
    ∃ v, Evaluates env e v ∧ v.toRat ≤ w.toRat := by
  induction value with
  | num v => exact ⟨v, .num v, le_rfl⟩
  | @var x w found' =>
    obtain ⟨v, w', found, same, le⟩ := below x (List.mem_singleton_self x)
    obtain rfl : w' = w := Option.some.inj (same.symm.trans found')
    exact ⟨v, .var found, le⟩
  | sum _ _ rounds ihl ihr =>
    obtain ⟨a, left, a_le⟩ := ihl fun x mem => below x (List.mem_append_left _ mem)
    obtain ⟨b, right, b_le⟩ := ihr fun x mem => below x (List.mem_append_right _ mem)
    obtain ⟨v, rounds, le⟩ :=
      rounds.mono (add_nonneg a.toRat_nonneg b.toRat_nonneg) (add_le_add a_le b_le)
    exact ⟨v, .sum left right rounds, le⟩
  | prod _ _ rounds ihl ihr =>
    obtain ⟨a, left, a_le⟩ := ihl fun x mem => below x (List.mem_append_left _ mem)
    obtain ⟨b, right, b_le⟩ := ihr fun x mem => below x (List.mem_append_right _ mem)
    obtain ⟨v, rounds, le⟩ := rounds.mono (mul_nonneg a.toRat_nonneg b.toRat_nonneg)
      (mul_le_mul a_le b_le b.toRat_nonneg (a.toRat_nonneg.trans a_le))
    exact ⟨v, .prod left right rounds, le⟩

/-- Where all variables have values, smaller ones do not make the result larger: if the expression
is simplified to a number with the larger values, it is simplified to a number with the smaller
ones, so nothing overflows, and this number is no larger. -/
theorem simplify_monotone {e : Expression} {env env' : Environment} {w : Number}
    (below : e.Below env env') (result : e.simplify env' = .num w) :
    ∃ v, e.simplify env = .num v ∧ v.toRat ≤ w.toRat := by
  obtain ⟨v, value, le⟩ := (simplify_eq_num_iff.mp result).mono below
  exact ⟨v, simplify_eq_num_iff.mpr value, le⟩

/-- Twice the larger value of `x` is the largest number of all, and the smaller value of `y` is the
smallest one above zero. -/
theorem simplify_monotone_limits :
    let x : Variable := ⟨"x", by simp, by simp⟩
    let y : Variable := ⟨"y", by simp, by simp⟩
    let half : Number := ⟨2046 * 2 ^ 52 - 1, by rw [rankLimit_eq]; decide⟩
    let largest : Number := ⟨2047 * 2 ^ 52 - 1, by rw [rankLimit_eq]; decide⟩
    let tiny : Number := ⟨1, by rw [rankLimit_eq]; decide⟩
    let env := (Environment.empty.insert x .one).insert y tiny
    let env' := (Environment.empty.insert x half).insert y .one
    let e : Expression := .prod (.sum (.var x) (.var x)) (.var y)
    e.Below env env' ∧ e.simplify env' = .num largest ∧
      ∃ v, e.simplify env = .num v ∧ v.toRat ≤ largest.toRat := by
  intro x y half largest tiny env env' e
  have below : e.Below env env' := by
    have le_x : Number.one.toRat ≤ half.toRat := Number.toRat_le_toRat_iff.mpr (by decide +kernel)
    have le_y : tiny.toRat ≤ Number.one.toRat := Number.toRat_le_toRat_iff.mpr (by decide +kernel)
    have found_x : ∃ v w, env.find? x = some v ∧ env'.find? x = some w ∧ v.toRat ≤ w.toRat :=
      ⟨.one, half, by decide +kernel, by decide +kernel, le_x⟩
    have found_y : ∃ v w, env.find? y = some v ∧ env'.find? y = some w ∧ v.toRat ≤ w.toRat :=
      ⟨tiny, .one, by decide +kernel, by decide +kernel, le_y⟩
    simpa [Below, e, vars] using And.intro found_x found_y
  have result : e.simplify env' = .num largest := by decide +kernel
  exact ⟨below, result, simplify_monotone below result⟩

end Expression

end SumProduct
