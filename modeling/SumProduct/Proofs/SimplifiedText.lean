import SumProduct.Expression.Evaluation
import SumProduct.Proofs.CanonicalForm

/-!
# The canonical texts of simplified expressions

Simplification never opens a parenthesis. A fold only removes some, and an operation that stays in
place has them where it had them before: its right operand is a product only if it was one, since a
variable is replaced by a number (`nest_simplify_le`).

How deeply an expression is nested can be seen in its text (`shallow_text_iff`), and it decides
whether the text is read back. So if the text of an expression is read back, that of the simplified
expression is too, together with the texts of all its parts (`simplified_text_accepted`).
-/

namespace SumProduct.Expression

open Text

/-! ## The same shape -/

/-- The same operations on the same variables, with related numbers at the same places. -/
inductive Alike (related : Number → Number → Prop) : Expression → Expression → Prop
  | num {v w : Number} : related v w → Alike related (.num v) (.num w)
  | var (x : Variable) : Alike related (.var x) (.var x)
  | sum {l r l' r' : Expression} : Alike related l l' → Alike related r r' →
      Alike related (.sum l r) (.sum l' r')
  | prod {l r l' r' : Expression} : Alike related l l' → Alike related r r' →
      Alike related (.prod l r) (.prod l' r')

theorem alike_mapNumbers {related : Number → Number → Prop} {f : Number → Number}
    (each : ∀ v, related (f v) v) (e : Expression) : Alike related (e.mapNumbers f) e := by
  induction e with
  | num v => exact .num (each v)
  | var x => exact .var x
  | sum l r ihl ihr => exact .sum ihl ihr
  | prod l r ihl ihr => exact .prod ihl ihr

/-- The canonical text is read as an expression of the same shape and with the same text. -/
def ReadsBack (e : Expression) : Prop :=
  ∃ tree, parse e.text = .ok tree ∧ tree.text = e.text ∧ Alike (·.text = ·.text) tree e

theorem readsBack_of_nest_le {e : Expression} (fits : e.nest ≤ nestingLimit) : e.ReadsBack :=
  ⟨_, parse_text_of_nest_le fits, e.text_mapNumbers_reread, e.alike_mapNumbers Number.text_reread⟩

/-! ## Parts -/

/-- An expression and the expressions that it is made of. -/
def subtrees : Expression → List Expression
  | .num v => [.num v]
  | .var x => [.var x]
  | .sum l r => .sum l r :: (l.subtrees ++ r.subtrees)
  | .prod l r => .prod l r :: (l.subtrees ++ r.subtrees)

theorem nest_le_of_mem_subtrees {e part : Expression} (mem : part ∈ e.subtrees) :
    part.nest ≤ e.nest := by
  induction e with
  | num v | var x =>
    obtain rfl := List.mem_singleton.mp mem
    exact Nat.le_refl _
  | sum l r ihl ihr =>
    rcases List.mem_cons.mp mem with rfl | inside
    · exact Nat.le_refl _
    rw [nest]
    rcases List.mem_append.mp inside with left | right
    · exact (ihl left).trans ((Nat.le_max_left _ _).trans (Nat.le_add_left _ 1))
    · exact (ihr right).trans ((Nat.le_max_right _ _).trans (Nat.le_add_left _ 1))
  | prod l r ihl ihr =>
    rcases List.mem_cons.mp mem with rfl | inside
    · exact Nat.le_refl _
    rw [nest]
    rcases List.mem_append.mp inside with left | right
    · exact (ihl left).trans (Nat.le_max_left _ _)
    · exact (ihr right).trans ((Nat.le_add_right _ _).trans (Nat.le_max_right _ _))

/-! ## Open parentheses -/

/-- The text has no more parentheses open at once than the expression is nested. -/
theorem shallow_text_iff {e : Expression} {levels : Nat} :
    Shallow levels e.text.toList ↔ e.nest ≤ levels := by
  have whole : e.text.toList = e.write [] := String.toList_ofList
  rw [whole]
  constructor
  · intro shallow
    by_contra deep
    obtain ⟨before, ⟨⟨after, split⟩, depth_eq, -⟩, -⟩ := overflows e 0 levels (not_le.mp deep)
    exact absurd (shallow before after split) (by rw [depth_eq]; exact lt_irrefl _)
  · intro fits
    exact (written e levels fits).balanced.shallow

section Folding

variable (l r : Expression)

theorem nest_foldSum_le : (foldSum l r).nest ≤ (sum l r).nest := by
  unfold foldSum
  split
  · exact Nat.zero_le _
  · exact Nat.le_refl _

theorem nest_foldProd_le : (foldProd l r).nest ≤ (prod l r).nest := by
  unfold foldProd
  split
  · exact Nat.zero_le _
  · exact Nat.le_refl _

end Folding

/-- A product on the right needs parentheses, so it must not come in for something else there. -/
theorem nest_prod_le {l r l' r' : Expression} (left : l'.nest ≤ l.nest) (right : r'.nest ≤ r.nest)
    (isProd : r'.isProd = true → r.isProd = true) : (prod l' r').nest ≤ (prod l r).nest := by
  rw [nest, nest]
  refine max_le_max left (Nat.add_le_add right ?_)
  split
  · next product => rw [if_pos (isProd product)]
  · exact Nat.zero_le _

theorem isProd_of_isProd_simplify {e : Expression} {env : Environment}
    (isProd : (e.simplify env).isProd = true) : e.isProd = true := by
  cases e with
  | num v => cases isProd
  | var x =>
    unfold simplify at isProd
    split at isProd <;> cases isProd
  | sum l r =>
    unfold simplify foldSum at isProd
    split at isProd <;> cases isProd
  | prod l r => rfl

/-- By induction on the expression: a fold is no deeper than the operation that it may replace. -/
theorem nest_simplify_le (e : Expression) (env : Environment) :
    (e.simplify env).nest ≤ e.nest := by
  induction e with
  | num v => exact Nat.le_refl 0
  | var x =>
    unfold simplify
    split <;> exact Nat.le_refl 0
  | sum l r ihl ihr =>
    rw [simplify]
    refine (nest_foldSum_le _ _).trans ?_
    rw [nest, nest]
    exact Nat.add_le_add_left (max_le_max ihl ihr) 1
  | prod l r ihl ihr =>
    rw [simplify]
    exact (nest_foldProd_le _ _).trans (nest_prod_le ihl ihr isProd_of_isProd_simplify)

/-- If the text of an expression is read back, so is that of the simplified expression, and so are
the texts of its parts, among them the operations that overflowed and stayed in place. No more
parentheses are open in the text than before, and the text of each number is a number. -/
theorem simplified_text_accepted (e : Expression) (env : Environment) :
    ((∃ tree, parse e.text = .ok tree) →
      (e.simplify env).ReadsBack ∧ ∀ part ∈ (e.simplify env).subtrees, part.ReadsBack) ∧
    (∀ levels, Shallow levels e.text.toList → Shallow levels (e.simplify env).text.toList) ∧
    ∀ v ∈ (e.simplify env).numbers, ∃ v', v'.text = v.text ∧
      Token.scan (String.ofList v.text) = [.ok ⟨.number v', String.ofList v.text, 0⟩] := by
  refine ⟨?_, fun levels shallow => ?_, fun v _ => ⟨v.reread, v.text_reread, v.scan_text⟩⟩
  · rintro ⟨tree, accepted⟩
    have fits : e.nest ≤ nestingLimit :=
      Nat.not_lt.mp fun deep => parse_text_ne_ok deep tree accepted
    have simplified : (e.simplify env).nest ≤ nestingLimit := (e.nest_simplify_le env).trans fits
    exact ⟨readsBack_of_nest_le simplified, fun part mem =>
      readsBack_of_nest_le ((nest_le_of_mem_subtrees mem).trans simplified)⟩
  · rw [shallow_text_iff] at shallow ⊢
    exact (e.nest_simplify_le env).trans shallow

/-- The product of two large numbers overflows and stays, as the right operand of a product, where
a product stood before. Beside it a sum is folded to a number that is not read back as itself. -/
theorem simplified_text_accepted_overflow :
    let x : Variable := ⟨"x", by simp, by simp⟩
    let y : Variable := ⟨"y", by simp, by simp⟩
    let large : Number := ⟨2046 * 2 ^ 52, by rw [rankLimit_eq]; decide⟩
    let tiny : Number := ⟨1, by rw [rankLimit_eq]; decide⟩
    let twice : Number := ⟨2, by rw [rankLimit_eq]; decide⟩
    let env := (Environment.empty.insert x large).insert y tiny
    let e : Expression := .prod (.sum (.var y) (.var y)) (.prod (.var x) (.var x))
    let simplified : Expression := .prod (.num twice) (.prod (.num large) (.num large))
    e.simplify env = simplified ∧ (∃ tree, parse e.text = .ok tree) ∧ simplified.ReadsBack ∧
      (prod (.num large) (.num large)).ReadsBack ∧ twice.text = "0.0000".toList := by
  intro x y large tiny twice env e simplified
  have result : e.simplify env = simplified := by decide +kernel
  have accepted : ∃ tree, parse e.text = .ok tree := ⟨e, by decide +kernel⟩
  have readsBack := (simplified_text_accepted e env).1 accepted
  rw [result] at readsBack
  exact ⟨result, accepted, readsBack.1, readsBack.2 _ (by decide +kernel), by decide +kernel⟩

end SumProduct.Expression
