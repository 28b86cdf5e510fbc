import SumProduct.Proofs.Nearest
import SumProduct.Proofs.PartialEvaluation

/-!
# The parts that simplification folds

In an environment an expression is evaluable if all its variables have values and no sum or product
on the way from the leaves up overflows. Then it has a number as its value (`Evaluates`), where each
operation is rounded to the nearest number.

Simplification goes from the leaves up, and at each operation it sees the two operands only. What it
does can be told from the root down (`replaceMaximal`): an evaluable expression becomes its value,
and any other keeps its root and has the same done to its operands. So exactly the maximal evaluable
parts are replaced, and an overflow keeps all operations around it (`simplify_replaces_maximal`).
-/

namespace SumProduct

/-! ## Values -/

namespace Double

/-- The number that a double is, if it is finite and has no minus sign. -/
def number? : Double → Option Number
  | .finite false v => some v
  | .finite true _ | .infinite _ | .nan => none

theorem number?_eq_some_iff {d : Double} {v : Number} : d.number? = some v ↔ d = v.toDouble := by
  cases d with
  | finite negative magnitude => cases negative <;> simp [number?, Number.toDouble]
  | infinite negative | nan => simp [number?, Number.toDouble]

variable {a b v : Number}

/-- A sum is the exact sum, rounded. -/
theorem add_eq_toDouble_iff :
    a.toDouble + b.toDouble = v.toDouble ↔ RoundsTo (a.toRat + b.toRat) v := by
  rw [toDouble_add_toDouble, round_eq_toDouble_iff, Number.nearest?_eq_some_iff Nat.one_pos,
    Nat.cast_one, div_one, Nat.cast_add, add_div, Number.toRat, Number.toRat]

/-- A product is the exact product, rounded. -/
theorem mul_eq_toDouble_iff :
    a.toDouble * b.toDouble = v.toDouble ↔ RoundsTo (a.toRat * b.toRat) v := by
  rw [toDouble_mul_toDouble, round_eq_toDouble_iff, Number.nearest?_eq_some_iff unitsPerOne_pos,
    Nat.cast_mul, div_div, mul_div_mul_comm, Number.toRat, Number.toRat]

end Double

/-- The number that an operation gives for two numbers, if there are two and the result is finite.
-/
def Number.combine? (operation : Double → Double → Double) (left right : Option Number) :
    Option Number := do
  let a ← left
  let b ← right
  (operation a.toDouble b.toDouble).number?

theorem Number.combine?_eq_some_iff {operation : Double → Double → Double}
    {left right : Option Number} {v : Number} :
    combine? operation left right = some v ↔
      ∃ a b, left = some a ∧ right = some b ∧ operation a.toDouble b.toDouble = v.toDouble := by
  simp only [combine?, bind, Option.bind_eq_some_iff, Double.number?_eq_some_iff]
  constructor
  · rintro ⟨a, left, b, right, result⟩
    exact ⟨a, b, left, right, result⟩
  · rintro ⟨a, b, left, right, result⟩
    exact ⟨a, left, b, right, result⟩

namespace Expression

/-- The number that an expression comes to in double arithmetic, from the leaves up. There is none
if a variable has no value, or if a sum or product on the way is not finite. -/
def evaluate? (env : Environment) : Expression → Option Number
  | .num v => some v
  | .var x => env.find? x
  | .sum l r => Number.combine? (· + ·) (l.evaluate? env) (r.evaluate? env)
  | .prod l r => Number.combine? (· * ·) (l.evaluate? env) (r.evaluate? env)

/-- The value of an expression: each sum and product is the exact one of the values of its operands,
rounded to the nearest number. -/
inductive Evaluates (env : Environment) : Expression → Number → Prop
  | num (v : Number) : Evaluates env (.num v) v
  | var {x : Variable} {v : Number} (found : env.find? x = some v) : Evaluates env (.var x) v
  | sum {l r : Expression} {a b v : Number} (left : Evaluates env l a) (right : Evaluates env r b)
    (rounds : RoundsTo (a.toRat + b.toRat) v) : Evaluates env (.sum l r) v
  | prod {l r : Expression} {a b v : Number} (left : Evaluates env l a) (right : Evaluates env r b)
    (rounds : RoundsTo (a.toRat * b.toRat) v) : Evaluates env (.prod l r) v

section Values

variable {env : Environment} {e : Expression} {v : Number}

theorem evaluate?_eq_some_iff : e.evaluate? env = some v ↔ Evaluates env e v := by
  induction e generalizing v with
  | num w =>
    rw [evaluate?, Option.some_inj]
    constructor
    · rintro rfl
      exact .num w
    · intro value
      cases value with
      | num => rfl
  | var x =>
    constructor
    · exact .var
    · intro value
      cases value with
      | var found => exact found
  | sum l r ihl ihr =>
    simp only [evaluate?, Number.combine?_eq_some_iff, Double.add_eq_toDouble_iff, ihl, ihr]
    constructor
    · rintro ⟨a, b, left, right, rounds⟩
      exact .sum left right rounds
    · intro value
      cases value with
      | sum left right rounds => exact ⟨_, _, left, right, rounds⟩
  | prod l r ihl ihr =>
    simp only [evaluate?, Number.combine?_eq_some_iff, Double.mul_eq_toDouble_iff, ihl, ihr]
    constructor
    · rintro ⟨a, b, left, right, rounds⟩
      exact .prod left right rounds
    · intro value
      cases value with
      | prod left right rounds => exact ⟨_, _, left, right, rounds⟩

theorem evaluate?_eq_none_iff : e.evaluate? env = none ↔ ∀ v, ¬Evaluates env e v := by
  simp only [Option.eq_none_iff_forall_ne_some, Ne, evaluate?_eq_some_iff]

end Values

/-! ## Folding -/

section Folding

variable {env : Environment} {e l r : Expression} {v : Number}

/-- Two operands are folded to a number exactly if they are numbers and it is their result, where
results have no minus sign. -/
theorem fold?_eq_some_iff {operation : Double → Double → Double}
    (positive : ∀ a b : Number, (operation a.toDouble b.toDouble).negative = false) :
    fold? operation l r = some v ↔
      ∃ a b, l = .num a ∧ r = .num b ∧ operation a.toDouble b.toDouble = v.toDouble := by
  constructor
  · intro folded
    obtain ⟨a, b, left, right, accepted⟩ := fold?_eq_some folded
    exact ⟨a, b, left, right, Number.eq_toDouble_of_ofDouble (positive a b) accepted⟩
  · rintro ⟨a, b, rfl, rfl, result⟩
    exact fold?_num result

theorem foldSum_eq_num_iff : foldSum l r = .num v ↔
    ∃ a b, l = .num a ∧ r = .num b ∧ a.toDouble + b.toDouble = v.toDouble := by
  rw [← fold?_eq_some_iff Double.negative_add_toDouble, foldSum]
  cases fold? (· + ·) l r <;> simp

theorem foldProd_eq_num_iff : foldProd l r = .num v ↔
    ∃ a b, l = .num a ∧ r = .num b ∧ a.toDouble * b.toDouble = v.toDouble := by
  rw [← fold?_eq_some_iff Double.negative_mul_toDouble, foldProd]
  cases fold? (· * ·) l r <;> simp

/-- By induction on the expression: an operation is folded exactly if both operands are evaluable
and their result is a number. -/
theorem simplify_eq_num_iff : e.simplify env = .num v ↔ Evaluates env e v := by
  rw [← evaluate?_eq_some_iff]
  induction e generalizing v with
  | num w => rw [simplify, evaluate?, num.injEq, Option.some_inj]
  | var x =>
    rw [simplify, evaluate?]
    cases env.find? x <;> simp
  | sum l r ihl ihr =>
    simp only [simplify, foldSum_eq_num_iff, evaluate?, Number.combine?_eq_some_iff, ihl, ihr]
  | prod l r ihl ihr =>
    simp only [simplify, foldProd_eq_num_iff, evaluate?, Number.combine?_eq_some_iff, ihl, ihr]

theorem foldSum_of_ne_num (unfolded : ∀ v, foldSum l r ≠ .num v) : foldSum l r = .sum l r := by
  rw [foldSum] at unfolded ⊢
  cases folded : fold? (· + ·) l r with
  | none => rfl
  | some v => exact absurd (by rw [folded]) (unfolded v)

theorem foldProd_of_ne_num (unfolded : ∀ v, foldProd l r ≠ .num v) : foldProd l r = .prod l r := by
  rw [foldProd] at unfolded ⊢
  cases folded : fold? (· * ·) l r with
  | none => rfl
  | some v => exact absurd (by rw [folded]) (unfolded v)

end Folding

/-! ## Maximal parts -/

/-- The expression with each maximal part that has a value replaced by the value. Parts of such a
part are not looked at. -/
def replaceMaximal (value? : Expression → Option Number) (e : Expression) : Expression :=
  match value? e with
  | some v => .num v
  | none =>
    match e with
    | .num v => .num v
    | .var x => .var x
    | .sum l r => .sum (l.replaceMaximal value?) (r.replaceMaximal value?)
    | .prod l r => .prod (l.replaceMaximal value?) (r.replaceMaximal value?)

/-- An operand of an operation. -/
inductive Side where
  | left
  | right

/-- The part of an expression at the end of a way from the root. -/
def part? : Expression → List Side → Option Expression
  | e, [] => some e
  | .sum l _, .left :: way | .prod l _, .left :: way => l.part? way
  | .sum _ r, .right :: way | .prod _ r, .right :: way => r.part? way
  | .num _, _ :: _ | .var _, _ :: _ => none

/-- The same operation or the same leaf at the root. -/
inductive SameRoot : Expression → Expression → Prop
  | num (v : Number) : SameRoot (.num v) (.num v)
  | var (x : Variable) : SameRoot (.var x) (.var x)
  | sum (l r l' r' : Expression) : SameRoot (.sum l r) (.sum l' r')
  | prod (l r l' r' : Expression) : SameRoot (.prod l r) (.prod l' r')

section Maximal

variable {value? : Expression → Option Number} {e part l r : Expression} {x : Variable} {v : Number}

theorem replaceMaximal_of_some (value : value? e = some v) : e.replaceMaximal value? = .num v := by
  unfold replaceMaximal
  rw [value]

theorem replaceMaximal_var (none : value? (.var x) = none) :
    (var x).replaceMaximal value? = .var x := by
  rw [replaceMaximal, none]

theorem replaceMaximal_sum (none : value? (.sum l r) = none) :
    (sum l r).replaceMaximal value? =
      .sum (l.replaceMaximal value?) (r.replaceMaximal value?) := by
  rw [replaceMaximal, none]

theorem replaceMaximal_prod (none : value? (.prod l r) = none) :
    (prod l r).replaceMaximal value? =
      .prod (l.replaceMaximal value?) (r.replaceMaximal value?) := by
  rw [replaceMaximal, none]

theorem sameRoot_replaceMaximal (none : value? e = none) :
    SameRoot e (e.replaceMaximal value?) := by
  unfold replaceMaximal
  rw [none]
  cases e <;> constructor

/-- By induction on the way: where no part around it has a value, a part keeps its place, and the
same is done to it as to the whole. -/
theorem part?_replaceMaximal {way : List Side} (found : e.part? way = some part)
    (outside : ∀ outer around, outer <+: way → outer ≠ way → e.part? outer = some around →
      value? around = none) :
    (e.replaceMaximal value?).part? way = some (part.replaceMaximal value?) := by
  induction way generalizing e with
  | nil =>
    rw [part?, Option.some_inj] at found
    rw [found, part?]
  | cons side way ih =>
    have root : value? e = none :=
      outside [] e List.nil_prefix (List.cons_ne_nil side way).symm (by rw [part?])
    have inside {operand : Expression}
        (step : ∀ outer, e.part? (side :: outer) = operand.part? outer) :
        ∀ outer around, outer <+: way → outer ≠ way → operand.part? outer = some around →
          value? around = none := by
      intro outer around before other found
      refine outside (side :: outer) around ?_ (by simpa using other) (step outer ▸ found)
      exact (List.prefix_cons_inj side).mpr before
    cases e with
    | num v | var x => simp [part?] at found
    | sum l r =>
      rw [replaceMaximal_sum root]
      cases side with
      | left => exact ih found (inside fun outer => rfl)
      | right => exact ih found (inside fun outer => rfl)
    | prod l r =>
      rw [replaceMaximal_prod root]
      cases side with
      | left => exact ih found (inside fun outer => rfl)
      | right => exact ih found (inside fun outer => rfl)

end Maximal

/-- By induction on the expression: what is evaluable becomes its value, and where the root is not,
it is kept. -/
theorem simplify_eq_replaceMaximal (e : Expression) (env : Environment) :
    e.simplify env = e.replaceMaximal (evaluate? env) := by
  have folded {e : Expression} {v : Number} (value : e.evaluate? env = some v) :
      e.simplify env = e.replaceMaximal (evaluate? env) := by
    rw [replaceMaximal_of_some value, simplify_eq_num_iff, ← evaluate?_eq_some_iff, value]
  have unfolded {e : Expression} (none : e.evaluate? env = none) (v : Number) :
      e.simplify env ≠ .num v := by
    rw [Ne, simplify_eq_num_iff]
    exact evaluate?_eq_none_iff.mp none v
  induction e with
  | num v => exact folded (v := v) rfl
  | var x =>
    cases value : (var x).evaluate? env with
    | some v => exact folded value
    | none =>
      rw [evaluate?] at value
      rw [replaceMaximal_var value, simplify, value]
  | sum l r ihl ihr =>
    cases value : (sum l r).evaluate? env with
    | some v => exact folded value
    | none =>
      rw [replaceMaximal_sum value, ← ihl, ← ihr]
      exact foldSum_of_ne_num (unfolded value)
  | prod l r ihl ihr =>
    cases value : (prod l r).evaluate? env with
    | some v => exact folded value
    | none =>
      rw [replaceMaximal_prod value, ← ihl, ← ihr]
      exact foldProd_of_ne_num (unfolded value)

/-- Simplification gives a number exactly if the expression is evaluable, and then it is the value.
In general it replaces the maximal evaluable parts by their values and keeps all other operations
and leaves in their places: where no part around it is evaluable, a part that is becomes its value,
and one that is not keeps its root. -/
theorem simplify_replaces_maximal (e : Expression) (env : Environment) :
    (∀ v, e.simplify env = .num v ↔ Evaluates env e v) ∧
    (∀ part v, part.evaluate? env = some v ↔ Evaluates env part v) ∧
    e.simplify env = e.replaceMaximal (evaluate? env) ∧
    ∀ way part, e.part? way = some part →
      (∀ outer around, outer <+: way → outer ≠ way → e.part? outer = some around →
        ∀ v, ¬Evaluates env around v) →
      (∀ v, Evaluates env part v → (e.simplify env).part? way = some (.num v)) ∧
      ((∀ v, ¬Evaluates env part v) →
        ∃ part', (e.simplify env).part? way = some part' ∧ SameRoot part part') := by
  refine ⟨fun v => simplify_eq_num_iff, fun part v => evaluate?_eq_some_iff,
    simplify_eq_replaceMaximal e env, ?_⟩
  intro way part found outside
  have there := part?_replaceMaximal found fun outer around before other inside =>
    evaluate?_eq_none_iff.mpr (outside outer around before other inside)
  rw [← simplify_eq_replaceMaximal] at there
  refine ⟨fun v value => ?_, fun none => ?_⟩
  · rw [there, replaceMaximal_of_some (evaluate?_eq_some_iff.mpr value)]
  · exact ⟨_, there, sameRoot_replaceMaximal (evaluate?_eq_none_iff.mpr none)⟩

/-- The sum `x + 1` is folded. The square of a large number is not, and so neither is the product
with zero around it, nor the whole. -/
theorem simplify_replaces_maximal_overflow :
    let x : Variable := ⟨"x", by simp, by simp⟩
    let y : Variable := ⟨"y", by simp, by simp⟩
    let large : Number := ⟨2046 * 2 ^ 52, by rw [rankLimit_eq]; decide⟩
    let two : Number := ⟨1024 * 2 ^ 52, by rw [rankLimit_eq]; decide⟩
    let env := Environment.empty.insert x .one
    let square : Expression := .prod (.num large) (.num large)
    let e : Expression :=
      .sum (.prod (.sum (.var x) (.num .one)) (.var y)) (.prod square (.num .zero))
    Evaluates env (.sum (.var x) (.num .one)) two ∧ (∀ v, ¬Evaluates env square v) ∧
      (e.simplify env).part? [.left, .left] = some (.num two) ∧
      (∃ part', (e.simplify env).part? [.right, .left] = some part' ∧ SameRoot square part') ∧
      e.simplify env = .sum (.prod (.num two) (.var y)) (.prod square (.num .zero)) := by
  intro x y large two env square e
  have outside (first second : Side) : ∀ outer around, outer <+: [first, second] →
      outer ≠ [first, second] → e.part? outer = some around → ∀ v, ¬Evaluates env around v := by
    intro outer around before other found
    rw [← evaluate?_eq_none_iff]
    rcases List.prefix_cons_iff.mp before with rfl | ⟨rest, rfl, behind⟩
    · obtain rfl : e = around := Option.some.inj found
      decide +kernel
    rcases List.prefix_cons_iff.mp behind with rfl | ⟨rest, rfl, last⟩
    · cases first with
      | left =>
        obtain rfl : prod (.sum (.var x) (.num .one)) (.var y) = around := Option.some.inj found
        decide +kernel
      | right =>
        obtain rfl : prod square (.num .zero) = around := Option.some.inj found
        decide +kernel
    · rw [List.prefix_nil.mp last] at other
      exact absurd rfl other
  have value : Evaluates env (.sum (.var x) (.num .one)) two :=
    evaluate?_eq_some_iff.mp (by decide +kernel)
  have overflow : ∀ v, ¬Evaluates env square v := evaluate?_eq_none_iff.mp (by decide +kernel)
  obtain ⟨-, -, result, parts⟩ := simplify_replaces_maximal e env
  refine ⟨value, overflow, ?_, ?_, ?_⟩
  · exact (parts [.left, .left] _ rfl (outside .left .left)).1 two value
  · exact (parts [.right, .left] _ rfl (outside .right .left)).2 overflow
  · rw [result]
    decide +kernel

end Expression

end SumProduct
