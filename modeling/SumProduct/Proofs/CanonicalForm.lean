import SumProduct.Proofs.FourDecimals
import SumProduct.Proofs.RoundTrip

/-!
# Which canonical texts are accepted

The canonical text of an expression is read back as an expression with the same canonical text as
long as no more parentheses are open in it than the reader allows
(`canonical_text_accepted_iff`).

The parentheses of a text that was read say little about those of its canonical text. The reader
bounds the ones it meets, and a sum of variables without any is accepted at every length
(`parse_sumText`). The canonical text has a pair for each of its plus signs (`nest_sumOf`). So a
long enough sum is accepted and its canonical text is not (`canonical_text_rejected`).
-/

namespace SumProduct.Expression

/-! ## Texts that stay the same -/

theorem isProd_mapNumbers (f : Number → Number) (e : Expression) :
    (e.mapNumbers f).isProd = e.isProd := by
  cases e <;> rfl

theorem write_mapNumbers {f : Number → Number} (same : ∀ v, (f v).text = v.text) (e : Expression)
    (rest : List Char) : (e.mapNumbers f).write rest = e.write rest := by
  induction e generalizing rest with
  | num v => rw [mapNumbers, write, write, same]
  | var x => rfl
  | sum l r ihl ihr => rw [mapNumbers, write, write, ihl, ihr]
  | prod l r ihl ihr => rw [mapNumbers, write, write, ihl, ihr, ihr, isProd_mapNumbers]

/-- Reading the numbers of a canonical text back does not change the text. -/
@[simp]
theorem text_mapNumbers_reread (e : Expression) : (e.mapNumbers Number.reread).text = e.text := by
  rw [text, text, write_mapNumbers Number.text_reread]

theorem parse_text_ne_ok {e : Expression} (deep : nestingLimit < e.nest) (e' : Expression) :
    parse e.text ≠ .ok e' := by
  obtain ⟨before, -, failed⟩ := parse_text_of_lt_nest deep
  rw [failed]
  exact nofun

/-- The canonical text is accepted, and then stays the same, exactly if it has no more parentheses
open at once than the reader allows. Otherwise one of them is one too many. -/
theorem canonical_text_accepted_iff (e : Expression) :
    ((∃ e', parse e.text = .ok e' ∧ e'.text = e.text) ↔ e.nest ≤ nestingLimit) ∧
      (nestingLimit < e.nest → ∃ offset, parse e.text = .error (.tooDeep offset)) := by
  refine ⟨⟨fun ⟨e', accepted, _⟩ => ?_, fun fits => ?_⟩, fun deep => ?_⟩
  · exact Nat.not_lt.mp fun deep => parse_text_ne_ok deep e' accepted
  · exact ⟨_, parse_text_of_nest_le fits, e.text_mapNumbers_reread⟩
  · obtain ⟨before, -, failed⟩ := parse_text_of_lt_nest deep
    exact ⟨_, failed⟩

/-! ## Sums without parentheses -/

/-- The sum of variables as it is read: `x + y + z` is `(x + y) + z`. -/
def sumOf (first : Variable) (others : List Variable) : Expression :=
  others.foldl (fun tree x => .sum tree (.var x)) (.var first)

/-- The sum of variables without parentheses. -/
def sumText (first : Variable) (others : List Variable) : List Char :=
  others.foldl (fun part x => part ++ ' ' :: '+' :: ' ' :: x.name.toList) first.name.toList

theorem Written.sums {levels : Nat} {part : List Char} {tree : Expression}
    (written : Written .sum levels part tree) (others : List Variable) :
    Written .sum levels
      (others.foldl (fun part x => part ++ ' ' :: '+' :: ' ' :: x.name.toList) part)
      (others.foldl (fun tree x => .sum tree (.var x)) tree) := by
  induction others generalizing part tree with
  | nil => exact written
  | cons x others ih => exact ih (written.sum (.toProduct (.name x)))

/-- A sum of any length is accepted. -/
theorem parse_sumText (first : Variable) (others : List Variable) :
    parse (String.ofList (sumText first others)) = .ok (sumOf first others) :=
  ((Written.name first).toProduct.toSum.sums others).parse

@[simp] theorem nest_foldl_sum (tree : Expression) (others : List Variable) :
    (others.foldl (fun tree x => .sum tree (.var x)) tree).nest = tree.nest + others.length := by
  induction others generalizing tree with
  | nil => rfl
  | cons x others ih =>
    rw [List.foldl_cons, ih, nest, nest, List.length_cons]
    omega

/-- Each plus sign of a sum opens one more parenthesis in the canonical text. -/
@[simp] theorem nest_sumOf (first : Variable) (others : List Variable) :
    (sumOf first others).nest = others.length := by
  simp [sumOf, nest]

/-- 257 variables are the most whose canonical text is accepted. -/
theorem canonical_text_accepted_of_sum :
    let a : Variable := ⟨"a", by simp, by simp⟩
    let longest := sumOf a (List.replicate 256 a)
    let longer := sumOf a (List.replicate 257 a)
    (∃ e', parse longest.text = .ok e' ∧ e'.text = longest.text) ∧
      ∃ offset, parse longer.text = .error (.tooDeep offset) := by
  intro a longest longer
  have fits : longest.nest ≤ nestingLimit := by
    rw [nest_sumOf, List.length_replicate]
    decide
  have deep : nestingLimit < longer.nest := by
    rw [nest_sumOf, List.length_replicate]
    decide
  exact ⟨(canonical_text_accepted_iff longest).1.mpr fits,
    (canonical_text_accepted_iff longer).2 deep⟩

/-- A sum of 258 variables is accepted, and its canonical text is not. -/
theorem canonical_text_rejected :
    let a : Variable := ⟨"a", by simp, by simp⟩
    let s := String.ofList (sumText a (List.replicate 257 a))
    ∃ e, parse s = .ok e ∧ ¬∃ e', parse e.text = .ok e' ∧ e'.text = e.text := by
  intro a s
  have deep : nestingLimit < (sumOf a (List.replicate 257 a)).nest := by
    rw [nest_sumOf, List.length_replicate]
    decide
  refine ⟨_, parse_sumText a (List.replicate 257 a), ?_⟩
  rintro ⟨e', accepted, -⟩
  exact parse_text_ne_ok deep e' accepted

end SumProduct.Expression
