import SumProduct.Proofs.SimplifiedText

/-!
# Expressions with the same canonical text

The canonical text shows all of an expression but what rounding takes away from its numbers. That a
text is cut into tokens in one way, and that its tokens derive in one way, does not depend on how
deeply it is nested. So two expressions with the same text are the same up to their numbers, and
these have the same four decimals (`text_eq_text_iff`), also where the text runs too deep to be
read back.
-/

namespace SumProduct.Expression

open Token Text

variable {e e' : Expression}

/-- The tokens of the canonical text and what they derive from, at whatever nesting that takes. -/
theorem exists_derives_write (e : Expression) :
    ∃ tokens, scanFrom 0 (e.write []) = tokens.map .ok ∧
      Derives .sum e.nest tokens (e.mapNumbers Number.reread) := by
  obtain ⟨tokens, derived, scanned⟩ := (written e e.nest (Nat.le_refl _)).ofPhrase.toSum.tokens 0
  have items := scanned [] .nil
  rw [List.append_nil, scanFrom, List.append_nil] at items
  exact ⟨tokens, items, derived⟩

/-- The same text derives in one way, so it has one tree with its numbers rounded. -/
theorem mapNumbers_eq_of_write_eq (same : e.write [] = e'.write []) :
    e.mapNumbers Number.reread = e'.mapNumbers Number.reread := by
  obtain ⟨tokens, items, derived⟩ := exists_derives_write e
  obtain ⟨tokens', items', derived'⟩ := exists_derives_write e'
  have ok_injective : Function.Injective (Except.ok : Token → Item) := fun _ _ => Except.ok.inj
  have tokens_eq : tokens = tokens' := by
    refine List.map_injective_iff.mpr ok_injective ?_
    rw [← items, ← items', same]
  exact derived.tree_unique (tokens_eq ▸ derived')

/-- Numbers that read back to the same number have the same text. -/
theorem alike_of_mapNumbers_eq
    (same : e.mapNumbers Number.reread = e'.mapNumbers Number.reread) :
    Alike (·.text = ·.text) e e' := by
  induction e generalizing e' with
  | num v =>
    cases e' with
    | num w =>
      refine .num ?_
      simpa using congrArg Number.text (Expression.num.inj same)
    | var | sum | prod => cases same
  | var x =>
    cases e' with
    | var y =>
      obtain rfl := Expression.var.inj same
      exact .var x
    | num | sum | prod => cases same
  | sum l r ihl ihr =>
    cases e' with
    | sum l' r' =>
      obtain ⟨left, right⟩ := Expression.sum.inj same
      exact .sum (ihl left) (ihr right)
    | num | var | prod => cases same
  | prod l r ihl ihr =>
    cases e' with
    | prod l' r' =>
      obtain ⟨left, right⟩ := Expression.prod.inj same
      exact .prod (ihl left) (ihr right)
    | num | var | sum => cases same

theorem Alike.isProd_eq {related : Number → Number → Prop} (alike : Alike related e e') :
    e.isProd = e'.isProd := by
  cases alike <;> rfl

/-- By induction on the shape. The parentheses of a right operand depend on its shape only. -/
theorem Alike.write_eq (alike : Alike (·.text = ·.text) e e') (rest : List Char) :
    e.write rest = e'.write rest := by
  induction alike generalizing rest with
  | num same => rw [write, write, same]
  | var x => rfl
  | sum _ _ left right => rw [write, write, left, right]
  | prod _ right_alike left right =>
    rw [write, write, left, right_alike.isProd_eq, right, right]

/-- Two expressions have the same canonical text exactly if they are the same operations on the same
variables, and on numbers with the same four decimals at the same places. -/
theorem text_eq_text_iff (e e' : Expression) :
    e.text = e'.text ↔ Alike (·.text = ·.text) e e' := by
  constructor
  · intro same
    exact alike_of_mapNumbers_eq (mapNumbers_eq_of_write_eq (String.ofList_injective same))
  · intro alike
    rw [text, text, alike.write_eq]

end SumProduct.Expression
