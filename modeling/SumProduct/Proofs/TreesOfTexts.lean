import SumProduct.Proofs.CanonicalForm
import SumProduct.Proofs.DerivativeText
import SumProduct.Proofs.Nearest

/-!
# The trees that texts have

A text needs parentheses where an operation is an operand of one that binds as tightly or tighter:
a sum on the right of a sum or in a product, and a product on the right of a product. `opens` counts
how many have to be open at once. The nesting limit bounds this count and nothing else: an
expression is the tree of some text exactly if it needs no more parentheses than the limit
(`exists_parse_iff`).

So the limit alone does not bound the height of a tree. Operands on the left need no parentheses,
and a chain of any length is accepted (`exists_parse_of_height`). The limit bounds the height of the
trees of all texts that have at most `k` operators between two parentheses, by a multiple of `k`
(`height_le_of_parse`).
-/

namespace SumProduct

/-! ## Numbers with all their decimals -/

namespace Number

/-- With enough places nothing is rounded. -/
theorem exists_nearest?_scaled (v : Number) :
    ∃ places, 0 < places ∧ Decimal.nearest? ⟨v.scaled places, -places⟩ = some v := by
  obtain ⟨places, positive, one⟩ : ∃ m, 0 < m ∧ unitsPerOne = 2 ^ m :=
    ⟨1074, by decide, unitsPerOne_eq⟩
  have split : v.units * 10 ^ places = v.units * 5 ^ places * unitsPerOne := by
    rw [one, Nat.mul_assoc, ← Nat.mul_pow]
  have scaled : v.scaled places = v.units * 5 ^ places :=
    Nat.le_antisymm (roundHalfEven_le unitsPerOne_pos split.le)
      (le_roundHalfEven unitsPerOne_pos split.ge)
  refine ⟨places, positive, ?_⟩
  rw [scaled]
  exact Decimal.nearest?_eq_some_iff.mpr (Decimal.toRat_units one ▸ .self v)

end Number

namespace Expression

open Token Text

/-! ## Parentheses that a tree needs -/

/-- How many parentheses have to be open at once in a text of the phrase with this tree. -/
def opens : Expression → Phrase → Nat
  | .num _, _ | .var _, _ => 0
  | .sum l r, .sum => max (l.opens .sum) (r.opens .product)
  | .sum l r, .product | .sum l r, .primitive => max (l.opens .sum) (r.opens .product) + 1
  | .prod l r, .sum | .prod l r, .product => max (l.opens .product) (r.opens .primitive)
  | .prod l r, .primitive => max (l.opens .product) (r.opens .primitive) + 1

section Opens

variable {e tree : Expression} {phrase : Phrase} {levels : Nat} {tokens : List Token}
  {links : List Link}

theorem opens_primitive_le (e : Expression) : e.opens .primitive ≤ e.opens .sum + 1 := by
  cases e with
  | num v | var x => exact Nat.zero_le 1
  | sum l r | prod l r => exact Nat.le_refl _

theorem opens_product_le (e : Expression) : e.opens .product ≤ e.opens .primitive := by
  cases e with
  | num v | var x | sum l r => exact Nat.le_refl _
  | prod l r => exact Nat.le_succ _

theorem opens_sum_le (e : Expression) : e.opens .sum ≤ e.opens .product := by
  cases e with
  | num v | var x | prod l r => exact Nat.le_refl _
  | sum l r => exact Nat.le_succ _

/-- A chain has what its first operand has, if each further one keeps it. -/
theorem Link.fold_induction {join : Expression → Expression → Expression} {P : Expression → Prop}
    (first : P tree) (step : ∀ tree, P tree → ∀ link ∈ links, P (join tree link.tree)) :
    P (Link.fold join tree links) :=
  List.foldlRecOn links _ first step

/-- By induction on the derivation: parentheses are needed where the grammar has them. -/
theorem Derives.opens_le (derived : Derives phrase levels tokens e) : e.opens phrase ≤ levels := by
  induction derived with
  | number | name => exact Nat.zero_le _
  | group _ _ _ ih => exact (opens_primitive_le _).trans (Nat.succ_le_succ ih)
  | product _ _ _ first others =>
    exact Link.fold_induction (P := (·.opens .product ≤ _)) ((opens_product_le _).trans first)
      fun tree le link mem => max_le le (others link mem)
  | sum _ _ _ first others =>
    exact Link.fold_induction (P := (·.opens .sum ≤ _)) ((opens_sum_le _).trans first)
      fun tree le link mem => max_le le (others link mem)

theorem Written.ofPrimitive {part : List Char} (written : Written .primitive levels part e)
    (phrase : Phrase) : Written phrase levels part e := by
  cases phrase with
  | primitive => exact written
  | product => exact written.toProduct
  | sum => exact written.toProduct.toSum

/-- What is a sum inside parentheses is a primitive with them. -/
theorem exists_group {n : Nat} (inside : ∀ levels, n ≤ levels → ∃ part, Written .sum levels part e)
    (lt : n < levels) : ∃ part, Written .primitive levels part e := by
  obtain ⟨fewer, rfl⟩ := Nat.exists_eq_add_of_lt lt
  obtain ⟨part, written⟩ := inside (n + fewer) (Nat.le_add_right n fewer)
  exact ⟨_, written.group⟩

/-- By induction on the tree: with the parentheses that it needs there is a text. -/
theorem exists_written (e : Expression) (phrase : Phrase) (levels : Nat)
    (le : e.opens phrase ≤ levels) : ∃ part, Written phrase levels part e := by
  induction e generalizing phrase levels with
  | num v =>
    obtain ⟨places, positive, nearest⟩ := v.exists_nearest?_scaled
    exact ⟨_, (Written.fixed positive nearest).ofPrimitive phrase⟩
  | var x => exact ⟨_, (Written.name x).ofPrimitive phrase⟩
  | sum l r ihl ihr =>
    have chain (levels : Nat) (le : max (l.opens .sum) (r.opens .product) ≤ levels) :
        ∃ part, Written .sum levels part (.sum l r) := by
      obtain ⟨left, written⟩ := ihl .sum levels (le_of_max_le_left le)
      obtain ⟨right, next⟩ := ihr .product levels (le_of_max_le_right le)
      exact ⟨_, written.sum next⟩
    cases phrase with
    | sum => exact chain levels le
    | product | primitive =>
      obtain ⟨part, written⟩ := exists_group chain le
      exact ⟨part, written.ofPrimitive _⟩
  | prod l r ihl ihr =>
    have chain (levels : Nat) (le : max (l.opens .product) (r.opens .primitive) ≤ levels) :
        ∃ part, Written .product levels part (.prod l r) := by
      obtain ⟨left, written⟩ := ihl .product levels (le_of_max_le_left le)
      obtain ⟨right, next⟩ := ihr .primitive levels (le_of_max_le_right le)
      exact ⟨_, written.product next⟩
    cases phrase with
    | product => exact chain levels le
    | sum => exact (chain levels le).imp fun _ written => written.toSum
    | primitive =>
      exact exists_group (fun levels le => (chain levels le).imp fun _ written => written.toSum) le

/-- An expression is the tree of some text exactly if the text needs no more parentheses than the
reader allows. -/
theorem exists_parse_iff : (∃ text, parse text = .ok e) ↔ e.opens .sum ≤ nestingLimit := by
  constructor
  · rintro ⟨text, parsed⟩
    obtain ⟨tokens, -, derived⟩ := ofItems_eq_ok_iff.mp parsed
    exact derived.opens_le
  · intro le
    obtain ⟨part, written⟩ := exists_written e .sum nestingLimit le
    exact ⟨_, written.parse⟩

end Opens

/-! ## Operators in a group -/

/-- The operators met in the groups that are open, the innermost first, behind one more token. -/
def countOperators (counts : List Nat) : TokenKind → List Nat
  | .leftParen => 0 :: counts
  | .rightParen => counts.tail
  | .plus | .star => (counts.headD 0 + 1) :: counts.tail
  | .ident | .number _ => counts

/-- The most operators in one group, where `counts` have been met in those that are open. What
stands in further parentheses does not count for a group. -/
def mostOperators : (counts : List Nat) → List Item → Nat
  | _, [] => 0
  | counts, .error _ :: rest => mostOperators counts rest
  | counts, .ok token :: rest =>
    max ((countOperators counts token.kind).headD 0)
      (mostOperators (countOperators counts token.kind) rest)

section Heights

variable {e tree : Expression} {phrase : Phrase} {levels k n m : Nat} {tokens : List Token}
  {links : List Link} {counts outer : List Nat} {rest : List Item}

theorem mostOperators_cons_le_iff {token : Token} :
    mostOperators counts (.ok token :: rest) ≤ k ↔
      (countOperators counts token.kind).headD 0 ≤ k ∧
        mostOperators (countOperators counts token.kind) rest ≤ k :=
  max_le_iff

/-- Some operators were met in the innermost group, and `k` or fewer are met in each from here on.
The tree is no higher than the operators that were met, and what its groups add to that. -/
def Rises (k groups n : Nat) (outer : List Nat) (rest : List Item) (tree : Expression) : Prop :=
  ∃ m, n + m ≤ k ∧ mostOperators ((n + m) :: outer) rest ≤ k ∧ tree.height ≤ m + groups

/-- By induction on the links: each adds one level, and at least one operator. -/
theorem Link.rises_fold {join : Expression → Expression → Expression} {operator : TokenKind}
    {groups : Nat} (grows : ∀ l r, (join l r).height = 1 + max l.height r.height)
    (symbol : operator = .plus ∨ operator = .star)
    (operators : ∀ link ∈ links, link.operator.kind = operator)
    (others : ∀ link ∈ links, ∀ {n outer rest}, n ≤ k →
      mostOperators (n :: outer) (link.tokens.map .ok ++ rest) ≤ k →
      Rises k groups n outer rest link.tree)
    (first : Rises k groups n outer ((Link.spell links).map .ok ++ rest) tree) :
    Rises k groups n outer rest (Link.fold join tree links) := by
  induction links generalizing tree with
  | nil => exact first
  | cons link links ih =>
    obtain ⟨kind, operators⟩ := List.forall_mem_cons.mp operators
    obtain ⟨next, others⟩ := List.forall_mem_cons.mp others
    obtain ⟨m, -, narrow, low⟩ := first
    have counted : countOperators ((n + m) :: outer) link.operator.kind = (n + m + 1) :: outer := by
      rcases symbol with rfl | rfl <;> rw [kind] <;> rfl
    rw [Link.map_spell_cons, mostOperators_cons_le_iff, counted] at narrow
    obtain ⟨m', le, narrow, low'⟩ := next narrow.1 narrow.2
    have start : Rises k groups n outer ((Link.spell links).map .ok ++ rest)
        (join tree link.tree) := by
      have sum : n + (m + 1 + m') = n + m + 1 + m' := by omega
      refine ⟨m + 1 + m', sum ▸ le, sum ▸ narrow, ?_⟩
      rw [grows]
      omega
    exact ih operators others start

/-- By induction on the derivation: a group inside counts its own operators, of which there are `k`
at most, and one level of parentheses. -/
theorem Derives.rises (derived : Derives phrase levels tokens e) (start : n ≤ k)
    (narrow : mostOperators (n :: outer) (tokens.map .ok ++ rest) ≤ k) :
    Rises k (levels * k) n outer rest e := by
  induction derived generalizing n outer rest with
  | number kind | name kind _ =>
    obtain ⟨-, behind⟩ := mostOperators_cons_le_iff.mp narrow
    rw [kind] at behind
    exact ⟨0, start, behind, Nat.zero_le _⟩
  | @group levels opening closing tokens tree opens _ closes ih =>
    rw [map_group, mostOperators_cons_le_iff, opens] at narrow
    obtain ⟨m, le, behind, low⟩ := ih (Nat.zero_le k) narrow.2
    rw [mostOperators_cons_le_iff, closes] at behind
    refine ⟨0, start, behind.2, ?_⟩
    rw [Nat.succ_mul]
    omega
  | product _ stars _ first others =>
    rw [List.map_append, List.append_assoc] at narrow
    exact Link.rises_fold (fun _ _ => rfl) (.inr rfl) stars others (first start narrow)
  | sum _ pluses _ first others =>
    rw [List.map_append, List.append_assoc] at narrow
    exact Link.rises_fold (fun _ _ => rfl) (.inl rfl) pluses others (first start narrow)

end Heights

section Chains

variable (first : Variable) (others : List Variable)

@[simp] theorem height_foldl_sum (tree : Expression) :
    (others.foldl (fun tree x => .sum tree (.var x)) tree).height =
      tree.height + others.length := by
  induction others generalizing tree with
  | nil => rfl
  | cons x others ih =>
    rw [List.foldl_cons, ih, height, height, Nat.max_zero, List.length_cons]
    omega

@[simp] theorem height_sumOf : (sumOf first others).height = others.length := by
  simp [sumOf, height]

theorem plain_sumText : Plain (sumText first others) := by
  refine List.foldlRecOn others _ (plain_name first) fun part plain x _ => ?_
  have plus : Plain [' ', '+', ' '] := by simp [Plain]
  exact plain.append (plus.append (plain_name x))

end Chains

/-- There are trees of every height among those of texts without parentheses. -/
theorem exists_parse_of_height (n : Nat) :
    ∃ text e, parse text = .ok e ∧ Plain text.toList ∧ e.height = n := by
  let a : Variable := ⟨"a", by simp, by simp⟩
  refine ⟨_, _, parse_sumText a (List.replicate n a), ?_, ?_⟩
  · rw [String.toList_ofList]
    exact plain_sumText a _
  · simp

/-- The tree of a text needs no more parentheses than the nesting limit. If at most `k` operators
stand in each group, the limit bounds its height too. -/
theorem height_le_of_parse {k : Nat} {text : String} {e : Expression}
    (narrow : mostOperators [0] (Token.scan text) ≤ k) (parsed : parse text = .ok e) :
    e.opens .sum ≤ nestingLimit ∧ e.height ≤ (nestingLimit + 1) * k := by
  refine ⟨exists_parse_iff.mp ⟨text, parsed⟩, ?_⟩
  obtain ⟨tokens, items, derived⟩ := ofItems_eq_ok_iff.mp parsed
  rw [items, ← List.append_nil (tokens.map _)] at narrow
  obtain ⟨m, le, -, low⟩ := derived.rises (Nat.zero_le k) narrow
  rw [Nat.zero_add] at le
  rw [Nat.succ_mul]
  omega

/-- One operator in each group, and a tree that is higher than that. -/
theorem height_le_of_parse_groups :
    let a : Variable := ⟨"a", by simp, by simp⟩
    let pair : Expression := .sum (.var a) (.var a)
    let e : Expression := .prod (.sum pair (.var a)) pair
    mostOperators [0] (Token.scan "((a + a) + a)*(a + a)") = 1 ∧
      parse "((a + a) + a)*(a + a)" = .ok e ∧ e.opens .sum ≤ 256 ∧ e.height ≤ 257 := by
  intro a pair e
  have narrow : mostOperators [0] (Token.scan "((a + a) + a)*(a + a)") = 1 := by decide +kernel
  have parsed : parse "((a + a) + a)*(a + a)" = .ok e := by decide +kernel
  exact ⟨narrow, parsed, height_le_of_parse narrow.le parsed⟩

/-- No height bounds the trees of all texts. -/
theorem height_of_texts_unbounded :
    ¬∃ bound, ∀ text e, parse text = .ok e → e.height ≤ bound := by
  rintro ⟨bound, low⟩
  obtain ⟨text, e, parsed, -, height⟩ := exists_parse_of_height (bound + 1)
  have le := low text e parsed
  rw [height] at le
  exact absurd le (Nat.not_succ_le_self bound)

end Expression

end SumProduct
