import Mathlib.Data.List.Forall2
import SumProduct.Proofs.Reading

/-!
# The grammar

```text
sum       := product ('+' product)*
product   := primitive ('*' primitive)*
primitive := number | variable | '(' sum ')'
```

`Derives phrase levels tokens tree` says that the tokens derive from a phrase of the grammar with
parentheses nested at most `levels` deep, and that `tree` is the tree of the derivation.

Results:
1. `Derives.replace`: the grammar only looks at the kind of a token and at the literal of a name.
2. `Derives.reads`: the reader of a phrase reads all tokens that derive from it.
3. `sum_sound`: what the reader of sums takes derives from a sum.
4. `ofItems_eq_ok_iff`: items make up an expression exactly if they are tokens that derive from a
   sum with this tree.
5. `Derives.tree_unique`: the tree of a derivation is determined by its tokens.
-/

namespace SumProduct.Expression

/-! ## Derivations -/

inductive Phrase where
  | sum
  | product
  | primitive

/-- One further operand of a chain: the operator in front of it, its tokens and its tree. -/
structure Link where
  operator : Token
  tokens : List Token
  tree : Expression

namespace Link

/-- The tokens of some links. -/
def spell (links : List Link) : List Token :=
  links.flatMap fun link => link.operator :: link.tokens

/-- The links joined to a first operand, from the left. -/
def fold (join : Expression → Expression → Expression) (first : Expression) (links : List Link) :
    Expression :=
  links.foldl (fun tree link => join tree link.tree) first

end Link

inductive Derives : Phrase → Nat → List Token → Expression → Prop
  | number {levels : Nat} {token : Token} {v : Number} :
      token.kind = .number v → Derives .primitive levels [token] (.num v)
  | name {levels : Nat} {token : Token} {x : Variable} :
      token.kind = .ident → x.name = token.literal → Derives .primitive levels [token] (.var x)
  | group {levels : Nat} {opening closing : Token} {tokens : List Token} {tree : Expression} :
      opening.kind = .leftParen → Derives .sum levels tokens tree → closing.kind = .rightParen →
      Derives .primitive (levels + 1) (opening :: tokens ++ [closing]) tree
  | product {levels : Nat} {tokens : List Token} {tree : Expression} {links : List Link} :
      Derives .primitive levels tokens tree → (∀ link ∈ links, link.operator.kind = .star) →
      (∀ link ∈ links, Derives .primitive levels link.tokens link.tree) →
      Derives .product levels (tokens ++ Link.spell links) (Link.fold .prod tree links)
  | sum {levels : Nat} {tokens : List Token} {tree : Expression} {links : List Link} :
      Derives .product levels tokens tree → (∀ link ∈ links, link.operator.kind = .plus) →
      (∀ link ∈ links, Derives .product levels link.tokens link.tree) →
      Derives .sum levels (tokens ++ Link.spell links) (Link.fold .sum tree links)

/-- More nesting may be allowed than a derivation needs. -/
theorem Derives.mono {phrase : Phrase} {levels more : Nat} {tokens : List Token} {tree : Expression}
    (derived : Derives phrase levels tokens tree) (le : levels ≤ more) :
    Derives phrase more tokens tree := by
  induction derived generalizing more with
  | number kind => exact .number kind
  | name kind literal => exact .name kind literal
  | group opening _ closing ih =>
    obtain ⟨more, rfl⟩ := Nat.exists_eq_add_of_le' (Nat.le_of_add_left_le le)
    exact .group opening (ih (Nat.le_of_succ_le_succ le)) closing
  | product _ stars _ first others =>
    exact .product (first le) stars fun link mem => others link mem le
  | sum _ pluses _ first others =>
    exact .sum (first le) pluses fun link mem => others link mem le

/-- A primitive is a product of one operand. -/
theorem Derives.toProduct {levels : Nat} {tokens : List Token} {tree : Expression}
    (derived : Derives .primitive levels tokens tree) : Derives .product levels tokens tree := by
  have chain := @Derives.product levels tokens tree [] derived (by simp) (by simp)
  rwa [Link.spell, List.flatMap_nil, List.append_nil] at chain

/-- A product is a sum of one operand. -/
theorem Derives.toSum {levels : Nat} {tokens : List Token} {tree : Expression}
    (derived : Derives .product levels tokens tree) : Derives .sum levels tokens tree := by
  have chain := @Derives.sum levels tokens tree [] derived (by simp) (by simp)
  rwa [Link.spell, List.flatMap_nil, List.append_nil] at chain

/-- A product goes on with a further operand. -/
theorem Derives.snocProduct {levels : Nat} {tokens right : List Token} {l r : Expression}
    {star : Token} (derived : Derives .product levels tokens l) (kind : star.kind = .star)
    (next : Derives .primitive levels right r) :
    Derives .product levels (tokens ++ star :: right) (.prod l r) := by
  cases derived with
  | @product _ first tree links derived stars others =>
    have chain := @Derives.product levels first tree (links ++ [⟨star, right, r⟩]) derived
      (by simpa [or_imp, forall_and] using ⟨stars, kind⟩)
      (by simpa [or_imp, forall_and] using ⟨others, next⟩)
    simpa [Link.spell, Link.fold] using chain

/-- A sum goes on with a further operand. -/
theorem Derives.snocSum {levels : Nat} {tokens right : List Token} {l r : Expression}
    {plus : Token} (derived : Derives .sum levels tokens l) (kind : plus.kind = .plus)
    (next : Derives .product levels right r) :
    Derives .sum levels (tokens ++ plus :: right) (.sum l r) := by
  cases derived with
  | @sum _ first tree links derived pluses others =>
    have chain := @Derives.sum levels first tree (links ++ [⟨plus, right, r⟩]) derived
      (by simpa [or_imp, forall_and] using ⟨pluses, kind⟩)
      (by simpa [or_imp, forall_and] using ⟨others, next⟩)
    simpa [Link.spell, Link.fold] using chain

/-! ## Other tokens in the same places -/

/-- The first token may take the place of the second, where a tree becomes what `f` makes of it: an
operand that of an operand, and a symbol that of the same symbol. -/
structure Replaces (f : Expression → Expression) (token' token : Token) : Prop where
  number : ∀ v, token.kind = .number v → ∀ levels,
    Derives .primitive levels [token'] (f (.num v))
  name : ∀ x : Variable, token.kind = .ident → x.name = token.literal → ∀ levels,
    Derives .primitive levels [token'] (f (.var x))
  symbol : token.kind ∈ [.leftParen, .rightParen, .plus, .star] → token'.kind = token.kind

section Replacing

variable {f : Expression → Expression}

theorem forall₂_append {α β : Type} {R : α → β → Prop} {whole : List α} {front back : List β}
    (related : List.Forall₂ R whole (front ++ back)) :
    ∃ front' back', whole = front' ++ back' ∧ List.Forall₂ R front' front ∧
      List.Forall₂ R back' back :=
  ⟨whole.take front.length, whole.drop front.length, (List.take_append_drop _ _).symm,
    List.forall₂_take_append _ _ _ related, List.forall₂_drop_append _ _ _ related⟩

theorem Link.exists_replaced {phrase : Phrase} {levels : Nat} {operator : TokenKind}
    {join : Expression → Expression → Expression} {links : List Link} {tokens' : List Token}
    (joins : ∀ l r, f (join l r) = join (f l) (f r)) (symbol : operator = .plus ∨ operator = .star)
    (operators : ∀ link ∈ links, link.operator.kind = operator)
    (others : ∀ link ∈ links, ∀ {tokens'}, List.Forall₂ (Replaces f) tokens' link.tokens →
      Derives phrase levels tokens' (f link.tree))
    (replaced : List.Forall₂ (Replaces f) tokens' (Link.spell links)) :
    ∃ links', tokens' = Link.spell links' ∧
      (∀ link ∈ links', link.operator.kind = operator) ∧
      (∀ link ∈ links', Derives phrase levels link.tokens link.tree) ∧
      ∀ tree, Link.fold join (f tree) links' = f (Link.fold join tree links) := by
  induction links generalizing tokens' with
  | nil =>
    cases replaced
    exact ⟨[], rfl, by simp, by simp, fun tree => rfl⟩
  | cons link links ih =>
    rw [List.forall_mem_cons] at operators
    obtain ⟨own, rest, rfl, first, behind⟩ := forall₂_append replaced
    cases first with
    | @cons token _ tokens _ first operand =>
      obtain ⟨links', rfl, operators', others', folded⟩ := ih operators.2
        (fun link mem => others link (List.mem_cons_of_mem _ mem)) behind
      have kind : token.kind = operator := by
        rw [first.symbol (by rcases symbol with rfl | rfl <;> simp [operators.1]), operators.1]
      refine ⟨⟨token, tokens, f link.tree⟩ :: links', rfl,
        List.forall_mem_cons.mpr ⟨kind, operators'⟩,
        List.forall_mem_cons.mpr ⟨others link List.mem_cons_self operand, others'⟩, fun tree => ?_⟩
      have start : Link.fold join (join (f tree) (f link.tree)) links' =
          f (Link.fold join (join tree link.tree) links) := by rw [← joins, folded]
      exact start

/-- By induction on the derivation: the same phrases derive the tokens in the same places. -/
theorem Derives.replace {phrase : Phrase} {levels : Nat} {tokens tokens' : List Token}
    {tree : Expression} (sums : ∀ l r, f (.sum l r) = .sum (f l) (f r))
    (prods : ∀ l r, f (.prod l r) = .prod (f l) (f r))
    (derived : Derives phrase levels tokens tree)
    (replaced : List.Forall₂ (Replaces f) tokens' tokens) :
    Derives phrase levels tokens' (f tree) := by
  induction derived generalizing tokens' with
  | number kind =>
    obtain ⟨token', rest, first, none, rfl⟩ := List.forall₂_cons_right_iff.mp replaced
    cases none
    exact first.number _ kind _
  | name kind literal =>
    obtain ⟨token', rest, first, none, rfl⟩ := List.forall₂_cons_right_iff.mp replaced
    cases none
    exact first.name _ kind literal _
  | group opening _ closing ih =>
    obtain ⟨opening', rest, first, behind, rfl⟩ := List.forall₂_cons_right_iff.mp replaced
    obtain ⟨inner, last, rfl, summed, closed⟩ := forall₂_append behind
    obtain ⟨closing', rest, last, none, rfl⟩ := List.forall₂_cons_right_iff.mp closed
    cases none
    refine .group ?_ (ih summed) ?_
    · rw [first.symbol (by simp [opening]), opening]
    · rw [last.symbol (by simp [closing]), closing]
  | product _ stars _ first others =>
    obtain ⟨front, rest, rfl, operand, chained⟩ := forall₂_append replaced
    obtain ⟨links', rfl, stars', others', folded⟩ :=
      Link.exists_replaced prods (.inr rfl) stars others chained
    rw [← folded]
    exact .product (first operand) stars' others'
  | sum _ pluses _ first others =>
    obtain ⟨front, rest, rfl, operand, chained⟩ := forall₂_append replaced
    obtain ⟨links', rfl, pluses', others', folded⟩ :=
      Link.exists_replaced sums (.inl rfl) pluses others chained
    rw [← folded]
    exact .sum (first operand) pluses' others'

end Replacing

/-! ## What derives is read -/

/-- The items of some links in front of a rest, one link after the other. -/
theorem Link.map_spell_cons (link : Link) (links : List Link) (rest : List Item) :
    (Link.spell (link :: links)).map .ok ++ rest =
      .ok link.operator :: (link.tokens.map .ok ++ ((Link.spell links).map .ok ++ rest)) := by
  simp [Link.spell]

/-- The items of tokens in parentheses in front of a rest. -/
theorem map_group (opening closing : Token) (tokens : List Token) (rest : List Item) :
    (opening :: tokens ++ [closing]).map .ok ++ rest =
      .ok opening :: (tokens.map .ok ++ .ok closing :: rest) := by
  simp

namespace Reader

/-- The loop of a chain goes through links that its operand reads one by one. `Ends` says where an
operand may end; it has to hold in front of the operator and at the end of the chain. -/
theorem loop_links (Ends : List Item → Prop) {operator : TokenKind}
    {join : Expression → Expression → Expression} {part : Reader} {links : List Link}
    {rest : List Item} {tree : Expression}
    (ends_operator : ∀ token rest, token.kind = operator → Ends (.ok token :: rest))
    (ends : Ends rest) (operators : ∀ link ∈ links, link.operator.kind = operator)
    (reads : ∀ link ∈ links, ∀ rest, Ends rest →
      run part (link.tokens.map .ok ++ rest) = .ok (link.tree, rest)) :
    loop operator join part tree ((Link.spell links).map .ok ++ rest) =
      loop operator join part (Link.fold join tree links) rest := by
  induction links generalizing tree with
  | nil => rfl
  | cons link links ih =>
    rw [List.forall_mem_cons] at operators reads
    have behind : Ends ((Link.spell links).map .ok ++ rest) := by
      cases links with
      | nil => exact ends
      | cons next _ => exact ends_operator _ _ (operators.2 next List.mem_cons_self)
    rw [Link.map_spell_cons, loop_operator operators.1, reads.1 _ behind]
    exact ih operators.2 reads.2

/-- What the reader of a phrase does on tokens that derive from it. A product ends where no `*`
follows, and a sum where neither operator does. -/
def Reads (bytes levels : Nat) : Phrase → List Token → Expression → Prop
  | .primitive, tokens, tree => ∀ rest,
      run (operand bytes levels) (tokens.map .ok ++ rest) = .ok (tree, rest)
  | .product, tokens, tree => ∀ rest,
      run (product bytes levels) (tokens.map .ok ++ rest) =
        loop .star .prod (operand bytes levels) tree rest
  | .sum, tokens, tree => ∀ rest, Stops .star rest →
      run (sum bytes levels) (tokens.map .ok ++ rest) =
        loop .plus .sum (product bytes levels) tree rest

end Reader

open Reader

theorem Derives.reads (bytes : Nat) {phrase : Phrase} {levels : Nat} {tokens : List Token}
    {tree : Expression} (derived : Derives phrase levels tokens tree) :
    Reads bytes levels phrase tokens tree := by
  induction derived with
  | number kind => exact fun rest => run_operand_number kind
  | @name levels token x kind literal =>
    intro rest
    have named : Variable.ofName token.literal = .ok x := by
      rw [← literal]
      exact Variable.ofName_name x
    simp only [List.map_cons, List.map_nil, List.cons_append, List.nil_append]
    rw [run_operand_ident kind, named]
  | @group levels opening closing tokens tree opens _ closes ih =>
    intro rest
    -- The closing parenthesis ends both chains of the sum between the parentheses.
    have noStar : Stops .star (.ok closing :: rest) := .cons (by simp [closes])
    have noPlus : Stops .plus (.ok closing :: rest) := .cons (by simp [closes])
    rw [map_group, run_operand_group opens, ih _ noStar, loop_stops noPlus]
    simp [bind, Except.bind, close, closes]
  | @product levels tokens tree links _ stars _ first others =>
    intro rest
    rw [Reader.product, run_chain, List.map_append, List.append_assoc, first]
    exact loop_links (fun _ => True) (fun _ _ _ => trivial) trivial stars
      fun link mem rest _ => others link mem rest
  | @sum levels tokens tree links _ pluses _ first others =>
    intro rest ends
    have ends_plus (token : Token) (rest : List Item) (plus : token.kind = .plus) :
        Stops .star (.ok token :: rest) := .cons (by simp [plus])
    have ends_first : Stops .star ((Link.spell links).map .ok ++ rest) := by
      cases links with
      | nil => exact ends
      | cons link _ => exact ends_plus _ _ (pluses link List.mem_cons_self)
    rw [Reader.sum, run_chain, List.map_append, List.append_assoc, first, loop_stops ends_first]
    exact loop_links (Stops .star) ends_plus ends pluses fun link mem rest ends => by
      rw [others link mem rest, loop_stops ends]

/-! ## What is read derives -/

namespace Reader

/-- Whatever the reader takes from the items in front of its rest are tokens with the property. -/
def Sound (reader : Reader) (Spells : List Token → Expression → Prop) : Prop :=
  ∀ items tree rest, run reader items = .ok (tree, rest) →
    ∃ tokens, items = tokens.map .ok ++ rest ∧ Spells tokens tree

variable {operator : TokenKind} {join : Expression → Expression → Expression} {part : Reader}
  {Spells : List Token → Expression → Prop}

theorem loop_sound (sound : Sound part Spells) {tree result : Expression}
    {items rest : List Item} (looped : loop operator join part tree items = .ok (result, rest)) :
    ∃ links, (∀ link ∈ links, link.operator.kind = operator) ∧
      (∀ link ∈ links, Spells link.tokens link.tree) ∧
      items = (Link.spell links).map .ok ++ rest ∧ result = Link.fold join tree links := by
  fun_induction loop operator join part tree items with
  | case1 tree =>
    cases looped
    exact ⟨[], by simp [Link.spell, Link.fold]⟩
  | case2 => cases looped
  | case3 => cases looped
  | case4 tree token behind same right parsed ih =>
    obtain ⟨links, operators, spelled, split, folded⟩ := ih looped
    obtain ⟨tokens, items, spells⟩ := sound _ _ _ (run_of_eq_ok parsed)
    refine ⟨⟨token, tokens, right.tree⟩ :: links, ?_, ?_, ?_, folded⟩
    · exact List.forall_mem_cons.mpr ⟨same, operators⟩
    · exact List.forall_mem_cons.mpr ⟨spells, spelled⟩
    · simp [items, split, Link.spell]
  | case5 tree token behind other =>
    cases looped
    exact ⟨[], by simp [Link.spell, Link.fold]⟩

theorem chain_sound (sound : Sound part Spells) {tree : Expression} {items rest : List Item}
    (read : run (chain operator join part) items = .ok (tree, rest)) :
    ∃ tokens first links, Spells tokens first ∧ (∀ link ∈ links, link.operator.kind = operator) ∧
      (∀ link ∈ links, Spells link.tokens link.tree) ∧
      items = (tokens ++ Link.spell links).map .ok ++ rest ∧ tree = Link.fold join first links := by
  rw [run_chain, bind_eq_ok] at read
  obtain ⟨⟨first, behind⟩, first_read, looped⟩ := read
  obtain ⟨tokens, items, spells⟩ := sound _ _ _ first_read
  obtain ⟨links, operators, spelled, split, folded⟩ := loop_sound sound looped
  exact ⟨tokens, first, links, spells, operators, spelled, by
    simp [items, show behind = _ from split], folded⟩

theorem product_sound {bytes levels : Nat}
    (sound : Sound (operand bytes levels) (Derives .primitive levels)) :
    Sound (product bytes levels) (Derives .product levels) := by
  intro items tree rest read
  obtain ⟨tokens, first, links, spells, stars, spelled, split, rfl⟩ := chain_sound sound read
  exact ⟨_, split, .product spells stars spelled⟩

theorem sum_sound_of_operand {bytes levels : Nat}
    (sound : Sound (operand bytes levels) (Derives .primitive levels)) :
    Sound (sum bytes levels) (Derives .sum levels) := by
  intro items tree rest read
  obtain ⟨tokens, first, links, spells, pluses, spelled, split, rfl⟩ :=
    chain_sound (product_sound sound) read
  exact ⟨_, split, .sum spells pluses spelled⟩

/-- By induction on the levels: what is read in parentheses has one level less. -/
theorem operand_sound (bytes levels : Nat) :
    Sound (operand bytes levels) (Derives .primitive levels) := by
  induction levels using Nat.strongRecOn with
  | ind levels ih =>
    intro items tree rest read
    rcases operand_eq_ok read with ⟨token, v, rfl, kind, rfl⟩ | ⟨token, x, rfl, kind, named, rfl⟩ |
      ⟨opening, closing, fewer, inner, rfl, rfl, opens, closes, summed⟩
    · exact ⟨[token], rfl, .number kind⟩
    · exact ⟨[token], rfl, .name kind (Variable.name_of_ofName named)⟩
    · obtain ⟨tokens, rfl, derived⟩ :=
        sum_sound_of_operand (ih fewer (Nat.lt_succ_self fewer)) _ _ _ summed
      exact ⟨opening :: tokens ++ [closing], by simp, .group opens derived closes⟩

theorem sum_sound (bytes levels : Nat) : Sound (sum bytes levels) (Derives .sum levels) :=
  sum_sound_of_operand (operand_sound bytes levels)

end Reader

/-! ## Parsing -/

/-- Some items are an expression if they are tokens that derive from a sum. -/
theorem ofItems_eq_ok_iff {bytes : Nat} {items : List Item} {e : Expression} :
    ofItems bytes items = .ok e ↔
      ∃ tokens, items = tokens.map .ok ∧ Derives .sum nestingLimit tokens e := by
  rw [ofItems_eq, bind_eq_ok]
  constructor
  · rintro ⟨⟨tree, rest⟩, read, finished⟩
    obtain ⟨rfl, rfl⟩ := finish_eq_ok.mp finished
    obtain ⟨tokens, items, derived⟩ := sum_sound bytes nestingLimit _ _ _ read
    exact ⟨tokens, by rw [items, List.append_nil], derived⟩
  · rintro ⟨tokens, rfl, derived⟩
    have read := derived.reads bytes [] .nil
    rw [List.append_nil, loop_stops .nil] at read
    exact ⟨_, read, rfl⟩

/-- The tokens of a derivation determine its tree, at whatever nesting it is allowed. -/
theorem Derives.tree_unique {phrase : Phrase} {levels levels' : Nat} {tokens : List Token}
    {tree tree' : Expression} (derived : Derives phrase levels tokens tree)
    (derived' : Derives phrase levels' tokens tree') : tree = tree' := by
  have read := (derived.mono (Nat.le_max_left levels levels')).reads 0
  have read' := (derived'.mono (Nat.le_max_right levels levels')).reads 0
  cases phrase with
  | primitive =>
    have same := (read []).symm.trans (read' [])
    cases same
    rfl
  | product =>
    have same := (read []).symm.trans (read' [])
    rw [loop_stops .nil, loop_stops .nil] at same
    cases same
    rfl
  | sum =>
    have same := (read [] .nil).symm.trans (read' [] .nil)
    rw [loop_stops .nil, loop_stops .nil] at same
    cases same
    rfl

/-- The text is cut into tokens without an error, and these derive from a sum with the tree `e`. -/
def Spells (text : String) (e : Expression) : Prop :=
  ∃ tokens, Token.scan text = tokens.map .ok ∧ Derives .sum nestingLimit tokens e

/-- Reading a text gives an expression exactly if the text spells it, and no text spells two: the
grammar is unambiguous. -/
theorem parse_eq_ok_iff_spells (text : String) :
    (∀ e, parse text = .ok e ↔ Spells text e) ∧
    (∀ e e', Spells text e → Spells text e' → e = e') ∧
    (∀ tokens e e', Derives .sum nestingLimit tokens e → Derives .sum nestingLimit tokens e' →
      e = e') := by
  refine ⟨fun e => ofItems_eq_ok_iff, ?_, fun tokens e e' derived => derived.tree_unique⟩
  rintro e e' ⟨tokens, items, derived⟩ ⟨tokens', items', derived'⟩
  have same : (tokens.map .ok : List Item) = tokens'.map .ok := items.symm.trans items'
  rw [List.map_inj_right fun _ _ => Except.ok.inj] at same
  subst same
  exact derived.tree_unique derived'

/-- A group under a product: one tree, with the product at its root. -/
theorem spells_product_of_group :
    let a : Variable := ⟨"a", by simp, by simp⟩
    let b : Variable := ⟨"b", by simp, by simp⟩
    Spells "a*(b + a)" (.prod (.var a) (.sum (.var b) (.var a))) ∧
      ∀ e, Spells "a*(b + a)" e → e = .prod (.var a) (.sum (.var b) (.var a)) := by
  intro a b
  have spelled : Spells "a*(b + a)" (.prod (.var a) (.sum (.var b) (.var a))) :=
    ((parse_eq_ok_iff_spells "a*(b + a)").1 _).mp (by decide +kernel)
  exact ⟨spelled, fun e other => (parse_eq_ok_iff_spells "a*(b + a)").2.1 _ _ other spelled⟩

end SumProduct.Expression
