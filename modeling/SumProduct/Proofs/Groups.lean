import SumProduct.Proofs.RoundTrip
import SumProduct.Proofs.Separation

/-!
# Texts in parentheses

A text that is an expression can be put into parentheses and then stands as an operand in other
texts. Its lexemes stay the same, since a parenthesis ends each of them (`scanFrom_append_ends`).
They are read with one level less than in the text alone, and a derivation needs no more levels
than its parentheses are nested deep (`Derives.of_shallow`).

So the parentheses say how a text is grouped, and where there are none, stars bind more tightly than
plus signs and both group to the left (`parse_groups`).
-/

namespace SumProduct

open Token Text

namespace Token

/-! ## In front of the end of an operand -/

section Following

variable {p : Char → Bool} {run whole fraction literal lexeme after rest : List Char}
  {offset : Nat} {item : Item}

theorem MaximalRun.extended (maximal : MaximalRun p run after) (ends : Ends rest)
    (space : [' ', '\t', '\r', '\n'].all (!p ·) = true)
    (symbol : symbols.all (!p ·.1) = true) : MaximalRun p run (after ++ rest) := by
  cases after with
  | nil => exact maximal.ended ends space symbol
  | cons c after => exact ⟨maximal.nonempty, maximal.inside, maximal.ends⟩

theorem Numeral.extended (numeral : Numeral whole fraction literal after) (ends : Ends rest) :
    Numeral whole fraction literal (after ++ rest) := by
  cases numeral with
  | whole digits dangling =>
    refine .whole (digits.extended ends rfl rfl) fun c more pointed => ?_
    -- The point is one of `after`, and the character behind it may be the first of the rest.
    match after, dangling with
    | [], _ =>
      rw [List.nil_append] at pointed
      have point := ends.outside (p := (· == '.')) rfl rfl '.' (by rw [pointed]; rfl)
      cases point
    | [d], _ =>
      obtain ⟨-, rfl⟩ := List.cons.inj pointed
      exact ends.outside rfl rfl c rfl
    | d :: next :: after, dangling =>
      obtain ⟨rfl, behind⟩ := List.cons.inj pointed
      obtain ⟨rfl, -⟩ := List.cons.inj behind
      exact dangling next after rfl
  | pointed digits behind =>
    have point : MaximalRun Char.isDigit whole ('.' :: (fraction ++ (after ++ rest))) :=
      ⟨digits.nonempty, digits.inside, digits.ends⟩
    exact .pointed point (behind.extended ends rfl rfl)

/-- A lexeme does not depend on what follows the end of the text, if that ends an operand. -/
theorem Cut.extended (cut : Cut offset lexeme after item) (ends : Ends rest) :
    Cut offset lexeme (after ++ rest) item := by
  cases cut with
  | symbol symbol => exact .symbol symbol
  | name word => exact .name (word.extended ends rfl rfl)
  | number numeral value => exact .number (numeral.extended ends) value
  | tooLarge numeral value => exact .tooLarge (numeral.extended ends) value
  | stray visible letter digit other => exact .stray visible letter digit other

/-- By induction along the scan of the first text: the second one ends its last lexeme. -/
theorem scanFrom_append_ends (ends : Ends rest) (offset : Nat) (text : List Char) :
    scanFrom offset (text ++ rest) =
      scanFrom offset text ++ scanFrom (offset + size text) rest := by
  fun_induction scanFrom offset text with
  | case1 offset => rfl
  | case2 offset c text space ih =>
    rw [List.cons_append, scanFrom_space space, ih, size, Nat.add_assoc]
  | case3 offset c text visible lexeme ih =>
    have cut := cut_splitLexeme offset text (Bool.eq_false_iff.mpr visible)
    have total : size (c :: text) = size lexeme + size (splitLexeme c text).2 := by
      simp [lexeme, ← size_append]
    rw [← splitLexeme_append c text, List.append_assoc, scanFrom_cut (cut.extended ends), ih,
      splitLexeme_append, total, List.cons_append, Nat.add_assoc]

end Following

end Token

namespace Expression

/-! ## The parentheses of a derivation -/

/-- How a token is written if it is a parenthesis. -/
def parenthesis (token : Token) : List Char :=
  match token.kind with
  | .leftParen => ['(']
  | .rightParen => [')']
  | .plus | .star | .ident | .number _ => []

/-- The parentheses among some tokens. -/
def parentheses (tokens : List Token) : List Char := tokens.flatMap parenthesis

section Parentheses

variable {phrase : Phrase} {levels fewer offset : Nat} {tokens : List Token} {tree : Expression}
  {links : List Link} {literal whole fraction lexeme after : List Char} {token : Token}

@[simp] theorem parentheses_append (front back : List Token) :
    parentheses (front ++ back) = parentheses front ++ parentheses back :=
  List.flatMap_append ..

theorem plain_of_maximalRun {p : Char → Bool} {run : List Char} (maximal : MaximalRun p run after)
    (opening : p '(' = false) (closing : p ')' = false) : Plain run := by
  refine ⟨fun mem => ?_, fun mem => ?_⟩
  · exact absurd (maximal.inside _ mem) (by simp [opening])
  · exact absurd (maximal.inside _ mem) (by simp [closing])

theorem plain_of_numeral (numeral : Numeral whole fraction literal after) : Plain literal := by
  cases numeral with
  | whole digits _ => exact plain_of_maximalRun digits rfl rfl
  | pointed digits behind =>
    have point : Plain ['.'] := by simp [Plain]
    exact (plain_of_maximalRun digits rfl rfl).append
      (point.append (plain_of_maximalRun behind rfl rfl))

/-- Only the symbols of the grammar have parentheses in their lexemes. -/
theorem parentheses_of_cut (cut : Cut offset lexeme after (.ok token)) :
    Text.parentheses lexeme = parenthesis token := by
  cases cut with
  | symbol symbol =>
    rcases mem_symbols.mp symbol with ⟨rfl, rfl⟩ | ⟨rfl, rfl⟩ | ⟨rfl, rfl⟩ | ⟨rfl, rfl⟩ <;> rfl
  | name word => exact parentheses_plain (plain_of_maximalRun word rfl rfl)
  | number numeral _ => exact parentheses_plain (plain_of_numeral numeral)

/-- By induction along the scan: the tokens of a text have its parentheses. -/
theorem parentheses_of_scan {text : List Char} (items : scanFrom offset text = tokens.map .ok) :
    parentheses tokens = Text.parentheses text := by
  fun_induction scanFrom offset text generalizing tokens with
  | case1 offset =>
    obtain rfl := List.map_eq_nil_iff.mp items.symm
    rfl
  | case2 offset c text space ih =>
    have blank : Text.parentheses [c] = [] := by
      have other {paren : Char} (visible : paren.isWhitespace = false) : paren ∉ [c] := by
        rintro mem
        obtain rfl := List.mem_singleton.mp mem
        rw [space] at visible
        cases visible
      exact parentheses_plain ⟨other rfl, other rfl⟩
    rw [ih items, ← List.singleton_append, Text.parentheses_append, blank, List.nil_append]
  | @case3 offset c text visible lexeme ih =>
    obtain ⟨token, others, rfl, first, behind⟩ := List.map_eq_cons_iff.mp items.symm
    have cut := cut_splitLexeme offset text (Bool.eq_false_iff.mpr visible)
    rw [← first] at cut
    rw [← splitLexeme_append c text, Text.parentheses_append, parentheses_of_cut cut,
      ← ih behind.symm]
    rfl

theorem parentheses_group {opening closing : Token} (opens : opening.kind = .leftParen)
    (closes : closing.kind = .rightParen) :
    parentheses (opening :: tokens ++ [closing]) = '(' :: (parentheses tokens ++ [')']) := by
  simp [parentheses, parenthesis, opens, closes]

theorem parenthesis_operator {operator : TokenKind} (symbol : operator = .plus ∨ operator = .star)
    (kind : token.kind = operator) : parenthesis token = [] := by
  rcases symbol with rfl | rfl <;> rw [parenthesis, kind]

theorem parentheses_spell {link : Link} {operator : TokenKind}
    (symbol : operator = .plus ∨ operator = .star) (kind : link.operator.kind = operator) :
    parentheses (Link.spell (link :: links)) =
      parentheses link.tokens ++ parentheses (Link.spell links) := by
  simp [Link.spell, parentheses, parenthesis_operator symbol kind]

/-- By induction on the links: their parentheses come in pairs if those of each operand do. -/
theorem Link.paired_spell {operator : TokenKind} (symbol : operator = .plus ∨ operator = .star)
    (operators : ∀ link ∈ links, link.operator.kind = operator)
    (paired : ∀ link ∈ links, Paired (parentheses link.tokens)) :
    Paired (parentheses (spell links)) := by
  induction links with
  | nil => exact .nil
  | cons link links ih =>
    obtain ⟨kind, operators⟩ := List.forall_mem_cons.mp operators
    obtain ⟨first, paired⟩ := List.forall_mem_cons.mp paired
    rw [parentheses_spell symbol kind]
    exact first.append (ih operators paired)

/-- By induction on the links: what holds of all their parentheses holds of each operand. -/
theorem Link.shallow_spell {operator : TokenKind} (symbol : operator = .plus ∨ operator = .star)
    (operators : ∀ link ∈ links, link.operator.kind = operator)
    (closed : ∀ link ∈ links, depth (parentheses link.tokens) = 0)
    (shallow : Shallow levels (parentheses (spell links))) :
    ∀ link ∈ links, Shallow levels (parentheses link.tokens) := by
  induction links with
  | nil => exact fun link mem => nomatch mem
  | cons link links ih =>
    obtain ⟨kind, operators⟩ := List.forall_mem_cons.mp operators
    obtain ⟨first, closed⟩ := List.forall_mem_cons.mp closed
    rw [parentheses_spell symbol kind] at shallow
    exact List.forall_mem_cons.mpr ⟨shallow.front, ih operators closed (shallow.back first)⟩

/-- By induction on the derivation: the parentheses of what derives come in pairs. -/
theorem Derives.paired (derived : Derives phrase levels tokens tree) :
    Paired (parentheses tokens) := by
  induction derived with
  | number kind | name kind _ => simpa [parentheses, parenthesis, kind] using Paired.nil
  | group opens _ closes ih =>
    rw [parentheses_group opens closes]
    exact ih.group
  | product _ stars _ first others =>
    rw [parentheses_append]
    exact first.append (Link.paired_spell (.inr rfl) stars others)
  | sum _ pluses _ first others =>
    rw [parentheses_append]
    exact first.append (Link.paired_spell (.inl rfl) pluses others)

/-- What derives closes all parentheses that it opens. -/
theorem Derives.depth_eq (derived : Derives phrase levels tokens tree) :
    depth (parentheses tokens) = 0 :=
  derived.paired.closed

/-- By induction on the derivation: it needs no more levels than its parentheses are nested deep. -/
theorem Derives.of_shallow (derived : Derives phrase levels tokens tree)
    (shallow : Shallow fewer (parentheses tokens)) : Derives phrase fewer tokens tree := by
  induction derived generalizing fewer with
  | number kind => exact .number kind
  | name kind literal => exact .name kind literal
  | group opens _ closes ih =>
    rw [parentheses_group opens closes] at shallow
    obtain ⟨fewer, rfl, inside⟩ := shallow.inner
    exact .group opens (ih inside) closes
  | product derived stars derives first others =>
    rw [parentheses_append] at shallow
    have links := Link.shallow_spell (.inr rfl) stars (fun link mem => (derives link mem).depth_eq)
      (shallow.back derived.depth_eq)
    exact .product (first shallow.front) stars fun link mem => others link mem (links link mem)
  | sum derived pluses derives first others =>
    rw [parentheses_append] at shallow
    have links := Link.shallow_spell (.inl rfl) pluses (fun link mem => (derives link mem).depth_eq)
      (shallow.back derived.depth_eq)
    exact .sum (first shallow.front) pluses fun link mem => others link mem (links link mem)

end Parentheses

/-! ## Operands -/

/-- A text that is an expression and leaves room for a parenthesis around it. -/
structure Operand where
  text : String
  tree : Expression
  parsed : parse text = .ok tree
  shallow : Shallow 255 text.toList

/-- In parentheses the text is a primitive, wherever it stands. -/
theorem Operand.written (operand : Operand) :
    Written .primitive nestingLimit ('(' :: (operand.text.toList ++ [')'])) operand.tree := by
  obtain ⟨tokens, items, derived⟩ := ofItems_eq_ok_iff.mp operand.parsed
  have parens : parentheses tokens = Text.parentheses operand.text.toList :=
    parentheses_of_scan items
  have closed : depth operand.text.toList = 0 := by
    rw [← depth_parentheses, ← parens, derived.depth_eq]
  refine .enclosed ⟨closed, operand.shallow⟩ fun offset =>
    ⟨tokens.map (·.moveBy offset), ?_, fun rest => ?_⟩
  · have inside : Derives .sum 255 tokens operand.tree :=
      derived.of_shallow (parens ▸ operand.shallow.alone)
    have moved : List.Forall₂ (Replaces id) (tokens.map (·.moveBy offset)) tokens :=
      List.forall₂_map_left_iff.mpr (List.forall₂_same.mpr fun token _ => .moveBy token offset)
    exact inside.replace (fun _ _ => rfl) (fun _ _ => rfl) moved
  · have ends : Ends (')' :: rest) := by
      rintro c ⟨⟩
      exact .inr ⟨.rightParen, by simp [symbols]⟩
    have moved := scanFrom_add 0 offset operand.text.toList
    rw [show scanFrom 0 operand.text.toList = tokens.map .ok from items, Nat.zero_add] at moved
    rw [scanFrom_append_ends ends, moved, List.map_map, List.map_map]
    rfl

/-! ## Chains -/

/-- One or more, in order. -/
structure Chain (α : Type) where
  first : α
  others : List α

namespace Chain

variable {α β : Type}

def toList (chain : Chain α) : List α := chain.first :: chain.others

def map (f : α → β) (chain : Chain α) : Chain β := ⟨f chain.first, chain.others.map f⟩

/-- All of them joined, from the left. -/
def fold (join : α → α → α) (chain : Chain α) : α := chain.others.foldl join chain.first

end Chain

theorem intercalate_cons_eq_foldl (c : Char) (first : List Char) (others : List (List Char)) :
    [c].intercalate (first :: others) =
      others.foldl (fun part next => part ++ c :: next) first := by
  induction others generalizing first with
  | nil => rw [List.intercalate_singleton, List.foldl_nil]
  | cons next others ih =>
    rw [List.foldl_cons, ← ih]
    cases others <;> simp

section Chains

variable {α : Type} {phrase : Phrase} {levels : Nat} {c : Char} {spell : α → List Char}
  {tree : α → Expression} {join : Expression → Expression → Expression}

/-- By induction on what follows the first one: each step goes on with one more. -/
theorem Written.chain (chain : Chain α)
    (first : Written phrase levels (spell chain.first) (tree chain.first))
    (step : ∀ {part l} a, Written phrase levels part l →
      Written phrase levels (part ++ c :: spell a) (join l (tree a))) :
    Written phrase levels ([c].intercalate (chain.toList.map spell))
      ((chain.map tree).fold join) := by
  have goesOn {part : List Char} {l : Expression} (written : Written phrase levels part l)
      (others : List α) : Written phrase levels
        ((others.map spell).foldl (fun part next => part ++ c :: next) part)
        ((others.map tree).foldl join l) := by
    induction others generalizing part l with
    | nil => exact written
    | cons a others ih => exact ih (step a written)
  rw [Chain.toList, List.map_cons, intercalate_cons_eq_foldl]
  exact goesOn first chain.others

/-- A product of texts in parentheses. -/
theorem written_product (product : Chain Operand) : Written .product nestingLimit
    (['*'].intercalate (product.toList.map fun operand => '(' :: (operand.text.toList ++ [')'])))
    ((product.map Operand.tree).fold .prod) :=
  .chain product product.first.written.toProduct fun operand written =>
    written.product operand.written

/-- A sum of such products. -/
theorem written_sum (sum : Chain (Chain Operand)) : Written .sum nestingLimit
    (['+'].intercalate (sum.toList.map fun product => ['*'].intercalate
      (product.toList.map fun operand => '(' :: (operand.text.toList ++ [')']))))
    ((sum.map fun product => (product.map Operand.tree).fold .prod).fold .sum) := by
  have symbol : ('+', .plus) ∈ symbols := by simp [symbols]
  exact .chain sum (written_product sum.first).toSum fun product written =>
    .join symbol (by simp [Plain]) (fun plus derived next => derived.snocSum plus next) written
      (written_product product)

end Chains

/-- Texts that are expressions, with room for one more parenthesis, are put into parentheses, one or
more of these are joined by stars, and one or more of such products are joined by plus signs. What
this spells is the sum, from the left, of the products, from the left, of the expressions. And a
text in parentheses is the same expression as the text. -/
theorem parse_groups (sum : Chain (Chain Operand)) :
    parse ("+".intercalate (sum.toList.map fun product =>
        "*".intercalate (product.toList.map fun operand => "(" ++ operand.text ++ ")"))) =
      .ok ((sum.map fun product => (product.map Operand.tree).fold .prod).fold .sum) ∧
    ∀ text e, parse text = .ok e → Shallow 255 text.toList →
      parse ("(" ++ text ++ ")") = .ok e := by
  refine ⟨?_, fun text e parsed shallow => ?_⟩
  · convert (written_sum sum).parse
    rw [← String.toList_inj, String.toList_ofList]
    simp [Function.comp_def]
  · convert (Operand.written ⟨text, e, parsed, shallow⟩).toProduct.toSum.parse
    rw [← String.toList_inj, String.toList_ofList]
    simp

/-- White space and numbers in front of parentheses, and an operand with parentheses of its own. -/
theorem parse_groups_nested :
    let a : Variable := ⟨"a", by simp, by simp⟩
    let sum : Expression := .sum (.var a) (.num .one)
    parse "(a+1)*(\ta)*((a+1)*a)+(a+1)" =
      .ok (.sum (.prod (.prod sum (.var a)) (.prod sum (.var a))) sum) ∧
    parse "(a+1)" = parse "a+1" := by
  intro a sum
  let inner : Operand := ⟨"a+1", sum, by decide +kernel, shallow_of_count_le (by decide +kernel)⟩
  let tab : Operand := ⟨"\ta", .var a, by decide +kernel, shallow_of_count_le (by decide +kernel)⟩
  let nested : Operand :=
    ⟨"(a+1)*a", .prod sum (.var a), by decide +kernel, shallow_of_count_le (by decide +kernel)⟩
  have spelled := (parse_groups ⟨⟨inner, [tab, nested]⟩, [⟨inner, []⟩]⟩).1
  exact ⟨spelled, ((parse_groups ⟨⟨inner, []⟩, []⟩).2 _ _ inner.parsed inner.shallow).trans
    inner.parsed.symm⟩

end Expression

end SumProduct
