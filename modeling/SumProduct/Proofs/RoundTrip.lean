import SumProduct.Expression.Basic
import SumProduct.Proofs.Grammar
import SumProduct.Proofs.NumberText
import SumProduct.Proofs.Parentheses

/-!
# Reading the canonical text

`Written phrase levels part tree` says that `part` of a text derives from the phrase with that
tree, and `Overflows levels reader part` that the reader fails in it at a parenthesis that is one
too many. Both are built up along the canonical text of an expression: the first as long as
`Expression.nest` is within the levels, the second when it is not.
-/

namespace SumProduct

open Token Text

namespace Expression

open Reader

/-! ## The shape of the canonical text -/

/-- How many parentheses are open at once in the canonical text, at most. -/
def nest : Expression → Nat
  | .num _ | .var _ => 0
  | .sum l r => 1 + max l.nest r.nest
  | .prod l r => max l.nest (r.nest + if r.isProd then 1 else 0)

/-- The expression with a function applied to its numbers. -/
def mapNumbers (f : Number → Number) : Expression → Expression
  | .num v => .num (f v)
  | .var x => .var x
  | .sum l r => .sum (l.mapNumbers f) (r.mapNumbers f)
  | .prod l r => .prod (l.mapNumbers f) (r.mapNumbers f)

/-- The numbers of an expression, from left to right. -/
def numbers : Expression → List Number
  | .num v => [v]
  | .var _ => []
  | .sum l r | .prod l r => l.numbers ++ r.numbers

theorem mapNumbers_eq_self {f : Number → Number} {e : Expression}
    (same : ∀ v ∈ e.numbers, f v = v) : e.mapNumbers f = e := by
  induction e with
  | num v => rw [mapNumbers, same v (List.mem_singleton_self v)]
  | var x => rfl
  | sum l r ihl ihr | prod l r ihl ihr =>
    rw [mapNumbers, ihl fun v mem => same v (List.mem_append_left _ mem),
      ihr fun v mem => same v (List.mem_append_right _ mem)]

/-- What the canonical text of an expression derives from. -/
def phrase (e : Expression) : Phrase := if e.isProd then .product else .primitive

/-- The right operand of a product, as it is written. -/
def factor (e : Expression) : List Char :=
  if e.isProd then '(' :: (e.write [] ++ [')']) else e.write []

theorem write_eq (e : Expression) (rest : List Char) : e.write rest = e.write [] ++ rest := by
  simp [← write_append]

theorem write_sum (l r : Expression) : (sum l r).write [] =
    '(' :: ((l.write [] ++ ' ' :: '+' :: ' ' :: r.write []) ++ [')']) := by
  rw [write, write_eq l, write_eq r]
  simp

theorem write_prod (l r : Expression) : (prod l r).write [] = l.write [] ++ '*' :: r.factor := by
  rw [write, write_eq l, factor]
  split
  · rw [write_eq r]
  · rfl

/-! ## Leaves and symbols -/

/-- No parentheses are written for a number. -/
theorem plain_fixed (v : Number) (places : Nat) : Plain (v.fixed places) := by
  have class_of (c : Char) (mem : c ∈ v.fixed places) : (c.isDigit || c == '.') = true := by
    simpa using Number.mem_fixed mem
  refine ⟨fun opening => ?_, fun closing => ?_⟩
  · exact absurd (class_of _ opening) (by decide)
  · exact absurd (class_of _ closing) (by decide)

theorem plain_name (x : Variable) : Plain x.name.toList := by
  refine ⟨fun opening => ?_, fun closing => ?_⟩
  · exact absurd (x.letters _ opening) (by decide)
  · exact absurd (x.letters _ closing) (by decide)

section Symbols

variable {levels offset : Nat} {left right part rest : List Char}

theorem balanced_star : Balanced levels ['*'] := .plain (by simp [Plain])

theorem balanced_plus : Balanced levels [' ', '+', ' '] := .plain (by simp [Plain])

@[simp] theorem scanFrom_opening : scanFrom offset ('(' :: rest) =
    .ok ⟨.leftParen, "(", offset⟩ :: scanFrom (offset + 1) rest :=
  scanFrom_symbol (by simp [symbols])

@[simp] theorem scanFrom_closing : scanFrom offset (')' :: rest) =
    .ok ⟨.rightParen, ")", offset⟩ :: scanFrom (offset + 1) rest :=
  scanFrom_symbol (by simp [symbols])

@[simp] theorem scanFrom_star : scanFrom offset ('*' :: rest) =
    .ok ⟨.star, "*", offset⟩ :: scanFrom (offset + 1) rest :=
  scanFrom_symbol (by simp [symbols])

/-- The plus sign of a sum, with the spaces around it. -/
@[simp] theorem scanFrom_plus : scanFrom offset (' ' :: '+' :: ' ' :: rest) =
    .ok ⟨.plus, "+", offset + 1⟩ :: scanFrom (offset + 3) rest := by
  have plus : scanFrom (offset + 1) ('+' :: ' ' :: rest) =
      .ok ⟨.plus, "+", offset + 1⟩ :: scanFrom (offset + 2) (' ' :: rest) :=
    scanFrom_symbol (by simp [symbols])
  rw [scanFrom_space rfl]
  refine plus.trans ?_
  rw [scanFrom_space rfl]
  rfl

theorem boundary_symbol {c : Char} {kind : TokenKind} (symbol : (c, kind) ∈ symbols) :
    Boundary (c :: rest) := by
  rcases mem_symbols.mp symbol with ⟨rfl, -⟩ | ⟨rfl, -⟩ | ⟨rfl, -⟩ | ⟨rfl, -⟩ <;>
    exact .cons rfl rfl

theorem utf8Size_symbol {c : Char} {kind : TokenKind} (symbol : (c, kind) ∈ symbols) :
    c.utf8Size = 1 := by
  rcases mem_symbols.mp symbol with ⟨rfl, -⟩ | ⟨rfl, -⟩ | ⟨rfl, -⟩ | ⟨rfl, -⟩ <;> rfl

theorem add_size_star :
    offset + size (left ++ '*' :: right) = offset + size left + 1 + size right := by
  simp [size, Char.utf8Size, Nat.add_assoc]

theorem add_size_plus : offset + size (left ++ ' ' :: '+' :: ' ' :: right) =
    offset + size left + 3 + size right := by
  simp [size, Char.utf8Size]
  omega

theorem add_size_opening : offset + size ('(' :: part) = offset + 1 + size part := by
  simp [size, Char.utf8Size, Nat.add_assoc]

theorem group_append : '(' :: (part ++ [')']) ++ rest = '(' :: (part ++ ')' :: rest) := by
  simp

end Symbols

/-! ## Texts that derive -/

/-- Where the part stands in a text, it is cut into tokens that derive from the phrase. -/
structure Written (phrase : Phrase) (levels : Nat) (part : List Char) (tree : Expression) :
    Prop where
  balanced : Balanced levels part
  tokens : ∀ offset, ∃ tokens, Derives phrase levels tokens tree ∧ ∀ rest, Boundary rest →
    scanFrom offset (part ++ rest) = tokens.map .ok ++ scanFrom (offset + size part) rest

namespace Written

variable {levels : Nat} {part left right : List Char} {tree l r : Expression}

theorem fixed {v w : Number} {places : Nat} (places_pos : 0 < places)
    (nearest : Decimal.nearest? ⟨v.scaled places, -places⟩ = some w) :
    Written .primitive levels (v.fixed places) (.num w) where
  balanced := .plain (plain_fixed v places)
  tokens _ := ⟨_, .number rfl, fun _ boundary => Number.scanFrom_fixed places_pos nearest boundary⟩

theorem number (v : Number) : Written .primitive levels v.text (.num v.reread) :=
  .fixed (by decide) v.nearest?_scaled

theorem name (x : Variable) : Written .primitive levels x.name.toList (.var x) where
  balanced := .plain (plain_name x)
  tokens _ := ⟨_, .name rfl rfl, fun _ boundary => scanFrom_name x boundary⟩

theorem toProduct (written : Written .primitive levels part tree) :
    Written .product levels part tree where
  balanced := written.balanced
  tokens offset := by
    obtain ⟨tokens, derived, scanned⟩ := written.tokens offset
    exact ⟨tokens, derived.toProduct, scanned⟩

theorem toSum (written : Written .product levels part tree) : Written .sum levels part tree where
  balanced := written.balanced
  tokens offset := by
    obtain ⟨tokens, derived, scanned⟩ := written.tokens offset
    exact ⟨tokens, derived.toSum, scanned⟩

/-- What is a sum in front of each closing parenthesis is a primitive in parentheses. -/
theorem enclosed (balanced : Balanced levels part)
    (tokens : ∀ offset, ∃ tokens, Derives .sum levels tokens tree ∧ ∀ rest,
      scanFrom offset (part ++ ')' :: rest) =
        tokens.map .ok ++ scanFrom (offset + size part) (')' :: rest)) :
    Written .primitive (levels + 1) ('(' :: (part ++ [')'])) tree where
  balanced := balanced.group
  tokens offset := by
    obtain ⟨tokens, derived, scanned⟩ := tokens (offset + 1)
    refine ⟨⟨.leftParen, "(", offset⟩ :: tokens ++ [⟨.rightParen, ")", offset + 1 + size part⟩],
      .group rfl derived rfl, fun rest _ => ?_⟩
    have closing : size [')'] = 1 := rfl
    rw [group_append, scanFrom_opening, scanned, scanFrom_closing, add_size_opening, size_append,
      closing, ← Nat.add_assoc]
    simp

theorem group (written : Written .sum levels part tree) :
    Written .primitive (levels + 1) ('(' :: (part ++ [')'])) tree :=
  enclosed written.balanced fun offset =>
    (written.tokens offset).imp fun _ ⟨derived, scanned⟩ =>
      ⟨derived, fun _ => scanned _ (.cons rfl rfl)⟩

/-- Two parts with an operator between them, where the grammar goes on from the first like this. -/
theorem join {phrase operand : Phrase} {c : Char} {kind : TokenKind}
    (symbol : (c, kind) ∈ symbols) (plain : Plain [c])
    (goesOn : ∀ {tokens others : List Token} {operator : Token}, operator.kind = kind →
      Derives phrase levels tokens l → Derives operand levels others r →
      Derives phrase levels (tokens ++ operator :: others) tree)
    (written : Written phrase levels left l) (next : Written operand levels right r) :
    Written phrase levels (left ++ c :: right) tree where
  balanced := written.balanced.append (.append (a := [c]) (.plain plain) next.balanced)
  tokens offset := by
    obtain ⟨tokens, derived, scanned⟩ := written.tokens offset
    obtain ⟨others, derived', scanned'⟩ := next.tokens (offset + size left + 1)
    refine ⟨tokens ++ ⟨kind, String.singleton c, offset + size left⟩ :: others,
      goesOn rfl derived derived', fun rest boundary => ?_⟩
    rw [List.append_assoc, List.cons_append, scanned _ (boundary_symbol symbol),
      scanFrom_symbol symbol, scanned' _ boundary, size_append, size, utf8Size_symbol symbol]
    simp [Nat.add_assoc]

theorem product (written : Written .product levels left l)
    (next : Written .primitive levels right r) :
    Written .product levels (left ++ '*' :: right) (.prod l r) := by
  have symbol : ('*', .star) ∈ symbols := by simp [symbols]
  exact join symbol (by simp [Plain]) (fun star derived next => derived.snocProduct star next)
    written next

theorem sum (written : Written .sum levels left l) (next : Written .product levels right r) :
    Written .sum levels (left ++ ' ' :: '+' :: ' ' :: right) (.sum l r) where
  balanced := written.balanced.append (balanced_plus.append next.balanced)
  tokens offset := by
    obtain ⟨tokens, derived, scanned⟩ := written.tokens offset
    obtain ⟨others, derived', scanned'⟩ := next.tokens (offset + size left + 3)
    refine ⟨tokens ++ ⟨.plus, "+", offset + size left + 1⟩ :: others,
      derived.snocSum rfl derived', fun rest boundary => ?_⟩
    rw [List.append_assoc, List.cons_append, List.cons_append, List.cons_append,
      scanned _ (.cons rfl rfl), scanFrom_plus, scanned' _ boundary, add_size_plus]
    simp

/-- What the reader of products does with a part that is one. -/
theorem run_product (written : Written .product levels part tree) (bytes offset : Nat)
    {rest : List Char} (boundary : Boundary rest) :
    run (Reader.product bytes levels) (scanFrom offset (part ++ rest)) =
      loop .star .prod (operand bytes levels) tree (scanFrom (offset + size part) rest) := by
  obtain ⟨tokens, derived, scanned⟩ := written.tokens offset
  rw [scanned rest boundary]
  exact derived.reads bytes _

end Written

theorem Written.ofPhrase {e tree : Expression} {levels : Nat} {part : List Char}
    (written : Written e.phrase levels part tree) : Written .product levels part tree := by
  unfold phrase at written
  split at written
  · exact written
  · exact written.toProduct

/-- By induction on the expression: where parentheses are written, one level less is left. -/
theorem written (e : Expression) (levels : Nat) (le : e.nest ≤ levels) :
    Written e.phrase levels (e.write []) (e.mapNumbers Number.reread) := by
  induction e generalizing levels with
  | num v =>
    rw [write, List.append_nil]
    exact .number v
  | var x =>
    rw [write, List.append_nil]
    exact .name x
  | sum l r ihl ihr =>
    simp only [nest] at le
    obtain ⟨fewer, rfl⟩ := Nat.exists_eq_add_of_le' (Nat.le_of_add_right_le le)
    have left := ihl fewer (by omega)
    have right := ihr fewer (by omega)
    rw [write_sum]
    exact .group (.sum left.ofPhrase.toSum right.ofPhrase)
  | prod l r ihl ihr =>
    simp only [nest] at le
    have left := ihl levels (by omega)
    rw [write_prod]
    refine .product left.ofPhrase ?_
    -- Only a product on the right has parentheses, and it derives as a primitive through them.
    unfold factor
    split
    · next isProd =>
      rw [if_pos isProd] at le
      obtain ⟨fewer, rfl⟩ := Nat.exists_eq_add_of_le' (show 1 ≤ levels by omega)
      have right := ihr fewer (by omega)
      exact .group right.ofPhrase.toSum
    · next other =>
      rw [if_neg other] at le
      have right := ihr levels (by omega)
      rwa [phrase, if_neg other] at right

/-! ## Texts that run too deep -/

/-- The reader of a phrase. -/
def Phrase.reader (bytes levels : Nat) : Phrase → Reader
  | .sum => Reader.sum bytes levels
  | .product => Reader.product bytes levels
  | .primitive => operand bytes levels

/-- The first parenthesis of the part that stands inside `levels` open ones is where the reader
fails. -/
def Overflows (levels : Nat) (reader : Reader) (part : List Char) : Prop :=
  ∃ before, FirstInside levels part before ∧ ∀ offset rest, Boundary rest →
    run reader (scanFrom offset (part ++ rest)) = .error (.tooDeep (offset + size before))

namespace Overflows

variable {bytes levels : Nat} {reader : Reader} {part left right : List Char} {tree : Expression}

theorem opening : Overflows 0 (operand bytes 0) ('(' :: part) := by
  refine ⟨[], .here, fun offset rest _ => ?_⟩
  rw [List.cons_append, scanFrom_opening]
  exact run_operand_tooDeep rfl

theorem group (overflows : Overflows levels (Reader.sum bytes levels) part) :
    Overflows (levels + 1) (operand bytes (levels + 1)) ('(' :: (part ++ [')'])) := by
  obtain ⟨before, first, fails⟩ := overflows
  refine ⟨'(' :: before, (first.append_right [')']).group, fun offset rest _ => ?_⟩
  rw [group_append, scanFrom_opening, run_operand_group rfl, fails _ _ (.cons rfl rfl),
    add_size_opening]
  rfl

theorem chain {operator : TokenKind} {join : Expression → Expression → Expression}
    (overflows : Overflows levels reader part) :
    Overflows levels (Reader.chain operator join reader) part := by
  obtain ⟨before, first, fails⟩ := overflows
  refine ⟨before, first, fun offset rest boundary => ?_⟩
  rw [run_chain, fails offset rest boundary]
  rfl

/-- What stands behind the first parenthesis too many does not matter, if it prolongs no token. -/
theorem append {c : Char} (overflows : Overflows levels reader left)
    (outside : c.isAlpha = false ∧ c.isDigit = false) :
    Overflows levels reader (left ++ c :: right) := by
  obtain ⟨before, first, fails⟩ := overflows
  refine ⟨before, first.append_right _, fun offset rest _ => ?_⟩
  rw [List.append_assoc, List.cons_append]
  exact fails offset _ (.cons outside.1 outside.2)

/-- A product that overflows in its right operand. -/
theorem product (written : Written .product levels left tree)
    (overflows : Overflows levels (operand bytes levels) right) :
    Overflows levels (Reader.product bytes levels) (left ++ '*' :: right) := by
  obtain ⟨before, first, fails⟩ := overflows
  refine ⟨left ++ '*' :: before, (first.append_left balanced_star).append_left written.balanced,
    fun offset rest boundary => ?_⟩
  rw [List.append_assoc, List.cons_append, written.run_product _ _ (.cons rfl rfl), scanFrom_star,
    loop_operator (show Token.kind ⟨.star, "*", offset + size left⟩ = .star from rfl),
    fails _ _ boundary, add_size_star]
  rfl

/-- A sum that overflows in its right operand. -/
theorem sum (written : Written .product levels left tree)
    (overflows : Overflows levels (Reader.product bytes levels) right) :
    Overflows levels (Reader.sum bytes levels) (left ++ ' ' :: '+' :: ' ' :: right) := by
  obtain ⟨before, first, fails⟩ := overflows
  refine ⟨left ++ ' ' :: '+' :: ' ' :: before,
    (first.append_left balanced_plus).append_left written.balanced, fun offset rest boundary => ?_⟩
  rw [List.append_assoc, List.cons_append, List.cons_append, List.cons_append, Reader.sum,
    run_chain, written.run_product _ _ (.cons rfl rfl), scanFrom_plus, loop_stops (.cons (by simp))]
  -- The product ends in front of the plus sign, and the loop of the sum takes over.
  show loop .plus .sum _ tree _ = _
  rw [loop_operator (show Token.kind ⟨.plus, "+", offset + size left + 1⟩ = .plus from rfl),
    fails _ _ boundary, add_size_plus]
  rfl

end Overflows

theorem Overflows.ofPhrase {e : Expression} {bytes levels : Nat} {part : List Char}
    (overflows : Overflows levels (e.phrase.reader bytes levels) part) :
    Overflows levels (Reader.product bytes levels) part := by
  unfold phrase at overflows
  split at overflows
  · exact overflows
  · exact overflows.chain

/-- By induction on the expression: the operand that is nested too deeply is the left one, or the
right one behind a left one that is read. -/
theorem overflows (e : Expression) (bytes levels : Nat) (lt : levels < e.nest) :
    Overflows levels (e.phrase.reader bytes levels) (e.write []) := by
  induction e generalizing levels with
  | num v | var x => cases lt
  | sum l r ihl ihr =>
    simp only [nest] at lt
    rw [write_sum]
    cases levels with
    | zero => exact .opening
    | succ fewer =>
      refine .group ?_
      -- If the left operand fails, nothing behind it is read.
      rcases Nat.lt_or_ge fewer l.nest with deep | fits
      · exact (ihl _ deep).ofPhrase.chain.append ⟨rfl, rfl⟩
      · have right := ihr fewer (by omega)
        exact .sum (written l _ fits).ofPhrase right.ofPhrase
  | prod l r ihl ihr =>
    simp only [nest] at lt
    rw [write_prod]
    rcases Nat.lt_or_ge levels l.nest with deep | fits
    · exact (ihl _ deep).ofPhrase.append ⟨rfl, rfl⟩
    refine .product (written l _ fits).ofPhrase ?_
    unfold factor
    split
    · next isProd =>
      rw [if_pos isProd] at lt
      cases levels with
      | zero => exact .opening
      | succ fewer =>
        have right := ihr fewer (by omega)
        exact .group right.ofPhrase.chain
    · next other =>
      rw [if_neg other] at lt
      have right := ihr levels (by omega)
      rwa [phrase, if_neg other] at right

/-! ## The round trip -/

theorem Written.parse {tree : Expression} {part : List Char}
    (written : Written .sum nestingLimit part tree) : parse (String.ofList part) = .ok tree := by
  obtain ⟨tokens, derived, scanned⟩ := written.tokens 0
  have items := scanned [] .nil
  rw [List.append_nil] at items
  refine ofItems_eq_ok_iff.mpr ⟨tokens, ?_, derived⟩
  rw [scan, String.toList_ofList, items, scanFrom, List.append_nil]

theorem parse_text_of_nest_le {e : Expression} (le : e.nest ≤ nestingLimit) :
    parse e.text = .ok (e.mapNumbers Number.reread) :=
  (written e _ le).ofPhrase.toSum.parse

theorem parse_text_of_lt_nest {e : Expression} (lt : nestingLimit < e.nest) :
    ∃ before, FirstInside nestingLimit e.text.toList before ∧
      parse e.text = .error (.tooDeep (size before)) := by
  have whole : e.text.toList = e.write [] := String.toList_ofList
  have sum : Overflows nestingLimit (Reader.sum (size e.text.toList) nestingLimit) (e.write []) :=
    (overflows e _ _ lt).ofPhrase.chain
  obtain ⟨before, first, fails⟩ := sum
  have failed := fails 0 [] .nil
  rw [List.append_nil, Nat.zero_add, ← whole] at failed
  refine ⟨before, whole ▸ first, ?_⟩
  rw [parse, ofItems_eq, scan, failed]
  rfl

/-- The canonical text reads back as the expression, with each number as the one that its own text
reads back to. If the expression is nested too deeply, reading fails at the first parenthesis that
stands inside as many open ones as there may be. -/
theorem parse_text (e : Expression) :
    (∀ v : Number, literalValue v.text = .ok v.reread) ∧
    (e.nest ≤ nestingLimit →
      parse e.text = .ok (e.mapNumbers Number.reread) ∧
        ((∀ v ∈ e.numbers, v.reread = v) → parse e.text = .ok e)) ∧
    (nestingLimit < e.nest →
      ∃ before, FirstInside nestingLimit e.text.toList before ∧
        ∃ error, parse e.text = .error error ∧ error = .tooDeep (size before) ∧
          error.span = ⟨size before, 1⟩) := by
  refine ⟨Number.literalValue_text, fun le => ?_, fun lt => ?_⟩
  · have parsed := parse_text_of_nest_le le
    refine ⟨parsed, fun same => ?_⟩
    rwa [mapNumbers_eq_self same] at parsed
  · obtain ⟨before, first, failed⟩ := parse_text_of_lt_nest lt
    exact ⟨before, first, _, failed, rfl, rfl⟩

/-- Two levels of parentheses, and one level too many. -/
theorem parse_text_nested :
    let x : Variable := ⟨"x", by simp, by simp⟩
    let small : Expression := .prod (.var x) (.prod (.num .one) (.sum (.var x) (.num .one)))
    let deep : Expression := Nat.repeat (fun e => .sum e (.var x)) 257 (.var x)
    parse small.text = .ok small ∧
      ∃ before, FirstInside nestingLimit deep.text.toList before ∧
        ∃ error, parse deep.text = .error error ∧ error = .tooDeep (size before) ∧
          error.span = ⟨size before, 1⟩ := by
  intro x small deep
  have fits : small.nest ≤ nestingLimit := by decide +kernel
  have same : ∀ v ∈ small.numbers, v.reread = v := by decide +kernel
  have exceeds : nestingLimit < deep.nest := by decide +kernel
  exact ⟨((parse_text small).2.1 fits).2 same, (parse_text deep).2.2 exceeds⟩

end Expression

end SumProduct
