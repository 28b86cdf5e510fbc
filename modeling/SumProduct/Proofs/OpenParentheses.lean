import SumProduct.Proofs.Groups
import SumProduct.Proofs.ParserCalls

/-!
# The count of open parentheses

A parser that counts the parentheses it has opened reads each text as it is read with levels that
are used up (`parse_does`). The count and the levels that are left make up the limit at each call of
a procedure, and this is what the induction on the levels carries along (`Agrees`).

What a procedure has taken when it returns a tree is known from the grammar: the tree derives from
it (`Phrase.reader_sound`), so its parentheses come in pairs (`Derives.paired`), and as many are
open behind the phrase as in front of it.

Results:
1. `call_agrees`: with enough fuel a call of the procedure for a sum has the outcome of the reader
   of sums, and behind it the count is what it was before.
2. `depth_counts_parentheses`: what holds at each call and at each return while a text is parsed,
   where at least the call for the whole text is noted.
-/

namespace SumProduct

namespace Expression

open Reader

section Phrases

variable {phrase : Phrase} {bytes levels : Nat} {tokens : List Token} {tree : Expression}
  {items rest : List Item}

theorem Derives.ne_nil (derived : Derives phrase levels tokens tree) : tokens ≠ [] := by
  induction derived with
  | number | name | group => simp
  | product _ _ _ first | sum _ _ _ first =>
    exact fun none => first (List.append_eq_nil_iff.mp none).1

/-- No phrase of the kind goes on in front of these items. -/
def Phrase.Ends : Phrase → List Item → Prop
  | .primitive, _ => True
  | .product, items => Stops .star items
  | .sum, items => Stops .star items ∧ Stops .plus items

/-- What the reader of a phrase takes derives from the phrase, and does not go on. -/
theorem Phrase.reader_sound (read : run (phrase.reader bytes levels) items = .ok (tree, rest)) :
    ∃ tokens, items = tokens.map .ok ++ rest ∧ Derives phrase levels tokens tree ∧
      phrase.Ends rest := by
  cases phrase with
  | primitive =>
    obtain ⟨tokens, split, derived⟩ := operand_sound bytes levels _ _ _ read
    exact ⟨tokens, split, derived, trivial⟩
  | product =>
    obtain ⟨tokens, split, derived⟩ := product_sound (operand_sound bytes levels) _ _ _ read
    exact ⟨tokens, split, derived, product_stops read⟩
  | sum =>
    obtain ⟨tokens, split, derived⟩ := sum_sound bytes levels _ _ _ read
    exact ⟨tokens, split, derived, sum_stops read⟩

end Phrases

end Expression

namespace Parser

open SumProduct.Parser.Action Expression Reader
open Text (Paired depth_append)

/-! ## What the count says -/

/-- In front of the items the parentheses that were opened and not closed are `depth` many. -/
def Counted (text : String) (depth : Nat) (items : List Item) : Prop :=
  ∃ consumed : List Token, Token.scan text = consumed.map .ok ++ items ∧
    (depth : Int) = Text.depth (parentheses consumed)

/-- The count of a call is right and within the limit. A call that returns a tree has taken tokens
from which the tree derives, and the count is what it was at the call. -/
def Event.Right (text : String) : Event → Prop
  | .called _ before =>
    before.depth ≤ nestingLimit ∧ Counted text before.depth before.lexer.pending
  | .returned phrase before after tree =>
    after.depth = before.depth ∧ ∃ tokens : List Token,
      before.lexer.pending = tokens.map .ok ++ after.lexer.pending ∧ tokens ≠ [] ∧
      Paired (parentheses tokens) ∧
      Derives phrase (nestingLimit - before.depth) tokens tree ∧ phrase.Ends after.lexer.pending

section Counting

variable {text : String} {phrase : Phrase} {levels depth depth' : Nat} {items rest : List Item}
  {tokens : List Token} {token : Token} {tree : Expression} {s : State}

theorem Counted.behind (counted : Counted text depth (tokens.map .ok ++ rest))
    (total : (depth' : Int) = depth + Text.depth (parentheses tokens)) :
    Counted text depth' rest := by
  obtain ⟨consumed, split, count⟩ := counted
  refine ⟨consumed ++ tokens, ?_, ?_⟩
  · simp [split]
  · simp [← count, total]

/-- A token that is no parenthesis leaves the count as it is. -/
theorem Counted.operator (counted : Counted text depth (.ok token :: rest))
    (other : parenthesis token = []) : Counted text depth rest := by
  have taken : Counted text depth ([token].map .ok ++ rest) := counted
  refine taken.behind ?_
  rw [parentheses, List.flatMap_singleton, other]
  exact (Int.add_zero _).symm

/-- A phrase that was read leaves the count as it is. -/
theorem Counted.read {bytes : Nat} (counted : Counted text depth items)
    (read : run (phrase.reader bytes levels) items = .ok (tree, rest)) :
    Counted text depth rest := by
  obtain ⟨tokens, rfl, derived, -⟩ := Phrase.reader_sound read
  refine counted.behind ?_
  rw [derived.depth_eq]
  exact (Int.add_zero _).symm

/-- A parenthesis is counted when it has been taken. -/
theorem Counted.opening (counted : Counted text depth (.ok token :: rest))
    (opens : token.kind = .leftParen) : Counted text (depth + 1) rest := by
  have taken : Counted text depth ([token].map .ok ++ rest) := counted
  refine taken.behind ?_
  rw [parentheses, List.flatMap_singleton, parenthesis, opens]
  rfl

end Counting

/-! ## What the procedures do -/

/-- The calls that a procedure makes before it takes a token. -/
def rank : Phrase → Nat
  | .primitive => 1
  | .product => 2
  | .sum => 3

/-- With `levels` parentheses still to open, and with enough fuel for the items, a call of the
procedure for a phrase does what the reader of the phrase does, and leaves the count as it is. All
that is noted meanwhile is right. -/
def Agrees (text : String) (levels : Nat) (phrase : Phrase) : Prop :=
  ∀ fuel depth items s, 3 * items.length + rank phrase ≤ fuel → depth + levels = nestingLimit →
    Counted text depth items → Stands (Event.Right text) text depth items s →
    Does (Event.Right text) text depth (call fuel phrase) s
      (run (phrase.reader (Text.size text.toList) levels) items)

section Procedures

variable {text : String} {phrase part : Phrase} {bytes levels depth fuel rounds : Nat}
  {items rest : List Item} {operator : TokenKind} {join : Expression → Expression → Expression}
  {tree : Expression} {s : State}

theorem Event.right_returned {before after : State}
    (total : depth + levels = nestingLimit)
    (start : Stands (Event.Right text) text depth items before)
    (stands : Stands (Event.Right text) text depth rest after)
    (read : run (phrase.reader (Text.size text.toList) levels) items = .ok (tree, rest)) :
    Event.Right text (.returned phrase before.parser after.parser tree) := by
  obtain ⟨tokens, split, derived, ends⟩ := Phrase.reader_sound read
  have left : nestingLimit - before.parser.depth = levels := by
    rw [start.depth_eq]
    omega
  refine ⟨stands.depth_eq.trans start.depth_eq.symm, tokens, ?_, derived.ne_nil, derived.paired,
    left ▸ derived, ?_⟩
  · rw [start.pending, stands.pending, split]
  · rw [stands.pending]
    exact ends

theorem rank_pos (phrase : Phrase) : 0 < rank phrase := by
  cases phrase <;> decide

theorem exists_fuel (enough : 3 * items.length + rank phrase ≤ fuel) :
    ∃ fewer, fuel = fewer + 1 := by
  have positive := rank_pos phrase
  exact Nat.exists_eq_succ_of_ne_zero (by omega)

theorem length_le_of_read (read : run (phrase.reader bytes levels) items = .ok (tree, rest)) :
    rest.length ≤ items.length := by
  obtain ⟨tokens, rfl, -⟩ := Phrase.reader_sound read
  rw [List.length_append]
  exact Nat.le_add_left ..

/-- Around what the procedure does, its call and its return are noted. -/
theorem call_of_body (total : depth + levels = nestingLimit) (counted : Counted text depth items)
    (stands : Stands (Event.Right text) text depth items s)
    (does : ∀ s', Stands (Event.Right text) text depth items s' →
      Does (Event.Right text) text depth (body (call fuel) fuel phrase) s'
        (run (phrase.reader (Text.size text.toList) levels) items)) :
    Does (Event.Right text) text depth (call (fuel + 1) phrase) s
      (run (phrase.reader (Text.size text.toList) levels) items) := by
  have called : Event.Right text (.called phrase s.parser) := by
    refine ⟨?_, ?_⟩
    · rw [stands.depth_eq]
      omega
    · rw [stands.depth_eq, stands.pending]
      exact counted
  rw [call, ← bind_pure (run _ items)]
  refine .step result_enter ((does _ (stands.note called)).bind fun tree rest s' read behind => ?_)
  exact .ok rfl (behind.note (Event.right_returned total stands behind read))

/-- By induction on the rounds: each of them takes some of the items. -/
theorem more_does (symbol : operator = .plus ∨ operator = .star) (agrees : Agrees text levels part)
    (total : depth + levels = nestingLimit) (enough : 3 * items.length + rank part ≤ fuel)
    (short : items.length < rounds) (counted : Counted text depth items)
    (stands : Stands (Event.Right text) text depth items s) :
    Does (Event.Right text) text depth (more operator join (call fuel part) rounds tree) s
      (loop operator join (part.reader (Text.size text.toList) levels) tree items) := by
  induction rounds generalizing items tree s with
  | zero => cases short
  | succ rounds ih =>
    rw [Action.more]
    cases items with
    | nil =>
      rw [loop_stops .nil]
      exact (nextIf_stops stands .nil).bind_ok fun s' behind => .pure behind
    | cons item rest =>
      cases item with
      | error e =>
        rw [loop_error]
        exact (nextIf_error stands).bind_error
      | ok token =>
        by_cases same : token.kind = operator
        · rw [loop_operator same]
          have behind := counted.operator (parenthesis_operator symbol same)
          rw [List.length_cons] at enough short
          refine (nextIf_token stands same).bind_ok fun s' stands => ?_
          refine (agrees fuel depth rest s' (by omega) total behind stands).bind
            fun right rest' s' read stands => ?_
          have shorter := length_le_of_read read
          have still : 3 * rest'.length + rank part ≤ fuel := by omega
          have fewer : rest'.length < rounds := by omega
          exact ih still fewer (behind.read read) stands
        · rw [loop_stops (.cons same)]
          exact (nextIf_stops stands (.cons same)).bind_ok fun s' behind => .pure behind

/-- A chain is one part and what the loop adds to it. -/
theorem chain_agrees (symbol : operator = .plus ∨ operator = .star)
    (program : ∀ fuel, body (call fuel) fuel phrase =
      (call fuel part >>= more operator join (call fuel part) fuel))
    (reader : ∀ bytes, phrase.reader bytes levels = chain operator join (part.reader bytes levels))
    (higher : rank phrase = rank part + 1) (agrees : Agrees text levels part) :
    Agrees text levels phrase := by
  intro fuel depth items s enough total counted stands
  obtain ⟨fuel, rfl⟩ := exists_fuel enough
  refine call_of_body total counted stands fun s' stands => ?_
  rw [program, reader, run_chain]
  refine (agrees _ depth items s' (by omega) total counted stands).bind
    fun tree rest s' read stands => ?_
  have shorter := length_le_of_read read
  have still : 3 * rest.length + rank part ≤ fuel := by omega
  have short : rest.length < fuel := by
    have positive := rank_pos part
    omega
  exact more_does symbol agrees total still short (counted.read read) stands

theorem sum_agrees (agrees : Agrees text levels .primitive) : Agrees text levels .sum :=
  chain_agrees (.inl rfl) (fun _ => rfl) (fun _ => rfl) rfl
    (chain_agrees (.inr rfl) (fun _ => rfl) (fun _ => rfl) rfl agrees)

/-- The parenthesis that closes a sum takes back the one that opened it. -/
theorem close_does (stands : Stands (Event.Right text) text (depth + 1) items s) :
    Does (Event.Right text) text depth (do
        let _ ← expect .rightParen "expected `)` to close the parenthesis"
        setDepth ((← Action.depth) - 1)
        return tree) s
      (close (Text.size text.toList) tree items) := by
  cases items with
  | nil => exact (expect_nil stands).bind_error
  | cons item rest =>
    cases item with
    | error e => exact (expect_error stands).bind_error
    | ok token =>
      rw [close]
      split
      · next same =>
        refine (expect_token stands same).bind_ok fun s' stands => ?_
        refine .step (result_depth stands) (.step rfl ?_)
        exact .pure (stands.count depth)
      · next other => exact (expect_other stands other).bind_error

theorem primitive_agrees (inner : ∀ fewer, levels = fewer + 1 → Agrees text fewer .sum) :
    Agrees text levels .primitive := by
  intro fuel depth items s enough total counted stands
  obtain ⟨fuel, rfl⟩ := exists_fuel enough
  refine call_of_body total counted stands fun s' stands => ?_
  rw [body]
  cases items with
  | nil =>
    refine .step (result_next_nil stands) (.step rfl ?_)
    have failed : run (Phrase.primitive.reader (Text.size text.toList) levels) [] =
        .error (.unexpectedEnd s'.parser.lexer.next.2.byte) := by
      rw [stands.byte_next]
      rfl
    rw [failed]
    exact .throw stands.take
  | cons item rest =>
    cases item with
    | error e => exact (next_error stands).bind_error
    | ok token =>
      refine (next_token stands).bind_ok fun s' stands => ?_
      cases kind : token.kind with
      | number v =>
        rw [Phrase.reader, run_operand_number kind]
        simp only [kind]
        exact .pure stands
      | ident =>
        rw [Phrase.reader, run_operand_ident kind]
        simp only [kind]
        cases Variable.ofName token.literal with
        | ok x => exact .pure stands
        | error cause => exact .throw stands
      | leftParen =>
        simp only [kind]
        refine .step (result_depth stands) ?_
        cases levels with
        | zero =>
          have full : depth = nestingLimit := total
          rw [Phrase.reader, run_operand_tooDeep kind, if_pos full]
          exact .throw stands
        | succ fewer =>
          have room : depth ≠ nestingLimit := by omega
          rw [Phrase.reader, run_operand_group kind, if_neg room]
          refine .step (result_depth stands) (.step rfl ?_)
          have still : 3 * rest.length + rank .sum ≤ fuel := by
            rw [List.length_cons] at enough
            exact Nat.le_of_succ_le_succ enough
          exact (inner fewer rfl fuel (depth + 1) rest _ still (by omega) (counted.opening kind)
            (stands.count (depth + 1))).bind fun tree rest s' _ stands => close_does stands
      | rightParen | plus | star =>
        rw [Phrase.reader, run_operand_other (by simp [kind])]
        simp only [kind]
        exact .throw stands

/-- By induction on the levels: a parenthesis takes one of them and is counted. -/
theorem call_agrees (text : String) (levels : Nat) : Agrees text levels .sum := by
  induction levels with
  | zero => exact sum_agrees (primitive_agrees (by omega))
  | succ levels ih =>
    refine sum_agrees (primitive_agrees fun fewer same => ?_)
    obtain rfl := Nat.succ.inj same
    exact ih

/-- Behind the sum a text has to end. -/
theorem finish_does (stands : Stands (Event.Right text) text depth items s) :
    ∃ s', Action.result (do
        match ← next with
        | none => return tree
        | some token => throw (.unexpectedToken token .nothing)) s = some (finish tree items, s') ∧
      ∀ event ∈ s'.events, event.Right text := by
  cases items with
  | nil => exact ⟨_, result_bind_ok (result_next_nil stands), stands.take.noted⟩
  | cons item rest =>
    cases item with
    | error e =>
      cases next_error stands with
      | error ran noted => exact ⟨_, result_bind_error ran, noted⟩
    | ok token =>
      cases next_token stands with
      | ok ran stands => exact ⟨_, result_bind_ok ran, stands.noted⟩

/-- Three units of fuel for each item and three more are enough. -/
theorem parse_does (text : String) :
    ∃ s, (Action.parse (3 * ((Token.scan text).length + 1))).result (.ofText text) =
        some (Expression.parse text, s) ∧
      ∀ event ∈ s.events, event.Right text := by
  have counted : Counted text 0 (Token.scan text) := ⟨[], rfl, rfl⟩
  have start : Stands (Event.Right text) text 0 (Token.scan text) (.ofText text) :=
    ⟨⟨[], rfl, rfl⟩, rfl, rfl, List.forall_mem_nil _⟩
  have called : Does (Event.Right text) text 0 (call _ .sum) (.ofText text)
      (run (Reader.sum (Text.size text.toList) nestingLimit) (Token.scan text)) :=
    call_agrees text nestingLimit _ 0 _ _ (Nat.le_refl _) (Nat.zero_add _) counted start
  rw [Expression.parse, ofItems_eq]
  generalize run (Reader.sum _ nestingLimit) (Token.scan text) = outcome at called ⊢
  cases called with
  | ok ran stands =>
    obtain ⟨s', finished, noted⟩ := finish_does stands
    exact ⟨s', (result_bind_ok ran).trans finished, noted⟩
  | error ran noted => exact ⟨_, result_bind_error ran, noted⟩

end Procedures

/-- Parsing with a counter ends in the same way with any fuel that is enough, and has the outcome of
parsing. The call for the whole text is noted, and its return with the tree of the text. Whenever
the procedure for a phrase is called, the count is the number of opening parentheses among the
tokens taken so far less that of closing ones, and not above the limit. Whenever it returns a tree,
the count is what it was at the call. It has taken at least one token, the parentheses that it has
taken come in pairs, the tree derives from the tokens with the levels that were left, and what comes
next does not continue it. -/
theorem depth_counts_parentheses (text : String) :
    ∃ s,
      (∀ fuel ≥ 3 * ((Token.scan text).length + 1),
        (Action.parse fuel).result (.ofText text) = some (Expression.parse text, s)) ∧
      (.called .sum (State.ofText text).parser ∈ s.events ∧
        ∀ tree, Expression.parse text = .ok tree →
          ∃ after, .returned .sum (State.ofText text).parser after tree ∈ s.events) ∧
      (∀ phrase before, .called phrase before ∈ s.events →
        before.depth ≤ nestingLimit ∧
        ∃ consumed : List Token,
          Token.scan text = consumed.map .ok ++ before.lexer.pending ∧
          (before.depth : Int) = Text.depth (parentheses consumed)) ∧
      ∀ phrase before after tree, .returned phrase before after tree ∈ s.events →
        after.depth = before.depth ∧
        ∃ tokens : List Token,
          before.lexer.pending = tokens.map .ok ++ after.lexer.pending ∧ tokens ≠ [] ∧
          Paired (parentheses tokens) ∧
          Derives phrase (nestingLimit - before.depth) tokens tree ∧
          phrase.Ends after.lexer.pending := by
  obtain ⟨s, ran, noted⟩ := parse_does text
  exact ⟨s, fun fuel enough => parse_within enough _ _ ran, parse_notes ran,
    fun phrase before => noted (.called phrase before),
    fun phrase before after tree => noted (.returned phrase before after tree)⟩

/-- The count at a call, and behind a return. -/
def Event.count : Event → Nat
  | .called _ before => before.depth
  | .returned _ _ after _ => after.depth

/-- In `a*(b)` the count is one from the first call behind the parenthesis to the last return in
front of the other one. -/
theorem depth_counts_parentheses_group :
    ∃ s,
      (∀ fuel ≥ 18, (Action.parse fuel).result (.ofText "a*(b)") =
        some (Expression.parse "a*(b)", s)) ∧
      (Expression.parse "a*(b)").map Expression.text = .ok "a*b" ∧
      s.events.reverse.map Event.count = [0, 0, 0, 0, 0, 1, 1, 1, 1, 1, 1, 0, 0, 0] := by
  obtain ⟨s, ran, -⟩ := depth_counts_parentheses "a*(b)"
  have enough : 18 = 3 * ((Token.scan "a*(b)").length + 1) := by decide +kernel
  rw [← enough] at ran
  have counts : ((Action.parse 18).result (.ofText "a*(b)")).map
      (fun (_, s) => s.events.reverse.map Event.count) =
        some [0, 0, 0, 0, 0, 1, 1, 1, 1, 1, 1, 0, 0, 0] := by decide +kernel
  rw [ran 18 (Nat.le_refl _)] at counts
  exact ⟨s, ran, by decide +kernel, Option.some.inj counts⟩

end Parser

end SumProduct
