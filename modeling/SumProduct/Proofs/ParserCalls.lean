import SumProduct.Proofs.Lookahead
import SumProduct.Proofs.RoundTrip

/-!
# A parser with a counter

The readers of expressions are handed how many parentheses may still be opened. A parser keeps a
count of its own instead, next to its lexer: one procedure for each phrase of the grammar takes
tokens from the lexer, counts a parenthesis when it has taken it, and takes the count back when it
has taken the one that closes it. In between it calls other procedures, and any of these may fail.

`Parser.Action` are the actions of such a parser. It keeps what it has changed when it fails, and it
notes each call of a procedure and each return with a tree. Nothing in the procedures says that
there are only finitely many calls, so they are given fuel, and an action that has used it up has no
outcome at all. An outcome does not depend on the fuel (`parse_within`).

Results:
1. `Does.bind`: one action after the other.
2. `parse_within`: what comes to an end with some fuel ends in the same way with more.
3. `call_notes`: each call is noted, and each return with a tree. What is noted stays in the log
   (`logs_call`).
4. `Stands.take`, `Stands.count`: in front of which items the parser stands after a step, and with
   which count.
-/

namespace SumProduct

open Expression

/-- A lexer, and how many parentheses are counted as open. -/
structure Parser where
  lexer : Lexer
  depth : Nat

namespace Parser

/-! ## The program -/

/-- What is noted: that the procedure for a phrase is called, or that it returns a tree. -/
inductive Event where
  | called (phrase : Phrase) (before : Parser)
  | returned (phrase : Phrase) (before after : Parser) (tree : Expression)

structure State where
  parser : Parser
  events : List Event

/-- The state in front of a text. -/
def State.ofText (text : String) : State := ⟨⟨.ofText text, 0⟩, []⟩

/-- An action may have no outcome at all. -/
abbrev Action := ExceptT SyntaxError (StateT State Option)

namespace Action

/-- Asks the lexer. -/
def ask {α : Type} (question : Lexer → α × Lexer) : Action α := do
  let s ← get
  set { s with parser.lexer := (question s.parser.lexer).2 }
  return (question s.parser.lexer).1

def next : Action (Option Token) := do
  match ← ask Lexer.next with
  | none => return none
  | some (.ok token) => return some token
  | some (.error e) => throw e

def nextIf (kind : TokenKind) : Action (Option Token) := do
  MonadExcept.ofExcept (← ask (·.nextIf kind))

def expect (kind : TokenKind) (reason : String) : Action Token := do
  MonadExcept.ofExcept (← ask (·.expect kind reason))

def depth : Action Nat := return (← get).parser.depth

def setDepth (depth : Nat) : Action Unit := modify fun s => { s with parser.depth := depth }

def note (event : Event) : Action Unit := modify fun s => { s with events := event :: s.events }

/-- Notes a call, and remembers the parser as it is then. -/
def enter (phrase : Phrase) : Action Parser := do
  let before := (← get).parser
  note (.called phrase before)
  return before

/-- Notes that a call returns. -/
def leave (phrase : Phrase) (before : Parser) (tree : Expression) : Action Expression := do
  note (.returned phrase before (← get).parser tree)
  return tree

/-- Goes on for longer than it may. -/
def exhausted {α : Type} : Action α := ExceptT.mk fun _ => none

/-- The loop of a chain: for as long as the operator is taken, one more part is joined. -/
def more (operator : TokenKind) (join : Expression → Expression → Expression)
    (part : Action Expression) : Nat → Expression → Action Expression
  | 0, _ => exhausted
  | rounds + 1, tree => do
    match ← nextIf operator with
    | none => return tree
    | some _ => more operator join part rounds (join tree (← part))

/-- What the procedure for a phrase does. -/
def body (call : Phrase → Action Expression) (fuel : Nat) : Phrase → Action Expression
  | .sum => do more .plus .sum (call .product) fuel (← call .product)
  | .product => do more .star .prod (call .primitive) fuel (← call .primitive)
  | .primitive => do
    match ← next with
    | none => throw (.unexpectedEnd (← get).parser.lexer.byte)
    | some token =>
      match token.kind with
      | .number v => return .num v
      | .ident =>
        match Variable.ofName token.literal with
        | .ok x => return .var x
        | .error cause => throw (.invalidLiteral token.literal token.offset cause)
      | .leftParen =>
        if (← depth) = nestingLimit then throw (.tooDeep token.offset)
        else
          setDepth ((← depth) + 1)
          let tree ← call .sum
          let _ ← expect .rightParen "expected `)` to close the parenthesis"
          setDepth ((← depth) - 1)
          return tree
      | .rightParen | .plus | .star => throw (.unexpectedToken token .operand)

/-- A call of the procedure for a phrase. The fuel is how many calls may stand inside one another,
and how many rounds a loop may take. -/
def call : Nat → Phrase → Action Expression
  | 0, _ => exhausted
  | fuel + 1, phrase => do
    let before ← enter phrase
    leave phrase before (← body (call fuel) fuel phrase)

/-- Reads a whole text as one expression. -/
def parse (fuel : Nat) : Action Expression := do
  let tree ← call fuel .sum
  match ← next with
  | none => return tree
  | some token => throw (.unexpectedToken token .nothing)

/-- The outcome of an action and the state behind it, if it comes to an end. -/
def result {α : Type} (action : Action α) (s : State) : Option (Except SyntaxError α × State) :=
  action.run.run s

end Action

/-! ## One action after the other -/

/-- The parser stands in front of these items of the text with this count, and all that has been
noted is right. -/
structure Stands (Right : Event → Prop) (text : String) (depth : Nat) (items : List Item)
    (s : State) : Prop where
  placed : Lexer.At text.toList s.parser.lexer
  pending : s.parser.lexer.pending = items
  depth_eq : s.parser.depth = depth
  noted : ∀ event ∈ s.events, Right event

/-- The action comes to an end, with an error or with a value and these items still to come. All
that is noted is right, and behind a value the parser has this count. -/
inductive Does (Right : Event → Prop) (text : String) (depth : Nat) {α : Type} (action : Action α)
    (s : State) : Except SyntaxError (α × List Item) → Prop
  | ok {s' : State} {value : α} {rest : List Item} : action.result s = some (.ok value, s') →
      Stands Right text depth rest s' → Does Right text depth action s (.ok (value, rest))
  | error {s' : State} {e : SyntaxError} : action.result s = some (.error e, s') →
      (∀ event ∈ s'.events, Right event) → Does Right text depth action s (.error e)

section Running

open SumProduct.Parser.Action

variable {α β : Type} {Right : Event → Prop} {text : String} {depth depth' : Nat}
  {items rest : List Item} {action : Action α} {f : α → Action β} {s s' : State} {value : α}
  {e : SyntaxError} {outcome : Except SyntaxError (α × List Item)}
  {outcome' : Except SyntaxError (β × List Item)}

theorem result_bind_ok (ran : action.result s = some (.ok value, s')) :
    (action >>= f).result s = (f value).result s' := by
  show (action.result s >>= fun (outcome, s) => (ExceptT.bindCont f outcome).run s) = _
  rw [ran]
  rfl

theorem result_bind_error (ran : action.result s = some (.error e, s')) :
    (action >>= f).result s = some (.error e, s') := by
  show (action.result s >>= fun (outcome, s) => (ExceptT.bindCont f outcome).run s) = _
  rw [ran]
  rfl

theorem result_bind_none (ran : action.result s = none) : (action >>= f).result s = none := by
  show (action.result s >>= fun (outcome, s) => (ExceptT.bindCont f outcome).run s) = _
  rw [ran]
  rfl

/-- What two actions do, by what the first one does. -/
theorem exists_of_result_bind {ended : Except SyntaxError β}
    (ran : (action >>= f).result s = some (ended, s')) :
    (∃ e, action.result s = some (.error e, s') ∧ ended = .error e) ∨
      ∃ value middle, action.result s = some (.ok value, middle) ∧
        (f value).result middle = some (ended, s') := by
  cases first : action.result s with
  | none =>
    rw [result_bind_none first] at ran
    cases ran
  | some found =>
    obtain ⟨outcome, middle⟩ := found
    cases outcome with
    | error e =>
      rw [result_bind_error first] at ran
      cases ran
      exact .inl ⟨e, rfl, rfl⟩
    | ok value =>
      rw [result_bind_ok first] at ran
      exact .inr ⟨value, middle, rfl, ran⟩

theorem Does.pure (stands : Stands Right text depth items s) :
    Does Right text depth (Pure.pure value) s (.ok (value, items)) :=
  .ok rfl stands

theorem Does.throw (stands : Stands Right text depth items s) :
    Does Right text depth' (MonadExcept.throw e : Action α) s (.error e) :=
  .error rfl stands.noted

theorem Does.step (ran : action.result s = some (.ok value, s'))
    (continued : Does Right text depth (f value) s' outcome') :
    Does Right text depth (action >>= f) s outcome' := by
  cases continued with
  | ok ran' stands => exact .ok ((result_bind_ok ran).trans ran') stands
  | error ran' noted => exact .error ((result_bind_ok ran).trans ran') noted

/-- What follows goes on where the first action ends, or the first action fails. -/
theorem Does.bind {further : α × List Item → Except SyntaxError (β × List Item)}
    (first : Does Right text depth action s outcome)
    (next : ∀ value rest s', outcome = .ok (value, rest) → Stands Right text depth rest s' →
      Does Right text depth' (f value) s' (further (value, rest))) :
    Does Right text depth' (action >>= f) s (outcome >>= further) := by
  cases first with
  | ok ran stands => exact .step ran (next _ _ _ rfl stands)
  | error ran noted => exact .error (result_bind_error ran) noted

theorem Does.bind_ok (first : Does Right text depth action s (.ok (value, rest)))
    (next : ∀ s', Stands Right text depth rest s' → Does Right text depth' (f value) s' outcome') :
    Does Right text depth' (action >>= f) s outcome' := by
  cases first with
  | ok ran stands => exact .step ran (next _ stands)

theorem Does.bind_error (first : Does Right text depth action s (.error e)) :
    Does Right text depth' (action >>= f) s (.error e) := by
  cases first with
  | error ran noted => exact .error (result_bind_error ran) noted

end Running

/-! ## More fuel -/

/-- Wherever the first action has an outcome, the second one has the same. -/
def Action.Within {α : Type} (action further : Action α) : Prop :=
  ∀ s outcome, action.result s = some outcome → further.result s = some outcome

section Fuel

open SumProduct.Parser.Action

variable {α β : Type} {action further : Action α} {f f' : α → Action β}
  {operator : TokenKind} {join : Expression → Expression → Expression}
  {part part' : Action Expression} {calls calls' : Phrase → Action Expression} {phrase : Phrase}
  {tree : Expression} {fuel fuel' rounds rounds' : Nat}

theorem Action.Within.refl (action : Action α) : Within action action := fun _ _ ran => ran

theorem Action.Within.exhausted : Within exhausted action := fun _ _ ran => nomatch ran

theorem Action.Within.bind (first : Within action further)
    (next : ∀ value, Within (f value) (f' value)) : Within (action >>= f) (further >>= f') := by
  intro s (outcome, s') ran
  rcases exists_of_result_bind ran with ⟨e, failed, rfl⟩ | ⟨value, middle, ended, continued⟩
  · exact result_bind_error (first _ _ failed)
  · exact (result_bind_ok (first _ _ ended)).trans (next _ _ _ continued)

/-- By induction on the rounds. -/
theorem more_within (parts : Within part part') (fewer : rounds ≤ rounds') :
    Within (more operator join part rounds tree) (more operator join part' rounds' tree) := by
  induction rounds generalizing rounds' tree with
  | zero => exact .exhausted
  | succ rounds ih =>
    obtain ⟨rounds', rfl⟩ := Nat.exists_eq_add_of_le' (Nat.zero_lt_of_lt fewer)
    rw [more, more]
    refine .bind (.refl _) fun found => ?_
    cases found with
    | none => exact .refl _
    | some token => exact parts.bind fun right => ih (Nat.le_of_succ_le_succ fewer)

theorem body_within (within : ∀ phrase, Within (calls phrase) (calls' phrase))
    (fewer : fuel ≤ fuel') : Within (body calls fuel phrase) (body calls' fuel' phrase) := by
  cases phrase with
  | sum => exact (within .product).bind fun tree => more_within (within .product) fewer
  | product => exact (within .primitive).bind fun tree => more_within (within .primitive) fewer
  | primitive =>
    refine .bind (.refl _) fun found => ?_
    cases found with
    | none => exact .refl _
    | some token =>
      cases kind : token.kind with
      | leftParen =>
        simp only [kind]
        refine .bind (.refl _) fun depth => ?_
        split
        · exact .refl _
        · exact .bind (.refl _) fun _ => .bind (.refl _) fun _ =>
            (within .sum).bind fun _ => .refl _
      | number v | ident | rightParen | plus | star =>
        simp only [kind]
        exact .refl _

/-- By induction on the fuel: what comes to an end with some fuel ends in the same way with more. -/
theorem call_within (fewer : fuel ≤ fuel') : Within (call fuel phrase) (call fuel' phrase) := by
  induction fuel generalizing fuel' phrase with
  | zero => exact .exhausted
  | succ fuel ih =>
    obtain ⟨fuel', rfl⟩ := Nat.exists_eq_add_of_le' (Nat.zero_lt_of_lt fewer)
    have less := Nat.le_of_succ_le_succ fewer
    exact .bind (.refl _) fun _ => (body_within (fun _ => ih less) less).bind fun _ => .refl _

theorem parse_within (fewer : fuel ≤ fuel') : Within (parse fuel) (parse fuel') :=
  (call_within fewer).bind fun _ => .refl _

end Fuel

/-! ## What stands in the log -/

/-- However the action ends, what was noted before is still noted. -/
def Action.Logs {α : Type} (action : Action α) : Prop :=
  ∀ s outcome s', action.result s = some (outcome, s') → s.events <:+ s'.events

section Log

open SumProduct.Parser.Action

variable {α β : Type} {action : Action α} {f : α → Action β} {operator : TokenKind}
  {join : Expression → Expression → Expression} {part : Action Expression}
  {calls : Phrase → Action Expression} {phrase : Phrase} {tree : Expression} {fuel rounds : Nat}
  {s s' : State} {outcome : Except SyntaxError Expression}

theorem Action.Logs.bind (first : Logs action) (next : ∀ value, Logs (f value)) :
    Logs (action >>= f) := by
  intro s outcome s' ran
  rcases exists_of_result_bind ran with ⟨e, failed, -⟩ | ⟨value, middle, ended, continued⟩
  · exact first _ _ _ failed
  · exact (first _ _ _ ended).trans (next _ _ _ _ continued)

theorem Action.Logs.exhausted : Logs (exhausted : Action α) := fun _ _ _ ran => nomatch ran

theorem Action.Logs.pure (value : α) : Logs (Pure.pure value) := by
  rintro s _ _ ⟨⟩
  exact List.suffix_refl _

theorem Action.Logs.throw (e : SyntaxError) : Logs (MonadExcept.throw e : Action α) := by
  rintro s _ _ ⟨⟩
  exact List.suffix_refl _

theorem Action.Logs.ofExcept (found : Except SyntaxError α) :
    Logs (MonadExcept.ofExcept found : Action α) := by
  cases found with
  | ok value => exact .pure value
  | error e => exact .throw e

theorem logs_ask (question : Lexer → α × Lexer) : Logs (ask question) := by
  rintro s _ _ ⟨⟩
  exact List.suffix_refl _

theorem logs_next : Logs next := by
  refine (logs_ask _).bind fun found => ?_
  cases found with
  | none => exact .pure _
  | some item =>
    cases item with
    | ok token => exact .pure _
    | error e => exact .throw e

theorem logs_nextIf (kind : TokenKind) : Logs (nextIf kind) := (logs_ask _).bind .ofExcept

theorem logs_expect (kind : TokenKind) (reason : String) : Logs (expect kind reason) :=
  (logs_ask _).bind .ofExcept

theorem logs_depth : Logs Action.depth := by
  rintro s _ _ ⟨⟩
  exact List.suffix_refl _

theorem logs_setDepth (depth : Nat) : Logs (setDepth depth) := by
  rintro s _ _ ⟨⟩
  exact List.suffix_refl _

/-- By induction on the rounds. -/
theorem logs_more (parts : Logs part) : Logs (more operator join part rounds tree) := by
  induction rounds generalizing tree with
  | zero => exact .exhausted
  | succ rounds ih =>
    rw [more]
    refine (logs_nextIf operator).bind fun found => ?_
    cases found with
    | none => exact .pure tree
    | some token => exact parts.bind fun right => ih

theorem logs_body (logs : ∀ phrase, Logs (calls phrase)) : Logs (body calls fuel phrase) := by
  cases phrase with
  | sum => exact (logs .product).bind fun tree => logs_more (logs .product)
  | product => exact (logs .primitive).bind fun tree => logs_more (logs .primitive)
  | primitive =>
    rw [body]
    refine logs_next.bind fun found => ?_
    cases found with
    | none =>
      rintro s _ _ ⟨⟩
      exact List.suffix_refl _
    | some token =>
      cases kind : token.kind with
      | number v =>
        simp only [kind]
        exact .pure _
      | ident =>
        simp only [kind]
        cases Variable.ofName token.literal with
        | ok x => exact .pure _
        | error cause => exact .throw _
      | leftParen =>
        simp only [kind]
        refine logs_depth.bind fun depth => ?_
        split
        · exact .throw _
        · refine logs_depth.bind fun depth => (logs_setDepth _).bind fun _ => ?_
          exact (logs .sum).bind fun tree => (logs_expect _ _).bind fun _ =>
            logs_depth.bind fun _ => (logs_setDepth _).bind fun _ => .pure _
      | rightParen | plus | star =>
        simp only [kind]
        exact .throw _

theorem logs_enter : Logs (enter phrase) := by
  rintro s _ _ ⟨⟩
  exact List.suffix_cons ..

theorem logs_leave (before : Parser) : Logs (leave phrase before tree) := by
  rintro s _ _ ⟨⟩
  exact List.suffix_cons ..

theorem result_enter : (enter phrase).result s =
    some (.ok s.parser, { s with events := .called phrase s.parser :: s.events }) := rfl

/-- By induction on the fuel. -/
theorem logs_call : Logs (call fuel phrase) := by
  induction fuel generalizing phrase with
  | zero => exact .exhausted
  | succ fuel ih =>
    exact logs_enter.bind fun _ => (logs_body fun _ => ih).bind fun _ => logs_leave _

/-- A call is noted in front of all that is noted meanwhile. When it returns a tree, this is noted
last of all. -/
theorem call_notes (ran : (call (fuel + 1) phrase).result s = some (outcome, s')) :
    .called phrase s.parser :: s.events <:+ s'.events ∧
    ∀ tree, outcome = .ok tree → ∃ meanwhile,
      s'.events = .returned phrase s.parser s'.parser tree :: meanwhile ∧
      .called phrase s.parser :: s.events <:+ meanwhile := by
  have inside : Logs (body (call fuel) fuel phrase) := logs_body fun _ => logs_call
  rw [call, result_bind_ok result_enter] at ran
  rcases exists_of_result_bind ran with ⟨e, failed, rfl⟩ | ⟨tree, middle, ended, left⟩
  · exact ⟨inside _ _ _ failed, nofun⟩
  · cases left
    have noted := inside _ _ _ ended
    refine ⟨noted.trans (List.suffix_cons ..), ?_⟩
    rintro _ ⟨⟩
    exact ⟨_, rfl, noted⟩

/-- Behind the sum a text has to end, or there is no tree. -/
theorem finish_notes (ran : Action.result (do
      match ← next with
      | none => return tree
      | some token => throw (.unexpectedToken token .nothing)) s = some (outcome, s')) :
    s.events <:+ s'.events ∧ ∀ found, outcome = .ok found → found = tree := by
  rcases exists_of_result_bind ran with ⟨e, failed, rfl⟩ | ⟨found, behind, taken, finished⟩
  · exact ⟨logs_next _ _ _ failed, nofun⟩
  · have kept := logs_next _ _ _ taken
    cases found with
    | none =>
      cases finished
      exact ⟨kept, fun found same => (Except.ok.inj same).symm⟩
    | some token =>
      cases finished
      exact ⟨kept, nofun⟩

/-- The call for the whole text is noted, and its return when the text has a tree. -/
theorem parse_notes {text : String}
    (ran : (Action.parse (fuel + 1)).result (.ofText text) = some (outcome, s)) :
    .called .sum (State.ofText text).parser ∈ s.events ∧
    ∀ tree, outcome = .ok tree →
      ∃ after, .returned .sum (State.ofText text).parser after tree ∈ s.events := by
  rcases exists_of_result_bind ran with ⟨e, failed, rfl⟩ | ⟨tree, middle, ended, finished⟩
  · exact ⟨(call_notes failed).1.subset List.mem_cons_self, nofun⟩
  · obtain ⟨called, returned⟩ := call_notes ended
    obtain ⟨meanwhile, last, -⟩ := returned tree rfl
    obtain ⟨kept, same⟩ := finish_notes finished
    refine ⟨(called.trans kept).subset List.mem_cons_self, fun found read => ?_⟩
    rw [same found read]
    refine ⟨middle.parser, kept.subset ?_⟩
    rw [last]
    exact List.mem_cons_self

end Log

/-! ## Single actions -/

section Steps

open SumProduct.Parser.Action

variable {α : Type} {Right : Event → Prop} {text : String} {depth depth' : Nat}
  {items rest : List Item} {s : State} {token : Token} {kind : TokenKind} {reason : String}
  {e : SyntaxError}

namespace Stands

theorem found (stands : Stands Right text depth items s) :
    s.parser.lexer.next.1 = items.head? := by
  rw [(Lexer.next_pending _).1, stands.pending]

theorem take (stands : Stands Right text depth items s) :
    Stands Right text depth items.tail { s with parser.lexer := s.parser.lexer.next.2 } where
  placed := stands.placed.next
  pending := by
    rw [← stands.pending]
    exact (Lexer.next_pending _).2
  depth_eq := stands.depth_eq
  noted := stands.noted

theorem look (stands : Stands Right text depth items s) :
    Stands Right text depth items { s with parser.lexer := s.parser.lexer.peek.2 } where
  placed := by
    rw [Lexer.snd_peek]
    exact stands.placed.next
  pending := (Lexer.pending_peek _).trans stands.pending
  depth_eq := stands.depth_eq
  noted := stands.noted

theorem count (stands : Stands Right text depth items s) (depth' : Nat) :
    Stands Right text depth' items { s with parser.depth := depth' } :=
  ⟨stands.placed, stands.pending, rfl, stands.noted⟩

theorem note {event : Event} (stands : Stands Right text depth items s) (right : Right event) :
    Stands Right text depth items { s with events := event :: s.events } :=
  ⟨stands.placed, stands.pending, stands.depth_eq, List.forall_mem_cons.mpr ⟨right, stands.noted⟩⟩

/-- Where no item is left, all bytes of the text are counted when the next one is asked for. -/
theorem byte_next (stands : Stands Right text depth [] s) :
    s.parser.lexer.next.2.byte = Text.size text.toList :=
  stands.placed.byte_next stands.found

end Stands

theorem result_ask (question : Lexer → α × Lexer) :
    (ask question).result s = some (.ok (question s.parser.lexer).1,
      { s with parser.lexer := (question s.parser.lexer).2 }) := rfl

theorem result_next_nil (stands : Stands Right text depth [] s) : next.result s =
    some (.ok none, { s with parser.lexer := s.parser.lexer.next.2 }) := by
  refine (result_bind_ok (result_ask Lexer.next)).trans ?_
  rw [stands.found]
  rfl

theorem next_error (stands : Stands Right text depth (.error e :: rest) s) :
    Does Right text depth next s (.error e) := by
  refine .step (result_ask Lexer.next) ?_
  rw [stands.found]
  exact .throw stands.take

theorem next_token (stands : Stands Right text depth (.ok token :: rest) s) :
    Does Right text depth next s (.ok (some token, rest)) := by
  refine .step (result_ask Lexer.next) ?_
  rw [stands.found]
  exact .pure stands.take

theorem nextIf_error (stands : Stands Right text depth (.error e :: rest) s) :
    Does Right text depth (nextIf kind) s (.error e) := by
  refine .step (result_ask (·.nextIf kind)) ?_
  simp only [Lexer.nextIf_eq, stands.found]
  exact .throw stands.take

theorem nextIf_token (stands : Stands Right text depth (.ok token :: rest) s)
    (same : token.kind = kind) :
    Does Right text depth (nextIf kind) s (.ok (some token, rest)) := by
  refine .step (result_ask (·.nextIf kind)) ?_
  simp only [Lexer.nextIf_eq, stands.found, List.head?_cons, if_pos same]
  exact .pure stands.take

theorem nextIf_stops (stands : Stands Right text depth items s) (stops : Reader.Stops kind items) :
    Does Right text depth (nextIf kind) s (.ok (none, items)) := by
  refine .step (result_ask (·.nextIf kind)) ?_
  match items, stops with
  | [], _ =>
    simp only [Lexer.nextIf_eq, stands.found, List.head?_nil]
    exact .pure stands.look
  | .ok token :: rest, other =>
    have other : token.kind ≠ kind := other
    simp only [Lexer.nextIf_eq, stands.found, List.head?_cons, if_neg other]
    exact .pure stands.look

theorem expect_nil (stands : Stands Right text depth [] s) :
    Does Right text depth (expect kind reason) s
      (.error (.unexpectedEnd (Text.size text.toList))) := by
  refine .step (result_ask (·.expect kind reason)) ?_
  simp only [Lexer.expect_eq, stands.found, List.head?_nil, stands.byte_next]
  exact .throw stands.take

theorem expect_error (stands : Stands Right text depth (.error e :: rest) s) :
    Does Right text depth (expect kind reason) s (.error e) := by
  refine .step (result_ask (·.expect kind reason)) ?_
  simp only [Lexer.expect_eq, stands.found]
  exact .throw stands.take

theorem expect_token (stands : Stands Right text depth (.ok token :: rest) s)
    (same : token.kind = kind) :
    Does Right text depth (expect kind reason) s (.ok (token, rest)) := by
  refine .step (result_ask (·.expect kind reason)) ?_
  simp only [Lexer.expect_eq, stands.found, List.head?_cons, if_pos same]
  exact .pure stands.take

theorem expect_other (stands : Stands Right text depth (.ok token :: rest) s)
    (other : token.kind ≠ kind) :
    Does Right text depth (expect kind reason) s
      (.error (.unexpectedToken token (.kind kind reason))) := by
  refine .step (result_ask (·.expect kind reason)) ?_
  simp only [Lexer.expect_eq, stands.found, List.head?_cons, if_neg other]
  exact .throw stands.take

theorem result_depth (stands : Stands Right text depth items s) :
    Action.depth.result s = some (.ok depth, s) := by
  rw [← stands.depth_eq]
  rfl

end Steps

end Parser

end SumProduct
