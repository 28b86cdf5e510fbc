import SumProduct.Expression.Parser
import SumProduct.Proofs.Results

/-!
# The readers, step by step

A reader returns its tree and its rest together with a proof that the rest is shorter, so the type
of the result depends on the items. `Reader.run` forgets the proof. This module says what each
reader does in terms of `run`, one equation for each way it can go on; later proofs use these
equations and open no reader again.

`Reader.loop` is the loop of a chain on its own: what is read of further operands behind a tree.
-/

namespace SumProduct

namespace Expression

namespace Reader

/-- What a reader gives, without the proof that it got further. -/
def run (reader : Reader) (items : List Item) : Except SyntaxError (Expression × List Item) :=
  (reader items).map fun read => (read.tree, read.rest)

theorem run_of_eq_ok {reader : Reader} {items : List Item} {read : Parsed items}
    (parsed : reader items = .ok read) : run reader items = .ok (read.tree, read.rest) := by
  rw [run, parsed]
  rfl

/-- The tree that grows from `tree` when the operands in front of `items` are added to it, and the
items behind them. -/
def loop (operator : TokenKind) (join : Expression → Expression → Expression) (part : Reader)
    (tree : Expression) (items : List Item) : Except SyntaxError (Expression × List Item) :=
  match items with
  | [] => .ok (tree, [])
  | .error e :: _ => .error e
  | .ok token :: rest =>
    if token.kind = operator then
      match part rest with
      | .error e => .error e
      | .ok right => loop operator join part (join tree right.tree) right.rest
    else .ok (tree, .ok token :: rest)
termination_by items.length
decreasing_by
  have := right.shorter
  simp only [List.length_cons]
  omega

/-- Whether a chain of this operator ends in front of the items: they begin with another token, or
there are none. -/
def Stops (operator : TokenKind) : List Item → Prop
  | [] => True
  | .error _ :: _ => False
  | .ok token :: _ => token.kind ≠ operator

section Chains

variable {operator : TokenKind} {join : Expression → Expression → Expression} {part : Reader}
  {tree : Expression} {items rest : List Item} {token : Token} {error : SyntaxError}

theorem Stops.nil : Stops operator [] := trivial

theorem Stops.cons (other : token.kind ≠ operator) : Stops operator (.ok token :: rest) := other

theorem loop_stops (stops : Stops operator items) :
    loop operator join part tree items = .ok (tree, items) := by
  match items, stops with
  | [], _ => rw [loop]
  | .ok token :: rest, other => rw [loop, if_neg other]

@[simp]
theorem loop_error : loop operator join part tree (.error error :: rest) = .error error := by
  rw [loop]

theorem loop_operator (same : token.kind = operator) :
    loop operator join part tree (.ok token :: rest) =
      (run part rest >>= fun right => loop operator join part (join tree right.1) right.2) := by
  rw [loop, if_pos same, run]
  cases part rest <;> rfl

theorem more_eq_loop (read : Parsed items) :
    ((more operator join part read).map fun read => (read.tree, read.rest)) =
      loop operator join part read.tree read.rest := by
  fun_induction more operator join part read with
  | case1 read ended => rw [ended, loop_stops .nil, ← ended]; rfl
  | case2 read error rest failed => rw [failed, loop_error]; rfl
  | case3 read token rest found same error failed =>
    rw [found, loop_operator same, run, failed]
    rfl
  | case4 read token rest found same right parsed ih =>
    rw [ih, found, loop_operator same, run, parsed]
    rfl
  | case5 read token rest found other =>
    rw [found, loop_stops (.cons other), ← found]
    rfl

theorem run_chain :
    run (chain operator join part) items =
      (run part items >>= fun first => loop operator join part first.1 first.2) := by
  unfold run chain
  cases part items with
  | error e => rfl
  | ok first => exact more_eq_loop first

end Chains

section Operands

variable {bytes levels : Nat} {tree : Expression} {rest behind : List Item} {token closing : Token}
  {error : SyntaxError}

theorem run_operand_number {v : Number} (number : token.kind = .number v) :
    run (operand bytes levels) (.ok token :: rest) = .ok (.num v, rest) := by
  simp [run, operand, leafOr, number, Except.map]

theorem run_operand_ident (ident : token.kind = .ident) :
    run (operand bytes levels) (.ok token :: rest) =
      match Variable.ofName token.literal with
      | .ok x => .ok (.var x, rest)
      | .error cause => .error (.invalidLiteral token.literal token.offset cause) := by
  simp only [run, operand, leafOr, ident]
  cases Variable.ofName token.literal <;> rfl

/-- A parenthesis that may not be opened. -/
theorem run_operand_tooDeep (opening : token.kind = .leftParen) :
    run (operand bytes 0) (.ok token :: rest) = .error (.tooDeep token.offset) := by
  simp [run, operand, leafOr, opening, group, Except.map]

/-- What is read behind an opening parenthesis, up to the parenthesis that closes it. -/
def close (bytes : Nat) (tree : Expression) :
    List Item → Except SyntaxError (Expression × List Item)
  | [] => .error (.unexpectedEnd bytes)
  | .error e :: _ => .error e
  | .ok token :: rest =>
    if token.kind = .rightParen then .ok (tree, rest)
    else .error (.unexpectedToken token .closing)

theorem close_eq_ok {items : List Item} {result : Expression}
    (closed : close bytes tree items = .ok (result, rest)) : result = tree ∧
      ∃ closing : Token, closing.kind = .rightParen ∧ items = .ok closing :: rest := by
  match items with
  | [] => cases closed
  | .error e :: _ => cases closed
  | .ok closing :: behind =>
    rw [close] at closed
    split at closed
    · next kind =>
      cases closed
      exact ⟨rfl, closing, kind, rfl⟩
    · cases closed

theorem run_closed {inner : Reader} {items : List Item} :
    run (closed bytes inner) items =
      (run inner items >>= fun read => close bytes read.1 read.2) := by
  unfold run closed
  cases inner items with
  | error e => rfl
  | ok read =>
    obtain ⟨tree, rest, shorter⟩ := read
    match rest, shorter with
    | [], _ => rfl
    | .error e :: _, _ => rfl
    | .ok token :: rest, _ =>
      by_cases closing : token.kind = .rightParen
      · simp [closing, Except.map, close, bind, Except.bind]
      · simp [closing, Except.map, close, bind, Except.bind]

/-- A parenthesis opens a sum with one level less. -/
theorem run_operand_group (opening : token.kind = .leftParen) :
    run (operand bytes (levels + 1)) (.ok token :: rest) =
      (run (sum bytes levels) rest >>= fun read => close bytes read.1 read.2) := by
  rw [← run_closed, ← group_succ bytes levels token]
  simp only [run, operand, leafOr, opening]
  cases group bytes (levels + 1) token rest <;> rfl

theorem run_operand_other (other : token.kind = .rightParen ∨ token.kind = .plus ∨
    token.kind = .star) :
    run (operand bytes levels) (.ok token :: rest) = .error (.unexpectedToken token .operand) := by
  rcases other with other | other | other <;> simp [run, operand, leafOr, other, Except.map]

/-- The ways to read an operand: a number, a variable, or a sum between parentheses. -/
theorem operand_eq_ok {items : List Item}
    (read : run (operand bytes levels) items = .ok (tree, rest)) :
    (∃ token v, items = .ok token :: rest ∧ token.kind = .number v ∧ tree = .num v) ∨
    (∃ token x, items = .ok token :: rest ∧ token.kind = .ident ∧
      Variable.ofName token.literal = .ok x ∧ tree = .var x) ∨
    (∃ opening closing fewer inner, levels = fewer + 1 ∧ items = .ok opening :: inner ∧
      opening.kind = .leftParen ∧ closing.kind = .rightParen ∧
      run (sum bytes fewer) inner = .ok (tree, .ok closing :: rest)) := by
  match items with
  | [] => cases read
  | .error e :: _ => cases read
  | .ok token :: behind =>
    match kind : token.kind with
    | .number v =>
      rw [run_operand_number kind] at read
      cases read
      exact .inl ⟨token, v, rfl, kind, rfl⟩
    | .ident =>
      rw [run_operand_ident kind] at read
      split at read
      · next x named =>
        cases read
        exact .inr (.inl ⟨token, x, rfl, kind, named, rfl⟩)
      · cases read
    | .leftParen =>
      match levels with
      | 0 => rw [run_operand_tooDeep kind] at read; cases read
      | fewer + 1 =>
        rw [run_operand_group kind, bind_eq_ok] at read
        obtain ⟨⟨inner, after⟩, summed, closed⟩ := read
        obtain ⟨rfl, closing, closes, rfl⟩ := close_eq_ok closed
        exact .inr (.inr ⟨token, closing, fewer, behind, rfl, rfl, kind, closes, summed⟩)
    | .rightParen => rw [run_operand_other (.inl kind)] at read; cases read
    | .plus => rw [run_operand_other (.inr (.inl kind))] at read; cases read
    | .star => rw [run_operand_other (.inr (.inr kind))] at read; cases read

end Operands

/-! ## Where readers stop -/

section Stopping

variable {operator : TokenKind} {join : Expression → Expression → Expression} {part : Reader}
  {tree result : Expression} {items rest : List Item}

/-- A loop ends where its operator does not follow. What holds behind each of its operands also
holds there. -/
theorem loop_ends {Ends : List Item → Prop} (start : Ends items)
    (parts : ∀ items tree rest, run part items = .ok (tree, rest) → Ends rest)
    (looped : loop operator join part tree items = .ok (result, rest)) :
    Ends rest ∧ Stops operator rest := by
  fun_induction loop operator join part tree items with
  | case1 tree =>
    cases looped
    exact ⟨start, .nil⟩
  | case2 => cases looped
  | case3 => cases looped
  | case4 tree token behind same right parsed ih =>
    exact ih (parts _ _ _ (run_of_eq_ok parsed)) looped
  | case5 tree token behind other =>
    cases looped
    exact ⟨start, .cons other⟩

theorem chain_ends (Ends : List Item → Prop)
    (parts : ∀ items tree rest, run part items = .ok (tree, rest) → Ends rest)
    (read : run (chain operator join part) items = .ok (tree, rest)) :
    Ends rest ∧ Stops operator rest := by
  rw [run_chain, bind_eq_ok] at read
  obtain ⟨⟨first, behind⟩, first_read, looped⟩ := read
  exact loop_ends (parts _ _ _ first_read) parts looped

/-- Behind a product there is no `*`. -/
theorem product_stops {bytes levels : Nat}
    (read : run (product bytes levels) items = .ok (tree, rest)) : Stops .star rest :=
  (chain_ends (fun _ => True) (fun _ _ _ _ => trivial) read).2

/-- Behind a sum there is neither `*` nor `+`. -/
theorem sum_stops {bytes levels : Nat}
    (read : run (sum bytes levels) items = .ok (tree, rest)) :
    Stops .star rest ∧ Stops .plus rest :=
  chain_ends (Stops .star) (fun _ _ _ => product_stops) read

end Stopping

end Reader

/-- An expression that was read with these items left behind it. -/
def finish (tree : Expression) : List Item → Except SyntaxError Expression
  | [] => .ok tree
  | .error e :: _ => .error e
  | .ok token :: _ => .error (.unexpectedToken token .nothing)

@[simp] theorem finish_eq_ok {tree result : Expression} {items : List Item} :
    finish tree items = .ok result ↔ items = [] ∧ result = tree := by
  match items with
  | [] => simp [finish, eq_comm]
  | .error e :: _ => simp [finish]
  | .ok token :: _ => simp [finish]

/-- An expression is a sum with nothing left behind it. -/
theorem ofItems_eq {bytes : Nat} {items : List Item} :
    ofItems bytes items =
      (Reader.run (Reader.sum bytes nestingLimit) items >>= fun read => finish read.1 read.2) := by
  unfold ofItems Reader.run
  cases Reader.sum bytes nestingLimit items with
  | error e => rfl
  | ok read =>
    obtain ⟨tree, rest, shorter⟩ := read
    match rest, shorter with
    | [], _ => rfl
    | .error e :: _, _ => rfl
    | .ok token :: rest, _ => rfl

end Expression

end SumProduct
