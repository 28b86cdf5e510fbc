import SumProduct.Proofs.Grammar
import SumProduct.Proofs.Segmentation

/-!
# Reading with a counter

A text is an expression or not, and if not has its error, by a scan over its items that keeps in
mind two things: whether an operand is due, and how many parentheses are open. `Place` is what the
scan keeps in mind and `Place.step` says what a token does to it. The readers follow each other's
calls instead; `Follows` says that a reader goes from a place in front of an operand to the place
behind it, and it is shown for each reader along its calls.

Results:
1. `sum_follows`: the reader of sums takes the scan behind an operand, or has its error.
2. `parse_scan`: reading a text has the outcome of the scan.
-/

namespace SumProduct

/-- What an error says: where, in which words, and with which advice. -/
def SyntaxError.Says (e : SyntaxError) (span : Span) (message : String)
    (help : Option String) : Prop :=
  e.span = span ∧ e.diagnostic.message = message ∧ e.diagnostic.help = help

namespace Expression

/-! ## The scan -/

/-- In front of an operand or behind one, inside so many open parentheses. -/
inductive Place where
  | before (depth : Nat)
  | behind (depth : Nat)

namespace Place

/-- The place behind a token that stands behind an operand and joins nothing to it. It has to
close a parenthesis, if one is open. -/
def close (token : Token) : (depth : Nat) → Except SyntaxError Place
  | 0 => .error (.unexpectedToken token .nothing)
  | depth + 1 =>
    if token.kind = .rightParen then .ok (behind depth)
    else .error (.unexpectedToken token .closing)

/-- The place behind a token, or why it may not stand there. -/
def step (token : Token) : Place → Except SyntaxError Place
  | before depth =>
    match token.kind with
    | .number _ | .ident => .ok (behind depth)
    | .leftParen =>
      if depth = nestingLimit then .error (.tooDeep token.offset) else .ok (before (depth + 1))
    | .rightParen | .plus | .star => .error (.unexpectedToken token .operand)
  | behind depth =>
    if token.kind = .plus ∨ token.kind = .star then .ok (before depth) else close token depth

/-- Whether the text may end at a place. It has so many bytes. -/
def finish (bytes : Nat) : Place → Except SyntaxError Unit
  | behind 0 => .ok ()
  | _ => .error (.unexpectedEnd bytes)

/-- Goes over the items from a place on. The first fault is the error. -/
def scan (bytes : Nat) (place : Place) : List Item → Except SyntaxError Unit
  | [] => place.finish bytes
  | .error e :: _ => .error e
  | .ok token :: rest => place.step token >>= fun next => next.scan bytes rest

end Place

/-- All names among the items are names of variables. -/
def Named (items : List Item) : Prop :=
  ∀ token : Token, .ok token ∈ items → token.kind = .ident → ∃ x : Variable, x.name = token.literal

theorem Named.behind (read : List Item) {rest : List Item} (named : Named (read ++ rest)) :
    Named rest :=
  fun token mem => named token (List.mem_append_right read mem)

/-- The names that are cut from a text are names of variables. -/
theorem named_scan (text : String) : Named (Token.scan text) := by
  intro token mem ident
  obtain ⟨before, lexeme, after, -, cut⟩ := Token.exists_cut_of_mem_scan mem
  cases cut with
  | name word =>
    refine ⟨⟨String.ofList lexeme, ?_, ?_⟩, rfl⟩
    · rw [String.toList_ofList]
      exact word.nonempty
    · rw [String.toList_ofList]
      exact word.inside
  | symbol symbol =>
    rcases Token.mem_symbols.mp symbol with ⟨-, rfl⟩ | ⟨-, rfl⟩ | ⟨-, rfl⟩ | ⟨-, rfl⟩ <;>
      cases ident
  | number => cases ident

namespace Reader

/-! ## Readers and the scan -/

/-- The scan goes from a place in front of an operand on as behind what the reader reads, and fails
where the reader fails. -/
def Follows (bytes depth : Nat) (reader : Reader) : Prop :=
  ∀ items, Named items → (Place.before depth).scan bytes items =
    (run reader items >>= fun read => (Place.behind depth).scan bytes read.2)

section Following

variable {bytes depth levels : Nat} {operator : TokenKind}
  {join : Expression → Expression → Expression} {part : Reader} {tree : Expression}
  {items : List Item} {token : Token}

/-- By induction along the loop: in front of each operand the scan has passed its operator. -/
theorem loop_follows {Spells : List Token → Expression → Prop} (sound : Sound part Spells)
    (follows : Follows bytes depth part) (joins : operator = .plus ∨ operator = .star)
    (named : Named items) : (Place.behind depth).scan bytes items =
      (loop operator join part tree items >>= fun read =>
        (Place.behind depth).scan bytes read.2) := by
  have joined {token : Token} {rest : List Item} (same : token.kind = operator)
      (named : Named (.ok token :: rest)) : (Place.behind depth).scan bytes (.ok token :: rest) =
        (run part rest >>= fun read => (Place.behind depth).scan bytes read.2) := by
    rw [Place.scan, Place.step, if_pos (same ▸ joins)]
    exact follows rest (Named.behind [.ok token] named)
  fun_induction loop operator join part tree items with
  | case1 tree => rfl
  | case2 tree e rest => rfl
  | case3 tree token rest same e failed =>
    rw [joined same named, run, failed]
    rfl
  | case4 tree token rest same right parsed ih =>
    have read := run_of_eq_ok parsed
    obtain ⟨tokens, split, -⟩ := sound _ _ _ read
    have behind : Named right.rest := by
      rw [split] at named
      exact Named.behind (.ok token :: tokens.map .ok) named
    rw [joined same named, read]
    exact ih behind
  | case5 tree token rest other => rfl

theorem chain_follows {Spells : List Token → Expression → Prop} (sound : Sound part Spells)
    (follows : Follows bytes depth part) (joins : operator = .plus ∨ operator = .star) :
    Follows bytes depth (chain operator join part) := by
  intro items named
  rw [follows items named, run_chain]
  cases read : run part items with
  | error e => rfl
  | ok first =>
    obtain ⟨tree, rest⟩ := first
    obtain ⟨tokens, rfl, -⟩ := sound _ _ _ read
    exact loop_follows sound follows joins (Named.behind _ named)

theorem sum_follows_of_operand (follows : Follows bytes depth (operand bytes levels)) :
    Follows bytes depth (sum bytes levels) :=
  chain_follows (product_sound (operand_sound bytes levels))
    (chain_follows (operand_sound bytes levels) follows (.inr rfl)) (.inl rfl)

/-- Behind a sum in parentheses the scan does what the reader of parentheses does. -/
theorem scan_close (ends : Stops .star items ∧ Stops .plus items) :
    (Place.behind (depth + 1)).scan bytes items =
      (close bytes tree items >>= fun read => (Place.behind depth).scan bytes read.2) := by
  match items, ends with
  | [], _ => rfl
  | .ok token :: rest, ⟨noStar, noPlus⟩ =>
    rw [Place.scan, Place.step, if_neg (not_or.mpr ⟨noPlus, noStar⟩), Place.close, close]
    split <;> rfl

/-- By induction on the levels that are left: a parenthesis takes one of them and is counted. -/
theorem operand_follows (total : depth + levels = nestingLimit) :
    Follows bytes depth (operand bytes levels) := by
  induction levels using Nat.strongRecOn generalizing depth with
  | ind levels ih =>
    intro items named
    match items with
    | [] => rfl
    | .error e :: _ => rfl
    | .ok token :: rest =>
      rw [Place.scan]
      cases kind : token.kind with
      | number v =>
        rw [run_operand_number kind]
        simp only [Place.step, kind]
        rfl
      | ident =>
        obtain ⟨x, name⟩ := named token List.mem_cons_self kind
        rw [run_operand_ident kind, ← name, Variable.ofName_name]
        simp only [Place.step, kind]
        rfl
      | leftParen =>
        cases levels with
        | zero =>
          rw [run_operand_tooDeep kind]
          simp only [Place.step, kind, if_pos (show depth = nestingLimit from total)]
          rfl
        | succ fewer =>
          have room : depth ≠ nestingLimit := by omega
          have inner : Follows bytes (depth + 1) (sum bytes fewer) :=
            sum_follows_of_operand (ih fewer (Nat.lt_succ_self fewer) (by omega))
          rw [run_operand_group kind]
          simp only [Place.step, kind, if_neg room]
          refine (inner rest (Named.behind [.ok token] named)).trans ?_
          cases read : run (sum bytes fewer) rest with
          | error e => rfl
          | ok summed => exact scan_close (sum_stops read)
      | rightParen | plus | star =>
        rw [run_operand_other (by simp [kind])]
        simp only [Place.step, kind]
        rfl

theorem sum_follows (total : depth + levels = nestingLimit) :
    Follows bytes depth (sum bytes levels) :=
  sum_follows_of_operand (operand_follows total)

/-- Behind a whole sum the scan does what is done with an expression that was read. -/
theorem scan_finish (ends : Stops .star items ∧ Stops .plus items) :
    (Place.behind 0).scan bytes items = (finish tree items).map fun _ => () := by
  match items, ends with
  | [], _ => rfl
  | .ok token :: rest, ⟨noStar, noPlus⟩ =>
    rw [Place.scan, Place.step, if_neg (not_or.mpr ⟨noPlus, noStar⟩)]
    rfl

end Following

end Reader

open Reader

theorem ofItems_scan (bytes : Nat) {items : List Item} (named : Named items) :
    ((ofItems bytes items).map fun _ => ()) = (Place.before 0).scan bytes items := by
  rw [ofItems_eq, sum_follows (Nat.zero_add nestingLimit) items named]
  cases read : run (Reader.sum bytes nestingLimit) items with
  | error e => rfl
  | ok summed => exact (scan_finish (sum_stops read)).symm

/-- Reading a text has the outcome of the scan over its items, up to the tree: the scan accepts
exactly the expressions, and its error is the error of every other text. -/
theorem parse_scan (text : String) :
    ((parse text).map fun _ => ()) =
      (Place.before 0).scan text.utf8ByteSize (Token.scan text) ∧
    ∀ token : Token,
      SyntaxError.Says (.unexpectedToken token .operand) token.span
        s!"expected a number, a variable or `(`, found `{token.literal}`" none ∧
      SyntaxError.Says (.unexpectedToken token .closing) token.span
        "expected `)` to close the parenthesis" (some "use `RightParen` here instead") ∧
      SyntaxError.Says (.unexpectedToken token .nothing) token.span
        "unexpected input after the end of the expression"
        (some "join the parts with `+` or `*`, or remove this") := by
  refine ⟨?_, fun token => ⟨⟨rfl, rfl, rfl⟩, ⟨rfl, rfl, rfl⟩, ⟨rfl, rfl, rfl⟩⟩⟩
  rw [parse, Text.size_toList]
  exact ofItems_scan _ (named_scan text)

end Expression

end SumProduct
