import SumProduct.Proofs.Lexing

/-!
# Looking ahead

A lexer keeps the item that it has looked at until that is taken. Whatever it is asked, and in
whatever order, it answers like a cursor in the list of all items (`answers_eq_cursor`). A cursor
keeps nothing back: it only counts how many items have been taken and how many have been looked at.

`Tracks` says that a lexer stands where a cursor stands. Each call keeps it (`Tracks.call`), and so
does a run of calls.
-/

namespace SumProduct

open Text

namespace Lexer

/-! ## Calls -/

/-- What a lexer may be asked for. -/
inductive Call where
  | next
  | peek
  | nextIf (kind : TokenKind)
  | expect (kind : TokenKind) (reason : String)

inductive Answer where
  | item (found : Option Item)
  | optional (found : Except SyntaxError (Option Token))
  | token (found : Except SyntaxError Token)

/-- The answer to a call, and the lexer behind it. -/
def call (l : Lexer) : Call → Answer × Lexer
  | .next => (.item l.next.1, l.next.2)
  | .peek => (.item l.peek.1, l.peek.2)
  | .nextIf kind => (.optional (l.nextIf kind).1, (l.nextIf kind).2)
  | .expect kind reason => (.token (l.expect kind reason).1, (l.expect kind reason).2)

/-- The answers to some calls, each with the bytes that have been gone over by then. -/
def answers (l : Lexer) : List Call → List (Answer × Nat)
  | [] => []
  | call :: calls => ((l.call call).1, (l.call call).2.byte) :: (l.call call).2.answers calls

end Lexer

/-- A place in a list of items. The end of the list counts as one more item that may be looked at.
-/
structure Cursor where
  /-- How many items have been taken. -/
  taken : Nat
  /-- How many items have been looked at, taken or not. -/
  seen : Nat

namespace Cursor

def start : Cursor := ⟨0, 0⟩

/-- Looks at the next item. -/
def look (c : Cursor) : Cursor := { c with seen := max c.seen (c.taken + 1) }

/-- Takes the next item. -/
def take (c : Cursor) : Cursor := { c.look with taken := c.taken + 1 }

variable (items : List Item) (bytes : Nat)

/-- Where the last item ends that has been looked at, in a text of so many bytes. -/
def byte (c : Cursor) : Nat :=
  match c.seen with
  | 0 => 0
  | last + 1 =>
    match items[last]? with
    | some item => (Item.span item).stop
    | none => bytes

/-- The answer to a call, and the cursor behind it. -/
def call (c : Cursor) : Lexer.Call → Lexer.Answer × Cursor
  | .next => (.item items[c.taken]?, c.take)
  | .peek => (.item items[c.taken]?, c.look)
  | .nextIf kind =>
    match items[c.taken]? with
    | some (.ok token) =>
      if token.kind = kind then (.optional (.ok (some token)), c.take)
      else (.optional (.ok none), c.look)
    | some (.error e) => (.optional (.error e), c.take)
    | none => (.optional (.ok none), c.look)
  | .expect kind reason =>
    match items[c.taken]? with
    | some (.ok token) =>
      if token.kind = kind then (.token (.ok token), c.take)
      else (.token (.error (.unexpectedToken token (.kind kind reason))), c.take)
    | some (.error e) => (.token (.error e), c.take)
    | none => (.token (.error (.unexpectedEnd bytes)), c.take)

/-- The answers to some calls, each with the end of the last item that has been looked at. -/
def answers (c : Cursor) : List Lexer.Call → List (Lexer.Answer × Nat)
  | [] => []
  | call :: calls =>
    ((c.call items bytes call).1, (c.call items bytes call).2.byte items bytes) ::
      (c.call items bytes call).2.answers calls

end Cursor

namespace Lexer

/-! ## Looking and taking -/

section Steps

variable (l : Lexer)

/-- An item that is read is gone over as a whole, and nothing behind it. -/
theorem stop_read {offset : Nat} {text : List Char} {item : Item}
    (found : (read offset text).1 = some item) :
    (read offset text).2.byte = (Item.span item).stop := by
  fun_induction read offset text with
  | case1 => cases found
  | case2 offset c text space ih => exact ih found
  | case3 offset c text visible lexeme =>
    obtain rfl := Option.some.inj found
    rw [(Token.cut_splitLexeme offset text (Bool.eq_false_iff.mpr visible)).span]
    rfl

@[simp] theorem ahead_next : l.next.2.ahead = none := by
  obtain ⟨rest, byte, ahead⟩ := l
  cases ahead with
  | some item => rfl
  | none => exact ahead_read byte rest

@[simp] theorem fst_peek : l.peek.1 = l.next.1 := by
  obtain ⟨rest, byte, ahead⟩ := l
  cases ahead <;> rfl

/-- Looking at an item is taking it and keeping it. -/
theorem snd_peek : l.peek.2 = { l.next.2 with ahead := l.next.1 } := by
  obtain ⟨rest, byte, ahead⟩ := l
  cases ahead <;> rfl

/-- An item that has been looked at is taken without reading on. -/
theorem next_peek {item : Item} (found : l.next.1 = some item) : l.peek.2.next.2 = l.next.2 := by
  have kept := l.ahead_next
  rw [snd_peek, found]
  show ({ l.next.2 with ahead := none } : Lexer) = l.next.2
  rw [← kept]

theorem pending_next : l.pending = l.next.1.toList ++ l.next.2.pending := by
  rw [(next_pending l).1, (next_pending l).2]
  cases l.pending <;> rfl

@[simp] theorem pending_peek : l.peek.2.pending = l.pending := by
  have kept : ({ l.next.2 with ahead := l.next.1 } : Lexer).pending =
      l.next.1.toList ++ Token.scanFrom l.next.2.byte l.next.2.rest := rfl
  rw [snd_peek, kept, pending_next, pending, ahead_next]
  rfl

theorem nextIf_eq (kind : TokenKind) : l.nextIf kind =
    match l.next.1 with
    | some (.ok token) =>
      if token.kind = kind then (.ok (some token), l.next.2) else (.ok none, l.peek.2)
    | some (.error e) => (.error e, l.next.2)
    | none => (.ok none, l.peek.2) := by
  have looked := l.fst_peek
  unfold nextIf
  split
  · next token after peeked =>
    rw [peeked] at looked
    have taken := l.next_peek looked.symm
    rw [peeked] at taken
    rw [← looked, ← taken, peeked]
  · next e after peeked =>
    rw [peeked] at looked
    have taken := l.next_peek looked.symm
    rw [peeked] at taken
    rw [← looked, ← taken]
  · next after peeked =>
    rw [peeked] at looked
    rw [← looked, peeked]

theorem expect_eq (kind : TokenKind) (reason : String) : l.expect kind reason =
    match l.next.1 with
    | some (.ok token) =>
      (if token.kind = kind then .ok token
        else .error (.unexpectedToken token (.kind kind reason)), l.next.2)
    | some (.error e) => (.error e, l.next.2)
    | none => (.error (.unexpectedEnd l.next.2.byte), l.next.2) := by
  unfold expect
  split
  · next token after taken =>
    rw [taken]
    by_cases same : token.kind = kind
    · simp only [if_pos same]
    · simp only [if_neg same]
  · next e after taken => rw [taken]
  · next after taken => rw [taken]

end Steps

/-! ## Following the cursor -/

/-- The lexer of a text stands where the cursor in its items stands. -/
structure Tracks (text : String) (l : Lexer) (c : Cursor) : Prop where
  placed : At text.toList l
  pending : l.pending = (Token.scan text).drop c.taken
  seen_le : c.seen ≤ c.taken + 1
  kept : ∀ item ∈ l.ahead, c.seen = c.taken + 1
  byte_eq : l.byte = c.byte (Token.scan text) text.utf8ByteSize

namespace Tracks

variable {text : String} {l : Lexer} {c : Cursor}

theorem start (text : String) : Tracks text (ofText text) .start where
  placed := ⟨[], rfl, rfl⟩
  pending := rfl
  seen_le := Nat.zero_le _
  kept := by
    intro item ahead
    cases ahead
  byte_eq := rfl

theorem found_eq (tracks : Tracks text l c) : l.next.1 = (Token.scan text)[c.taken]? := by
  rw [(next_pending l).1, tracks.pending, List.head?_drop]

theorem seen_look (tracks : Tracks text l c) : c.look.seen = c.taken + 1 :=
  Nat.max_eq_right tracks.seen_le

/-- All bytes are counted when there is no item to take. -/
theorem byte_of_none (tracks : Tracks text l c) (ended : l.next.1 = none) :
    l.next.2.byte = text.utf8ByteSize := by
  rw [tracks.placed.byte_next ended, size_toList]

/-- An item that was kept has been counted before, and any other is counted when it is read. -/
theorem byte_next (tracks : Tracks text l c) :
    l.next.2.byte = c.look.byte (Token.scan text) text.utf8ByteSize := by
  cases ahead : l.ahead with
  | some item =>
    have kept : l.next.2.byte = l.byte := by rw [next, ahead]
    rw [kept, tracks.byte_eq, Cursor.byte, Cursor.byte, tracks.seen_look,
      tracks.kept item ahead]
  | none =>
    have read_eq : l.next = read l.byte l.rest := by rw [next, ahead]
    rw [Cursor.byte, tracks.seen_look]
    simp only [← tracks.found_eq]
    cases found : l.next.1 with
    | none => exact tracks.byte_of_none found
    | some item =>
      rw [read_eq] at found ⊢
      exact stop_read found

theorem take (tracks : Tracks text l c) : Tracks text l.next.2 c.take where
  placed := tracks.placed.next
  pending := by
    rw [(next_pending l).2, tracks.pending, List.tail_drop]
    rfl
  seen_le := by
    show c.look.seen ≤ c.taken + 1 + 1
    rw [tracks.seen_look]
    exact Nat.le_succ _
  kept := by
    intro item ahead
    simp at ahead
  byte_eq := tracks.byte_next

theorem look (tracks : Tracks text l c) : Tracks text l.peek.2 c.look where
  placed := by
    rw [snd_peek]
    exact tracks.placed.next
  pending := by
    rw [pending_peek, tracks.pending]
    rfl
  seen_le := Nat.le_of_eq tracks.seen_look
  kept := fun _ _ => tracks.seen_look
  byte_eq := by
    rw [snd_peek]
    exact tracks.byte_next

/-- The lexer answers like the cursor and goes on tracking it. -/
theorem call (tracks : Tracks text l c) (call : Call) :
    (l.call call).1 = (c.call (Token.scan text) text.utf8ByteSize call).1 ∧
      Tracks text (l.call call).2 (c.call (Token.scan text) text.utf8ByteSize call).2 := by
  have found := tracks.found_eq
  cases call with
  | next => exact ⟨congrArg Answer.item found, tracks.take⟩
  | peek => exact ⟨congrArg Answer.item (l.fst_peek.trans found), tracks.look⟩
  | nextIf kind =>
    rw [Lexer.call, Cursor.call, nextIf_eq, found]
    cases ahead : (Token.scan text)[c.taken]? with
    | none => exact ⟨rfl, tracks.look⟩
    | some item =>
      cases item with
      | error e => exact ⟨rfl, tracks.take⟩
      | ok token =>
        simp only
        split
        · exact ⟨rfl, tracks.take⟩
        · exact ⟨rfl, tracks.look⟩
  | expect kind reason =>
    rw [Lexer.call, Cursor.call, expect_eq, found]
    cases ahead : (Token.scan text)[c.taken]? with
    | none =>
      simp only [tracks.byte_of_none (found.trans ahead)]
      exact ⟨trivial, tracks.take⟩
    | some item =>
      cases item with
      | error e => exact ⟨rfl, tracks.take⟩
      | ok token =>
        simp only
        split <;> exact ⟨rfl, tracks.take⟩

end Tracks

/-- By induction on the calls. -/
theorem Tracks.answers_eq {text : String} {l : Lexer} {c : Cursor} (tracks : Tracks text l c)
    (calls : List Call) :
    l.answers calls = c.answers (Token.scan text) text.utf8ByteSize calls := by
  induction calls generalizing l c with
  | nil => rfl
  | cons call calls ih =>
    obtain ⟨same, next⟩ := tracks.call call
    rw [answers, Cursor.answers, same, next.byte_eq, ih next]

/-- The items of a text are what a lexer gives when it is only asked for the next one. Asked for
anything in any order, it answers like a cursor in the list of these items, and the bytes it has
gone over end where the last item ends that has been looked at, or are all bytes once the end has
been met. -/
theorem answers_eq_cursor (text : String) :
    (∀ n, ((ofText text).after n).next.1 = (Token.scan text)[n]?) ∧
    ∀ calls, (ofText text).answers calls =
      Cursor.start.answers (Token.scan text) text.utf8ByteSize calls :=
  ⟨next_after (ofText text), (Tracks.start text).answers_eq⟩

end Lexer

end SumProduct
