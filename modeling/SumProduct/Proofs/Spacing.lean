import SumProduct.Proofs.ErrorPlaces

/-!
# White space between lexemes

`Token.Spaced inserted text wider` says that the second text is the first with more white space in
front of its lexemes, between them and behind them, `inserted` bytes in all. The items of the two
texts are the same, each moved by what was inserted in front of it (`scanFrom_spaced`).

The scan over the items looks at the place of an item only to say where a fault is, and the grammar
does not look at it at all. So both texts are the same expression, or they have the same error,
moved like the item that it points at (`parse_spaced`).
-/

namespace SumProduct

open Text

/-! ## Other places -/

/-- The token as it stands so many bytes further on. -/
def Token.moveBy (token : Token) (bytes : Nat) : Token :=
  { token with offset := token.offset + bytes }

/-- The error as it is so many bytes further on. -/
def SyntaxError.moveBy (e : SyntaxError) (bytes : Nat) : SyntaxError :=
  match e with
  | .unexpectedCharacter c offset => .unexpectedCharacter c (offset + bytes)
  | .invalidLiteral literal offset cause => .invalidLiteral literal (offset + bytes) cause
  | .unexpectedToken token expected => .unexpectedToken (token.moveBy bytes) expected
  | .unexpectedEnd ended => .unexpectedEnd (ended + bytes)
  | .tooDeep offset => .tooDeep (offset + bytes)

def Item.moveBy (item : Item) (bytes : Nat) : Item :=
  match item with
  | .ok token => .ok (token.moveBy bytes)
  | .error e => .error (e.moveBy bytes)

namespace SyntaxError

variable (e : SyntaxError) (bytes : Nat)

/-- What is told of an error does not depend on where it is. -/
@[simp] theorem diagnostic_moveBy : (e.moveBy bytes).diagnostic = e.diagnostic := by
  cases e with
  | unexpectedToken token expected => cases expected <;> rfl
  | unexpectedCharacter | invalidLiteral | unexpectedEnd | tooDeep => rfl

theorem span_moveBy (notEnd : ¬e.AtEnd) :
    (e.moveBy bytes).span = ⟨e.span.offset + bytes, e.span.length⟩ := by
  cases e with
  | unexpectedEnd ended => exact absurd ⟨ended, rfl⟩ notEnd
  | unexpectedCharacter | invalidLiteral | unexpectedToken | tooDeep => rfl

end SyntaxError

/-! ## More white space -/

namespace Token

/-- The second text is the first with `inserted` bytes more of white space, and none of it inside a
lexeme. -/
inductive Spaced : (inserted : Nat) → List Char → List Char → Prop
  | nil : Spaced 0 [] []
  | space {inserted : Nat} {c : Char} {text wider : List Char} : c.isWhitespace = true →
      Spaced inserted text wider → Spaced inserted (c :: text) (c :: wider)
  | insert {inserted : Nat} {c : Char} {text wider : List Char} : c.isWhitespace = true →
      Spaced inserted text wider → Spaced (c.utf8Size + inserted) text (c :: wider)
  | lexeme {inserted : Nat} {lexeme after wider : List Char} {item : Item} :
      Cut 0 lexeme after item → Spaced inserted after wider →
      Spaced inserted (lexeme ++ after) (lexeme ++ wider)

section Spacing

variable {inserted offset bytes : Nat} {text wider lexeme after : List Char} {item : Item}

theorem Spaced.size_eq (spaced : Spaced inserted text wider) :
    size wider = size text + inserted := by
  induction spaced with
  | nil => rfl
  | space _ _ ih => rw [size, size, ih, Nat.add_assoc]
  | insert _ _ ih => rw [size, ih, Nat.add_left_comm]
  | lexeme _ _ ih => simp [ih, Nat.add_assoc]

/-- Where the two texts begin to differ, white space stands in the second. -/
theorem Spaced.interrupted (spaced : Spaced inserted text wider) : Interrupted text wider := by
  induction spaced with
  | nil => exact .here (by rintro c ⟨⟩)
  | space space => exact .here (by rintro c ⟨⟩; exact space)
  | insert space => exact .here (by rintro c ⟨⟩; exact space)
  | @lexeme _ lexeme _ _ _ _ _ ih =>
    clear * - ih
    induction lexeme with
    | nil => exact ih
    | cons c lexeme inner => exact .cons inner

/-- A lexeme is the same wherever it stands. -/
theorem Cut.moveBy (cut : Cut offset lexeme after item) (bytes : Nat) :
    Cut (offset + bytes) lexeme after (Item.moveBy item bytes) := by
  cases cut with
  | symbol symbol => exact .symbol symbol
  | name word => exact .name word
  | number numeral value => exact .number numeral value
  | tooLarge numeral value => exact .tooLarge numeral value
  | stray visible letter digit other => exact .stray visible letter digit other

/-- In front of the item of the first text, which starts after `offset` bytes, `bytes` bytes of
white space were inserted. Behind them the same lexeme stands in the second text. -/
def Behind (bytes offset : Nat) (text wider : List Char) (item : Item) : Prop :=
  ∃ before before' lexeme after after', text = before ++ (lexeme ++ after) ∧
    wider = before' ++ (lexeme ++ after') ∧ Spaced bytes before before' ∧
    Cut (offset + size before) lexeme after item

theorem Behind.space {c : Char} (space : c.isWhitespace = true)
    (behind : Behind bytes (offset + c.utf8Size) text wider item) :
    Behind bytes offset (c :: text) (c :: wider) item := by
  obtain ⟨before, before', lexeme, after, after', rfl, rfl, spaced, cut⟩ := behind
  rw [Nat.add_assoc] at cut
  exact ⟨c :: before, c :: before', lexeme, after, after', rfl, rfl, .space space spaced, cut⟩

theorem Behind.insert {c : Char} (space : c.isWhitespace = true)
    (behind : Behind bytes offset text wider item) :
    Behind (c.utf8Size + bytes) offset text (c :: wider) item := by
  obtain ⟨before, before', lexeme, after, after', rfl, rfl, spaced, cut⟩ := behind
  exact ⟨before, c :: before', lexeme, after, after', rfl, rfl, .insert space spaced, cut⟩

theorem Behind.lexeme_append {first : Item} (first_cut : Cut 0 lexeme text first)
    (behind : Behind bytes (offset + size lexeme) text wider item) :
    Behind bytes offset (lexeme ++ text) (lexeme ++ wider) item := by
  obtain ⟨before, before', own, after, after', rfl, rfl, spaced, cut⟩ := behind
  rw [Nat.add_assoc, ← size_append] at cut
  exact ⟨lexeme ++ before, lexeme ++ before', own, after, after', (List.append_assoc ..).symm,
    (List.append_assoc ..).symm, .lexeme (first_cut.interrupted (.ended before _)) spaced, cut⟩

/-- By induction on the white space that is inserted: each item of the first text is in the second,
moved by what was inserted in front of it and by `moved` bytes in front of the whole text. -/
theorem scanFrom_spaced (spaced : Spaced inserted text wider) (offset moved : Nat) :
    List.Forall₂ (fun item item' => ∃ bytes, Behind bytes offset text wider item ∧
        item' = Item.moveBy item (moved + bytes))
      (scanFrom offset text) (scanFrom (offset + moved) wider) := by
  induction spaced generalizing offset moved with
  | nil =>
    rw [scanFrom, scanFrom]
    exact .nil
  | @space _ c _ _ space _ ih =>
    rw [scanFrom_space space, scanFrom_space space, Nat.add_right_comm]
    refine (ih (offset + c.utf8Size) moved).imp ?_
    rintro item _ ⟨bytes, behind, rfl⟩
    exact ⟨bytes, behind.space space, rfl⟩
  | @insert _ c _ _ space _ ih =>
    rw [scanFrom_space space, Nat.add_assoc]
    refine (ih offset (moved + c.utf8Size)).imp ?_
    rintro item _ ⟨bytes, behind, rfl⟩
    exact ⟨c.utf8Size + bytes, behind.insert space, by rw [Nat.add_assoc]⟩
  | @lexeme _ lexeme after wider item cut spaced ih =>
    have placed : Cut offset lexeme after (Item.moveBy item offset) := by
      have moved := cut.moveBy offset
      rwa [Nat.zero_add] at moved
    rw [scanFrom_cut placed, scanFrom_cut ((placed.moveBy moved).interrupted spaced.interrupted),
      Nat.add_right_comm]
    refine .cons ⟨0, ⟨[], [], lexeme, after, wider, rfl, rfl, .nil, placed⟩, rfl⟩ ?_
    refine (ih (offset + size lexeme) moved).imp ?_
    rintro item _ ⟨bytes, behind, rfl⟩
    exact ⟨bytes, behind.lexeme_append cut, rfl⟩

/-- White space may be put around each text. -/
theorem spaced_around (text : List Char) {front back : List Char}
    (front_space : ∀ c ∈ front, c.isWhitespace = true)
    (back_space : ∀ c ∈ back, c.isWhitespace = true) :
    ∃ inserted, Spaced inserted text (front ++ (text ++ back)) := by
  induction front with
  | nil =>
    -- By induction along the scan, which needs an offset to start from.
    have behind (offset : Nat) : ∃ inserted, Spaced inserted text (text ++ back) := by
      fun_induction scanFrom offset text with
      | case1 =>
        induction back with
        | nil => exact ⟨0, .nil⟩
        | cons c back ih =>
          obtain ⟨space, others⟩ := List.forall_mem_cons.mp back_space
          obtain ⟨inserted, spaced⟩ := ih others
          exact ⟨_, .insert space spaced⟩
      | case2 offset c text space ih =>
        obtain ⟨inserted, spaced⟩ := ih
        exact ⟨inserted, .space space spaced⟩
      | case3 offset c text visible lexeme ih =>
        obtain ⟨inserted, spaced⟩ := ih
        have cut := cut_splitLexeme 0 text (Bool.eq_false_iff.mpr visible)
        rw [← splitLexeme_append c text, List.append_assoc]
        exact ⟨inserted, .lexeme cut spaced⟩
    exact behind 0
  | cons c front ih =>
    obtain ⟨space, others⟩ := List.forall_mem_cons.mp front_space
    obtain ⟨inserted, spaced⟩ := ih others
    exact ⟨_, .insert space spaced⟩

end Spacing

end Token

/-! ## Moved items -/

/-- The second item is the first, moved by a number of bytes that it may be moved by. -/
def Item.Moved (May : Nat → Item → Prop) (item item' : Item) : Prop :=
  ∃ bytes, May bytes item ∧ item' = Item.moveBy item bytes

namespace Expression

section Moving

variable {May : Nat → Item → Prop} {place next : Place} {items items' : List Item}
  {e : SyntaxError}

@[simp] theorem Place.close_moveBy (token : Token) (bytes depth : Nat) :
    close (token.moveBy bytes) depth = (close token depth).mapError (·.moveBy bytes) := by
  cases depth with
  | zero => rfl
  | succ depth =>
    rw [close, close]
    by_cases closing : token.kind = .rightParen
    · rw [if_pos closing]
      exact if_pos closing
    · rw [if_neg closing]
      exact if_neg closing

/-- Where a token may stand does not depend on its place in the text. -/
@[simp] theorem Place.step_moveBy (place : Place) (token : Token) (bytes : Nat) :
    place.step (token.moveBy bytes) = (place.step token).mapError (·.moveBy bytes) := by
  cases place with
  | before depth =>
    obtain ⟨kind, literal, offset⟩ := token
    cases kind with
    | leftParen =>
      simp only [step, Token.moveBy]
      split <;> rfl
    | rightParen | plus | star | ident | number => rfl
  | behind depth =>
    rw [step, step]
    by_cases operator : token.kind = .plus ∨ token.kind = .star
    · rw [if_pos operator]
      exact if_pos operator
    · rw [if_neg operator, ← close_moveBy]
      exact if_neg operator

/-- By induction on the items. -/
theorem Place.pass_moved (moved : List.Forall₂ (Item.Moved May) items items')
    (passed : place.pass items = .ok next) : place.pass items' = .ok next := by
  induction moved generalizing place with
  | nil => exact passed
  | @cons item _ _ _ first _ ih =>
    obtain ⟨bytes, -, rfl⟩ := first
    cases item with
    | error fault => cases passed
    | ok token =>
      obtain ⟨behind, stepped, passed⟩ := bind_eq_ok.mp passed
      refine bind_eq_ok.mpr ⟨behind, ?_, ih passed⟩
      rw [step_moveBy, stepped]
      rfl

/-- By induction on the items: a fault is moved like its item. -/
theorem Place.pass_moved_error (moved : List.Forall₂ (Item.Moved May) items items')
    (failed : place.pass items = .error e) :
    ∃ bytes item, May bytes item ∧ Item.Fault item e ∧
      place.pass items' = .error (e.moveBy bytes) := by
  induction moved generalizing place with
  | nil => cases failed
  | @cons item _ _ _ first _ ih =>
    obtain ⟨bytes, may, rfl⟩ := first
    cases item with
    | error fault =>
      cases failed
      exact ⟨bytes, .error e, may, .lexeme, rfl⟩
    | ok token =>
      rcases bind_eq_error.mp failed with stepped | ⟨behind, stepped, failed⟩
      · refine ⟨bytes, .ok token, may, .token (fault_of_step stepped), ?_⟩
        refine bind_eq_error.mpr (.inl ?_)
        rw [step_moveBy, stepped]
        rfl
      · obtain ⟨bytes', item, may, fault, failed⟩ := ih failed
        refine ⟨bytes', item, may, fault, bind_eq_error.mpr (.inr ⟨behind, ?_, failed⟩)⟩
        rw [step_moveBy, stepped]
        rfl

end Moving

/-! ## Trees of moved tokens -/

section Trees

variable {tree tree' : Expression}

/-- The grammar does not look at places. -/
theorem Replaces.moveBy (token : Token) (bytes : Nat) : Replaces id (token.moveBy bytes) token :=
  ⟨fun _ kind _ => .number kind, fun _ kind literal _ => .name kind literal, fun _ => rfl⟩

/-- Items that only differ in their places make up the same expression. -/
theorem tree_eq_of_moved {May : Nat → Item → Prop} {text wider : String}
    (moved : List.Forall₂ (Item.Moved May) (Token.scan text) (Token.scan wider))
    (parsed : parse text = .ok tree) (parsed' : parse wider = .ok tree') : tree = tree' := by
  obtain ⟨tokens, items, derived⟩ := ofItems_eq_ok_iff.mp parsed
  obtain ⟨tokens', items', derived'⟩ := ofItems_eq_ok_iff.mp parsed'
  rw [items, items', List.forall₂_map_left_iff, List.forall₂_map_right_iff] at moved
  have replaced : List.Forall₂ (Replaces id) tokens' tokens := by
    refine (moved.imp ?_).flip
    rintro token _ ⟨bytes, -, ⟨⟩⟩
    exact .moveBy token bytes
  exact (derived.replace (fun _ _ => rfl) (fun _ _ => rfl) replaced).tree_unique derived'

end Trees

/-! ## Texts -/

section Texts

variable {inserted : Nat} {text wider : String}

theorem scan_spaced (spaced : Token.Spaced inserted text.toList wider.toList) :
    List.Forall₂ (Item.Moved fun bytes item => Token.Behind bytes 0 text.toList wider.toList item)
      (Token.scan text) (Token.scan wider) := by
  refine (Token.scanFrom_spaced spaced 0 0).imp ?_
  rintro item item' ⟨bytes, behind, moved⟩
  exact ⟨bytes, behind, by rw [moved, Nat.zero_add]⟩

/-- A text that ends too early still does with more white space. -/
theorem parse_spaced_end (spaced : Token.Spaced inserted text.toList wider.toList)
    {e e' : SyntaxError} (failed : parse text = .error e) (atEnd : e.AtEnd)
    (failed' : parse wider = .error e') (atEnd' : e'.AtEnd) : e' = e.moveBy inserted := by
  rw [eq_unexpectedEnd_of_atEnd failed atEnd, eq_unexpectedEnd_of_atEnd failed' atEnd',
    spaced.size_eq]
  rfl

/-- What is an expression stays the same expression, and what is none has the same error. -/
theorem parse_of_spaced (spaced : Token.Spaced inserted text.toList wider.toList) :
    match parse text with
    | .ok tree => parse wider = .ok tree
    | .error e => ∃ bytes, parse wider = .error (e.moveBy bytes) ∧
        (¬e.AtEnd → ∃ item, Token.Behind bytes 0 text.toList wider.toList item ∧
          Item.Fault item e) ∧
        (e.AtEnd → bytes = inserted) := by
  have moved := scan_spaced spaced
  cases passed : (Place.before 0).pass (Token.scan text) with
  | error e =>
    obtain ⟨bytes, item, behind, fault, failed⟩ := Place.pass_moved_error moved passed
    have notEnd := (exists_part_of_fault passed).1
    rw [parse_of_fault passed]
    exact ⟨bytes, parse_of_fault failed, fun _ => ⟨item, behind, fault⟩,
      fun atEnd => absurd atEnd notEnd⟩
  | ok place =>
    have passed' := Place.pass_moved moved passed
    rcases parse_of_place passed with ⟨accepted, tree, parsed⟩ | ⟨refused, e, failed, atEnd⟩
    · rcases parse_of_place passed' with ⟨-, tree', parsed'⟩ | ⟨refused, -⟩
      · rw [parsed, parsed', tree_eq_of_moved moved parsed parsed']
      · exact absurd accepted refused
    · rcases parse_of_place passed' with ⟨accepted, -⟩ | ⟨-, e', failed', atEnd'⟩
      · exact absurd accepted refused
      · rw [failed, failed', parse_spaced_end spaced failed atEnd failed' atEnd']
        exact ⟨inserted, rfl, fun notEnd => absurd atEnd notEnd, fun _ => rfl⟩

theorem parse_eq_ok_iff_of_spaced (spaced : Token.Spaced inserted text.toList wider.toList)
    (tree : Expression) : parse text = .ok tree ↔ parse wider = .ok tree := by
  have outcome := parse_of_spaced spaced
  cases parsed : parse text with
  | ok first =>
    rw [parsed] at outcome
    rw [show parse wider = .ok first from outcome]
  | error e =>
    rw [parsed] at outcome
    obtain ⟨bytes, failed, -⟩ := outcome
    rw [failed]
    exact iff_of_false nofun nofun

/-- White space between lexemes is insignificant: two texts that differ in it are the same
expression, or they have the same error. It points at the same item, wherever that now stands. -/
theorem parse_spaced (spaced : Token.Spaced inserted text.toList wider.toList) :
    (∀ tree, parse text = .ok tree ↔ parse wider = .ok tree) ∧
    ∀ e, parse text = .error e → ∃ bytes, parse wider = .error (e.moveBy bytes) ∧
      (e.moveBy bytes).diagnostic = e.diagnostic ∧
      (¬e.AtEnd → (e.moveBy bytes).span = ⟨e.span.offset + bytes, e.span.length⟩ ∧
        ∃ item, Item.span item = e.span ∧
          Token.Behind bytes 0 text.toList wider.toList item) ∧
      (e.AtEnd → bytes = inserted) := by
  refine ⟨parse_eq_ok_iff_of_spaced spaced, fun e failed => ?_⟩
  have outcome := parse_of_spaced spaced
  rw [failed] at outcome
  obtain ⟨bytes, failed', pointed, ended⟩ := outcome
  refine ⟨bytes, failed', e.diagnostic_moveBy bytes, fun notEnd => ?_, ended⟩
  obtain ⟨item, behind, fault⟩ := pointed notEnd
  obtain ⟨before, before', lexeme, after, after', split, split', between, cut⟩ := behind
  refine ⟨e.span_moveBy bytes notEnd, item, ?_, before, before', lexeme, after, after', split,
    split', between, cut⟩
  rw [cut.span, (cut.offending fault text.toList).2]

/-- A name and a number that touch, and the same two with white space in front of each. -/
theorem parse_spaced_touching :
    Token.Spaced 2 "x1".toList "\tx\n1".toList ∧
      parse "x1" = .error (.unexpectedToken ⟨.number .one, "1", 1⟩ .nothing) ∧
      parse "\tx\n1" = .error (.unexpectedToken ⟨.number .one, "1", 3⟩ .nothing) ∧
      ∃ item, Item.span item = ⟨1, 1⟩ ∧
        Token.Behind 2 0 "x1".toList "\tx\n1".toList item := by
  have name : Token.Cut 0 ['x'] ['1'] _ := Token.cut_splitLexeme (c := 'x') 0 ['1'] rfl
  have digit : Token.Cut 0 ['1'] [] _ := Token.cut_splitLexeme (c := '1') 0 [] rfl
  have spaced : Token.Spaced 2 ['x', '1'] ['\t', 'x', '\n', '1'] :=
    .insert (c := '\t') rfl (.lexeme name (.insert (c := '\n') rfl (.lexeme digit .nil)))
  have spaced : Token.Spaced 2 "x1".toList "\tx\n1".toList := by simpa using spaced
  have failed : parse "x1" = .error (.unexpectedToken ⟨.number .one, "1", 1⟩ .nothing) := by
    decide +kernel
  have later : parse "\tx\n1" = .error (.unexpectedToken ⟨.number .one, "1", 3⟩ .nothing) := by
    decide +kernel
  refine ⟨spaced, failed, later, ?_⟩
  obtain ⟨bytes, failed', -, pointed, -⟩ := (parse_spaced spaced).2 _ failed
  obtain ⟨-, item, place, behind⟩ := pointed (by rintro ⟨bytes, ⟨⟩⟩)
  rw [later] at failed'
  obtain rfl : bytes = 2 := by
    have moved : 3 = 1 + bytes := congrArg (·.span.offset) (Except.error.inj failed')
    omega
  exact ⟨item, place, behind⟩

end Texts

end Expression

end SumProduct
