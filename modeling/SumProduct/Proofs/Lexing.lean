import SumProduct.Proofs.Segmentation
import SumProduct.Token.Lexer

/-!
# Taking the items of a text one by one

`Lexer.pending` are the items that a lexer has still to give. Taking an item takes the first of
them, and what a lexer has not gone over is always the text behind the bytes it has counted
(`Lexer.At`). So the items taken one by one are those of `Token.scan`, and these are the only
segmentation of the text (`scan_segments`).
-/

namespace SumProduct

open Text

namespace Lexer

/-- The items still to come. -/
def pending (l : Lexer) : List Item := l.ahead.toList ++ Token.scanFrom l.byte l.rest

/-- The lexer after `n` items have been asked for. -/
def after (l : Lexer) : Nat → Lexer
  | 0 => l
  | n + 1 => (l.after n).next.2

/-- The lexer has gone over the first `byte` bytes of the text: all characters in front of its
rest, and none of them in part. -/
def At (text : List Char) (l : Lexer) : Prop :=
  ∃ gone, text = gone ++ l.rest ∧ l.byte = size gone

/-! ## One item -/

section Reading

variable (offset : Nat) (text : List Char)

@[simp] theorem ahead_read : (read offset text).2.ahead = none := by
  fun_induction read offset text with
  | case1 => rfl
  | case2 offset c text space ih => exact ih
  | case3 => rfl

/-- By induction on the text: white space or a lexeme is gone over as a whole. -/
theorem exists_read : ∃ gone, text = gone ++ (read offset text).2.rest ∧
    (read offset text).2.byte = offset + size gone := by
  fun_induction read offset text with
  | case1 offset => exact ⟨[], rfl, rfl⟩
  | case2 offset c text space ih =>
    obtain ⟨gone, split, byte⟩ := ih
    refine ⟨c :: gone, congrArg (c :: ·) split, ?_⟩
    rw [byte, size, Nat.add_assoc]
  | case3 offset c text visible lexeme =>
    exact ⟨lexeme, (Token.splitLexeme_append c text).symm, rfl⟩

/-- Nothing is left where no item was found. -/
theorem rest_read {offset : Nat} {text : List Char} (none : (read offset text).1 = none) :
    (read offset text).2.rest = [] := by
  fun_induction read offset text with
  | case1 => rfl
  | case2 offset c text space ih => exact ih none
  | case3 => cases none

/-- What is read is the first item of the text, and what is left gives the others. -/
theorem read_scanFrom : (read offset text).1 = (Token.scanFrom offset text).head? ∧
    Token.scanFrom (read offset text).2.byte (read offset text).2.rest =
      (Token.scanFrom offset text).tail := by
  have items := scanFrom_eq offset text
  split at items
  · next after ended =>
    have empty : (read offset text).2.rest = [] := rest_read (by rw [ended])
    rw [ended] at empty
    rw [items, ended, empty, Token.scanFrom]
    exact ⟨rfl, rfl⟩
  · next item after found =>
    rw [items, found]
    exact ⟨rfl, rfl⟩

end Reading

section Next

variable (l : Lexer)

/-- The next item is the first of those to come, and then the others are still to come. -/
theorem next_pending : l.next.1 = l.pending.head? ∧ l.next.2.pending = l.pending.tail := by
  obtain ⟨rest, byte, ahead⟩ := l
  cases ahead with
  | some item => exact ⟨rfl, rfl⟩
  | none =>
    have behind : (read byte rest).2.pending =
        Token.scanFrom (read byte rest).2.byte (read byte rest).2.rest := by
      rw [pending, ahead_read]
      rfl
    exact ⟨(read_scanFrom byte rest).1, behind.trans (read_scanFrom byte rest).2⟩

/-- What is cut from a text is the next item of a lexer that has not looked ahead. -/
theorem next_cut {offset : Nat} {lexeme after : List Char} {item : Item}
    (cut : Token.Cut offset lexeme after item) :
    (Lexer.mk (lexeme ++ after) offset none).next =
      (some item, ⟨after, offset + size lexeme, none⟩) := by
  obtain ⟨c, others, rfl⟩ := List.exists_cons_of_ne_nil cut.nonempty
  obtain ⟨first, made⟩ := cut.eq_splitLexeme (List.cons_append ..).symm
  simp only [next, List.cons_append, read, cut.visible c List.mem_cons_self, first, made,
    Bool.false_eq_true, if_false]

theorem At.next {text : List Char} {l : Lexer} (placed : At text l) : At text l.next.2 := by
  obtain ⟨rest, byte, ahead⟩ := l
  cases ahead with
  | some item => exact placed
  | none =>
    obtain ⟨gone, rfl, rfl⟩ := placed
    obtain ⟨more, split, counted⟩ := exists_read (size gone) rest
    refine ⟨gone ++ more, ?_, counted.trans (size_append gone more).symm⟩
    rw [List.append_assoc]
    exact congrArg (gone ++ ·) split

/-- Where no item is found, the lexer has gone over the whole text. -/
theorem At.byte_next {text : List Char} {l : Lexer} (placed : At text l)
    (ended : l.next.1 = none) : l.next.2.byte = size text := by
  have empty : l.next.2.rest = [] := by
    obtain ⟨rest, byte, ahead⟩ := l
    cases ahead with
    | some item => cases ended
    | none => exact rest_read ended
  obtain ⟨gone, split, counted⟩ := placed.next
  rw [counted, split, empty, List.append_nil]

end Next

/-! ## All items -/

/-- By induction on the items asked for. -/
@[simp] theorem pending_after (l : Lexer) (n : Nat) : (l.after n).pending = l.pending.drop n := by
  induction n with
  | zero => rfl
  | succ n ih => rw [after, (next_pending _).2, ih, List.tail_drop]

@[simp] theorem next_after (l : Lexer) (n : Nat) : (l.after n).next.1 = l.pending[n]? := by
  rw [(next_pending _).1, pending_after, List.head?_drop]

theorem At.after {text : List Char} {l : Lexer} (placed : At text l) (n : Nat) :
    At text (l.after n) := by
  induction n with
  | zero => exact placed
  | succ n ih => exact ih.next

/-- Once there are no more items, none is found again and the count of bytes stays. -/
theorem At.byte_after {text : List Char} {l : Lexer} (placed : At text l) (n : Nat) :
    (l.after (l.pending.length + n + 1)).byte = size text := by
  refine (placed.after _).byte_next ?_
  rw [next_after, List.getElem?_eq_none (Nat.le_add_right _ n)]

/-- The items of a text, taken one by one until there are none, are its only segmentation. From
then on there are none, and all bytes of the text have been counted. At every time what has not been
gone over is the text behind the bytes that have been counted. -/
theorem scan_segments (text : String) :
    (∀ n, ((ofText text).after n).next.1 = (Token.scan text)[n]?) ∧
    (∀ items, Token.Segmentation 0 text.toList items ↔ items = Token.scan text) ∧
    (∀ n, ((ofText text).after ((Token.scan text).length + n + 1)).byte = text.utf8ByteSize) ∧
    ∀ n, At text.toList ((ofText text).after n) := by
  have start : At text.toList (ofText text) := ⟨[], rfl, rfl⟩
  refine ⟨next_after (ofText text), Token.segmentation_iff 0 text.toList, fun n => ?_, start.after⟩
  rw [← size_toList]
  exact start.byte_after n

end Lexer

end SumProduct
