import SumProduct.Proofs.CounterScan
import SumProduct.Proofs.Extension

/-!
# Where a text is beyond repair

A text that is no expression has an error. Either it only ends too early, and some continuation
makes it an expression, or the error stands where no continuation can help, and in front of it
nothing was wrong yet.

`Place.pass` goes over items like `Place.scan`, but says nothing of the end of the text. Its error
is never that the text ends, so it stays whatever follows; and from each place it comes to some
text leads to the end of an expression (`Place.completion`).

Results:
1. `parse_of_fault` and `parse_of_place`: reading a text in terms of `Place.pass`.
2. `parse_error_final`: an error at the end of a text is one that a continuation repairs, and any
   other error is final and stands behind a text without one.
-/

namespace SumProduct

open Text

/-- The text ended where more was needed. -/
def SyntaxError.AtEnd (e : SyntaxError) : Prop := ∃ bytes, e = .unexpectedEnd bytes

namespace Expression

/-! ## Going over items -/

namespace Place

/-- The place behind some items, or the first fault among them. -/
def pass (place : Place) : List Item → Except SyntaxError Place
  | [] => .ok place
  | .error e :: _ => .error e
  | .ok token :: rest => place.step token >>= fun next => next.pass rest

section Passing

variable {place : Place} {token : Token} {e : SyntaxError} {items : List Item}

theorem scan_eq_pass (bytes : Nat) (place : Place) (items : List Item) :
    place.scan bytes items = (place.pass items >>= fun behind => behind.finish bytes) := by
  fun_induction place.pass items with
  | case1 place => rfl
  | case2 place e rest => rfl
  | case3 place token rest ih =>
    rw [scan]
    cases place.step token with
    | error e => rfl
    | ok next => exact ih next

theorem pass_append (place : Place) (read rest : List Item) :
    place.pass (read ++ rest) = (place.pass read >>= fun behind => behind.pass rest) := by
  fun_induction place.pass read with
  | case1 place => rfl
  | case2 place e read => rfl
  | case3 place token read ih =>
    rw [List.cons_append, pass]
    cases place.step token with
    | error e => rfl
    | ok next => exact ih next

/-- A token that may not stand somewhere has an error of its own, where it starts. -/
theorem step_eq_error (failed : place.step token = .error e) :
    e.span.offset = token.offset ∧ ¬e.AtEnd := by
  have stands (expected : Expectation) : ¬SyntaxError.AtEnd (.unexpectedToken token expected) := by
    rintro ⟨bytes, ⟨⟩⟩
  cases place with
  | before depth =>
    cases kind : token.kind with
    | number v | ident =>
      simp only [step, kind] at failed
      cases failed
    | leftParen =>
      simp only [step, kind] at failed
      split at failed
      · cases failed
        exact ⟨rfl, by rintro ⟨bytes, ⟨⟩⟩⟩
      · cases failed
    | rightParen | plus | star =>
      simp only [step, kind] at failed
      cases failed
      exact ⟨rfl, stands .operand⟩
  | behind depth =>
    rw [step] at failed
    split at failed
    · cases failed
    cases depth with
    | zero =>
      cases failed
      exact ⟨rfl, stands .nothing⟩
    | succ depth =>
      rw [close] at failed
      split at failed
      · cases failed
      · cases failed
        exact ⟨rfl, stands .closing⟩

/-- The first fault stands where its item starts, and nothing is wrong with the items before. -/
theorem pass_eq_error (failed : place.pass items = .error e) :
    ∃ read item unread, items = read ++ item :: unread ∧
      (∃ behind, place.pass read = .ok behind) ∧ e.span.offset = (Item.span item).offset ∧
      (item = .error e ∨ ¬e.AtEnd) := by
  fun_induction place.pass items with
  | case1 place => cases failed
  | case2 place fault rest =>
    cases failed
    exact ⟨[], .error e, rest, rfl, ⟨place, rfl⟩, rfl, .inl rfl⟩
  | case3 place token rest ih =>
    cases stepped : place.step token with
    | error fault =>
      rw [stepped] at failed
      cases failed
      obtain ⟨start, notEnd⟩ := step_eq_error stepped
      exact ⟨[], .ok token, rest, rfl, ⟨place, rfl⟩, start, .inr notEnd⟩
    | ok next =>
      rw [stepped] at failed
      obtain ⟨read, item, unread, rfl, ⟨behind, passed⟩, placed⟩ := ih next failed
      refine ⟨.ok token :: read, item, unread, rfl, ⟨behind, ?_⟩, placed⟩
      rw [pass, stepped]
      exact passed

/-- Only behind an operand, and with no parenthesis open, may a text end. -/
theorem eq_behind_of_finish {bytes : Nat} (ended : place.finish bytes = .ok ()) :
    place = behind 0 := by
  match place with
  | before depth | behind (depth + 1) => cases ended
  | behind 0 => rfl

theorem finish_eq_error {bytes : Nat} (failed : place.finish bytes = .error e) : e.AtEnd := by
  match place with
  | before depth | behind (depth + 1) =>
    cases failed
    exact ⟨bytes, rfl⟩
  | behind 0 => cases failed

end Passing

/-! ## Completing a text -/

/-- A text that ends an expression from a place on: an operand if one is due, and a parenthesis for
each open one. -/
def completion : Place → List Char
  | before depth => 'x' :: List.replicate depth ')'
  | behind depth => List.replicate depth ')'

/-- By induction on the open parentheses. -/
theorem pass_closing (depth offset : Nat) :
    (behind depth).pass (Token.scanFrom offset (List.replicate depth ')')) = .ok (behind 0) := by
  induction depth generalizing offset with
  | zero => rw [List.replicate_zero, Token.scanFrom, pass]
  | succ depth ih =>
    have closing : Token.scanFrom offset (')' :: List.replicate depth ')') =
        .ok ⟨.rightParen, ")", offset⟩ :: Token.scanFrom (offset + 1) (List.replicate depth ')') :=
      Token.scanFrom_symbol (by simp [Token.symbols])
    rw [List.replicate_succ, closing]
    exact ih (offset + 1)

theorem pass_completion (place : Place) (offset : Nat) :
    place.pass (Token.scanFrom offset place.completion) = .ok (behind 0) := by
  cases place with
  | before depth =>
    have word : Token.MaximalRun Char.isAlpha ['x'] (List.replicate depth ')') := by
      refine ⟨List.cons_ne_nil _ _, by simp, fun c first => ?_⟩
      have closing : c = ')' := List.eq_of_mem_replicate (List.mem_of_mem_head? first)
      rw [closing]
      rfl
    have operand : Token.scanFrom offset (['x'] ++ List.replicate depth ')') =
        .ok ⟨.ident, "x", offset⟩ :: Token.scanFrom (offset + 1) (List.replicate depth ')') :=
      Token.scanFrom_cut (.name word)
    exact (congrArg (before depth).pass operand).trans (pass_closing depth (offset + 1))
  | behind depth => exact pass_closing depth offset

end Place

/-! ## Reading a text -/

open Place

section Outcome

variable {text : String} {e : SyntaxError} {place : Place}

theorem parse_eq_pass (text : String) : ((parse text).map fun _ => ()) =
    ((before 0).pass (Token.scan text) >>= fun place => place.finish (size text.toList)) := by
  rw [parse, ofItems_scan _ (named_scan text), scan_eq_pass]

/-- A fault among the items is the error of the text. -/
theorem parse_of_fault (failed : (before 0).pass (Token.scan text) = .error e) :
    parse text = .error e := by
  have outcome := parse_eq_pass text
  rw [failed] at outcome
  cases parsed : parse text with
  | error fault =>
    rw [parsed] at outcome
    cases outcome
    rfl
  | ok tree =>
    rw [parsed] at outcome
    cases outcome

/-- A text without a fault is an expression, or it ends at a place where it may not. -/
theorem parse_of_place (passed : (before 0).pass (Token.scan text) = .ok place) :
    (place = behind 0 ∧ ∃ tree, parse text = .ok tree) ∨
      (place ≠ behind 0 ∧ ∃ e, parse text = .error e ∧ e.AtEnd) := by
  have outcome := parse_eq_pass text
  rw [passed] at outcome
  cases parsed : parse text with
  | error fault =>
    rw [parsed] at outcome
    refine .inr ⟨?_, fault, rfl, finish_eq_error outcome.symm⟩
    rintro rfl
    cases outcome
  | ok tree =>
    rw [parsed] at outcome
    exact .inl ⟨eq_behind_of_finish outcome.symm, tree, rfl⟩

/-- What a lexeme does not stand for is never the end of a text. -/
theorem not_atEnd_of_mem_scan (mem : .error e ∈ Token.scan text) : ¬e.AtEnd := by
  obtain ⟨gone, lexeme, after, -, cut⟩ := Token.exists_cut_of_mem_scan mem
  rintro ⟨bytes, rfl⟩
  cases cut

/-- A fault among the items is not the end of the text. It starts behind a part of the text that has
no fault. -/
theorem exists_part_of_fault (failed : (before 0).pass (Token.scan text) = .error e) :
    ¬e.AtEnd ∧ ∃ part rest, text.toList = part ++ rest ∧ size part = e.span.offset ∧
      ∃ place, (before 0).pass (Token.scan (String.ofList part)) = .ok place := by
  obtain ⟨read, item, unread, items, passed, start, own⟩ := pass_eq_error failed
  obtain ⟨part, rest, split, placed, cut⟩ := Token.exists_split 0 text.toList item unread read items
  refine ⟨?_, part, rest, split, ?_, ?_⟩
  · rcases own with rfl | notEnd
    · exact not_atEnd_of_mem_scan (items ▸ List.mem_append_right read List.mem_cons_self)
    · exact notEnd
  · rw [start, placed, Nat.zero_add]
  · rwa [Token.scan, String.toList_ofList, cut]

end Outcome

/-! ## Continuing a text -/

section Continuing

variable {text : String} {e : SyntaxError} {place : Place}

/-- Behind a text and a space, the scan goes on where it was behind the text. -/
theorem pass_continued (text more : String) :
    (before 0).pass (Token.scan (text ++ " " ++ more)) =
      ((before 0).pass (Token.scan text) >>= fun place =>
        place.pass (Token.scanFrom (size text.toList + 1) more.toList)) := by
  have whole : (text ++ " " ++ more).toList = text.toList ++ ' ' :: more.toList := by simp
  have items : Token.scan (text ++ " " ++ more) =
      Token.scan text ++ Token.scanFrom (size text.toList + 1) more.toList := by
    rw [Token.scan, whole, Token.scanFrom_append_space rfl, Nat.zero_add]
    rfl
  rw [items, pass_append]

/-- A text without a fault can be completed. -/
theorem parse_completed (passed : (before 0).pass (Token.scan text) = .ok place) :
    ∃ tree, parse (text ++ " " ++ String.ofList place.completion) = .ok tree := by
  have whole : (before 0).pass (Token.scan (text ++ " " ++ String.ofList place.completion)) =
      .ok (behind 0) := by
    rw [pass_continued, passed, String.toList_ofList]
    exact pass_completion place _
  rcases parse_of_place whole with ⟨-, parsed⟩ | ⟨other, -⟩
  · exact parsed
  · exact absurd rfl other

/-- A fault stays the error, whatever follows. -/
theorem parse_continued (failed : (before 0).pass (Token.scan text) = .error e) (more : String) :
    parse (text ++ " " ++ more) = .error e := by
  refine parse_of_fault ?_
  rw [pass_continued, failed]
  rfl

/-- What follows a text does not change on which line an error in it is. -/
theorem line_continued {part rest : List Char} (split : text.toList = part ++ rest)
    (start : size part = e.span.offset) (more : String) :
    e.line (text ++ " " ++ more).toList = e.line text.toList := by
  have whole : (text ++ " " ++ more).toList = part ++ (rest ++ ' ' :: more.toList) := by
    simp [split]
  simp [SyntaxError.line, ← start, whole, split]

end Continuing

/-- A text fails for its end exactly if it can be continued to an expression. Any other error stands
where the text is beyond repair: what is in front of it is an expression or fails for its end, and
whatever follows the text, its error is the same, on the same line. -/
theorem parse_error_final (text : String) (e : SyntaxError) (failed : parse text = .error e) :
    (e.AtEnd ↔ ∃ more tree, parse (text ++ " " ++ more) = .ok tree) ∧
    (¬e.AtEnd →
      (∃ part rest, text.toList = part ++ rest ∧ size part = e.span.offset ∧
        ((∃ tree, parse (String.ofList part) = .ok tree) ∨
          ∃ e', parse (String.ofList part) = .error e' ∧ e'.AtEnd)) ∧
      ∀ more, parse (text ++ " " ++ more) = .error e ∧
        e.line (text ++ " " ++ more).toList = e.line text.toList) := by
  cases passed : (before 0).pass (Token.scan text) with
  | error fault =>
    obtain rfl := Except.error.inj ((parse_of_fault passed).symm.trans failed)
    obtain ⟨notEnd, part, rest, split, start, place, viable⟩ := exists_part_of_fault passed
    refine ⟨iff_of_false notEnd ?_, fun _ => ⟨⟨part, rest, split, start, ?_⟩, fun more => ?_⟩⟩
    · rintro ⟨more, tree, accepted⟩
      rw [parse_continued passed more] at accepted
      cases accepted
    · exact (parse_of_place viable).imp And.right And.right
    · exact ⟨parse_continued passed more, line_continued split start more⟩
  | ok place =>
    rcases parse_of_place passed with ⟨-, tree, parsed⟩ | ⟨-, fault, parsed, atEnd⟩
    · rw [failed] at parsed
      cases parsed
    · obtain rfl := Except.error.inj (parsed.symm.trans failed)
      obtain ⟨tree, accepted⟩ := parse_completed passed
      exact ⟨iff_of_true atEnd ⟨_, tree, accepted⟩, fun notEnd => absurd atEnd notEnd⟩

/-- A text that a closing parenthesis would complete, and one that nothing can: its error is that of
the second name, in front of which nothing is wrong. -/
theorem parse_error_final_open :
    (parse "(x + 1" = .error (.unexpectedEnd 6) ∧
      ∃ more tree, parse ("(x + 1" ++ " " ++ more) = .ok tree) ∧
    (parse "(x +\n1 y" = .error (.unexpectedToken ⟨.ident, "y", 7⟩ .closing) ∧
      ∀ more, parse ("(x +\n1 y" ++ " " ++ more) =
        .error (.unexpectedToken ⟨.ident, "y", 7⟩ .closing)) := by
  have early : parse "(x + 1" = .error (.unexpectedEnd 6) := by decide +kernel
  have stuck : parse "(x +\n1 y" = .error (.unexpectedToken ⟨.ident, "y", 7⟩ .closing) := by
    decide +kernel
  have stays : ¬SyntaxError.AtEnd (.unexpectedToken ⟨.ident, "y", 7⟩ .closing) := by
    rintro ⟨bytes, ⟨⟩⟩
  exact ⟨⟨early, (parse_error_final _ _ early).1.mp ⟨6, rfl⟩⟩,
    stuck, fun more => (((parse_error_final _ _ stuck).2 stays).2 more).1⟩

end Expression

end SumProduct
