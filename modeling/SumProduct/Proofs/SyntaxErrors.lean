import SumProduct.Proofs.ViablePrefix

/-!
# Where syntax errors come from

A text fails for one of its lexemes, for a token that may not stand where it does, or for its end
(`origin_of_parse`).
-/

namespace SumProduct

open Text

/-- What can be wrong with a token that may not stand where it does. -/
inductive Token.Fault (token : Token) : SyntaxError → Prop
  | misplaced {expected : Expectation} : expected ∈ [.operand, .closing, .nothing] →
      Fault token (.unexpectedToken token expected)
  | tooDeep : token.kind = .leftParen → Fault token (.tooDeep token.offset)

/-- What the error of a text is: one of its items, the fault of one of its tokens, or its end. -/
inductive SyntaxError.Origin (text : String) : SyntaxError → Prop
  | item {e : SyntaxError} : .error e ∈ Token.scan text → Origin text e
  | token {token : Token} {e : SyntaxError} : .ok token ∈ Token.scan text → token.Fault e →
      Origin text e
  | ended : Origin text (.unexpectedEnd (size text.toList))

namespace Expression

section Origins

variable {place : Place} {token : Token} {e : SyntaxError} {items : List Item}

theorem Place.fault_of_step (failed : place.step token = .error e) : token.Fault e := by
  unfold step at failed
  split at failed
  · split at failed
    · cases failed
    · cases failed
    · next opening =>
      split at failed
      · cases failed
        exact .tooDeep opening
      · cases failed
    all_goals
      cases failed
      exact .misplaced (by simp)
  · split at failed
    · cases failed
    unfold close at failed
    split at failed
    · cases failed
      exact .misplaced (by simp)
    · split at failed
      · cases failed
      · cases failed
        exact .misplaced (by simp)

/-- By induction on the items that are passed. -/
theorem Place.fault_of_pass (failed : place.pass items = .error e) :
    .error e ∈ items ∨ ∃ token, .ok token ∈ items ∧ token.Fault e := by
  fun_induction place.pass items with
  | case1 place => cases failed
  | case2 place fault rest =>
    cases failed
    exact .inl List.mem_cons_self
  | case3 place token rest ih =>
    cases stepped : place.step token with
    | error fault =>
      rw [stepped] at failed
      cases failed
      exact .inr ⟨token, List.mem_cons_self, fault_of_step stepped⟩
    | ok next =>
      rw [stepped] at failed
      rcases ih next failed with later | ⟨other, later, fault⟩
      · exact .inl (List.mem_cons_of_mem _ later)
      · exact .inr ⟨other, List.mem_cons_of_mem _ later, fault⟩

theorem origin_of_parse {text : String} (failed : parse text = .error e) : e.Origin text := by
  cases passed : (Place.before 0).pass (Token.scan text) with
  | error fault =>
    obtain rfl := Except.error.inj ((parse_of_fault passed).symm.trans failed)
    rcases Place.fault_of_pass passed with item | ⟨token, mem, fault⟩
    · exact .item item
    · exact .token mem fault
  | ok place =>
    have outcome := parse_eq_pass text
    rw [failed, passed] at outcome
    match place with
    | .before depth | .behind (depth + 1) =>
      cases outcome
      exact .ended
    | .behind 0 => cases outcome

end Origins

end Expression

end SumProduct
