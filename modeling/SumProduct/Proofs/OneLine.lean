import SumProduct.Proofs.Conversation
import SumProduct.Proofs.NumberText
import SumProduct.Proofs.SyntaxErrors

/-!
# Answers on one line

What a session shows is made of names, numbers and the signs of the canonical text. What it tells
of a failure quotes at most a lexeme, which has no white space, or a part of the line. So the answer
to a line without a line feed has none either (`oneLine_of_show`, `oneLine_of_error`).
-/

namespace SumProduct

/-! ## Texts without a line feed -/

namespace Text

def OneLine (text : String) : Prop := '\n' ∉ text.toList

instance (text : String) : Decidable (OneLine text) := inferInstanceAs (Decidable (_ ∉ _))

section OneLine

variable {a b : String} {text piece : List Char}

theorem OneLine.append (left : OneLine a) (right : OneLine b) : OneLine (a ++ b) := by
  unfold OneLine
  rw [String.toList_append, List.mem_append, not_or]
  exact ⟨left, right⟩

theorem OneLine.singleton {c : Char} (other : c ≠ '\n') : OneLine (String.singleton c) := by
  unfold OneLine
  rw [String.toList_singleton, List.mem_singleton]
  exact other.symm

theorem OneLine.subset (line : OneLine b) (made : a.toList ⊆ b.toList) : OneLine a :=
  fun feed => line (made feed)

theorem trim_subset (text : List Char) : trim text ⊆ text := by
  intro c mem
  unfold trim at mem
  have front := List.dropWhile_subset isBlank (List.mem_reverse.mp mem)
  exact List.dropWhile_subset isBlank (List.mem_reverse.mp front)

theorem subset_of_mem_words (word : piece ∈ words text) : piece ⊆ text := by
  fun_induction words text with
  | case1 => exact absurd word List.not_mem_nil
  | case2 c rest blank ih => exact List.subset_cons_of_subset c (ih word)
  | case3 c rest visible ih =>
    rcases List.mem_cons.mp word with rfl | later
    · exact List.cons_subset_cons c (List.takeWhile_subset _)
    · exact List.subset_cons_of_subset c fun d mem => List.dropWhile_subset _ (ih later mem)

end OneLine

end Text

open Text

/-! ## What is shown -/

theorem Decimal.not_feed_of_mem_plain (d : Decimal) : ∀ c ∈ d.plain, c ≠ '\n' := by
  have digit {c : Char} (digit : c.isDigit = true) : c ≠ '\n' := by
    rintro rfl
    cases digit
  intro c mem
  unfold plain at mem
  split at mem
  · split at mem
    · rw [List.mem_singleton.mp mem]
      decide
    · rcases List.mem_append.mp mem with mem | mem
      · exact digit (isDigit_of_mem_toDigits c mem)
      · rw [List.eq_of_mem_replicate mem]
        decide
  · rcases List.mem_append.mp mem with mem | mem
    · exact digit (isDigit_of_mem_paddedDigits c (List.mem_of_mem_take mem))
    rcases List.mem_cons.mp mem with rfl | mem
    · decide
    · exact digit (isDigit_of_mem_paddedDigits c (List.mem_of_mem_drop mem))

theorem Double.oneLine_text (d : Double) : OneLine d.text := by
  have signed {negative : Bool} {text : String} (line : OneLine text) :
      OneLine (Double.text.signed negative text) := by
    cases negative with
    | false => exact line
    | true => exact OneLine.append (by decide) line
  cases d with
  | finite negative magnitude =>
    refine signed fun feed => ?_
    rw [String.toList_ofList] at feed
    exact magnitude.shortest.not_feed_of_mem_plain _ feed rfl
  | infinite negative => exact signed (by decide)
  | nan => exact (by decide : OneLine "NaN")

namespace Expression

theorem not_feed_of_write (e : Expression) {rest : List Char} (line : '\n' ∉ rest) :
    '\n' ∉ e.write rest := by
  induction e generalizing rest with
  | num v =>
    intro feed
    rcases List.mem_append.mp feed with feed | feed
    · rcases v.mem_text feed with digit | point
      · cases digit
      · cases point
    · exact line feed
  | var x =>
    intro feed
    rcases List.mem_append.mp feed with feed | feed
    · cases x.letters _ feed
    · exact line feed
  | sum l r ihl ihr =>
    have right : '\n' ∉ r.write (')' :: rest) := ihr (by simp [line])
    have left : '\n' ∉ l.write (' ' :: '+' :: ' ' :: r.write (')' :: rest)) :=
      ihl (by simp [right])
    simp [write, left]
  | prod l r ihl ihr =>
    have group : '\n' ∉ r.write (')' :: rest) := ihr (by simp [line])
    unfold write
    split
    · exact ihl (by simp [group])
    · exact ihl (by simp [ihr line])

theorem oneLine_text (e : Expression) : OneLine e.text := by
  unfold OneLine text
  rw [String.toList_ofList]
  exact e.not_feed_of_write List.not_mem_nil

end Expression

/-! ## What is told -/

section Values

variable {name : String} {value : Double} {e : InvalidValue} {env : Environment}

theorem oneLine_of_ofName (line : OneLine name) (unnamed : Variable.ofName name = .error e) :
    OneLine e.diagnostic.message := by
  unfold Variable.ofName at unnamed
  split at unnamed
  · cases unnamed
    exact (by decide +kernel : OneLine "variable name must not be empty")
  split at unnamed
  · next c offending =>
    cases unnamed
    have other : c ≠ '\n' := by
      rintro rfl
      exact line (List.mem_of_find?_eq_some offending)
    exact ((((OneLine.append (by decide) line).append (by decide)).append (.singleton other)).append
      (by decide))
  · cases unnamed

theorem oneLine_of_ofDouble (refused : Number.ofDouble value = .error e) :
    OneLine e.diagnostic.message := by
  unfold Number.ofDouble at refused
  split at refused
  · split at refused
    · cases refused
      exact OneLine.append (by decide) (Double.oneLine_text _)
    · cases refused
  · cases refused
    exact OneLine.append (by decide) (Double.oneLine_text _)

theorem oneLine_of_define (line : OneLine name) (failed : env.define name value = .error e) :
    OneLine e.diagnostic.message := by
  rcases bind_eq_error.mp failed with unnamed | ⟨x, -, failed⟩
  · exact oneLine_of_ofName line unnamed
  rcases bind_eq_error.mp failed with refused | ⟨v, -, ⟨⟩⟩
  exact oneLine_of_ofDouble refused

end Values

section Syntax

variable {offset : Nat} {lexeme after : List Char} {text : String} {e : SyntaxError}

/-- There is no white space in a lexeme, let alone a line feed. -/
theorem oneLine_of_visible (visible : ∀ c ∈ lexeme, c.isWhitespace = false) :
    OneLine (String.ofList lexeme) := by
  unfold OneLine
  rw [String.toList_ofList]
  intro feed
  cases visible '\n' feed

theorem oneLine_of_cut (cut : Token.Cut offset lexeme after (.error e)) :
    OneLine e.diagnostic.message := by
  cases cut with
  | tooLarge numeral =>
    exact (OneLine.append (by decide) (oneLine_of_visible numeral.visible)).append (by decide)
  | @stray c _ visible =>
    have other : c ≠ '\n' := by
      rintro rfl
      cases visible
    exact (OneLine.append (by decide) (.singleton other)).append (by decide)

theorem oneLine_of_fault {token : Token} (line : OneLine token.literal) (fault : token.Fault e) :
    OneLine e.diagnostic.message := by
  cases fault with
  | @misplaced expected known =>
    simp only [List.mem_cons, List.not_mem_nil, or_false] at known
    rcases known with rfl | rfl | rfl
    · exact (OneLine.append (by decide) line).append (by decide)
    · exact (by decide +kernel : OneLine "expected `)` to close the parenthesis")
    · exact (by decide +kernel : OneLine "unexpected input after the end of the expression")
  | tooDeep => exact (by decide +kernel : OneLine "expression is nested too deeply")

theorem oneLine_of_parse (failed : Expression.parse text = .error e) :
    OneLine e.diagnostic.message := by
  cases Expression.origin_of_parse failed with
  | item mem =>
    obtain ⟨before, lexeme, after, -, cut⟩ := Token.exists_cut_of_mem_scan mem
    exact oneLine_of_cut cut
  | @token token _ mem fault =>
    obtain ⟨before, lexeme, after, -, cut⟩ := Token.exists_cut_of_mem_scan mem
    have literal : token.literal = String.ofList lexeme := by
      cases cut <;> rfl
    exact oneLine_of_fault (literal ▸ oneLine_of_visible cut.visible) fault
  | ended => exact (by decide +kernel : OneLine "Unexpected end of input")

end Syntax

section Requests

variable {texts : List String} {text : String} {b : Binding}

theorem Binding.name_subset_of_ofText? (spelled : Binding.ofText? text = some b) :
    b.name.toList ⊆ text.toList := by
  unfold ofText? at spelled
  split at spelled
  · cases spelled
  · obtain ⟨v, -, rfl⟩ := Option.map_eq_some_iff.mp spelled
    intro c mem
    rw [String.toList_ofList] at mem
    exact List.takeWhile_subset _ (trim_subset _ mem)

theorem oneLine_of_environment {e : RequestError} (line : ∀ text ∈ texts, OneLine text)
    (failed : Request.environment texts = .error e) : OneLine e.diagnostic.message := by
  rcases bind_eq_error.mp failed with malformed | ⟨bindings, read, failed⟩
  · obtain ⟨text, mem, malformed⟩ := mapM_eq_error malformed
    unfold Request.binding at malformed
    split at malformed
    · cases malformed
    · cases malformed
      exact (OneLine.append (by decide) (line text mem)).append (by decide)
  · obtain ⟨cause, undefined, rfl⟩ := mapError_eq_error.mp failed
    obtain ⟨env, pair, paired, undefined⟩ := foldlM_eq_error undefined
    obtain ⟨b, among, rfl⟩ := List.mem_map.mp paired
    obtain ⟨text, mem, spelled⟩ := mem_of_mapM_eq_ok read b among
    unfold Request.binding at spelled
    split at spelled
    · next spells =>
      cases spelled
      exact oneLine_of_define ((line text mem).subset (b.name_subset_of_ofText? spells)) undefined
    · cases spelled

end Requests

/-! ## Lines -/

namespace Line

/-- The texts that a line is taken apart into. -/
def texts : Line → List String
  | .blank | .quit => []
  | .expression text | .derivative text | .unknown text => [text]
  | .simplify bindings => bindings

section Texts

variable {line text : String} {command : List Char} {parsed : Line}

theorem IsCommand.subset_of_mem_texts (known : IsCommand command parsed)
    (mem : text ∈ parsed.texts) : text.toList ⊆ command := by
  cases known with
  | quit => cases mem
  | @derivative name =>
    rw [List.mem_singleton.mp mem, String.toList_ofList]
    exact fun c mem => List.mem_append_right _ (trim_subset name mem)
  | simplify =>
    obtain ⟨word, among, rfl⟩ := List.mem_map.mp mem
    rw [String.toList_ofList]
    exact fun c mem => List.mem_append_right _ (subset_of_mem_words among mem)

/-- Nothing is added to a line that is taken apart. -/
theorem Reads.subset_of_mem_texts (reads : Reads line parsed) (mem : text ∈ parsed.texts) :
    text.toList ⊆ line.toList := by
  have inside := trim_subset line.toList
  cases reads with
  | blank => cases mem
  | command trimmed known =>
    rw [trimmed] at inside
    exact fun c part => inside (List.mem_cons_of_mem _ (known.subset_of_mem_texts mem part))
  | unknown trimmed =>
    rw [List.mem_singleton.mp mem, String.toList_ofList, ← trimmed]
    exact inside
  | expression =>
    rw [List.mem_singleton.mp mem, String.toList_ofList]
    exact inside

end Texts

end Line

namespace Session

variable {s : Session} {line : Line} {text : String} {e : SessionError}

theorem oneLine_of_fails (parts : ∀ text ∈ line.texts, OneLine text) (failed : s.Fails line e) :
    OneLine e.diagnostic.message := by
  cases failed with
  | unknown =>
    exact (OneLine.append (by decide) (parts _ List.mem_cons_self)).append (by decide)
  | expression unread => exact oneLine_of_parse unread
  | name unnamed => exact oneLine_of_ofName (parts _ List.mem_cons_self) unnamed
  | bindings undefined => exact oneLine_of_environment parts undefined
  | derivative | simplify => exact (by decide +kernel : OneLine "no expression entered yet")

theorem oneLine_of_show {line : String} (shown : (s.handle line).2 = .ok (.show text)) :
    OneLine text := by
  obtain ⟨parsed, after, -, -, performed⟩ := performs_of_handle shown
  cases performed with
  | expression | derivative | simplify => exact Expression.oneLine_text _

theorem oneLine_of_error {line : String} (whole : OneLine line)
    (failed : (s.handle line).2 = .error e) : OneLine e.diagnostic.message := by
  obtain ⟨parsed, kind, -, fails⟩ := fails_of_handle failed
  refine oneLine_of_fails (fun text mem => ?_) fails
  exact whole.subset ((Line.ofText_eq_iff.mp kind).subset_of_mem_texts mem)

end Session

end SumProduct
