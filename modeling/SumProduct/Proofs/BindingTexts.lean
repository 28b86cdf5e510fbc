import SumProduct.Proofs.DoubleTexts
import SumProduct.Proofs.Requests

/-!
# Texts of bindings

A binding is a name, a `=` and a double, with blanks around the name and the double. The name is
whatever stands in front of the first `=`, and the double has a grammar of its own
(`Double.Spelled`). `Binding.Spells` says this without a reader, and the reader of bindings takes
exactly these texts (`Binding.ofText?_eq_some_iff`).

Number literals of expressions are doubles of this grammar. So a literal has the value in a binding
that it has in an expression, and one that is too large there is infinite here
(`Request.binding_grammar`).
-/

namespace SumProduct

open Text

/-! ## Blanks at the ends -/

namespace Text

/-- The second text is the first without the blanks at its ends. -/
structure Trimmed (text core : List Char) : Prop where
  around : ∃ front back, text = front ++ (core ++ back) ∧
    (∀ c ∈ front, isBlank c = true) ∧ ∀ c ∈ back, isBlank c = true
  first : ∀ c ∈ core.head?, isBlank c = false
  last : ∀ c ∈ core.getLast?, isBlank c = false

variable {text core : List Char}

theorem trimmed_trim (text : List Char) : Trimmed text (trim text) where
  around := exists_trim text
  first := by
    intro c first
    obtain ⟨back, whole⟩ := List.rdropWhile_prefix isBlank (text.dropWhile isBlank)
    have stopped := List.head?_dropWhile_not isBlank text
    have same : (text.dropWhile isBlank).rdropWhile isBlank = trim text := rfl
    rw [← whole, same, List.head?_append, Option.mem_def.mp first] at stopped
    exact stopped
  last := by
    intro c last
    rw [trim, List.getLast?_reverse] at last
    have stopped := List.head?_dropWhile_not isBlank (text.dropWhile isBlank).reverse
    rw [Option.mem_def.mp last] at stopped
    exact stopped

theorem Trimmed.eq_trim (trimmed : Trimmed text core) : core = trim text := by
  obtain ⟨⟨front, back, rfl, before, behind⟩, first, last⟩ := trimmed
  cases core with
  | nil =>
    -- In a blank text, `trim` takes everything from the front.
    have blank : ∀ c ∈ front ++ ([] ++ back), isBlank c = true := by
      simpa [or_imp, forall_and] using ⟨before, behind⟩
    rw [trim, List.dropWhile_eq_nil_iff.mpr blank]
    rfl
  | cons c core =>
    have start : (front ++ (c :: core ++ back)).dropWhile isBlank = c :: core ++ back :=
      Token.dropWhile_run before first
    have ends : ((c :: core ++ back).reverse).dropWhile isBlank = (c :: core).reverse := by
      rw [List.reverse_append]
      refine Token.dropWhile_run (fun d mem => behind d (List.mem_reverse.mp mem)) fun d mem => ?_
      rw [List.head?_reverse] at mem
      exact last d mem
    rw [trim, start, ends, List.reverse_reverse]

theorem trimmed_iff : Trimmed text core ↔ core = trim text :=
  ⟨Trimmed.eq_trim, fun same => same ▸ trimmed_trim text⟩

end Text

/-! ## The grammar -/

/-- The name and the double that stand in front of the first `=` of a text and behind it. -/
inductive Binding.Spells (text : String) (b : Binding) : Prop
  | mk {name value core : List Char} : text.toList = name ++ '=' :: value → '=' ∉ name →
      Trimmed name b.name.toList → Trimmed value core → Double.Spelled core b.value →
      Spells text b

/-- The text spells no binding. -/
def Binding.Malformed (text : String) : Prop := ∀ b, ¬Spells text b

namespace Binding

variable {text : String} {b : Binding}

/-- A text is read as a binding exactly if it spells it. -/
theorem ofText?_eq_some_iff : ofText? text = some b ↔ Spells text b := by
  constructor
  · intro read
    simp only [ofText?] at read
    split at read
    · cases read
    · next first value behind =>
      have found := List.head?_dropWhile_not (· ≠ '=') text.toList
      rw [behind] at found
      obtain rfl : first = '=' := by simpa using found
      obtain ⟨d, spelled, rfl⟩ := Option.map_eq_some_iff.mp read
      have split : text.toList = text.toList.takeWhile (· ≠ '=') ++ '=' :: value := by
        rw [← behind, List.takeWhile_append_dropWhile]
      refine .mk split ?_ ?_ (trimmed_trim value) (Double.ofText?_eq_some_iff.mp spelled)
      · intro mem
        simpa using List.mem_takeWhile_imp mem
      · rw [String.toList_ofList]
        exact trimmed_trim _
  · rintro ⟨split, other, named, valued, spelled⟩
    have inside : ∀ c ∈ _, (decide (c ≠ '=')) = true := fun c mem =>
      decide_eq_true (ne_of_mem_of_not_mem mem other)
    have ends {value : List Char} : ∀ c ∈ ('=' :: value).head?, (decide (c ≠ '=')) = false := by
      rintro c ⟨⟩
      rfl
    simp only [ofText?, split, Token.takeWhile_run inside ends, Token.dropWhile_run inside ends,
      ← valued.eq_trim, Double.ofText?_eq_some_iff.mpr spelled, ← named.eq_trim,
      String.ofList_toList, Option.map_some]

end Binding

namespace Request

section Bindings

variable {text name literal : String} {b : Binding} {e : RequestError} {d : Double}

theorem binding_eq_ok_iff : binding text = .ok b ↔ Binding.Spells text b := by
  rw [← Binding.ofText?_eq_some_iff, binding]
  cases Binding.ofText? text <;> simp

theorem binding_eq_error_iff : binding text = .error e ↔
    e = .malformedBinding text ∧ Binding.Malformed text := by
  simp only [Binding.Malformed, ← Binding.ofText?_eq_some_iff, binding]
  cases Binding.ofText? text with
  | some b => exact iff_of_false nofun fun ⟨_, unread⟩ => unread b rfl
  | none => simp [eq_comm]

/-- Behind a name and a `=` a text without blanks is read as it is. -/
theorem binding_of_visible (other : '=' ∉ name.toList) (visible : Visible literal.toList)
    (read : Double.ofText? literal.toList = some d) :
    binding (name ++ "=" ++ literal) = .ok ⟨String.ofList (trim name.toList), d⟩ := by
  have named : Trimmed name.toList (String.ofList (trim name.toList)).toList := by
    rw [String.toList_ofList]
    exact trimmed_trim _
  have split : (name ++ "=" ++ literal).toList = name.toList ++ '=' :: literal.toList := by simp
  exact binding_eq_ok_iff.mpr (.mk split other named
    (trimmed_iff.mpr (trim_visible visible).symm) (Double.ofText?_eq_some_iff.mp read))

end Bindings

section Literals

open Token

variable {source literal : String} {token : Token} {v : Number} {offset : Nat}
  {cause : InvalidValue}

theorem visible_of_numeral {whole fraction lexeme after : List Char}
    (numeral : Numeral whole fraction lexeme after) : Visible (String.ofList lexeme).toList := by
  rw [String.toList_ofList]
  exact fun c mem => (numeral.isPart c mem).isBlank

theorem visible_of_number (mem : .ok token ∈ scan source) (number : token.kind = .number v) :
    Visible token.literal.toList := by
  obtain ⟨before, lexeme, after, -, cut⟩ := exists_cut_of_mem_scan mem
  cases cut with
  | symbol symbol =>
    rcases mem_symbols.mp symbol with ⟨-, rfl⟩ | ⟨-, rfl⟩ | ⟨-, rfl⟩ | ⟨-, rfl⟩ <;> cases number
  | name word => cases number
  | number numeral _ => exact visible_of_numeral numeral

theorem visible_of_invalidLiteral
    (mem : .error (.invalidLiteral literal offset cause) ∈ scan source) :
    Visible literal.toList := by
  obtain ⟨before, lexeme, after, -, cut⟩ := exists_cut_of_mem_scan mem
  cases cut with
  | tooLarge numeral _ => exact visible_of_numeral numeral

end Literals

/-- A text is read as a binding exactly if it has a `=`, with a name in front of the first one and a
double of the grammar behind it, both without the blanks at their ends. Any other text is told as it
is. The value of a decimal is rounded to exactly one double, which is infinite from half a step
above the largest number on, and zero up to half of the least one above zero. Behind a name and a
`=` a number literal that is cut from some text has the value of its token, and one that makes no
token is infinite. -/
theorem binding_grammar :
    (∀ text b, binding text = .ok b ↔ Binding.Spells text b) ∧
    (∀ text e, binding text = .error e ↔
      e = .malformedBinding text ∧ Binding.Malformed text) ∧
    (∀ negative q, 0 ≤ q → ∃ d, (∀ d', Double.Rounded negative q d' ↔ d' = d) ∧
      (d = .infinite negative ↔ 2 ^ 1024 - 2 ^ 970 ≤ q) ∧
      (d = .finite negative .zero ↔ q ≤ 1 / 2 ^ 1075)) ∧
    ∀ source name : String, '=' ∉ name.toList →
      (∀ token v, .ok token ∈ Token.scan source → token.kind = .number v →
        binding (name ++ "=" ++ token.literal) =
          .ok ⟨String.ofList (trim name.toList), v.toDouble⟩) ∧
      ∀ literal offset cause, .error (.invalidLiteral literal offset cause) ∈ Token.scan source →
        binding (name ++ "=" ++ literal) =
          .ok ⟨String.ofList (trim name.toList), .infinite false⟩ := by
  refine ⟨fun text b => binding_eq_ok_iff, fun text e => binding_eq_error_iff,
    fun negative q nonneg => ?_,
    fun source name other => ⟨fun token v mem number => ?_, fun literal offset cause mem => ?_⟩⟩
  · obtain ⟨d, rounded⟩ := Double.exists_rounded negative nonneg
    have only (d' : Double) : Double.Rounded negative q d' ↔ d' = d :=
      ⟨fun rounded' => rounded'.unique rounded, fun same => same ▸ rounded⟩
    refine ⟨d, only, ?_, ?_⟩
    · rw [eq_comm, ← only, Double.rounded_infinite_iff]
    · rw [eq_comm, ← only, Double.rounded_zero_iff]
  · exact binding_of_visible other (visible_of_number mem number)
      (Token.ofText?_of_number mem number)
  · exact binding_of_visible other (visible_of_invalidLiteral mem)
      (Token.ofText?_of_invalidLiteral mem).1

/-- A name and a double with blanks around them, a second `=`, an exponent without digits, a value
that is halfway between zero and the least number, and a literal of an expression. -/
theorem binding_grammar_examples :
    Binding.Spells "\u2003x y =\t-.5E+0001\u00a0" ⟨"x y", .finite true ⟨1025 * 2 ^ 52 + 2 ^ 50, by
      rw [rankLimit_eq]; decide⟩⟩ ∧
    Binding.Malformed "x==1" ∧ Binding.Malformed "x=1e+" ∧
    Double.Rounded true (1 / 2 ^ 1075) (.finite true .zero) ∧
    binding "x=1.0" = .ok ⟨"x", Number.one.toDouble⟩ := by
  obtain ⟨accepted, refused, rounded, literals⟩ := binding_grammar
  refine ⟨(accepted _ _).mp (by decide +kernel), ?_, ?_, ?_, ?_⟩
  · exact ((refused _ (.malformedBinding "x==1")).mp (by decide +kernel)).2
  · exact ((refused _ (.malformedBinding "x=1e+")).mp (by decide +kernel)).2
  · obtain ⟨d, only, -, zero⟩ := rounded true (1 / 2 ^ 1075) (by positivity)
    exact (only _).mpr (zero.mpr le_rfl).symm
  · have items : Token.scan "1.0*y" =
        [.ok ⟨.number .one, "1.0", 0⟩, .ok ⟨.star, "*", 3⟩, .ok ⟨.ident, "y", 4⟩] := by
      decide +kernel
    exact (literals "1.0*y" "x" (by decide)).1 ⟨.number .one, "1.0", 0⟩ .one (by simp [items]) rfl

end Request

end SumProduct
