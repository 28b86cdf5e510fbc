import SumProduct.Proofs.ByteLines
import SumProduct.Proofs.SyntaxErrors

/-!
# Where syntax errors point

A syntax error points at a stretch of whole characters: the lexeme that is no token, the token that
may not stand where it does, or the last character of a text that ends too early
(`SyntaxError.offending`). Its line counts the line feeds in front of that stretch.

A text that ends too early has no other fault. So its characters are white space or belong to tokens
(`part_of_parse`), and all of them are single bytes. That is why the last byte of such a text is a
character.

Results:
1. `Token.Cut.offending`: what is wrong with an item points at its lexeme.
2. `parse_error_place`: the place of each error.
-/

namespace SumProduct

open Text

/-! ## Lines in bytes -/

namespace Text

/-- No byte of another character is a line feed. -/
theorem eq_feed_of_mem_utf8EncodeChar {c : Char} (mem : 10 ∈ String.utf8EncodeChar c) :
    c = '\n' := by
  obtain ⟨i, within, feed⟩ := List.getElem_of_mem mem
  have first : (String.utf8EncodeChar c)[i].IsUTF8FirstByte ↔ i = 0 :=
    UInt8.isUTF8FirstByte_getElem_utf8EncodeChar
  rw [feed] at first
  obtain rfl : i = 0 := first.mp (by decide)
  obtain ⟨byte, rest, encoded⟩ :=
    List.exists_cons_of_ne_nil (String.utf8EncodeChar_ne_nil (c := c))
  obtain rfl : byte = 10 := by simpa [encoded] using feed
  -- The bytes start with a whole line feed, and what they start with is decoded in one way.
  have same : (String.utf8EncodeChar '\n').toByteArray ++ rest.toByteArray =
      (String.utf8EncodeChar c).toByteArray ++ [].toByteArray := by
    rw [encoded, ← List.toByteArray_append, ← List.toByteArray_append, List.append_nil]
    rfl
  have decoded :=
    ByteArray.utf8DecodeChar?_utf8EncodeChar_append (b := rest.toByteArray) (c := '\n')
  rw [same, ByteArray.utf8DecodeChar?_utf8EncodeChar_append] at decoded
  exact Option.some.inj decoded

section Bytes

variable (text : List Char)

theorem length_flatMap_utf8EncodeChar :
    (text.flatMap String.utf8EncodeChar).length = size text := by
  induction text with
  | nil => rfl
  | cons c rest ih =>
    rw [List.flatMap_cons, List.length_append, ih, String.length_utf8EncodeChar, size]

@[simp] theorem count_flatMap_utf8EncodeChar :
    (text.flatMap String.utf8EncodeChar).count 10 = text.count '\n' := by
  induction text with
  | nil => rfl
  | cons c rest ih =>
    rw [List.flatMap_cons, List.count_append, ih]
    by_cases feed : c = '\n'
    · rw [feed, List.count_cons_self, Nat.add_comm]
      rfl
    · rw [List.count_cons_of_ne feed,
        List.count_eq_zero.mpr (mt eq_feed_of_mem_utf8EncodeChar feed), Nat.zero_add]

end Bytes

/-- The line feeds in front of a place between characters, counted in bytes. -/
theorem count_take_utf8 {text : String} {before rest : List Char}
    (split : text.toList = before ++ rest) :
    ((utf8 text).take (size before)).count 10 = before.count '\n' := by
  rw [utf8_eq_flatMap, split, List.flatMap_append, ← length_flatMap_utf8EncodeChar before,
    List.take_left, count_flatMap_utf8EncodeChar]

end Text

/-! ## Texts without a fault -/

theorem Text.toNat_lt_of_isWhitespace {c : Char} (space : c.isWhitespace = true) :
    c.toNat < 128 := by
  simp only [Char.isWhitespace, Bool.or_eq_true, decide_eq_true_eq] at space
  rcases space with ((rfl | rfl) | rfl) | rfl <;> decide

namespace Token

/-- The characters that tokens are made of. -/
def IsPart (c : Char) : Prop :=
  c.isAlpha = true ∨ c.isDigit = true ∨ c = '.' ∨ ∃ kind, (c, kind) ∈ symbols

/-- A part of a token is a single byte, behind the white space and the exclamation mark. -/
theorem IsPart.range {c : Char} (part : IsPart c) : 40 ≤ c.toNat ∧ c.toNat < 128 := by
  have zero : '0'.val.toNat = 48 := rfl
  have nine : '9'.val.toNat = 57 := rfl
  have upper : 'A'.val.toNat = 65 ∧ 'Z'.val.toNat = 90 := ⟨rfl, rfl⟩
  have lower : 'a'.val.toNat = 97 ∧ 'z'.val.toNat = 122 := ⟨rfl, rfl⟩
  have value : c.toNat = c.val.toNat := rfl
  rcases part with letter | digit | rfl | ⟨kind, symbol⟩
  · rw [isAlpha_eq] at letter
    simp only [Bool.or_eq_true, Bool.and_eq_true, decide_eq_true_eq,
      UInt32.le_iff_toNat_le] at letter
    omega
  · simp only [Char.isDigit, Bool.and_eq_true, decide_eq_true_eq, ge_iff_le,
      UInt32.le_iff_toNat_le] at digit
    omega
  · decide
  · rcases mem_symbols.mp symbol with ⟨rfl, -⟩ | ⟨rfl, -⟩ | ⟨rfl, -⟩ | ⟨rfl, -⟩ <;> decide

section Parts

variable {offset : Nat} {lexeme after whole fraction literal text : List Char} {token : Token}

theorem Numeral.isPart (numeral : Numeral whole fraction literal after) :
    ∀ c ∈ literal, IsPart c := by
  intro c mem
  cases numeral with
  | whole digits => exact .inr (.inl (digits.inside c mem))
  | pointed digits behind =>
    rcases List.mem_append.mp mem with mem | mem
    · exact .inr (.inl (digits.inside c mem))
    rcases List.mem_cons.mp mem with rfl | mem
    · exact .inr (.inr (.inl rfl))
    · exact .inr (.inl (behind.inside c mem))

theorem Cut.isPart (cut : Cut offset lexeme after (.ok token)) : ∀ c ∈ lexeme, IsPart c := by
  intro c mem
  cases cut with
  | symbol symbol =>
    obtain rfl := List.mem_singleton.mp mem
    exact .inr (.inr (.inr ⟨_, symbol⟩))
  | name word => exact .inl (word.inside c mem)
  | number numeral => exact numeral.isPart c mem

/-- By induction along the scan: what is not white space belongs to a token. -/
theorem part_of_scanFrom (tokens : ∀ e, .error e ∉ scanFrom offset text) :
    ∀ c ∈ text, c.isWhitespace = true ∨ IsPart c := by
  fun_induction scanFrom offset text with
  | case1 => simp
  | case2 offset c text space ih => exact List.forall_mem_cons.mpr ⟨.inl space, ih tokens⟩
  | case3 offset c text visible lexeme ih =>
    have cut := cut_splitLexeme offset text (Bool.eq_false_iff.mpr visible)
    rw [← splitLexeme_append c text]
    intro d mem
    rcases List.mem_append.mp mem with inside | behind
    · cases made : ofLexeme c lexeme offset with
      | error e => exact absurd (made ▸ List.mem_cons_self) (tokens e)
      | ok token =>
        rw [made] at cut
        exact .inr (cut.isPart d inside)
    · exact ih (fun e mem => tokens e (List.mem_cons_of_mem _ mem)) d behind

end Parts

end Token

namespace Expression

/-- The scan only goes over tokens. -/
theorem Place.not_mem_of_pass {place next : Place} {items : List Item}
    (passed : place.pass items = .ok next) (e : SyntaxError) : .error e ∉ items := by
  fun_induction place.pass items with
  | case1 => exact List.not_mem_nil
  | case2 => cases passed
  | case3 place token rest ih =>
    obtain ⟨behind, -, passed⟩ := bind_eq_ok.mp passed
    intro mem
    rcases List.mem_cons.mp mem with ⟨⟨⟩⟩ | mem
    exact ih behind passed mem

/-- A text that has no fault, or only ends too early, is made of tokens and white space. -/
theorem part_of_parse {text : String} (atEnd : ∀ e, parse text = .error e → e.AtEnd) :
    ∀ c ∈ text.toList, c.isWhitespace = true ∨ Token.IsPart c := by
  cases passed : (Place.before 0).pass (Token.scan text) with
  | error e => exact absurd (atEnd e (parse_of_fault passed)) (exists_part_of_fault passed).1
  | ok place => exact Token.part_of_scanFrom (Place.not_mem_of_pass passed)

end Expression

/-! ## What an error points at -/

/-- What an error is about in its text: the character or the literal that is no token, the token or
the parenthesis that may not stand where it does, or the last character, if there is one. -/
def SyntaxError.offending (text : List Char) : SyntaxError → List Char
  | .unexpectedCharacter c _ => [c]
  | .invalidLiteral literal _ _ => literal.toList
  | .unexpectedToken token _ => token.literal.toList
  | .unexpectedEnd _ => text.getLast?.toList
  | .tooDeep _ => ['(']

/-- What is wrong with an item: that it is no token, or that the token may not stand there. -/
inductive Item.Fault : Item → SyntaxError → Prop
  | lexeme {e : SyntaxError} : Fault (.error e) e
  | token {token : Token} {e : SyntaxError} : token.Fault e → Fault (.ok token) e

theorem Token.Cut.offending {offset : Nat} {lexeme after : List Char} {item : Item}
    {e : SyntaxError} (cut : Token.Cut offset lexeme after item) (fault : Item.Fault item e)
    (text : List Char) : e.offending text = lexeme ∧ e.span = ⟨offset, size lexeme⟩ := by
  cases fault with
  | lexeme =>
    refine ⟨?_, cut.span⟩
    cases cut with
    | tooLarge => exact String.toList_ofList
    | stray => rfl
  | @token token _ fault =>
    cases fault with
    | misplaced =>
      refine ⟨?_, cut.span⟩
      cases cut <;> exact String.toList_ofList
    | tooDeep opening =>
      cases cut with
      | symbol symbol =>
        rcases Token.mem_symbols.mp symbol with ⟨rfl, -⟩ | ⟨-, rfl⟩ | ⟨-, rfl⟩ | ⟨-, rfl⟩
        · exact ⟨rfl, rfl⟩
        all_goals cases opening
      | name | number => cases opening

namespace Expression

variable {text : String} {e : SyntaxError}

/-- The error of a text is the fault of one of its items, or its end. -/
theorem fault_of_parse (failed : parse text = .error e) :
    (∃ item ∈ Token.scan text, Item.Fault item e) ∨ e = .unexpectedEnd (size text.toList) := by
  cases origin_of_parse failed with
  | item mem => exact .inl ⟨_, mem, .lexeme⟩
  | token mem fault => exact .inl ⟨_, mem, .token fault⟩
  | ended => exact .inr rfl

theorem not_atEnd_of_fault {item : Item} (mem : item ∈ Token.scan text)
    (fault : Item.Fault item e) : ¬e.AtEnd := by
  cases fault with
  | lexeme => exact not_atEnd_of_mem_scan mem
  | token fault =>
    rintro ⟨bytes, rfl⟩
    cases fault

/-- A text that ends too early says how long it is. -/
theorem eq_unexpectedEnd_of_atEnd (failed : parse text = .error e) (atEnd : e.AtEnd) :
    e = .unexpectedEnd (size text.toList) := by
  rcases fault_of_parse failed with ⟨item, mem, fault⟩ | ended
  · exact absurd atEnd (not_atEnd_of_fault mem fault)
  · exact ended

/-- The stretch that an error points at. -/
theorem exists_offending (failed : parse text = .error e) :
    ∃ before after, text.toList = before ++ (e.offending text.toList ++ after) ∧
      e.span = ⟨size before, size (e.offending text.toList)⟩ ∧
      (e.AtEnd → after = [] ∧ ∀ c ∈ e.offending text.toList, c.toNat < 128) := by
  rcases fault_of_parse failed with ⟨item, mem, fault⟩ | rfl
  · obtain ⟨before, lexeme, after, split, cut⟩ := Token.exists_cut_of_mem_scan mem
    obtain ⟨offending, span⟩ := cut.offending fault text.toList
    rw [offending]
    exact ⟨before, after, split, span, fun atEnd => absurd atEnd (not_atEnd_of_fault mem fault)⟩
  · have atEnd (e : SyntaxError) (error : parse text = .error e) : e.AtEnd := by
      rw [failed] at error
      exact ⟨_, (Except.error.inj error).symm⟩
    rcases List.eq_nil_or_concat' text.toList with empty | ⟨front, last, split⟩
    · rw [empty]
      exact ⟨[], [], rfl, rfl, fun _ => ⟨rfl, by simp [SyntaxError.offending]⟩⟩
    · have single : last.toNat < 128 := by
        rcases part_of_parse atEnd last (by simp [split]) with space | part
        · exact toNat_lt_of_isWhitespace space
        · exact part.range.2
      have one : size [last] = 1 := by
        have byte : last.utf8Size = 1 := Char.utf8Size_eq_one_iff.mpr (Nat.le_of_lt_succ single)
        rw [size, byte, size]
      have offending : SyntaxError.offending text.toList (.unexpectedEnd (size text.toList)) =
          [last] := by
        rw [SyntaxError.offending, split, List.getLast?_concat, Option.toList_some]
      have span : (SyntaxError.unexpectedEnd (size text.toList)).span =
          ⟨size front, size [last]⟩ := by
        rw [SyntaxError.span, split, size_append, one, Nat.add_sub_cancel,
          Nat.min_eq_right (Nat.le_add_left 1 _)]
      rw [offending]
      exact ⟨front, [], split, span, fun _ => ⟨rfl, by simpa using single⟩⟩

/-- An error points at a stretch of whole characters that is no longer than the text: at what it is
about, which at the end of the text is a single byte, if there is one. The error is on the line
where that starts. -/
theorem parse_error_place (failed : parse text = .error e) :
    ∃ before after, text.toList = before ++ (e.offending text.toList ++ after) ∧
      e.span = ⟨size before, size (e.offending text.toList)⟩ ∧
      e.span.offset + e.span.length ≤ text.utf8ByteSize ∧
      e.line text.toList = 1 + ((utf8 text).take e.span.offset).count 10 ∧
      (e.AtEnd → after = [] ∧ ∀ c ∈ e.offending text.toList, c.toNat < 128) := by
  obtain ⟨before, after, split, span, last⟩ := exists_offending failed
  refine ⟨before, after, split, span, ?_, ?_, last⟩
  · rw [span, ← size_toList]
    conv => rhs; rw [split, size_append, size_append, ← Nat.add_assoc]
    exact Nat.le_add_right _ _
  · rw [SyntaxError.line, span, count_take_utf8 split]
    conv => lhs; rw [split]
    exact lineAt_append before _

/-- A character of two bytes on the third line, and a text that ends with a line feed. -/
theorem parse_error_place_lines :
    (parse "(x +\n y\n é" = .error (.unexpectedCharacter 'é' 9) ∧
      ∃ before after, "(x +\n y\n é".toList = before ++ (['é'] ++ after) ∧ size before = 9 ∧
        SyntaxError.line (.unexpectedCharacter 'é' 9) "(x +\n y\n é".toList = 3) ∧
    (parse "(x +\n" = .error (.unexpectedEnd 5) ∧
      ∃ before c, "(x +\n".toList = before ++ [c] ∧ size before = 4 ∧ c.toNat < 128) := by
  have stray : parse "(x +\n y\n é" = .error (.unexpectedCharacter 'é' 9) := by decide +kernel
  have early : parse "(x +\n" = .error (.unexpectedEnd 5) := by decide +kernel
  obtain ⟨before, after, split, span, -, line, -⟩ := parse_error_place stray
  have start : size before = 9 := (congrArg Span.offset span).symm
  refine ⟨⟨stray, before, after, split, start, line.trans (by decide +kernel)⟩, early, ?_⟩
  obtain ⟨before, after, split, span, -, -, last⟩ := parse_error_place early
  obtain ⟨rfl, single⟩ := last ⟨5, rfl⟩
  exact ⟨before, '\n', split, (congrArg Span.offset span).symm, single '\n' (by decide)⟩

end Expression

end SumProduct
