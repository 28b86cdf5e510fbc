import Mathlib.Data.List.Basic
import SumProduct.Proofs.Scanning
import SumProduct.Session.Transcript

/-!
# Lines of bytes

Each line feed ends a line, and what is behind the last one is a line if it is not empty (`Lines`).
A line is read if it is the UTF-8 of a text. No byte of another character is a line feed or a
carriage return, so lines may be cut before they are read, and a carriage return at the end of a
line is one at the end of its text.

Results:
1. `fromUTF8?_eq_some_iff`: what reading a line gives.
2. `exists_utf8_of_return`: a carriage return at the end of a line.
3. `lines_iff`: `splitLines` gives the lines.
4. `exists_unfinished`: what goes on behind some bytes goes on in their last line.
-/

namespace SumProduct

/-! ## Texts as bytes -/

namespace Text

/-- The bytes of a text in UTF-8. -/
def utf8 (text : String) : List UInt8 := text.toUTF8.data.toList

section Bytes

variable {text : String} {line : List UInt8}

theorem fromUTF8?_eq_some_iff :
    String.fromUTF8? ⟨line.toArray⟩ = some text ↔ line = utf8 text := by
  constructor
  · intro read
    unfold String.fromUTF8? at read
    split at read
    · cases read
      rfl
    · cases read
  · rintro rfl
    unfold String.fromUTF8? utf8
    rw [Array.toArray_toList]
    exact dif_pos text.isValidUTF8

theorem utf8_injective : Function.Injective utf8 := by
  intro a b same
  have read := fromUTF8?_eq_some_iff.mpr same
  rw [fromUTF8?_eq_some_iff.mpr rfl] at read
  exact Option.some.inj read

theorem utf8_eq_flatMap (text : String) :
    utf8 text = text.toList.flatMap String.utf8EncodeChar := by
  unfold utf8
  rw [String.toUTF8_eq_toByteArray, ← String.utf8Encode_toList, List.utf8Encode,
    List.toList_data_toByteArray]

@[simp] theorem utf8_append (a b : String) : utf8 (a ++ b) = utf8 a ++ utf8 b := by
  rw [utf8_eq_flatMap, String.toList_append, List.flatMap_append, ← utf8_eq_flatMap,
    ← utf8_eq_flatMap]

theorem feed_mem_utf8 (feed : '\n' ∈ text.toList) : 10 ∈ utf8 text := by
  rw [utf8_eq_flatMap]
  exact List.mem_flatMap.mpr ⟨'\n', feed, by decide⟩

/-- Behind the first byte of a character none is a carriage return. -/
theorem eq_return_of_utf8EncodeChar {c : Char} {bytes : List UInt8}
    (encoded : String.utf8EncodeChar c = bytes ++ [13]) : bytes = [] ∧ c = '\r' := by
  have within : bytes.length < (String.utf8EncodeChar c).length := by
    rw [encoded, List.length_append]
    exact Nat.lt_succ_self _
  have last : (String.utf8EncodeChar c)[bytes.length] = 13 := by
    simp [encoded]
  have first : (String.utf8EncodeChar c)[bytes.length].IsUTF8FirstByte ↔ bytes.length = 0 :=
    UInt8.isUTF8FirstByte_getElem_utf8EncodeChar
  rw [last] at first
  have empty : bytes = [] := List.eq_nil_of_length_eq_zero (first.mp (by decide))
  rw [empty] at encoded
  have same : String.ofList [c] = String.ofList ['\r'] := by
    apply utf8_injective
    rw [utf8_eq_flatMap, utf8_eq_flatMap, String.toList_ofList, String.toList_ofList,
      List.flatMap_singleton, List.flatMap_singleton, encoded]
    decide
  exact ⟨empty, (List.cons.inj (String.ofList_injective same)).1⟩

/-- A carriage return that ends a line ends its text. -/
theorem exists_utf8_of_return (read : line ++ [13] = utf8 text) :
    ∃ front, line = utf8 front ∧ text = front ++ "\r" := by
  rw [utf8_eq_flatMap] at read
  rcases List.eq_nil_or_concat' text.toList with empty | ⟨front, c, split⟩
  · rw [empty] at read
    simp at read
  · rw [split, List.flatMap_append, List.flatMap_singleton] at read
    obtain ⟨bytes, last, encoded⟩ :=
      (List.eq_nil_or_concat' (String.utf8EncodeChar c)).resolve_left String.utf8EncodeChar_ne_nil
    rw [encoded, ← List.append_assoc] at read
    obtain ⟨split_line, rfl⟩ := List.append_singleton_inj.mp read
    obtain ⟨rfl, rfl⟩ := eq_return_of_utf8EncodeChar encoded
    refine ⟨String.ofList front, ?_, String.toList_injective (by simp [split])⟩
    rw [split_line, utf8_eq_flatMap, String.toList_ofList, List.append_nil]

theorem toList_loop (array : ByteArray) (i : Nat) (taken : List UInt8) :
    ByteArray.toList.loop array i taken = taken.reverse ++ array.data.toList.drop i := by
  fun_induction ByteArray.toList.loop array i taken with
  | case1 i taken within ih =>
    have inside : i < array.data.toList.length := within
    rw [ih, List.drop_eq_getElem_cons inside, List.reverse_cons, List.append_assoc]
    simp [ByteArray.get!, within]
  | case2 i taken ended =>
    have behind : array.data.toList.length ≤ i := Nat.le_of_not_lt ended
    rw [List.drop_eq_nil_of_le behind, List.append_nil]

@[simp] theorem toList_toByteArray (bytes : List UInt8) : bytes.toByteArray.toList = bytes := by
  rw [ByteArray.toList, toList_loop, List.reverse_nil, List.nil_append, List.drop_zero,
    List.toList_data_toByteArray]

end Bytes

end Text

/-! ## Lines -/

/-- The lines of some bytes. -/
inductive Lines : List UInt8 → List (List UInt8) → Prop
  | nil : Lines [] []
  | last {line : List UInt8} : line ≠ [] → 10 ∉ line → Lines line [line]
  | feed {line rest : List UInt8} {lines : List (List UInt8)} : 10 ∉ line → Lines rest lines →
      Lines (line ++ 10 :: rest) (line :: lines)

section Lines

variable {bytes line rest : List UInt8} {lines : List (List UInt8)}

theorem inside_of_not_mem (whole : 10 ∉ line) : ∀ b ∈ line, decide (b ≠ 10) = true := by
  intro b mem
  exact decide_eq_true fun feed => whole (feed ▸ mem)

theorem splitLines_last (nonempty : line ≠ []) (whole : 10 ∉ line) :
    splitLines line = [line] := by
  have inside := inside_of_not_mem whole
  have outside : ∀ b ∈ ([] : List UInt8).head?, decide (b ≠ 10) = false := by
    rintro b ⟨⟩
  have taken := Token.takeWhile_run inside outside
  have dropped := Token.dropWhile_run inside outside
  rw [List.append_nil] at taken dropped
  obtain ⟨first, others, rfl⟩ := List.exists_cons_of_ne_nil nonempty
  rw [splitLines, taken, dropped, List.drop_nil, splitLines]

theorem splitLines_feed (whole : 10 ∉ line) (rest : List UInt8) :
    splitLines (line ++ 10 :: rest) = line :: splitLines rest := by
  have inside := inside_of_not_mem whole
  have outside : ∀ b ∈ (10 :: rest).head?, decide (b ≠ 10) = false := by
    rintro b ⟨⟩
    rfl
  obtain ⟨first, others, split⟩ :=
    List.exists_cons_of_ne_nil (List.append_ne_nil_of_right_ne_nil line (List.cons_ne_nil 10 rest))
  rw [split, splitLines, ← split, Token.takeWhile_run inside outside,
    Token.dropWhile_run inside outside, List.drop_one, List.tail_cons]

theorem lines_splitLines (bytes : List UInt8) : Lines bytes (splitLines bytes) := by
  fun_induction splitLines bytes with
  | case1 => exact .nil
  | case2 first rest ih =>
    have whole : 10 ∉ (first :: rest).takeWhile (· ≠ 10) := by
      intro mem
      cases List.all_eq_true.mp List.all_takeWhile 10 mem
    have split := List.takeWhile_append_dropWhile (p := (· ≠ 10)) (l := first :: rest)
    have stops := List.head?_dropWhile_not (· ≠ 10) (first :: rest)
    cases behind : (first :: rest).dropWhile (· ≠ 10) with
    | nil =>
      rw [behind, List.append_nil] at split
      rw [List.drop_nil, splitLines, split]
      exact .last (List.cons_ne_nil first rest) (split ▸ whole)
    | cons feed more =>
      rw [behind] at split stops ih
      obtain rfl : feed = 10 := by simpa using stops
      have lines := Lines.feed whole ih
      rwa [List.drop_one, List.tail_cons, split] at lines

theorem lines_iff : Lines bytes lines ↔ splitLines bytes = lines := by
  constructor
  · intro spec
    induction spec with
    | nil => rw [splitLines]
    | last nonempty whole => exact splitLines_last nonempty whole
    | feed whole _ ih => rw [splitLines_feed whole, ih]
  · rintro rfl
    exact lines_splitLines bytes

theorem Lines.not_feed_mem (spec : Lines bytes lines) : ∀ line ∈ lines, 10 ∉ line := by
  induction spec with
  | nil => simp
  | last _ whole => simpa using whole
  | feed whole _ ih => exact List.forall_mem_cons.mpr ⟨whole, ih⟩

/-- Some bytes are whole lines and the start of a line, which goes on in what follows. -/
theorem exists_unfinished (bytes : List UInt8) : ∃ before line, 10 ∉ line ∧
    ∀ rest, splitLines (bytes ++ rest) = before ++ splitLines (line ++ rest) := by
  have spec := lines_splitLines bytes
  generalize splitLines bytes = lines at spec
  induction spec with
  | nil => exact ⟨[], [], List.not_mem_nil, fun rest => rfl⟩
  | @last line nonempty whole => exact ⟨[], line, whole, fun rest => rfl⟩
  | @feed line _ _ whole _ ih =>
    obtain ⟨before, unfinished, open_, goesOn⟩ := ih
    refine ⟨line :: before, unfinished, open_, fun more => ?_⟩
    rw [List.append_assoc, List.cons_append, splitLines_feed whole, goesOn, List.cons_append]

/-- The lines in front of a line feed stay as they are, whatever follows it. -/
theorem exists_splitLines_append (start more : List UInt8) :
    ∃ extra, splitLines (start ++ 10 :: more) = splitLines start ++ extra := by
  obtain ⟨before, line, whole, goesOn⟩ := exists_unfinished start
  have ended := goesOn []
  rw [List.append_nil, List.append_nil] at ended
  rw [goesOn, splitLines_feed whole, ended]
  cases line with
  | nil => exact ⟨[] :: splitLines more, by rw [splitLines, List.append_nil]⟩
  | cons first others =>
    rw [splitLines_last (List.cons_ne_nil first others) whole]
    exact ⟨splitLines more, by simp⟩

end Lines

end SumProduct
