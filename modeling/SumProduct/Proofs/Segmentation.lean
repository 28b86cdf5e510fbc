import SumProduct.Proofs.Scanning

/-!
# Maximal munch

`Cut offset lexeme after item` says which lexeme a text starts with, what follows it, and which
item it makes. A name is the longest run of letters and a number the longest run of digits, with a
point and the longest run of digits behind that if there is one. `Segmentation offset text items`
says that the items are cut from the text one behind the other, and that they leave out nothing but
white space.

Results:
1. `Cut.eq_splitLexeme` and `cut_splitLexeme`: what is cut from a text is what `Token.splitLexeme`
   and `Token.ofLexeme` give.
2. `segmentation_iff`: the items of `Token.scanFrom` are the only segmentation of a text.
-/

namespace SumProduct

open Text

/-! ## Spans -/

/-- Where a span ends. -/
def Span.stop (s : Span) : Nat := s.offset + s.length

/-- Whether a byte of the text belongs to a span. -/
def Span.Contains (s : Span) (byte : Nat) : Prop := s.offset ≤ byte ∧ byte < s.stop

/-- The stretch of the text that an item stands for. -/
def Item.span : Item → Span
  | .ok token => token.span
  | .error e => e.span

namespace Text

theorem size_pos {text : List Char} (nonempty : text ≠ []) : 0 < size text := by
  cases text with
  | nil => exact absurd rfl nonempty
  | cons c rest => exact Nat.add_pos_left c.utf8Size_pos (size rest)

theorem eq_nil_of_size {text : List Char} (empty : size text = 0) : text = [] := by
  cases text with
  | nil => rfl
  | cons c rest => exact absurd empty (Nat.ne_of_gt (size_pos (List.cons_ne_nil c rest)))

/-- Of two starts of one text the shorter is a start of the longer. -/
theorem append_of_size_le {a b c d : List Char} (same : a ++ b = c ++ d)
    (le : size a ≤ size c) : ∃ middle, c = a ++ middle ∧ b = middle ++ d := by
  rcases List.append_eq_append_iff.mp same with ⟨middle, start, behind⟩ | ⟨middle, start, behind⟩
  · exact ⟨middle, start, behind⟩
  · have empty : middle = [] := by
      rw [start, size_append] at le
      exact eq_nil_of_size (Nat.eq_zero_of_le_zero (Nat.le_of_add_le_add_left le))
    subst empty
    exact ⟨[], by rw [start, List.append_nil, List.append_nil], behind.symm⟩

/-- A character of a text in two parts is in one of them. -/
theorem append_eq_append_cons {a b before after : List Char} {c : Char}
    (split : a ++ b = before ++ c :: after) :
    (∃ middle, a = before ++ c :: middle) ∨
      ∃ middle, before = a ++ middle ∧ b = middle ++ c :: after := by
  rcases List.append_eq_append_iff.mp split with ⟨middle, start, behind⟩ | ⟨middle, start, behind⟩
  · exact .inr ⟨middle, start, behind⟩
  · cases middle with
    | nil => exact .inr ⟨[], by simpa using start.symm, behind.symm⟩
    | cons first middle =>
      obtain ⟨rfl, -⟩ := List.cons.inj behind
      exact .inl ⟨middle, start⟩

end Text

namespace Token

/-! ## One lexeme -/

/-- A run of characters of a class that the text behind it does not prolong. -/
structure MaximalRun (p : Char → Bool) (run after : List Char) : Prop where
  nonempty : run ≠ []
  inside : ∀ c ∈ run, p c = true
  ends : ∀ c ∈ after.head?, p c = false

/-- A number literal in front of a text, with its digits before and after the point. -/
inductive Numeral : (whole fraction literal after : List Char) → Prop
  | whole {digits after : List Char} : MaximalRun Char.isDigit digits after →
      (∀ c rest, after = '.' :: c :: rest → c.isDigit = false) → Numeral digits [] digits after
  | pointed {whole fraction after : List Char} :
      MaximalRun Char.isDigit whole ('.' :: (fraction ++ after)) →
      MaximalRun Char.isDigit fraction after →
      Numeral whole fraction (whole ++ '.' :: fraction) after

/-- The lexeme in front of a text that starts after `offset` bytes, and what it stands for. -/
inductive Cut (offset : Nat) : (lexeme after : List Char) → Item → Prop
  | symbol {c : Char} {kind : TokenKind} {after : List Char} : (c, kind) ∈ symbols →
      Cut offset [c] after (.ok ⟨kind, String.ofList [c], offset⟩)
  | name {word after : List Char} : MaximalRun Char.isAlpha word after →
      Cut offset word after (.ok ⟨.ident, String.ofList word, offset⟩)
  | number {whole fraction literal after : List Char} {v : Number} :
      Numeral whole fraction literal after → (Decimal.ofDigits whole fraction).nearest? = some v →
      Cut offset literal after (.ok ⟨.number v, String.ofList literal, offset⟩)
  | tooLarge {whole fraction literal after : List Char} :
      Numeral whole fraction literal after → (Decimal.ofDigits whole fraction).nearest? = none →
      Cut offset literal after
        (.error (.invalidLiteral (String.ofList literal) offset (.notFinite (.infinite false))))
  | stray {c : Char} {after : List Char} : c.isWhitespace = false → c.isAlpha = false →
      c.isDigit = false → (∀ kind, (c, kind) ∉ symbols) →
      Cut offset [c] after (.error (.unexpectedCharacter c offset))

/-! ### What the text in front of a lexeme is -/

section Runs

variable {p : Char → Bool} {c : Char} {run after : List Char}

theorem MaximalRun.exists_cons (maximal : MaximalRun p run after) :
    ∃ first others, run = first :: others ∧ p first = true := by
  obtain ⟨first, others, rfl⟩ := List.exists_cons_of_ne_nil maximal.nonempty
  exact ⟨first, others, rfl, maximal.inside first List.mem_cons_self⟩

theorem exists_maximalRun (rest : List Char) (inside : p c = true) :
    ∃ run after, c :: rest = run ++ after ∧ MaximalRun p run after := by
  refine ⟨(c :: rest).takeWhile p, (c :: rest).dropWhile p,
    List.takeWhile_append_dropWhile.symm, ?_, ?_, ?_⟩
  · rw [List.takeWhile_cons_of_pos inside]
    exact List.cons_ne_nil _ _
  · exact fun d mem => List.all_eq_true.mp List.all_takeWhile d mem
  · intro d first
    have stops := List.head?_dropWhile_not p (c :: rest)
    rw [Option.mem_def.mp first] at stops
    exact stops

end Runs

section Numerals

variable {whole fraction literal after : List Char}

theorem Numeral.exists_cons (numeral : Numeral whole fraction literal after) :
    ∃ first others, literal = first :: others ∧ first.isDigit = true := by
  cases numeral with
  | whole digits _ => exact digits.exists_cons
  | pointed digits _ =>
    obtain ⟨first, others, rfl, digit⟩ := digits.exists_cons
    exact ⟨first, _, rfl, digit⟩

theorem Numeral.visible (numeral : Numeral whole fraction literal after) :
    ∀ c ∈ literal, c.isWhitespace = false := by
  have digit_visible {c : Char} (digit : c.isDigit = true) : c.isWhitespace = false :=
    isWhitespace_of_class digit rfl
  intro c mem
  cases numeral with
  | whole digits _ => exact digit_visible (digits.inside c mem)
  | pointed digits behind =>
    rcases List.mem_append.mp mem with mem | mem
    · exact digit_visible (digits.inside c mem)
    rcases List.mem_cons.mp mem with rfl | mem
    · rfl
    · exact digit_visible (behind.inside c mem)

theorem Numeral.splitNumber (numeral : Numeral whole fraction literal after) :
    splitNumber (literal ++ after) = (literal, after) := by
  cases numeral with
  | whole digits dangling =>
    have nothing : (splitFraction after).1 = [] := by
      unfold splitFraction
      split
      · next rest =>
        cases rest with
        | nil => rfl
        | cons c rest => simp [splitDigits, dangling c rest rfl]
      · rfl
    simp only [Token.splitNumber, splitDigits_run digits.inside digits.ends, nothing, if_pos]
  | pointed digits behind =>
    rw [List.append_assoc, List.cons_append]
    exact splitNumber_pointed digits.inside behind.inside behind.nonempty behind.ends

theorem Numeral.literalValue (numeral : Numeral whole fraction literal after) :
    literalValue literal = Number.ofDouble ((Decimal.ofDigits whole fraction).toDouble false) := by
  cases numeral with
  | whole digits _ =>
    simp only [Token.literalValue, splitDigits_digits digits.inside, splitFraction]
  | pointed digits behind => exact literalValue_pointed digits.inside behind.inside

/-- Each text that starts with a digit starts with a number literal. -/
theorem exists_numeral {c : Char} (rest : List Char) (digit : c.isDigit = true) :
    ∃ whole fraction literal after, c :: rest = literal ++ after ∧
      Numeral whole fraction literal after := by
  obtain ⟨digits, after, split, maximal⟩ := exists_maximalRun rest digit
  by_cases pointed : ∃ d behind, after = '.' :: d :: behind ∧ d.isDigit = true
  · obtain ⟨d, behind, rfl, digit⟩ := pointed
    obtain ⟨fraction, after, same, behind_maximal⟩ := exists_maximalRun behind digit
    rw [same] at split maximal
    exact ⟨digits, fraction, digits ++ '.' :: fraction, after, by simp [split],
      .pointed maximal behind_maximal⟩
  · refine ⟨digits, [], digits, after, split, .whole maximal fun d behind dangling => ?_⟩
    exact Bool.eq_false_iff.mpr fun digit => pointed ⟨d, behind, dangling, digit⟩

end Numerals

section Cuts

variable {offset : Nat} {c : Char} {rest lexeme after : List Char} {item : Item}

theorem ofDouble_toDouble (d : Decimal) : Number.ofDouble (d.toDouble false) =
    match d.nearest? with
    | some v => .ok v
    | none => .error (.notFinite (.infinite false)) := by
  rw [Decimal.toDouble]
  cases d.nearest? with
  | some v => exact Number.ofDouble_toDouble v
  | none => rfl

theorem splitLexeme_number {whole fraction : List Char}
    (numeral : Numeral whole fraction lexeme after) (split : c :: rest = lexeme ++ after) :
    c.isDigit = true ∧ splitLexeme c rest = (lexeme, after) := by
  obtain ⟨first, others, spelled, digit⟩ := numeral.exists_cons
  have same : c = first := by
    rw [spelled] at split
    exact (List.cons.inj split).1
  subst same
  refine ⟨digit, ?_⟩
  rw [splitLexeme, if_neg (by simp [isAlpha_of_isDigit digit]), if_pos digit, split,
    numeral.splitNumber]

theorem ofLexeme_number {whole fraction : List Char} (digit : c.isDigit = true)
    (numeral : Numeral whole fraction lexeme after) :
    ofLexeme c lexeme offset =
      match (Decimal.ofDigits whole fraction).nearest? with
      | some v => .ok ⟨.number v, String.ofList lexeme, offset⟩
      | none =>
        .error (.invalidLiteral (String.ofList lexeme) offset (.notFinite (.infinite false))) := by
  rw [ofLexeme_digit digit, numeral.literalValue, ofDouble_toDouble]
  cases (Decimal.ofDigits whole fraction).nearest? <;> rfl

/-- What is cut from a text is its first lexeme. -/
theorem Cut.eq_splitLexeme (cut : Cut offset lexeme after item)
    (split : c :: rest = lexeme ++ after) :
    splitLexeme c rest = (lexeme, after) ∧ ofLexeme c lexeme offset = item := by
  cases cut with
  | symbol symbol =>
    obtain ⟨rfl, rfl⟩ := List.cons.inj split
    rcases mem_symbols.mp symbol with ⟨rfl, rfl⟩ | ⟨rfl, rfl⟩ | ⟨rfl, rfl⟩ | ⟨rfl, rfl⟩ <;>
      exact ⟨rfl, rfl⟩
  | name word =>
    obtain ⟨first, others, rfl, letter⟩ := word.exists_cons
    rw [List.cons_append] at split
    obtain ⟨rfl, rfl⟩ := List.cons.inj split
    have outside := word.ends
    have inside := (List.forall_mem_cons.mp word.inside).2
    rw [splitLexeme, if_pos letter, takeWhile_run inside outside, dropWhile_run inside outside]
    exact ⟨rfl, ofLexeme_letter letter⟩
  | number numeral value =>
    obtain ⟨digit, first⟩ := splitLexeme_number numeral split
    rw [ofLexeme_number digit numeral, value]
    exact ⟨first, rfl⟩
  | tooLarge numeral value =>
    obtain ⟨digit, first⟩ := splitLexeme_number numeral split
    rw [ofLexeme_number digit numeral, value]
    exact ⟨first, rfl⟩
  | stray visible letter digit other =>
    obtain ⟨rfl, rfl⟩ := List.cons.inj split
    rw [splitLexeme, if_neg (by simp [letter]), if_neg (by simp [digit]),
      ofLexeme_of_not_symbol other, if_neg (by simp [letter]), if_neg (by simp [digit])]
    exact ⟨rfl, rfl⟩

/-- Something is cut from each text that does not start with white space. -/
theorem exists_cut (offset : Nat) (rest : List Char) (visible : c.isWhitespace = false) :
    ∃ lexeme after item, c :: rest = lexeme ++ after ∧ Cut offset lexeme after item := by
  by_cases letter : c.isAlpha = true
  · obtain ⟨word, after, split, maximal⟩ := exists_maximalRun rest letter
    exact ⟨word, after, _, split, .name maximal⟩
  by_cases digit : c.isDigit = true
  · obtain ⟨whole, fraction, literal, after, split, numeral⟩ := exists_numeral rest digit
    cases value : (Decimal.ofDigits whole fraction).nearest? with
    | some v => exact ⟨literal, after, _, split, .number numeral value⟩
    | none => exact ⟨literal, after, _, split, .tooLarge numeral value⟩
  by_cases symbol : ∃ kind, (c, kind) ∈ symbols
  · obtain ⟨kind, mem⟩ := symbol
    exact ⟨[c], rest, _, rfl, .symbol mem⟩
  · exact ⟨[c], rest, _, rfl, .stray visible (Bool.eq_false_iff.mpr letter)
      (Bool.eq_false_iff.mpr digit) fun kind mem => symbol ⟨kind, mem⟩⟩

/-- What `splitLexeme` and `ofLexeme` give is cut from the text. -/
theorem cut_splitLexeme (offset : Nat) (rest : List Char) (visible : c.isWhitespace = false) :
    Cut offset (splitLexeme c rest).1 (splitLexeme c rest).2
      (ofLexeme c (splitLexeme c rest).1 offset) := by
  obtain ⟨lexeme, after, item, split, cut⟩ := exists_cut offset rest visible
  obtain ⟨first, made⟩ := cut.eq_splitLexeme split
  rw [first, made]
  exact cut

/-- A lexeme has at least one character. -/
theorem Cut.nonempty (cut : Cut offset lexeme after item) : lexeme ≠ [] := by
  cases cut with
  | symbol | stray => exact List.cons_ne_nil _ _
  | name word => exact word.nonempty
  | number numeral | tooLarge numeral =>
    obtain ⟨first, others, rfl, -⟩ := numeral.exists_cons
    exact List.cons_ne_nil _ _

/-- Only one item is cut from a text. -/
theorem Cut.unique {lexeme' after' : List Char} {item' : Item} (cut : Cut offset lexeme after item)
    (cut' : Cut offset lexeme' after' item') (same : lexeme ++ after = lexeme' ++ after') :
    lexeme = lexeme' ∧ after = after' ∧ item = item' := by
  obtain ⟨c, others, rfl⟩ := List.exists_cons_of_ne_nil cut.nonempty
  obtain ⟨first, made⟩ := cut.eq_splitLexeme (List.cons_append ..).symm
  obtain ⟨first', made'⟩ := cut'.eq_splitLexeme ((List.cons_append ..).symm.trans same)
  obtain ⟨rfl, rfl⟩ := Prod.mk.inj (first.symm.trans first')
  exact ⟨rfl, rfl, made.symm.trans made'⟩

/-- The item of a lexeme stands for all of it. -/
theorem Cut.span (cut : Cut offset lexeme after item) :
    Item.span item = ⟨offset, size lexeme⟩ := by
  cases cut with
  | symbol | name | number | tooLarge =>
    simp only [Item.span, Token.span, SyntaxError.span, String.toList_ofList]
  | stray => rfl

/-- There is no white space in a lexeme. -/
theorem Cut.visible (cut : Cut offset lexeme after item) :
    ∀ c ∈ lexeme, c.isWhitespace = false := by
  intro c mem
  cases cut with
  | symbol symbol =>
    obtain rfl := List.mem_singleton.mp mem
    rcases mem_symbols.mp symbol with ⟨rfl, -⟩ | ⟨rfl, -⟩ | ⟨rfl, -⟩ | ⟨rfl, -⟩ <;> rfl
  | name word => exact isWhitespace_of_class (word.inside c mem) rfl
  | number numeral | tooLarge numeral => exact numeral.visible c mem
  | stray visible =>
    obtain rfl := List.mem_singleton.mp mem
    exact visible

end Cuts

/-! ## A whole text -/

/-- The item is cut from some place of a text that starts after `offset` bytes. -/
def CutFrom (offset : Nat) (text : List Char) (item : Item) : Prop :=
  ∃ before lexeme after, text = before ++ (lexeme ++ after) ∧ lexeme ≠ [] ∧
    Item.span item = ⟨offset + size before, size lexeme⟩ ∧
    Cut (offset + size before) lexeme after item

/-- The bytes of the text that belong to items are those of all characters but white space. -/
def Covers (offset : Nat) (text : List Char) (items : List Item) : Prop :=
  ∀ before c after, text = before ++ c :: after →
    ∀ byte, offset + size before ≤ byte → byte < offset + size before + c.utf8Size →
      ((∃ item ∈ items, (Item.span item).Contains byte) ↔ c.isWhitespace = false)

/-- The items are cut from a text that starts after `offset` bytes, one behind the other, and only
white space is left out. -/
structure Segmentation (offset : Nat) (text : List Char) (items : List Item) : Prop where
  cut : ∀ item ∈ items, CutFrom offset text item
  ordered : items.Pairwise fun first second => (Item.span first).stop ≤ (Item.span second).offset
  covers : Covers offset text items

section Parts

variable {offset : Nat} {rest : List Char} {items : List Item} {item : Item}

theorem CutFrom.offset_le (cut : CutFrom offset rest item) : offset ≤ (Item.span item).offset := by
  obtain ⟨before, lexeme, after, -, -, span, -⟩ := cut
  rw [span]
  exact Nat.le_add_right offset (size before)

theorem CutFrom.offset_lt_stop (cut : CutFrom offset rest item) :
    (Item.span item).offset < (Item.span item).stop := by
  obtain ⟨before, lexeme, after, -, nonempty, span, -⟩ := cut
  rw [span]
  exact Nat.lt_add_of_pos_right (size_pos nonempty)

/-- An item behind the first part of a text is cut from the second part. -/
theorem cutFrom_append (skipped : List Char) : CutFrom (offset + size skipped) rest item ↔
    CutFrom offset (skipped ++ rest) item ∧ offset + size skipped ≤ (Item.span item).offset := by
  constructor
  · intro cut
    refine ⟨?_, cut.offset_le⟩
    obtain ⟨before, lexeme, after, rfl, nonempty, span, cut⟩ := cut
    refine ⟨skipped ++ before, lexeme, after, (List.append_assoc ..).symm, nonempty, ?_⟩
    rw [size_append, ← Nat.add_assoc]
    exact ⟨span, cut⟩
  · rintro ⟨⟨before, lexeme, after, split, nonempty, span, cut⟩, le⟩
    rw [span] at le
    obtain ⟨middle, rfl, rfl⟩ := append_of_size_le split (Nat.le_of_add_le_add_left le)
    rw [size_append, ← Nat.add_assoc] at span cut
    exact ⟨middle, lexeme, after, rfl, nonempty, span, cut⟩

/-- An item that ends in front of the text covers none of it. -/
theorem covers_cons (ends : (Item.span item).stop ≤ offset) :
    Covers offset rest (item :: items) ↔ Covers offset rest items := by
  refine forall_congr' fun before => forall_congr' fun c => forall_congr' fun after =>
    forall_congr' fun split => forall_congr' fun byte => forall_congr' fun le =>
    forall_congr' fun lt => ?_
  have outside : ¬(Item.span item).Contains byte := fun contains =>
    Nat.not_lt.mpr (Nat.le_trans ends (Nat.le_of_add_right_le le)) contains.2
  simp only [List.mem_cons, exists_eq_or_imp, or_iff_right outside]

theorem covers_append (skipped : List Char) : Covers offset (skipped ++ rest) items ↔
    Covers offset skipped items ∧ Covers (offset + size skipped) rest items := by
  constructor
  · intro covers
    refine ⟨fun before c after split => ?_, fun before c after split => ?_⟩
    · exact covers before c (after ++ rest) (by simp [split])
    · have whole := covers (skipped ++ before) c after (by simp [split])
      rwa [size_append, ← Nat.add_assoc] at whole
  · rintro ⟨left, right⟩ before c after split
    rcases append_eq_append_cons split with ⟨middle, inside⟩ | ⟨middle, rfl, inside⟩
    · exact left before c middle inside
    · rw [size_append, ← Nat.add_assoc]
      exact right middle c after inside

end Parts

section Steps

variable {offset : Nat} {c : Char} {rest lexeme after : List Char} {items : List Item}
  {item : Item}

@[simp] theorem segmentation_nil : Segmentation offset [] items ↔ items = [] := by
  constructor
  · intro segmentation
    refine List.eq_nil_iff_forall_not_mem.mpr fun item mem => ?_
    obtain ⟨before, lexeme, after, split, nonempty, -⟩ := segmentation.cut item mem
    have none := List.append_eq_nil_iff.mp (List.append_eq_nil_iff.mp split.symm).2
    exact nonempty none.1
  · rintro rfl
    exact ⟨by simp, .nil, fun before c after split => by simp at split⟩

/-- White space in front of a text belongs to no item. -/
theorem segmentation_space (space : c.isWhitespace = true) :
    Segmentation offset (c :: rest) items ↔ Segmentation (offset + c.utf8Size) rest items := by
  have cut_iff (item : Item) : CutFrom (offset + c.utf8Size) rest item ↔
      CutFrom offset (c :: rest) item ∧ offset + c.utf8Size ≤ (Item.span item).offset :=
    cutFrom_append [c]
  have covers_iff : Covers offset (c :: rest) items ↔
      Covers offset [c] items ∧ Covers (offset + c.utf8Size) rest items := covers_append [c]
  constructor
  · rintro ⟨cut, ordered, covers⟩
    refine ⟨fun item mem => (cut_iff item).mpr ⟨cut item mem, ?_⟩, ordered,
      (covers_iff.mp covers).2⟩
    -- An item that starts with the white space would contain its first byte.
    obtain ⟨before, lexeme, after, split, nonempty, span, -⟩ := cut item mem
    cases before with
    | nil =>
      have contains : (Item.span item).Contains offset := by
        rw [span]
        exact ⟨Nat.le_refl offset, Nat.lt_add_of_pos_right (size_pos nonempty)⟩
      have visible := (covers [] c rest rfl offset (Nat.le_refl offset)
        (Nat.lt_add_of_pos_right c.utf8Size_pos)).mp ⟨item, mem, contains⟩
      rw [space] at visible
      cases visible
    | cons first before =>
      obtain ⟨rfl, -⟩ := List.cons.inj split
      rw [span, size, ← Nat.add_assoc]
      exact Nat.le_add_right _ _
  · rintro ⟨cut, ordered, covers⟩
    refine ⟨fun item mem => ((cut_iff item).mp (cut item mem)).1, ordered,
      covers_iff.mpr ⟨fun before d after split byte _ lt => ?_, covers⟩⟩
    cases before with
    | nil =>
      obtain ⟨rfl, -⟩ := List.cons.inj split
      refine iff_of_false ?_ (by simp [space])
      rintro ⟨item, mem, contains⟩
      exact Nat.not_lt.mpr (Nat.le_trans (cut item mem).offset_le contains.1) lt
    | cons first before => simp at split

/-- What is cut from the start of a text is an item of each of its segmentations: its first byte
belongs to an item, and that is cut from the start as well. -/
theorem Segmentation.mem_of_cut (segmentation : Segmentation offset (lexeme ++ after) items)
    (cut : Cut offset lexeme after item) : item ∈ items := by
  obtain ⟨c, others, rfl⟩ := List.exists_cons_of_ne_nil cut.nonempty
  have visible := cut.visible c List.mem_cons_self
  obtain ⟨found, mem, contains⟩ := (segmentation.covers [] c (others ++ after) rfl offset
    (Nat.le_refl offset) (Nat.lt_add_of_pos_right c.utf8Size_pos)).mpr visible
  obtain ⟨before, lexeme, behind, split, -, span, found_cut⟩ := segmentation.cut found mem
  have start : before = [] := by
    have le := contains.1
    rw [span] at le
    exact eq_nil_of_size (Nat.eq_zero_of_le_zero (Nat.le_of_add_le_add_left le))
  subst start
  obtain ⟨-, -, rfl⟩ := cut.unique found_cut split
  exact mem

/-- An item in front of a text is the first one. -/
theorem segmentation_cut (cut : Cut offset lexeme after item) :
    Segmentation offset (lexeme ++ after) items ↔
      ∃ others, items = item :: others ∧ Segmentation (offset + size lexeme) after others := by
  have stop : (Item.span item).stop = offset + size lexeme := by
    rw [cut.span]
    rfl
  constructor
  · intro segmentation
    obtain ⟨earlier, others, rfl⟩ := List.append_of_mem (segmentation.mem_of_cut cut)
    obtain ⟨-, ordered, earlier_stop⟩ := List.pairwise_append.mp segmentation.ordered
    have first : earlier = [] := by
      refine List.eq_nil_iff_forall_not_mem.mpr fun other mem => ?_
      have placed := segmentation.cut other (List.mem_append_left _ mem)
      have le := earlier_stop other mem item List.mem_cons_self
      rw [cut.span] at le
      exact Nat.not_lt.mpr (Nat.le_trans le placed.offset_le) placed.offset_lt_stop
    subst first
    obtain ⟨behind, ordered⟩ := List.pairwise_cons.mp ordered
    refine ⟨others, rfl, fun other mem => ?_, ordered, ?_⟩
    · refine (cutFrom_append lexeme).mpr ⟨segmentation.cut other (List.mem_cons_of_mem _ mem), ?_⟩
      rw [← stop]
      exact behind other mem
    · have covers := ((covers_append lexeme).mp segmentation.covers).2
      exact (covers_cons (Nat.le_of_eq stop)).mp covers
  · rintro ⟨others, rfl, segmentation⟩
    refine ⟨fun other mem => ?_, ?_, (covers_append lexeme).mpr ⟨?_, ?_⟩⟩
    · rcases List.mem_cons.mp mem with rfl | mem
      · exact ⟨[], lexeme, after, rfl, cut.nonempty, cut.span, cut⟩
      · exact ((cutFrom_append lexeme).mp (segmentation.cut other mem)).1
    · refine List.pairwise_cons.mpr ⟨fun other mem => ?_, segmentation.ordered⟩
      rw [stop]
      exact (segmentation.cut other mem).offset_le
    · rintro before c behind rfl byte le lt
      refine iff_of_true ⟨item, List.mem_cons_self, ?_⟩ (cut.visible c (by simp))
      rw [size_append, size] at stop
      refine ⟨?_, by omega⟩
      rw [cut.span]
      exact Nat.le_of_add_right_le le
    · exact (covers_cons (Nat.le_of_eq stop)).mpr segmentation.covers

end Steps

/-- By induction along the scan: white space is passed over, or a first lexeme is cut off. -/
theorem segmentation_iff (offset : Nat) (text : List Char) (items : List Item) :
    Segmentation offset text items ↔ items = scanFrom offset text := by
  fun_induction scanFrom offset text generalizing items with
  | case1 offset => exact segmentation_nil
  | case2 offset c rest space ih => rw [segmentation_space space, ih]
  | case3 offset c rest visible lexeme ih =>
    have cut := cut_splitLexeme offset rest (Bool.eq_false_iff.mpr visible)
    rw [← splitLexeme_append c rest, segmentation_cut cut]
    simp only [ih, lexeme]
    constructor
    · rintro ⟨others, rfl, rfl⟩
      rfl
    · intro same
      exact ⟨_, same, rfl⟩

/-- Each item of a text is cut from it. -/
theorem exists_cut_of_mem_scan {text : String} {item : Item} (mem : item ∈ scan text) :
    ∃ before lexeme after, text.toList = before ++ (lexeme ++ after) ∧
      Cut (size before) lexeme after item := by
  obtain ⟨before, lexeme, after, split, -, -, cut⟩ :=
    ((segmentation_iff 0 text.toList _).mpr rfl).cut item mem
  rw [Nat.zero_add] at cut
  exact ⟨before, lexeme, after, split, cut⟩

end Token

end SumProduct
