import SumProduct.Proofs.Segmentation

/-!
# Texts that go on

A lexeme only needs that the text behind it does not prolong it. So it is still cut off where that
text stops earlier, or is interrupted by white space (`Cut.interrupted`).

Results:
1. `scanFrom_append_space`: the items of two texts with white space between them are those of the
   first and then those of the second.
2. `exists_split`: a text may be divided in front of each of its items, and what stands before that
   is cut into the items before it.
-/

namespace SumProduct.Token

open Text

/-! ## Behind a lexeme -/

/-- The second text is the first one up to a place where it ends or has white space. -/
inductive Interrupted : List Char → List Char → Prop
  | here {text rest : List Char} : (∀ c ∈ rest.head?, c.isWhitespace = true) →
      Interrupted text rest
  | cons {c : Char} {text rest : List Char} : Interrupted text rest →
      Interrupted (c :: text) (c :: rest)

theorem Interrupted.ended (text rest : List Char) : Interrupted (text ++ rest) text := by
  induction text with
  | nil => exact .here (by rintro c ⟨⟩)
  | cons c text ih => exact .cons ih

theorem Interrupted.space {w : Char} (blank : w.isWhitespace = true) (text rest : List Char) :
    Interrupted text (text ++ w :: rest) := by
  induction text with
  | nil =>
    refine .here ?_
    rintro c ⟨⟩
    exact blank
  | cons c text ih => exact .cons ih

section Lexemes

variable {p : Char → Bool} {run lexeme whole fraction literal after later : List Char}
  {offset : Nat} {item : Item}

theorem not_class_of_isWhitespace {c : Char} (blank : c.isWhitespace = true)
    (outside : [' ', '\t', '\r', '\n'].all (!p ·) = true) : p c = false := by
  rw [Bool.eq_false_iff]
  intro inside
  rw [isWhitespace_of_class inside outside] at blank
  cases blank

theorem MaximalRun.interrupted (maximal : MaximalRun p run after)
    (outside : [' ', '\t', '\r', '\n'].all (!p ·) = true) (interrupted : Interrupted after later) :
    MaximalRun p run later := by
  refine ⟨maximal.nonempty, maximal.inside, ?_⟩
  cases interrupted with
  | here blank => exact fun c first => not_class_of_isWhitespace (blank c first) outside
  | cons _ => exact maximal.ends

theorem Numeral.interrupted (numeral : Numeral whole fraction literal after)
    (interrupted : Interrupted after later) : Numeral whole fraction literal later := by
  cases numeral with
  | whole digits dangling =>
    refine .whole (digits.interrupted rfl interrupted) fun c rest pointed => ?_
    -- The point stands in both texts, and then either the same character or white space.
    cases interrupted with
    | here blank => exact absurd (blank '.' (by simp [pointed])) (by decide)
    | cons behind =>
      obtain ⟨rfl, rfl⟩ := List.cons.inj pointed
      cases behind with
      | here blank => exact not_class_of_isWhitespace (blank c rfl) rfl
      | cons _ => exact dangling c _ rfl
  | pointed digits behind =>
    have point : MaximalRun Char.isDigit whole ('.' :: (fraction ++ later)) :=
      ⟨digits.nonempty, digits.inside, digits.ends⟩
    exact .pointed point (behind.interrupted rfl interrupted)

/-- A lexeme does not depend on what follows the place where the text behind it is interrupted. -/
theorem Cut.interrupted (cut : Cut offset lexeme after item)
    (interrupted : Interrupted after later) : Cut offset lexeme later item := by
  cases cut with
  | symbol symbol => exact .symbol symbol
  | name word => exact .name (word.interrupted rfl interrupted)
  | number numeral value => exact .number (numeral.interrupted interrupted) value
  | tooLarge numeral value => exact .tooLarge (numeral.interrupted interrupted) value
  | stray visible letter digit other => exact .stray visible letter digit other

/-- What is cut from the start of a text is its first item. -/
theorem scanFrom_cut (cut : Cut offset lexeme after item) :
    scanFrom offset (lexeme ++ after) = item :: scanFrom (offset + size lexeme) after := by
  obtain ⟨c, others, rfl⟩ := List.exists_cons_of_ne_nil cut.nonempty
  obtain ⟨first, made⟩ := cut.eq_splitLexeme (List.cons_append ..).symm
  rw [List.cons_append, scanFrom_lexeme (cut.visible c List.mem_cons_self), first, made]

end Lexemes

/-! ## Items of a part -/

/-- By induction along the scan of the first text: the white space ends its last lexeme. -/
theorem scanFrom_append_space {w : Char} (blank : w.isWhitespace = true) (offset : Nat)
    (text rest : List Char) :
    scanFrom offset (text ++ w :: rest) =
      scanFrom offset text ++ scanFrom (offset + size text + w.utf8Size) rest := by
  fun_induction scanFrom offset text with
  | case1 offset => exact scanFrom_space blank
  | case2 offset c text space ih =>
    rw [List.cons_append, scanFrom_space space, ih, size, Nat.add_assoc offset]
  | case3 offset c text visible lexeme ih =>
    have cut := cut_splitLexeme offset text (Bool.eq_false_iff.mpr visible)
    have total : size (c :: text) = size lexeme + size (splitLexeme c text).2 := by
      simp [lexeme, ← size_append]
    rw [← splitLexeme_append c text, List.append_assoc,
      scanFrom_cut (cut.interrupted (.space blank _ rest)), ih, splitLexeme_append, total,
      List.cons_append, Nat.add_assoc offset]

/-- By induction along the scan: each item starts where the ones before it end, up to white space.
-/
theorem exists_split (offset : Nat) (text : List Char) (item : Item) (after : List Item) :
    ∀ before, scanFrom offset text = before ++ item :: after →
      ∃ gone rest, text = gone ++ rest ∧ (Item.span item).offset = offset + size gone ∧
        scanFrom offset gone = before := by
  fun_induction scanFrom offset text with
  | case1 offset => simp
  | case2 offset c text space ih =>
    intro before items
    obtain ⟨gone, rest, rfl, start, read⟩ := ih before items
    refine ⟨c :: gone, rest, rfl, ?_, ?_⟩
    · rw [start, size, Nat.add_assoc]
    · rw [scanFrom_space space, read]
  | case3 offset c text visible lexeme ih =>
    intro before items
    have cut := cut_splitLexeme offset text (Bool.eq_false_iff.mpr visible)
    cases before with
    | nil =>
      obtain ⟨rfl, -⟩ := List.cons.inj items
      refine ⟨[], c :: text, rfl, ?_, by rw [scanFrom]⟩
      rw [cut.span]
      rfl
    | cons first before =>
      obtain ⟨rfl, others⟩ := List.cons.inj items
      obtain ⟨gone, rest, split, start, read⟩ := ih before others
      rw [split] at cut
      refine ⟨lexeme ++ gone, rest, ?_, ?_, ?_⟩
      · rw [List.append_assoc, ← split, splitLexeme_append]
      · simp [start, Nat.add_assoc]
      · rw [scanFrom_cut (cut.interrupted (.ended gone rest)), read]

end SumProduct.Token
