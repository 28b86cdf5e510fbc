import SumProduct.Proofs.Lexing
import SumProduct.Proofs.WrittenValues

/-!
# Texts with white space between them

White space ends each lexeme, so a text may be cut at it: what stands in front of it and what stands
behind it are cut into their items as if each were alone, wherever it stands. This holds of all
texts, also where the white space ends a number behind its point or follows a character that is no
token.

Results:
1. `scanFrom_add`: further on in a text the items are the same, but for their places.
2. `exists_scanFrom_literals`: the literals of tokens with spaces between them are cut into the same
   tokens again, but for their places.
3. `scan_append_space`: both for whole texts.
-/

namespace SumProduct.Token

open Text

section Places

variable {offset : Nat} {lexeme after after' : List Char} {token : Token}

/-- By induction along the scan: a lexeme stands for the same item at each place. -/
theorem scanFrom_add (offset bytes : Nat) (text : List Char) :
    scanFrom (offset + bytes) text = (scanFrom offset text).map (Item.moveBy · bytes) := by
  fun_induction scanFrom offset text with
  | case1 offset => rw [scanFrom, List.map_nil]
  | case2 offset c text space ih => rw [scanFrom_space space, Nat.add_right_comm, ih]
  | case3 offset c text visible lexeme ih =>
    have cut := cut_splitLexeme offset text (Bool.eq_false_iff.mpr visible)
    have first := scanFrom_cut (cut.moveBy bytes)
    rw [splitLexeme_append, Nat.add_right_comm] at first
    rw [first, List.map_cons, ← ih]

/-- White space ends a name or a number, and so does the end of the text. -/
theorem ends_space {w : Char} (blank : w.isWhitespace = true) (rest : List Char) :
    Ends (w :: rest) := by
  rintro c ⟨⟩
  exact .inl blank

/-- The literal of a token is cut off again in front of any text that ends it. -/
theorem Cut.elsewhere (cut : Cut offset lexeme after (.ok token)) (ends : Ends after')
    (offset' : Nat) :
    Cut offset' token.literal.toList after' (.ok { token with offset := offset' }) := by
  have written := cut.replace [] (fun _ => ends) offset'
  rwa [replace_of_none [] rfl] at written

end Places

/-! ## Literals with spaces between them -/

/-- By induction on the tokens: each of them is ended by the space behind it, and the last one by
the end of the text. -/
theorem exists_scanFrom_literals {tokens : List Token}
    (cuts : ∀ token ∈ tokens, ∃ offset lexeme after, Cut offset lexeme after (.ok token))
    (offset : Nat) :
    ∃ tokens' : List Token, scanFrom offset ([' '].intercalate (tokens.map (·.literal.toList))) =
        tokens'.map .ok ∧
      tokens'.map kind = tokens.map kind ∧ tokens'.map literal = tokens.map literal := by
  induction tokens generalizing offset with
  | nil =>
    refine ⟨[], ?_, rfl, rfl⟩
    rw [List.map_nil, List.intercalate_nil, scanFrom, List.map_nil]
  | cons token tokens ih =>
    obtain ⟨⟨_, _, _, cut⟩, others⟩ := List.forall_mem_cons.mp cuts
    cases tokens with
    | nil =>
      have ended : Ends [] := by rintro c ⟨⟩
      have last := scanFrom_cut (cut.elsewhere ended offset)
      refine ⟨[{ token with offset := offset }], ?_, rfl, rfl⟩
      rw [List.append_nil, scanFrom] at last
      rw [List.map_singleton, List.intercalate_singleton, last]
      rfl
    | cons next tokens =>
      obtain ⟨tokens', items, kinds, literals⟩ :=
        ih others (offset + size token.literal.toList + 1)
      refine ⟨{ token with offset := offset } :: tokens', ?_, ?_, ?_⟩
      · rw [List.map_cons, List.map_cons, List.intercalate_cons_cons, List.append_assoc,
          List.singleton_append, scanFrom_cut (cut.elsewhere (ends_space rfl _) offset),
          scanFrom_space rfl]
        exact congrArg (_ :: ·) items
      · exact congrArg (token.kind :: ·) kinds
      · exact congrArg (token.literal :: ·) literals

/-- The items that a lexer gives of a text are those of the text in front of a space, a tab, a
carriage return or a line feed, and then those of the text behind it, moved by what stands before
it. If all items of a text are tokens, their literals with single spaces between them have tokens of
the same kinds with the same literals. -/
theorem scan_append_space :
    (∀ (text : String) (n : Nat), ((Lexer.ofText text).after n).next.1 = (scan text)[n]?) ∧
    (∀ first second : String, ∀ w ∈ [' ', '\t', '\r', '\n'],
      scan (first ++ String.singleton w ++ second) =
        scan first ++ (scan second).map (Item.moveBy · (first.utf8ByteSize + 1))) ∧
    ∀ (text : String) (tokens : List Token), scan text = tokens.map .ok →
      ∃ tokens' : List Token, scan (" ".intercalate (tokens.map literal)) = tokens'.map .ok ∧
        tokens'.map kind = tokens.map kind ∧ tokens'.map literal = tokens.map literal := by
  refine ⟨fun text => Lexer.next_after (.ofText text), fun first second w mem => ?_,
    fun text tokens items => ?_⟩
  · have blank : w.isWhitespace = true ∧ w.utf8Size = 1 := by
      simp only [List.mem_cons, List.not_mem_nil, or_false] at mem
      rcases mem with rfl | rfl | rfl | rfl <;> decide
    have whole : (first ++ String.singleton w ++ second).toList =
        first.toList ++ w :: second.toList := by simp
    rw [scan, whole, scanFrom_append_space blank.1, blank.2, Nat.zero_add, size_toList]
    have behind := scanFrom_add 0 (first.utf8ByteSize + 1) second.toList
    rw [Nat.zero_add] at behind
    rw [behind]
    rfl
  · have cuts : ∀ token ∈ tokens, ∃ offset lexeme after, Cut offset lexeme after (.ok token) := by
      intro token mem
      have item : .ok token ∈ scan text := items ▸ List.mem_map_of_mem mem
      obtain ⟨before, lexeme, after, -, cut⟩ := exists_cut_of_mem_scan item
      exact ⟨_, lexeme, after, cut⟩
    have whole : (" ".intercalate (tokens.map literal)).toList =
        [' '].intercalate (tokens.map (·.literal.toList)) := by
      rw [String.toList_intercalate, List.map_map]
      rfl
    rw [scan, whole]
    exact exists_scanFrom_literals cuts 0

/-- A tab behind a point that no digit follows and in front of a character that is no token, and two
tokens that touch. -/
theorem scan_append_space_dangling :
    let v : Number := ⟨4609434218613702656, by rw [rankLimit_eq]; decide⟩
    scan "1.\té2" = scan "1." ++ (scan "é2").map (Item.moveBy · 3) ∧
    scan "x1.50" = [⟨.ident, "x", 0⟩, ⟨.number v, "1.50", 1⟩].map .ok ∧
    ∃ tokens' : List Token, scan "x 1.50" = tokens'.map .ok ∧
      tokens'.map kind = [.ident, .number v] ∧ tokens'.map literal = ["x", "1.50"] := by
  intro v
  obtain ⟨-, split, again⟩ := scan_append_space
  have touching : scan "x1.50" = [⟨.ident, "x", 0⟩, ⟨.number v, "1.50", 1⟩].map .ok := by
    decide +kernel
  exact ⟨split "1." "é2" '\t' (by decide), touching, again _ _ touching⟩

end SumProduct.Token
