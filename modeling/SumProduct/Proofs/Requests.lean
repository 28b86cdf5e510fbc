import Mathlib.Data.List.DropRight
import Mathlib.Data.List.TakeWhile
import SumProduct.Proofs.Conversation
import SumProduct.Proofs.Spacing

/-!
# Sessions and requests by text

A request takes its texts as they are. A session finds them in its lines: it takes away blanks at
the ends of a line, tells commands by their first character, and cuts bindings at blanks. Blanks are
more than the white space between lexemes, but an expression has no others, and the names and the
bindings of requests have none at all. So a session answers what the requests give (`handle_text`).
-/

namespace SumProduct

open Text

/-! ## Blanks -/

namespace Text

/-- No character is a blank. -/
def Visible (text : List Char) : Prop := ∀ c ∈ text, isBlank c = false

instance (text : List Char) : Decidable (Visible text) :=
  List.decidableBAll (isBlank · = false) text

section Blanks

variable {text front rest : List Char} {c : Char}

theorem exists_trim (text : List Char) : ∃ front back, text = front ++ (trim text ++ back) ∧
    (∀ c ∈ front, isBlank c = true) ∧ ∀ c ∈ back, isBlank c = true := by
  refine ⟨text.takeWhile isBlank, (text.dropWhile isBlank).rtakeWhile isBlank, ?_,
    fun c => List.mem_takeWhile_imp, fun c => List.mem_rtakeWhile_imp⟩
  have behind : trim text ++ (text.dropWhile isBlank).rtakeWhile isBlank =
      text.dropWhile isBlank := by
    rw [trim, List.rtakeWhile, ← List.reverse_append, List.takeWhile_append_dropWhile,
      List.reverse_reverse]
  rw [behind, List.takeWhile_append_dropWhile]

theorem rdropWhile_visible (visible : Visible text) : text.rdropWhile isBlank = text :=
  List.rdropWhile_eq_self_iff.mpr fun nonempty => by
    simp [visible _ (List.getLast_mem nonempty)]

/-- At the end of a text, a visible part of it is where blanks stop being taken away. -/
theorem rdropWhile_append (visible : Visible front) (rest : List Char) :
    (front ++ rest).rdropWhile isBlank = front ++ rest.rdropWhile isBlank := by
  induction rest using List.reverseRecOn with
  | nil =>
    rw [List.append_nil, List.rdropWhile_nil, List.append_nil, rdropWhile_visible visible]
  | append_singleton rest c ih =>
    rw [← List.append_assoc, List.rdropWhile_concat, List.rdropWhile_concat]
    split
    · exact ih
    · rw [List.append_assoc]

/-- Behind a visible text, only blanks at the end are taken away. -/
theorem trim_append (visible : Visible front) (nonempty : front ≠ []) (rest : List Char) :
    trim (front ++ rest) = front ++ rest.rdropWhile isBlank := by
  obtain ⟨c, others, rfl⟩ := List.exists_cons_of_ne_nil nonempty
  rw [← rdropWhile_append visible, trim, List.cons_append,
    List.dropWhile_cons_of_neg (by simp [visible c]), List.rdropWhile]

theorem trim_visible (visible : Visible text) : trim text = text := by
  by_cases nonempty : text = []
  · rw [nonempty]
    rfl
  · simpa using trim_append visible nonempty []

/-- A word is visible and goes on to the next blank. -/
theorem words_run (visible : Visible text) (nonempty : text ≠ [])
    (ends : ∀ c ∈ rest.head?, isBlank c = true) : words (text ++ rest) = text :: words rest := by
  obtain ⟨c, others, rfl⟩ := List.exists_cons_of_ne_nil nonempty
  obtain ⟨first, later⟩ := List.forall_mem_cons.mp visible
  have inside : ∀ d ∈ others, (!isBlank d) = true := fun d mem => by simp [later d mem]
  have outside : ∀ d ∈ rest.head?, (!isBlank d) = false := fun d mem => by simp [ends d mem]
  rw [List.cons_append, words, if_neg (by simp [first]), Token.takeWhile_run inside outside,
    Token.dropWhile_run inside outside]

theorem words_visible (visible : Visible text) (nonempty : text ≠ []) : words text = [text] := by
  have alone := @words_run text [] visible nonempty (by rintro c ⟨⟩)
  rwa [List.append_nil, words] at alone

theorem words_cons_blank (blank : isBlank c = true) (rest : List Char) :
    words (c :: rest) = words rest := by
  rw [words, if_pos blank]

/-- Words end at a blank, and further words begin behind it. -/
theorem words_append_blank (blank : isBlank c = true) (front rest : List Char) :
    words (front ++ c :: rest) = words front ++ words rest := by
  fun_induction words front with
  | case1 => rw [List.nil_append, words_cons_blank blank, List.nil_append]
  | case2 d front other ih => rw [List.cons_append, words_cons_blank other, ih]
  | case3 d front first ih =>
    have visible : Visible (d :: front.takeWhile (!isBlank ·)) :=
      List.forall_mem_cons.mpr ⟨Bool.eq_false_iff.mpr first, fun e mem => by
        simpa using List.mem_takeWhile_imp mem⟩
    have ends : ∀ e ∈ (front.dropWhile (!isBlank ·) ++ c :: rest).head?, isBlank e = true := by
      intro e mem
      have stopped := List.head?_dropWhile_not (!isBlank ·) front
      cases dropped : front.dropWhile (!isBlank ·) with
      | nil =>
        rw [dropped] at mem
        cases mem
        exact blank
      | cons d later =>
        rw [dropped] at mem stopped
        cases mem
        simpa using stopped
    have word := words_run visible (List.cons_ne_nil _ _) ends
    rwa [ih, List.cons_append, ← List.append_assoc, List.takeWhile_append_dropWhile] at word

theorem words_rdropWhile (text : List Char) : words (text.rdropWhile isBlank) = words text := by
  induction text using List.reverseRecOn with
  | nil => rw [List.rdropWhile_nil]
  | append_singleton text c ih =>
    rw [List.rdropWhile_concat]
    split
    · next blank => rw [ih, words_append_blank blank, words, List.append_nil]
    · rfl

/-- Words that are put together with single spaces. -/
theorem words_intercalate {pieces : List (List Char)}
    (visible : ∀ piece ∈ pieces, piece ≠ [] ∧ Visible piece) :
    words ([' '].intercalate pieces) = pieces := by
  induction pieces with
  | nil => rw [List.intercalate_nil, words]
  | cons piece pieces ih =>
    obtain ⟨⟨nonempty, own⟩, others⟩ := List.forall_mem_cons.mp visible
    cases pieces with
    | nil => rw [List.intercalate_singleton, words_visible own nonempty]
    | cons next pieces =>
      rw [List.intercalate_cons_cons, List.append_assoc, List.singleton_append,
        words_append_blank rfl, words_visible own nonempty, ih others, List.singleton_append]

end Blanks

end Text

/-! ## Texts of expressions -/

theorem Token.IsPart.isBlank {c : Char} (part : Token.IsPart c) : isBlank c = false := by
  obtain ⟨low, high⟩ := part.range
  simp only [Text.isBlank, blankRanges, List.any_cons, List.any_nil, Bool.or_false,
    Bool.or_eq_false_iff, Bool.and_eq_false_iff, decide_eq_false_iff_not]
  omega

theorem Variable.visible (x : Variable) : Visible x.name.toList := fun c mem =>
  Token.IsPart.isBlank (.inl (x.letters c mem))

namespace Expression

variable {text : String} {e : Expression}

theorem part_of_parse_ok (parsed : parse text = .ok e) :
    ∀ c ∈ text.toList, c.isWhitespace = true ∨ Token.IsPart c :=
  part_of_parse fun fault failed => by
    rw [parsed] at failed
    cases failed

/-- An expression has no blanks but the white space between lexemes. -/
theorem isWhitespace_of_parse (parsed : parse text = .ok e) {c : Char} (mem : c ∈ text.toList)
    (blank : isBlank c = true) : c.isWhitespace = true := by
  rcases part_of_parse_ok parsed c mem with space | part
  · exact space
  · rw [part.isBlank] at blank
    cases blank

theorem not_mark_mem_of_parse (parsed : parse text = .ok e) : '!' ∉ text.toList := by
  intro mem
  rcases part_of_parse_ok parsed '!' mem with space | part
  · cases space
  · exact absurd part.range.1 (by decide)

/-- Blanks around an expression do not count. -/
theorem parse_trim (parsed : parse text = .ok e) :
    parse (String.ofList (trim text.toList)) = .ok e := by
  obtain ⟨front, back, split, front_blank, back_blank⟩ := exists_trim text.toList
  have space {c : Char} (mem : c ∈ front ++ (trim text.toList ++ back)) (blank : isBlank c = true) :
      c.isWhitespace = true := isWhitespace_of_parse parsed (split ▸ mem) blank
  obtain ⟨inserted, spaced⟩ := Token.spaced_around (trim text.toList)
    (fun c mem => space (by simp [mem]) (front_blank c mem))
    (fun c mem => space (by simp [mem]) (back_blank c mem))
  rw [← split, ← String.toList_ofList (l := trim text.toList)] at spaced
  exact (parse_eq_ok_iff_of_spaced spaced e).mpr parsed

/-- An expression is not empty, and no command. -/
theorem reads_of_parse (parsed : parse text = .ok e) :
    Line.Reads text (.expression (String.ofList (trim text.toList))) := by
  refine .expression ?_ fun mark => ?_
  · intro empty
    have nothing : parse (String.ofList []) = .error (.unexpectedEnd 0) := by decide +kernel
    have trimmed := parse_trim parsed
    rw [empty, nothing] at trimmed
    cases trimmed
  · obtain ⟨front, back, split, -⟩ := exists_trim text.toList
    refine not_mark_mem_of_parse parsed ?_
    rw [split]
    exact List.mem_append_right _ (List.mem_append_left _ (List.mem_of_mem_head? mark))

end Expression

/-! ## Lines -/

namespace Line

/-- The command for a derivative, with the name of a variable. -/
theorem reads_derivative {name : String} {x : Variable} (named : Variable.ofName name = .ok x) :
    Reads ("!d/d" ++ name) (.derivative name) := by
  have visible : Visible name.toList := Variable.name_of_ofName named ▸ x.visible
  have trimmed : trim ("!d/d" ++ name).toList = '!' :: ("d/d".toList ++ name.toList) := by
    rw [String.toList_append, trim_append (by decide) (by simp), rdropWhile_visible visible]
    rfl
  have command : IsCommand ("d/d".toList ++ name.toList) _ := .derivative
  rw [trim_visible visible, String.ofList_toList] at command
  exact .command trimmed command

/-- Blanks at the end of the command to simplify do not change its arguments. -/
theorem reads_simplify_words {text : String} {rest : List Char}
    (line : text.toList = "!simplify".toList ++ rest) (alone : rest.head?.all isBlank = true) :
    Reads text (.simplify ((words rest).map String.ofList)) := by
  have trimmed : trim text.toList = '!' :: ("simplify".toList ++ rest.rdropWhile isBlank) := by
    rw [line, trim_append (by decide) (by simp)]
    rfl
  have kept : (rest.rdropWhile isBlank).head?.all isBlank = true := by
    obtain ⟨blanks, whole⟩ := List.rdropWhile_prefix isBlank rest
    cases first : rest.rdropWhile isBlank with
    | nil => rfl
    | cons c behind =>
      rw [first] at whole
      rw [← whole] at alone
      exact alone
  have command : IsCommand ("simplify".toList ++ rest.rdropWhile isBlank) _ := .simplify kept
  rw [words_rdropWhile] at command
  exact .command trimmed command

/-- The command to simplify, with texts that have no blanks. -/
theorem reads_simplify {bindings : List String}
    (visible : ∀ binding ∈ bindings, binding ≠ "" ∧ Visible binding.toList) :
    Reads ("!simplify " ++ " ".intercalate bindings) (.simplify bindings) := by
  have pieces : ∀ piece ∈ bindings.map String.toList, piece ≠ [] ∧ Visible piece :=
    List.forall_mem_map.mpr fun binding mem =>
      ⟨mt String.toList_eq_nil_iff.mp (visible binding mem).1, (visible binding mem).2⟩
  have line : ("!simplify " ++ " ".intercalate bindings).toList =
      "!simplify".toList ++ ' ' :: [' '].intercalate (bindings.map String.toList) := by
    rw [String.toList_append, String.toList_intercalate]
    rfl
  have same : String.ofList ∘ String.toList = id := funext fun _ => String.ofList_toList
  have reads := reads_simplify_words line rfl
  rwa [words_cons_blank rfl, words_intercalate pieces, List.map_map, same, List.map_id] at reads

end Line

/-! ## Answers -/

namespace Request

variable {text : String} {e : Expression}

theorem expression_eq_ok (parsed : Expression.parse text = .ok e) : expression text = .ok e :=
  mapError_eq_ok.mpr parsed

theorem derivative_eq_ok {name : String} {x : Variable} (parsed : Expression.parse text = .ok e)
    (named : Variable.ofName name = .ok x) :
    derivative text name = .ok (e.derivative x.name).text :=
  bind_eq_ok.mpr ⟨e, expression_eq_ok parsed,
    bind_eq_ok.mpr ⟨x, mapError_eq_ok.mpr named, rfl⟩⟩

theorem simplified_eq_ok (parsed : Expression.parse text = .ok e) (env : Environment) :
    simplified text env = .ok (e.simplify env).text :=
  bind_eq_ok.mpr ⟨e, expression_eq_ok parsed, rfl⟩

end Request

namespace Session

variable {session : Session} {text : String} {e : Expression}

/-- A text that is an expression is a line that shows it. -/
theorem handle_of_parse (parsed : Expression.parse text = .ok e) :
    session.handle text = (⟨some e⟩, .ok (.show e.text)) :=
  handle_of_performs (Expression.reads_of_parse parsed)
    (.expression (Expression.parse_trim parsed))

/-- A session takes a line that is no command exactly if it is an expression without the blanks at
its ends. -/
theorem handle_eq_ok_iff {line : String} (nonempty : trim line.toList ≠ [])
    (unmarked : (trim line.toList).head? ≠ some '!') :
    (∃ reply, (session.handle line).2 = .ok reply) ↔
      ∃ e, Expression.parse (String.ofList (trim line.toList)) = .ok e := by
  have reads : Line.Reads line _ := .expression nonempty unmarked
  constructor
  · rintro ⟨reply, answered⟩
    obtain ⟨parsed, after, kind, -, performed⟩ := performs_of_handle answered
    obtain rfl := (Line.ofText_eq_iff.mpr reads).symm.trans kind
    cases performed with
    | expression parsed => exact ⟨_, parsed⟩
  · rintro ⟨e, parsed⟩
    rw [handle_of_performs reads (.expression parsed)]
    exact ⟨_, rfl⟩

/-- A session and the requests by text agree. A text that is an expression is a line that shows the
expression and makes it current. A command for its derivative then shows what the request gives for
the text, and so does a command to simplify it, or it fails like the request for its bindings. A
line that is no command and not blank is taken exactly if it is an expression without the blanks at
its ends. -/
theorem handle_text (session : Session) :
    (∀ text e, Expression.parse text = .ok e →
      Expression.parse (String.ofList (trim text.toList)) = .ok e ∧
      Line.ofText text = .expression (String.ofList (trim text.toList)) ∧
      session.handle text = (⟨some e⟩, .ok (.show e.text)) ∧
      (∀ name x, Variable.ofName name = .ok x →
        ∃ shown, Request.derivative text name = .ok shown ∧
          ((session.handle text).1.handle ("!d/d" ++ name)).2 = .ok (.show shown)) ∧
      ∀ bindings : List String,
        (∀ binding ∈ bindings, binding ≠ "" ∧ Visible binding.toList) →
        let answer := ((session.handle text).1.handle
          ("!simplify " ++ " ".intercalate bindings)).2
        (∀ env, Request.environment bindings = .ok env →
          ∃ shown, Request.simplified text env = .ok shown ∧ answer = .ok (.show shown)) ∧
        ∀ failure, Request.environment bindings = .error failure →
          answer = .error (.request failure)) ∧
    ∀ line : String, trim line.toList ≠ [] → (trim line.toList).head? ≠ some '!' →
      ((∃ reply, (session.handle line).2 = .ok reply) ↔
        ∃ e, Expression.parse (String.ofList (trim line.toList)) = .ok e) := by
  refine ⟨fun text e parsed => ?_, fun line => handle_eq_ok_iff⟩
  rw [handle_of_parse parsed]
  refine ⟨Expression.parse_trim parsed, Line.ofText_eq_iff.mpr (Expression.reads_of_parse parsed),
    rfl, fun name x named => ?_, fun bindings visible => ⟨fun env defined => ?_, ?_⟩⟩
  · refine ⟨_, Request.derivative_eq_ok parsed named, ?_⟩
    rw [handle_of_performs (Line.reads_derivative named) (.derivative named rfl)]
  · refine ⟨_, Request.simplified_eq_ok parsed env, ?_⟩
    rw [handle_of_performs (Line.reads_simplify visible) (.simplify defined rfl)]
  · intro failure refused
    rw [handle_of_fails (Line.reads_simplify visible) (.bindings refused)]

/-- A product with white space around it, its derivative, a simplification with two bindings and one
with a text that is none, and a line between two wide blanks that is no expression. -/
theorem handle_text_product :
    let after := (start.handle "\tx*y\n").1
    (start.handle "\tx*y\n").2 = .ok (.show "x*y") ∧
    (Request.derivative "\tx*y\n" "x" = .ok "(x*0.0000 + y*1.0000)" ∧
      (after.handle "!d/dx").2 = .ok (.show "(x*0.0000 + y*1.0000)")) ∧
    (∃ env, Request.environment ["x=2", "y=+.5e0"] = .ok env ∧
      Request.simplified "\tx*y\n" env = .ok "1.0000" ∧
      (after.handle "!simplify x=2 y=+.5e0").2 = .ok (.show "1.0000")) ∧
    (after.handle "!simplify x").2 = .error (.request (.malformedBinding "x")) ∧
    ¬∃ reply, (after.handle "\u2003x y\u2003").2 = .ok reply := by
  intro after
  let x : Variable := ⟨"x", by simp, by simp⟩
  let y : Variable := ⟨"y", by simp, by simp⟩
  have parsed : Expression.parse "\tx*y\n" = .ok (.prod (.var x) (.var y)) := by decide +kernel
  obtain ⟨-, -, answered, derived, simplified⟩ := (handle_text start).1 _ _ parsed
  have shown : (start.handle "\tx*y\n").2 = .ok (.show "x*y") := by decide +kernel
  refine ⟨shown, ?_, ?_, ?_, fun taken => ?_⟩
  · obtain ⟨text, requested, answer⟩ := derived "x" x (Variable.ofName_name x)
    have computed : Request.derivative "\tx*y\n" "x" = .ok "(x*0.0000 + y*1.0000)" := by
      decide +kernel
    cases computed.symm.trans requested
    exact ⟨computed, answer⟩
  · have line : "!simplify " ++ " ".intercalate ["x=2", "y=+.5e0"] = "!simplify x=2 y=+.5e0" := by
      decide +kernel
    have computed : (Request.environment ["x=2", "y=+.5e0"] >>= Request.simplified "\tx*y\n") =
        .ok "1.0000" := by decide +kernel
    obtain ⟨env, defined, requested⟩ := bind_eq_ok.mp computed
    obtain ⟨text, same, answer⟩ := (simplified _ (by decide)).1 env defined
    rw [line] at answer
    cases requested.symm.trans same
    exact ⟨env, defined, requested, answer⟩
  · have refused : Request.environment ["x"] = .error (.malformedBinding "x") := rfl
    exact (simplified ["x"] (by decide)).2 _ refused
  · obtain ⟨e, parsed⟩ := ((handle_text after).2 _ (by decide) (by decide)).mp taken
    have unread : Expression.parse (String.ofList (trim "\u2003x y\u2003".toList)) =
        .error (.unexpectedToken ⟨.ident, "y", 2⟩ .nothing) := by decide +kernel
    rw [unread] at parsed
    cases parsed

end Session

end SumProduct
