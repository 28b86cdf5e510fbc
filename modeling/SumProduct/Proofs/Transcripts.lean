import SumProduct.Proofs.ByteLines
import SumProduct.Proofs.OneLine

/-!
# Transcripts, line by line

A session that runs over bytes answers its lines in order, up to the first that is `!quit` or is
not UTF-8 (`Stops`). Each line leaves one record: nothing if it is blank, and otherwise a text
without a line feed, with a line feed behind it (`Recorded`). So the records stay in step with the
lines.

Results:
1. `handle_congr`: blanks around a line do not count.
2. `ofLines_records`: the records of some lines.
3. `ofBytes_records`: the records of some bytes, and what of the bytes does not matter.
-/

namespace SumProduct

open Text

/-! ## Blanks around a line -/

theorem Text.trim_append_blank {c : Char} (blank : isBlank c = true) (text : List Char) :
    trim (text ++ [c]) = trim text := by
  unfold trim
  rw [List.dropWhile_append]
  split
  · next empty =>
    rw [List.isEmpty_iff.mp empty, List.dropWhile_cons_of_pos blank]
    rfl
  · rw [List.reverse_append, List.reverse_singleton, List.singleton_append,
      List.dropWhile_cons_of_pos blank]

namespace Line

variable {text : String}

theorem ofText_eq_blank_iff : ofText text = .blank ↔ trim text.toList = [] := by
  rw [ofText_eq_iff]
  constructor
  · intro reads
    cases reads with
    | blank empty => exact empty
    | command _ known => cases known
  · exact .blank

theorem ofText_eq_quit_iff : ofText text = .quit ↔ trim text.toList = "!quit".toList := by
  rw [ofText_eq_iff]
  constructor
  · intro reads
    cases reads with
    | command trimmed known =>
      cases known
      exact trimmed
  · intro quit
    exact .command quit .quit

end Line

namespace Session

variable {s : Session} {text : String}

theorem handle_congr {a b : String} (same : trim a.toList = trim b.toList) :
    s.handle a = s.handle b := by
  have line : Line.ofText a = Line.ofText b := by
    unfold Line.ofText
    rw [same]
  unfold handle
  rw [line]

theorem handle_eq_nothing_iff : (s.handle text).2 = .ok .nothing ↔ trim text.toList = [] := by
  rw [← Line.ofText_eq_blank_iff]
  constructor
  · intro answered
    obtain ⟨parsed, after, kind, -, performed⟩ := performs_of_handle answered
    cases performed
    exact kind
  · intro blank
    unfold handle
    rw [blank]
    rfl

theorem handle_eq_quit_iff :
    (s.handle text).2 = .ok .quit ↔ trim text.toList = "!quit".toList := by
  rw [← Line.ofText_eq_quit_iff]
  constructor
  · intro answered
    obtain ⟨parsed, after, kind, -, performed⟩ := performs_of_handle answered
    cases performed
    exact kind
  · intro quit
    unfold handle
    rw [quit]
    rfl

end Session

namespace Transcript

/-! ## Lines that end a session -/

/-- The bytes are not the UTF-8 of any text. -/
def Unreadable (line : List UInt8) : Prop := ∀ text, line ≠ utf8 text

/-- The line is `!quit`. Blanks around it do not count. -/
def Quits (text : String) : Prop := trim text.toList = "!quit".toList

def Stops (line : List UInt8) : Prop := Unreadable line ∨ ∃ text, line = utf8 text ∧ Quits text

/-! ## Records -/

/-- The record of a line with a certain answer. -/
inductive Recorded (line : String) : Except SessionError Reply → String → Prop
  | blank : trim line.toList = [] → Recorded line (.ok .nothing) ""
  | shown {text : String} : trim line.toList ≠ [] → OneLine text →
      Recorded line (.ok (.show text)) (text ++ "\n")
  | failed {e : SessionError} : trim line.toList ≠ [] → OneLine e.diagnostic.message →
      Recorded line (.error e) ("error: " ++ e.diagnostic.message ++ "\n")

/-- The records that the lines leave, one behind the other, from a session on. -/
inductive Records : Session → List String → List String → Prop
  | nil {s : Session} : Records s [] []
  | cons {s : Session} {line record : String} {rest records : List String} :
      Recorded line (s.handle line).2 record → Records (s.handle line).1 rest records →
      Records s (line :: rest) (record :: records)

section Lines

variable {text : String} {line : List UInt8} {lines : List (List UInt8)}

theorem recorded_record (s : Session) (whole : OneLine text) (stays : ¬Quits text) :
    Recorded text (s.handle text).2 (Session.record (s.handle text).2) := by
  have visible (answered : (s.handle text).2 ≠ .ok .nothing) : trim text.toList ≠ [] :=
    fun blank => answered (Session.handle_eq_nothing_iff.mpr blank)
  cases answered : (s.handle text).2 with
  | error e =>
    exact .failed (visible (by simp [answered])) (Session.oneLine_of_error whole answered)
  | ok reply =>
    cases reply with
    | «show» shown =>
      exact .shown (visible (by simp [answered])) (Session.oneLine_of_show answered)
    | nothing => exact .blank (Session.handle_eq_nothing_iff.mp answered)
    | quit => exact absurd (Session.handle_eq_quit_iff.mp answered) stays

theorem hear_unreadable (s : Session) (unreadable : Unreadable line) :
    s.hear line = .unreadable := by
  unfold Session.hear
  split
  · rfl
  · next text read => exact absurd (fromUTF8?_eq_some_iff.mp read) (unreadable text)

theorem hear_quit (s : Session) (quits : Quits text) : s.hear (utf8 text) = .ended := by
  have quit : (s.handle text).2 = .ok .quit := Session.handle_eq_quit_iff.mpr quits
  unfold Session.hear
  rw [fromUTF8?_eq_some_iff.mpr rfl]
  dsimp only
  split
  · rfl
  · next after answer other same =>
    rw [same] at quit
    exact (other quit).elim

theorem hear_answered (s : Session) (stays : ¬Quits text) : s.hear (utf8 text) =
    .answered (s.handle text).1 (Session.record (s.handle text).2) := by
  have other : (s.handle text).2 ≠ .ok .quit :=
    fun quit => stays (Session.handle_eq_quit_iff.mp quit)
  unfold Session.hear
  rw [fromUTF8?_eq_some_iff.mpr rfl]
  dsimp only
  split
  · next quit => exact absurd (congrArg Prod.snd quit) other
  · next same => rw [same]

/-- A line that is no stop is read and answered. -/
theorem exists_text_of_not_stops (goesOn : ¬Stops line) :
    ∃ text, line = utf8 text ∧ ¬Quits text := by
  rw [Stops, not_or] at goesOn
  obtain ⟨text, read⟩ := not_forall_not.mp goesOn.1
  exact ⟨text, read, fun quits => goesOn.2 ⟨text, read, quits⟩⟩

/-- Nothing is written from a line that stops on, whatever the session and the lines behind it. -/
theorem ofLines_of_stops (stops : Stops line) : ∃ readable : Bool,
    (readable = false ↔ Unreadable line) ∧ ∀ s rest, ofLines s (line :: rest) = ⟨[], readable⟩ := by
  rcases stops with unreadable | ⟨text, rfl, quits⟩
  · refine ⟨false, iff_of_true rfl unreadable, fun s rest => ?_⟩
    rw [ofLines, hear_unreadable s unreadable]
  · refine ⟨true, iff_of_false nofun fun unreadable => unreadable text rfl, fun s rest => ?_⟩
    rw [ofLines, hear_quit s quits]

/-- By induction on the lines up to the first that stops. -/
theorem ofLines_records (s : Session) (whole : ∀ line ∈ lines, 10 ∉ line) :
    ∃ texts rest, lines = texts.map utf8 ++ rest ∧ (∀ text ∈ texts, ¬Quits text) ∧
      (∀ line ∈ rest.head?, Stops line) ∧ Records s texts (ofLines s lines).records ∧
      ((ofLines s lines).readable = false ↔ ∃ line ∈ rest.head?, Unreadable line) := by
  induction lines generalizing s with
  | nil => exact ⟨[], [], rfl, by simp, by simp, .nil, by simp [ofLines]⟩
  | cons line lines ih =>
    by_cases stops : Stops line
    · obtain ⟨readable, told, written⟩ := ofLines_of_stops stops
      rw [written]
      exact ⟨[], line :: lines, rfl, by simp, by simpa using stops, .nil, by simpa using told⟩
    · obtain ⟨text, rfl, stays⟩ := exists_text_of_not_stops stops
      have oneLine : OneLine text := fun feed => whole _ List.mem_cons_self (feed_mem_utf8 feed)
      obtain ⟨texts, rest, rfl, stay, stop, records, readable⟩ :=
        ih (s.handle text).1 fun line mem => whole line (List.mem_cons_of_mem _ mem)
      rw [ofLines, hear_answered s stays]
      exact ⟨text :: texts, rest, rfl, List.forall_mem_cons.mpr ⟨stays, stay⟩, stop,
        .cons (recorded_record s oneLine stays) records, readable⟩

/-- Lines behind one that stops do not matter. -/
theorem ofLines_append (s : Session) (stops : ∃ line ∈ lines, Stops line)
    (more : List (List UInt8)) : ofLines s (lines ++ more) = ofLines s lines := by
  induction lines generalizing s with
  | nil => simp at stops
  | cons line lines ih =>
    by_cases here : Stops line
    · obtain ⟨readable, -, written⟩ := ofLines_of_stops here
      rw [List.cons_append, written, written]
    · obtain ⟨text, rfl, stays⟩ := exists_text_of_not_stops here
      have later : ∃ line ∈ lines, Stops line := by
        simpa [here] using stops
      rw [List.cons_append, ofLines, ofLines, hear_answered s stays]
      dsimp only
      rw [ih _ later]

/-! ## Carriage returns -/

/-- A carriage return at the end of a line does not matter. -/
theorem hear_return (s : Session) (line : List UInt8) : s.hear (line ++ [13]) = s.hear line := by
  by_cases unreadable : Unreadable line
  · have still : Unreadable (line ++ [13]) := by
      intro text read
      obtain ⟨front, before, -⟩ := exists_utf8_of_return read
      exact unreadable front before
    rw [hear_unreadable s still, hear_unreadable s unreadable]
  · obtain ⟨text, rfl⟩ := not_forall_not.mp unreadable
    have longer : utf8 text ++ [13] = utf8 (text ++ "\r") := by
      rw [utf8_append]
      rfl
    have same : s.handle (text ++ "\r") = s.handle text := by
      apply Session.handle_congr
      rw [String.toList_append]
      exact trim_append_blank (by decide) text.toList
    unfold Session.hear
    rw [longer, fromUTF8?_eq_some_iff.mpr rfl, fromUTF8?_eq_some_iff.mpr rfl]
    dsimp only
    rw [same]

theorem ofLines_return (s : Session) (before after : List (List UInt8)) (line : List UInt8) :
    ofLines s (before ++ (line ++ [13]) :: after) = ofLines s (before ++ line :: after) := by
  induction before generalizing s with
  | nil => rw [List.nil_append, List.nil_append, ofLines, ofLines, hear_return]
  | cons first before ih =>
    rw [List.cons_append, List.cons_append, ofLines, ofLines]
    cases s.hear first with
    | unreadable | ended => rfl
    | answered behind record =>
      dsimp only
      rw [ih]

end Lines

/-! ## Bytes -/

theorem ofBytes_toByteArray (bytes : List UInt8) :
    ofBytes bytes.toByteArray = ofLines .start (splitLines bytes) := by
  rw [ofBytes, toList_toByteArray]

/-- A session over some bytes answers its lines in order, up to the first that stops, and writes one
record for each. The bytes are found not to be readable exactly if that line is not UTF-8. What is
behind it does not matter, and neither does a carriage return in front of a line feed. -/
theorem ofBytes_records :
    (∀ bytes : List UInt8, ∃ texts rest records, Lines bytes (texts.map utf8 ++ rest) ∧
      (∀ text ∈ texts, ¬Quits text) ∧ (∀ line ∈ rest.head?, Stops line) ∧
      Records .start texts records ∧ (ofBytes bytes.toByteArray).output = String.join records ∧
      ((ofBytes bytes.toByteArray).readable = false ↔ ∃ line ∈ rest.head?, Unreadable line)) ∧
    (∀ (start more : List UInt8) (lines : List (List UInt8)), Lines start lines →
      (∃ line ∈ lines, Stops line) →
      ofBytes (start ++ 10 :: more).toByteArray = ofBytes start.toByteArray) ∧
    ∀ front behind : List UInt8, ofBytes (front ++ 13 :: 10 :: behind).toByteArray =
      ofBytes (front ++ 10 :: behind).toByteArray := by
  refine ⟨fun bytes => ?_, fun start more lines spec stops => ?_, fun front behind => ?_⟩
  · have spec := lines_splitLines bytes
    obtain ⟨texts, rest, split, stay, stop, records, readable⟩ :=
      ofLines_records .start spec.not_feed_mem
    rw [ofBytes_toByteArray]
    exact ⟨texts, rest, _, split ▸ spec, stay, stop, records, rfl, readable⟩
  · obtain ⟨extra, longer⟩ := exists_splitLines_append start more
    rw [ofBytes_toByteArray, ofBytes_toByteArray, longer, lines_iff.mp spec,
      ofLines_append .start stops]
  · obtain ⟨before, line, whole, goesOn⟩ := exists_unfinished front
    have returned : 10 ∉ line ++ [13] := by
      rw [List.mem_append, not_or]
      exact ⟨whole, by decide⟩
    have feed : line ++ 13 :: 10 :: behind = (line ++ [13]) ++ 10 :: behind := by simp
    rw [ofBytes_toByteArray, ofBytes_toByteArray, goesOn, goesOn, splitLines_feed whole, feed,
      splitLines_feed returned, ofLines_return]

/-- A byte that is not UTF-8, behind the end of a session. -/
theorem ofBytes_records_quit :
    let start := utf8 "x +\nx\n !quit"
    ofBytes (start ++ [10, 255]).toByteArray = ofBytes start.toByteArray ∧
    (ofBytes start.toByteArray).output = "error: Unexpected end of input\nx\n" ∧
    (ofBytes start.toByteArray).readable = true := by
  intro start
  have lines : Lines start [utf8 "x +", utf8 "x", utf8 " !quit"] := by
    have split : start = utf8 "x +" ++ 10 :: (utf8 "x" ++ 10 :: utf8 " !quit") := by decide +kernel
    rw [split]
    exact .feed (by decide) (.feed (by decide) (.last (by decide) (by decide)))
  have quits : Quits " !quit" := by
    unfold Quits
    decide
  have stops : ∃ line ∈ [utf8 "x +", utf8 "x", utf8 " !quit"], Stops line :=
    ⟨utf8 " !quit", by simp, .inr ⟨_, rfl, quits⟩⟩
  refine ⟨ofBytes_records.2.1 start [255] _ lines stops, ?_⟩
  rw [ofBytes_toByteArray, lines_iff.mp lines]
  decide +kernel

end Transcript

end SumProduct
