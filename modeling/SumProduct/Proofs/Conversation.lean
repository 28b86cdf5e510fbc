import Mathlib.Data.List.Basic
import SumProduct.Proofs.Reading
import SumProduct.Session.Basic

/-!
# Sessions over many lines

`Line.Reads` says what a line is. `Session.Performs` lists what it can do when it does not fail, and
`Session.Fails` why it fails. Only an expression and a derivative replace what the session
remembers, and both are shown as they are remembered. So any other line can be left out of a session
without a trace in the answers to the rest (`answers_eraseIdx`).

`Session.handle` puts the old session back where a line fails. `Session.handleInPlace` does not: it
changes the session step by step, and what was changed before a failure stays. The two agree, since
each line does all that can fail before it changes anything (`run_handleInPlace`).
-/

namespace SumProduct

/-! ## Commands -/

theorem Text.after?_eq_some_iff {word : String} {text rest : List Char} :
    Text.after? word text = some rest ↔ text = word.toList ++ rest := by
  unfold Text.after?
  constructor
  · intro found
    split at found
    · next starts =>
      obtain ⟨behind, rfl⟩ := List.isPrefixOf_iff_prefix.mp starts
      rw [List.drop_left] at found
      rw [Option.some.inj found]
    · cases found
  · rintro rfl
    rw [if_pos (List.isPrefixOf_iff_prefix.mpr (List.prefix_append _ _)), List.drop_left]

namespace Line

/-- The line is the word `!simplify`, alone or with a blank behind it. Blanks around it do not
count. -/
def IsSimplify (line : String) : Prop :=
  ∃ rest, Text.trim line.toList = "!simplify".toList ++ rest ∧ rest.head?.all Text.isBlank

/-- The command that the text behind a `!` is. -/
inductive IsCommand : List Char → Line → Prop
  | quit : IsCommand "quit".toList .quit
  | derivative {name : List Char} :
      IsCommand ("d/d".toList ++ name) (.derivative (String.ofList (Text.trim name)))
  | simplify {rest : List Char} : rest.head?.all Text.isBlank →
      IsCommand ("simplify".toList ++ rest) (.simplify ((Text.words rest).map String.ofList))

/-- No two commands start alike, so it does not matter in which order they are tried. -/
theorem command?_eq_some_iff {text : List Char} {parsed : Line} :
    command? text = some parsed ↔ IsCommand text parsed := by
  constructor
  · intro known
    unfold command? at known
    split at known
    · next same =>
      cases known
      rw [same]
      exact .quit
    split at known
    · next name behind =>
      cases known
      rw [Text.after?_eq_some_iff.mp behind]
      exact .derivative
    split at known
    · next rest behind =>
      split at known
      · next alone =>
        cases known
        rw [Text.after?_eq_some_iff.mp behind]
        exact .simplify alone
      · cases known
    · cases known
  · intro command
    cases command with
    | quit => rfl
    | @derivative name =>
      have behind : Text.after? "d/d" ("d/d".toList ++ name) = some name :=
        Text.after?_eq_some_iff.mpr rfl
      unfold command?
      rw [if_neg (by simp), behind]
    | @simplify rest alone =>
      have other : Text.after? "d/d" ("simplify".toList ++ rest) = none := rfl
      have behind : Text.after? "simplify" ("simplify".toList ++ rest) = some rest :=
        Text.after?_eq_some_iff.mpr rfl
      unfold command?
      rw [if_neg (by simp), other, behind]
      exact if_pos alone

/-- What a line is, by the text between the blanks at its ends. -/
inductive Reads (line : String) : Line → Prop
  | blank : Text.trim line.toList = [] → Reads line .blank
  | command {command : List Char} {parsed : Line} : Text.trim line.toList = '!' :: command →
      IsCommand command parsed → Reads line parsed
  | unknown {command : List Char} : Text.trim line.toList = '!' :: command →
      (∀ parsed, ¬IsCommand command parsed) →
      Reads line (.unknown (String.ofList ('!' :: command)))
  | expression : Text.trim line.toList ≠ [] → (Text.trim line.toList).head? ≠ some '!' →
      Reads line (.expression (String.ofList (Text.trim line.toList)))

theorem command?_eq_none_iff {text : List Char} :
    command? text = none ↔ ∀ parsed, ¬IsCommand text parsed := by
  simp only [Option.eq_none_iff_forall_ne_some, ne_eq, command?_eq_some_iff]

theorem ofText_eq_iff {line : String} {parsed : Line} :
    ofText line = parsed ↔ Reads line parsed := by
  unfold ofText
  constructor
  · rintro rfl
    split
    · next empty => exact .blank empty
    · next command trimmed =>
      cases known : command? command with
      | none => exact .unknown trimmed (command?_eq_none_iff.mp known)
      | some parsed => exact .command trimmed (command?_eq_some_iff.mp known)
    · next nonempty other =>
      refine .expression nonempty fun mark => ?_
      obtain ⟨rest, marked⟩ := List.head?_eq_some_iff.mp mark
      exact other rest marked
  · intro reads
    cases reads with
    | blank empty => rw [empty]
    | command trimmed known =>
      rw [trimmed]
      simp only [command?_eq_some_iff.mpr known, Option.getD_some]
    | unknown trimmed other =>
      rw [trimmed]
      simp only [command?_eq_none_iff.mpr other, Option.getD_none]
    | expression nonempty unmarked =>
      split
      · next empty => exact absurd empty nonempty
      · next command trimmed => exact absurd (by rw [trimmed]; rfl) unmarked
      · rfl

theorem isSimplify_of_ofText {line : String} {bindings : List String}
    (simplify : ofText line = .simplify bindings) : IsSimplify line := by
  cases ofText_eq_iff.mp simplify with
  | command trimmed known =>
    cases known with
    | simplify alone => exact ⟨_, trimmed, alone⟩

theorem ofText_of_isSimplify {line : String} (simplify : IsSimplify line) :
    ∃ bindings, ofText line = .simplify bindings := by
  obtain ⟨rest, trimmed, alone⟩ := simplify
  exact ⟨_, ofText_eq_iff.mpr (.command trimmed (.simplify alone))⟩

end Line

namespace Session

/-! ## One line -/

variable {s after : Session} {line : Line} {reply : Reply}

/-- What a line does that does not fail: the session behind it, and the answer. -/
inductive Performs (s : Session) : Line → Session → Reply → Prop
  | blank : Performs s .blank s .nothing
  | quit : Performs s .quit s .quit
  | expression {text : String} {e : Expression} : Expression.parse text = .ok e →
      Performs s (.expression text) ⟨some e⟩ (.show e.text)
  | derivative {name : String} {x : Variable} {e : Expression} : Variable.ofName name = .ok x →
      s.current = some e →
      Performs s (.derivative name) ⟨some (e.derivative x.name)⟩ (.show (e.derivative x.name).text)
  | simplify {bindings : List String} {env : Environment} {e : Expression} :
      Request.environment bindings = .ok env → s.current = some e →
      Performs s (.simplify bindings) s (.show (e.simplify env).text)

theorem expression_eq_ok {e : Expression} : s.expression = .ok e ↔ s.current = some e := by
  unfold expression
  cases s.current with
  | none => exact iff_of_false nofun nofun
  | some other => simp

theorem performs_of_step (stepped : s.step line = .ok (after, reply)) :
    Performs s line after reply := by
  cases line with
  | blank =>
    cases stepped
    exact .blank
  | quit =>
    cases stepped
    exact .quit
  | unknown text => cases stepped
  | expression text =>
    obtain ⟨e, parsed, remembered⟩ := bind_eq_ok.mp stepped
    cases remembered
    exact .expression (mapError_eq_ok.mp (mapError_eq_ok.mp parsed))
  | derivative name =>
    obtain ⟨x, named, stepped⟩ := bind_eq_ok.mp stepped
    obtain ⟨e, current, remembered⟩ := bind_eq_ok.mp stepped
    cases remembered
    exact .derivative (mapError_eq_ok.mp named) (expression_eq_ok.mp current)
  | simplify bindings =>
    obtain ⟨env, defined, stepped⟩ := bind_eq_ok.mp stepped
    obtain ⟨e, current, shown⟩ := bind_eq_ok.mp stepped
    cases shown
    exact .simplify (mapError_eq_ok.mp defined) (expression_eq_ok.mp current)

theorem expression_eq_error {e : SessionError} :
    s.expression = .error e ↔ s.current = none ∧ e = .noExpression := by
  unfold expression
  cases s.current with
  | none => simp [eq_comm]
  | some other => exact iff_of_false nofun nofun

/-- Why a line fails. What is wrong with the line itself is told before a missing expression. -/
inductive Fails (s : Session) : Line → SessionError → Prop
  | unknown {text : String} : Fails s (.unknown text) (.unknownCommand text)
  | expression {text : String} {e : SyntaxError} : Expression.parse text = .error e →
      Fails s (.expression text) (.request (.expression e))
  | name {name : String} {e : InvalidValue} : Variable.ofName name = .error e →
      Fails s (.derivative name) (.request (.value e))
  | bindings {bindings : List String} {e : RequestError} :
      Request.environment bindings = .error e → Fails s (.simplify bindings) (.request e)
  | derivative {name : String} {x : Variable} : Variable.ofName name = .ok x →
      s.current = none → Fails s (.derivative name) .noExpression
  | simplify {bindings : List String} {env : Environment} :
      Request.environment bindings = .ok env → s.current = none →
      Fails s (.simplify bindings) .noExpression

theorem fails_of_step {e : SessionError} (failed : s.step line = .error e) : Fails s line e := by
  cases line with
  | blank | quit => cases failed
  | unknown text =>
    cases failed
    exact .unknown
  | expression text =>
    rcases bind_eq_error.mp failed with refused | ⟨tree, -, failed⟩
    · obtain ⟨cause, requested, rfl⟩ := mapError_eq_error.mp refused
      obtain ⟨e, unread, rfl⟩ := mapError_eq_error.mp requested
      exact .expression unread
    · cases failed
  | derivative name =>
    rcases bind_eq_error.mp failed with refused | ⟨x, named, failed⟩
    · obtain ⟨e, unnamed, rfl⟩ := mapError_eq_error.mp refused
      exact .name unnamed
    rcases bind_eq_error.mp failed with missing | ⟨tree, -, failed⟩
    · obtain ⟨none, rfl⟩ := expression_eq_error.mp missing
      exact .derivative (mapError_eq_ok.mp named) none
    · cases failed
  | simplify bindings =>
    rcases bind_eq_error.mp failed with refused | ⟨env, defined, failed⟩
    · obtain ⟨e, undefined, rfl⟩ := mapError_eq_error.mp refused
      exact .bindings undefined
    rcases bind_eq_error.mp failed with missing | ⟨tree, -, failed⟩
    · obtain ⟨none, rfl⟩ := expression_eq_error.mp missing
      exact .simplify (mapError_eq_ok.mp defined) none
    · cases failed

theorem performs_of_handle {line : String} (answered : (s.handle line).2 = .ok reply) :
    ∃ parsed after, Line.ofText line = parsed ∧ (s.handle line).1 = after ∧
      s.Performs parsed after reply := by
  unfold handle at answered ⊢
  split at answered
  · next after _ stepped =>
    cases answered
    exact ⟨_, after, rfl, rfl, performs_of_step stepped⟩
  · cases answered

theorem fails_of_handle {line : String} {e : SessionError}
    (failed : (s.handle line).2 = .error e) :
    ∃ parsed, Line.ofText line = parsed ∧ (s.handle line).1 = s ∧ s.Fails parsed e := by
  unfold handle at failed ⊢
  split at failed
  · cases failed
  · next stepped =>
    cases failed
    exact ⟨_, rfl, rfl, fails_of_step stepped⟩

/-- `Performs` and `Fails` say all that a line does. -/
theorem step_of_performs (performed : s.Performs line after reply) :
    s.step line = .ok (after, reply) := by
  cases performed with
  | blank | quit => rfl
  | expression parsed =>
    exact bind_eq_ok.mpr ⟨_, mapError_eq_ok.mpr (mapError_eq_ok.mpr parsed), rfl⟩
  | derivative named current =>
    exact bind_eq_ok.mpr ⟨_, mapError_eq_ok.mpr named,
      bind_eq_ok.mpr ⟨_, expression_eq_ok.mpr current, rfl⟩⟩
  | simplify defined current =>
    exact bind_eq_ok.mpr ⟨_, mapError_eq_ok.mpr defined,
      bind_eq_ok.mpr ⟨_, expression_eq_ok.mpr current, rfl⟩⟩

theorem step_of_fails {e : SessionError} (failed : s.Fails line e) : s.step line = .error e := by
  cases failed with
  | unknown => rfl
  | expression unread =>
    exact bind_eq_error.mpr
      (.inl (mapError_eq_error.mpr ⟨_, mapError_eq_error.mpr ⟨_, unread, rfl⟩, rfl⟩))
  | name refused | bindings refused =>
    exact bind_eq_error.mpr (.inl (mapError_eq_error.mpr ⟨_, refused, rfl⟩))
  | derivative accepted none | simplify accepted none =>
    exact bind_eq_error.mpr (.inr ⟨_, mapError_eq_ok.mpr accepted,
      bind_eq_error.mpr (.inl (expression_eq_error.mpr ⟨none, rfl⟩))⟩)

theorem handle_of_performs {text : String} (reads : Line.Reads text line)
    (performed : s.Performs line after reply) : s.handle text = (after, .ok reply) := by
  rw [handle, Line.ofText_eq_iff.mpr reads, step_of_performs performed]

theorem handle_of_fails {text : String} {e : SessionError} (reads : Line.Reads text line)
    (failed : s.Fails line e) : s.handle text = (s, .error e) := by
  rw [handle, Line.ofText_eq_iff.mpr reads, step_of_fails failed]

/-- The line leaves the session as it is: it fails, is blank, ends the session or only shows what
is simplified. -/
def Idle (s : Session) (line : String) : Prop :=
  (∃ e, (s.handle line).2 = .error e) ∨ (s.handle line).2 = .ok .nothing ∨
    (s.handle line).2 = .ok .quit ∨ Line.IsSimplify line

theorem handle_of_idle {line : String} (idle : s.Idle line) : (s.handle line).1 = s := by
  cases answer : (s.handle line).2 with
  | error e =>
    obtain ⟨_, _, same, _⟩ := fails_of_handle answer
    exact same
  | ok reply =>
    obtain ⟨parsed, after, kind, behind, performed⟩ := performs_of_handle answer
    rw [behind]
    cases performed with
    | blank | quit | simplify => rfl
    | expression | derivative =>
      -- What replaces the remembered expression is shown, and is no simplification.
      unfold Idle at idle
      rw [answer] at idle
      rcases idle with ⟨e, ⟨⟩⟩ | ⟨⟨⟩⟩ | ⟨⟨⟩⟩ | simplify
      obtain ⟨bindings, other⟩ := Line.ofText_of_isSimplify simplify
      rw [kind] at other
      cases other

/-- What is shown is what the session remembers from then on, unless the line only simplifies. -/
theorem current_of_show {line text : String} (shown : (s.handle line).2 = .ok (.show text))
    (other : ¬Line.IsSimplify line) :
    ∃ e, (s.handle line).1.current = some e ∧ text = e.text := by
  obtain ⟨parsed, after, kind, behind, performed⟩ := performs_of_handle shown
  rw [behind]
  cases performed with
  | expression | derivative => exact ⟨_, rfl, rfl⟩
  | simplify => exact absurd (Line.isSimplify_of_ofText kind) other

/-! ## A session that is changed in place -/

/-- Handles a line in a session that is changed in place, so that whatever was changed before a
failure would stay. -/
def handleInPlace (line : String) : ExceptT SessionError (StateM Session) Reply := do
  match Line.ofText line with
  | .blank => return .nothing
  | .quit => return .quit
  | .unknown text => throw (.unknownCommand text)
  | .expression text =>
    let e ← (Request.expression text).mapError SessionError.request
    set (Session.mk (some e))
    return .show e.text
  | .derivative name =>
    let x ← (Variable.ofName name).mapError fun cause => SessionError.request (.value cause)
    let e ← (← get).expression
    set (Session.mk (some (e.derivative x.name)))
    return .show (e.derivative x.name).text
  | .simplify bindings =>
    let env ← (Request.environment bindings).mapError SessionError.request
    let e ← (← get).expression
    return .show (e.simplify env).text

/-- By cases on the line, and on what can fail in it: behind each failure the session is as it was
in front of the line. -/
theorem run_handleInPlace (s : Session) (line : String) :
    (handleInPlace line).run s = ((s.handle line).2, (s.handle line).1) := by
  unfold handleInPlace handle
  cases Line.ofText line with
  | blank | quit | unknown text => rfl
  | expression text =>
    dsimp only [step]
    cases (Request.expression text).mapError SessionError.request with
    | error e => rfl
    | ok e => rfl
  | derivative name =>
    dsimp only [step]
    cases (Variable.ofName name).mapError fun cause => SessionError.request (.value cause) with
    | error e => rfl
    | ok x =>
      obtain ⟨current⟩ := s
      cases current with
      | none => rfl
      | some e => rfl
  | simplify bindings =>
    dsimp only [step]
    cases (Request.environment bindings).mapError SessionError.request with
    | error e => rfl
    | ok env =>
      obtain ⟨current⟩ := s
      cases current with
      | none => rfl
      | some e => rfl

/-- The answers to some lines in a session that is changed in place. -/
def answersInPlace (lines : List String) : StateM Session (List (Except SessionError Reply)) :=
  lines.mapM fun line => (handleInPlace line).run

/-! ## Many lines -/

/-- The session behind some lines, which go on after a failure and after the end of the session. -/
def afterLines (s : Session) (lines : List String) : Session :=
  lines.foldl (fun s line => (s.handle line).1) s

/-- The answers to some lines. -/
def answers (s : Session) : List String → List (Except SessionError Reply)
  | [] => []
  | line :: rest => (s.handle line).2 :: (s.handle line).1.answers rest

@[simp] theorem afterLines_append (first second : List String) :
    s.afterLines (first ++ second) = (s.afterLines first).afterLines second :=
  List.foldl_append

@[simp] theorem length_answers (lines : List String) : (s.answers lines).length = lines.length := by
  induction lines generalizing s with
  | nil => rfl
  | cons line rest ih => rw [answers, List.length_cons, ih, List.length_cons]

@[simp] theorem answers_append (first second : List String) :
    s.answers (first ++ second) = s.answers first ++ (s.afterLines first).answers second := by
  induction first generalizing s with
  | nil => rfl
  | cons line first ih => exact congrArg ((s.handle line).2 :: ·) ih

theorem run_answersInPlace (lines : List String) :
    (answersInPlace lines).run s = (s.answers lines, s.afterLines lines) := by
  unfold answersInPlace
  induction lines generalizing s with
  | nil => rfl
  | cons line lines ih =>
    have first : StateT.run (handleInPlace line).run s = ((s.handle line).2, (s.handle line).1) :=
      run_handleInPlace s line
    rw [List.mapM_cons, StateT.run_bind, first]
    exact congrArg (fun later => ((s.handle line).2 :: later.1, later.2)) ih

/-- A line that fails, is blank, ends the session or only simplifies can be left out: what the
session remembers in the end is the same, and so are the answers to all other lines. What any other
line shows is the text of what the session remembers behind it. The answers and what is remembered
are those of a session that is changed in place. -/
theorem answers_eraseIdx (s : Session) (before later : List String) (line : String) :
    (∀ lines, (answersInPlace lines).run s = (s.answers lines, s.afterLines lines)) ∧
    ((s.afterLines before).Idle line →
      s.afterLines (before ++ line :: later) = s.afterLines (before ++ later) ∧
      (s.answers (before ++ line :: later)).eraseIdx before.length =
        s.answers (before ++ later)) ∧
    ∀ text, ((s.afterLines before).handle line).2 = .ok (.show text) → ¬Line.IsSimplify line →
      ∃ e, (s.afterLines (before ++ [line])).current = some e ∧ text = e.text := by
  refine ⟨run_answersInPlace, fun idle => ?_, fun text shown other => ?_⟩
  · have unchanged := handle_of_idle idle
    have skipped : (s.afterLines before).afterLines (line :: later) =
        (s.afterLines before).afterLines later :=
      congrArg (afterLines · later) unchanged
    rw [afterLines_append, skipped, afterLines_append, answers_append, answers_append, answers,
      unchanged, List.eraseIdx_append_of_length_le (Nat.le_of_eq (length_answers before)),
      length_answers, Nat.sub_self]
    exact ⟨rfl, rfl⟩
  · rw [afterLines_append]
    exact current_of_show shown other

/-- A simplification and a wrong name between an expression and its derivative. The wrong name is
refused in the session that is changed in place too, and the derivative behind it is that of the
same expression. -/
theorem answers_eraseIdx_simplify :
    let before := ["x*x"]
    let later := ["!d/d1", " !d/dx "]
    (answersInPlace (before ++ later)).run start =
      (start.answers (before ++ later), start.afterLines (before ++ later)) ∧
    Line.IsSimplify "!simplify\tx=3" ∧
    (start.answers (before ++ "!simplify\tx=3" :: later)).eraseIdx 1 =
      start.answers (before ++ later) ∧
    start.answers (before ++ later) =
      [.ok (.show "x*x"), .error (.request (.value (.notALetter "1" '1'))),
        .ok (.show "(x*1.0000 + x*1.0000)")] ∧
    ∃ e, (start.afterLines (before ++ later)).current = some e ∧
      "(x*1.0000 + x*1.0000)" = e.text := by
  intro before later
  have simplify : Line.IsSimplify "!simplify\tx=3" := ⟨"\tx=3".toList, by decide, by decide⟩
  obtain ⟨inPlace, erased, -⟩ := answers_eraseIdx start before later "!simplify\tx=3"
  have answered : start.answers (before ++ later) =
      [.ok (.show "x*x"), .error (.request (.value (.notALetter "1" '1'))),
        .ok (.show "(x*1.0000 + x*1.0000)")] := by decide +kernel
  have shown : ((start.afterLines ["x*x", "!d/d1"]).handle " !d/dx ").2 =
      .ok (.show "(x*1.0000 + x*1.0000)") := by decide +kernel
  have other : ¬Line.IsSimplify " !d/dx " := by
    intro simplify
    obtain ⟨bindings, other⟩ := Line.ofText_of_isSimplify simplify
    have kind : Line.ofText " !d/dx " = .derivative "x" := by decide +kernel
    rw [kind] at other
    cases other
  exact ⟨inPlace _, simplify, (erased (.inr (.inr (.inr simplify)))).2, answered,
    (answers_eraseIdx start ["x*x", "!d/d1"] [] " !d/dx ").2.2 _ shown other⟩

end Session

end SumProduct
