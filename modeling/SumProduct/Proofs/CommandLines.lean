import SumProduct.CommandLine.Invocation
import SumProduct.Proofs.Reading

/-!
# Well-formed command lines

`Spelled pieces arguments` says that the arguments write some operands and settings in order, each
in one of the forms that it has, up to a `--` behind which all arguments are operands.
`Task.Asks task source arguments` says that the arguments name a command and write, in any order,
just what the task needs. All that can still be wrong with them is the form of a binding.

Results:
1. `readArguments_spelled`: reading written pieces collects them one by one.
2. `ofArguments_of_asks`: well-formed arguments are read as their task, unless a binding is
   malformed.
-/

namespace SumProduct.CommandLine

/-! ## How pieces are written -/

/-- An operand, or a setting with its value. -/
inductive Piece where
  | operand (text : String)
  | setting (setting : Setting) (value : String)

/-- The text is not taken for an option: it does not start with `-`, or has nothing behind that. -/
def Bare (text : String) : Prop := text.toList.head? = some '-' → text = "-"

instance (text : String) : Decidable (Bare text) := inferInstanceAs (Decidable (_ → _))

/-- The arguments that a piece can be written as. The value of a setting is an argument of its own
or stands behind `=`, and the path of a file may also follow its short flag. -/
inductive Piece.Spells : Piece → List String → Prop
  | operand {text : String} : Bare text → Spells (.operand text) [text]
  | separate {setting : Setting} {value : String} : Bare value →
      Spells (.setting setting value) [setting.flag, value]
  | attached {setting : Setting} {value : String} :
      Spells (.setting setting value) [setting.flag ++ "=" ++ value]
  | short {path : String} : Bare path → Spells (.setting .file path) ["-f", path]
  | shortAttached {path : String} : path ≠ "" → path.toList.head? ≠ some '=' →
      Spells (.setting .file path) ["-f" ++ path]
  | shortEquals {path : String} : Spells (.setting .file path) ["-f=" ++ path]

/-- The arguments write the pieces in order. -/
inductive Spelled : List Piece → List String → Prop
  | nil : Spelled [] []
  | separated (texts : List String) : Spelled (texts.map .operand) ("--" :: texts)
  | cons {piece : Piece} {pieces : List Piece} {arguments rest : List String} :
      piece.Spells arguments → Spelled pieces rest → Spelled (piece :: pieces) (arguments ++ rest)

/-! ### What a written piece is read as -/

section Forms

theorem ofText_of_bare {text : String} (bare : Bare text) :
    Argument.ofText text = .operand text := by
  have start : text.toList.head? = some '-' → text.toList = ['-'] := fun dash => by
    rw [bare dash]
    rfl
  unfold Argument.ofText
  split
  · next form => simp [form] at start
  · next form => simp [form] at start
  · next form => simp [form] at start
  · rfl

@[simp] theorem switch?_flag (setting : Setting) :
    (Argument.ofText setting.flag).switch? = some (.setting setting none) := by
  cases setting <;> rfl

@[simp] theorem switch?_attached (setting : Setting) (value : String) :
    (Argument.ofText (setting.flag ++ "=" ++ value)).switch? =
      some (.setting setting (some value)) := by
  cases setting <;> simp [Argument.ofText, Setting.flag, Argument.switch?]

theorem switch?_shortAttached {path : String} (nonempty : path ≠ "")
    (other : path.toList.head? ≠ some '=') :
    (Argument.ofText ("-f" ++ path)).switch? = some (.setting .file (some path)) := by
  obtain ⟨c, rest, spelled⟩ := List.exists_cons_of_ne_nil (mt String.toList_eq_nil_iff.mp nonempty)
  have other : c ≠ '=' := by simpa [spelled] using other
  have same : path = String.ofList (c :: rest) := by rw [← spelled, String.ofList_toList]
  simp [Argument.ofText, Argument.switch?, other, same]

@[simp] theorem switch?_shortEquals (path : String) :
    (Argument.ofText ("-f=" ++ path)).switch? = some (.setting .file (some path)) := by
  simp [Argument.ofText, Argument.switch?]

end Forms

/-! ## Reading what is written -/

/-- Adds a piece to what has been given. -/
def Given.add (verb : Verb) (given : Given) : Piece → Except UsageError Given
  | .operand text => given.addOperand verb text
  | .setting setting value => given.addSetting setting value

/-- The command takes all settings among the pieces. -/
def Verb.TakesAll (verb : Verb) (pieces : List Piece) : Prop :=
  ∀ setting value, .setting setting value ∈ pieces → verb.takes setting = true

section Readings

variable {verb : Verb} {given : Given} {piece : Piece} {pieces : List Piece} {text value : String}
  {setting : Setting} {arguments rest : List String}

theorem readArguments_operand (bare : Bare text) : readArguments verb given (text :: rest) =
    (given.addOperand verb text >>= fun given => readArguments verb given rest) := by
  rw [readArguments, ofText_of_bare bare]

theorem readArguments_attached
    (asks : (Argument.ofText text).switch? = some (.setting setting (some value)))
    (takes : verb.takes setting = true) : readArguments verb given (text :: rest) =
      (given.addSetting setting value >>= fun given => readArguments verb given rest) := by
  rw [readArguments]
  cases form : Argument.ofText text with
  | operand | separator =>
    rw [form] at asks
    cases asks
  | long | short =>
    rw [form] at asks
    simp only [asks, takes]
    rfl

theorem readArguments_separate
    (asks : (Argument.ofText text).switch? = some (.setting setting none)) (bare : Bare value)
    (takes : verb.takes setting = true) : readArguments verb given (text :: value :: rest) =
      (given.addSetting setting value >>= fun given => readArguments verb given rest) := by
  rw [readArguments]
  cases form : Argument.ofText text with
  | operand | separator =>
    rw [form] at asks
    cases asks
  | long | short =>
    rw [form] at asks
    simp only [asks, takes, ofText_of_bare bare]
    rfl

theorem readArguments_piece (spells : piece.Spells arguments)
    (takes : ∀ setting value, piece = .setting setting value → verb.takes setting = true) :
    readArguments verb given (arguments ++ rest) =
      (given.add verb piece >>= fun given => readArguments verb given rest) := by
  cases spells with
  | operand bare => exact readArguments_operand bare
  | separate bare => exact readArguments_separate (switch?_flag _) bare (takes _ _ rfl)
  | attached => exact readArguments_attached (switch?_attached _ _) (takes _ _ rfl)
  | short bare => exact readArguments_separate rfl bare (takes _ _ rfl)
  | shortAttached nonempty other =>
    exact readArguments_attached (switch?_shortAttached nonempty other) (takes _ _ rfl)
  | shortEquals => exact readArguments_attached (switch?_shortEquals _) (takes _ _ rfl)

/-- By induction on the pieces: they are collected from left to right, in whatever form they are
written. -/
theorem readArguments_spelled (spelled : Spelled pieces arguments) (takes : verb.TakesAll pieces) :
    readArguments verb given arguments = (do
      let given ← pieces.foldlM (Given.add verb) given
      return .command (← given.command verb)) := by
  induction spelled generalizing given with
  | nil => rfl
  | separated texts =>
    rw [readArguments, List.foldlM_map]
    rfl
  | cons spells _ ih =>
    rw [readArguments_piece spells fun setting value same => takes setting value (by simp [same]),
      List.foldlM_cons, bind_assoc]
    congr 1
    funext given
    exact ih fun setting value mem => takes setting value (List.mem_cons_of_mem _ mem)

end Readings

/-! ## Bindings -/

/-- A binding, as it is read on a command line. -/
def readBinding (text : String) : Except UsageError Binding :=
  match Binding.ofText? text with
  | some b => .ok b
  | none => .error (.malformedBinding text)

section Bindings

variable {texts : List String} {bindings : List Binding}

/-- The texts are read as these bindings. -/
def Read (texts : List String) (bindings : List Binding) : Prop :=
  texts.map Binding.ofText? = bindings.map some

/-- The bindings of a command line and those of a request are read alike, but for the error. -/
theorem mapM_eq_ok_iff_read {ε : Type} {read : String → Except ε Binding}
    (reads : ∀ text b, read text = .ok b ↔ Binding.ofText? text = some b) :
    texts.mapM read = .ok bindings ↔ Read texts bindings := by
  rw [mapM_eq_ok_iff, Read]
  induction texts generalizing bindings with
  | nil => simp
  | cons first rest ih => cases bindings <;> simp [reads, ih]

theorem readBinding_eq_ok_iff (text : String) (b : Binding) :
    readBinding text = .ok b ↔ Binding.ofText? text = some b := by
  unfold readBinding
  cases Binding.ofText? text <;> simp

theorem exists_read_iff : (∃ bindings, Read texts bindings) ↔
    ∀ text ∈ texts, Binding.ofText? text ≠ none := by
  constructor
  · rintro ⟨bindings, read⟩ text mem malformed
    have among : none ∈ bindings.map some := by
      rw [← read, ← malformed]
      exact List.mem_map_of_mem mem
    simp at among
  · intro formed
    cases result : texts.mapM readBinding with
    | ok bindings => exact ⟨bindings, (mapM_eq_ok_iff_read readBinding_eq_ok_iff).mp result⟩
    | error e =>
      obtain ⟨text, mem, malformed⟩ := mapM_eq_error result
      unfold readBinding at malformed
      split at malformed
      · cases malformed
      · next none => exact absurd none (formed text mem)

end Bindings

/-! ## What is collected -/

def Piece.operand? : Piece → Option String
  | .operand text => some text
  | .setting .. => none

def Piece.value? (setting : Setting) : Piece → Option String
  | .setting other value => if other = setting then some value else none
  | .operand _ => none

/-- The operands among the pieces. -/
def operands (pieces : List Piece) : List String := pieces.filterMap Piece.operand?

/-- The values of a setting among the pieces. -/
def values (setting : Setting) (pieces : List Piece) : List String :=
  pieces.filterMap (Piece.value? setting)

section Collecting

variable {verb : Verb} {pieces : List Piece} {texts paths names : List String}

/-- What can be given once and is given now was not given before. -/
theorem eq_none_of_append {α : Type} {given : Option α} {a : α} {rest whole : List α}
    (all : given.toList ++ a :: rest = whole) (once : whole.length ≤ 1) : given = none := by
  cases given with
  | none => rfl
  | some b =>
    rw [← all] at once
    simp at once

/-- By induction on the pieces: where nothing is given twice, each piece finds its place, and the
first malformed binding is the error. -/
theorem foldlM_add (operates : verb ≠ .repl) (oneText : texts.length ≤ 1)
    (onePath : paths.length ≤ 1) (oneName : names.length ≤ 1) (nonempty : "" ∉ paths)
    (given : Given) (allTexts : given.expression.toList ++ operands pieces = texts)
    (allPaths : given.file.toList ++ values .file pieces = paths)
    (allNames : given.name.toList ++ values .name pieces = names) :
    pieces.foldlM (Given.add verb) given = (do
      let bindings ← (values .binding pieces).mapM readBinding
      return ⟨texts.head?, paths.head?, names.head?, given.bindings ++ bindings⟩) := by
  induction pieces generalizing given with
  | nil =>
    simp only [operands, values, List.filterMap_nil, List.append_nil] at allTexts allPaths allNames
    subst allTexts allPaths allNames
    simp [values]
  | cons piece pieces ih =>
    rw [List.foldlM_cons]
    cases piece with
    | operand text =>
      have none := eq_none_of_append allTexts oneText
      have added : given.add verb (.operand text) = .ok { given with expression := some text } := by
        simp [Given.add, Given.addOperand, operates, none]
      rw [added]
      refine ih { given with expression := some text } ?_ allPaths allNames
      rw [← allTexts, none]
      rfl
    | setting setting value =>
      cases setting with
      | file =>
        have none := eq_none_of_append allPaths onePath
        have path : value ≠ "" := by
          rintro rfl
          exact nonempty (allPaths ▸ List.mem_append_right _ List.mem_cons_self)
        have added : given.add verb (.setting .file value) =
            .ok { given with file := some value } := by
          simp [Given.add, Given.addSetting, path, none]
        rw [added]
        refine ih { given with file := some value } allTexts ?_ allNames
        rw [← allPaths, none]
        rfl
      | name =>
        have none := eq_none_of_append allNames oneName
        have added : given.add verb (.setting .name value) =
            .ok { given with name := some value } := by
          simp [Given.add, Given.addSetting, none]
        rw [added]
        refine ih { given with name := some value } allTexts allPaths ?_
        rw [← allNames, none]
        rfl
      | binding =>
        have first : values .binding (.setting .binding value :: pieces) =
            value :: values .binding pieces := rfl
        rw [first, List.mapM_cons, Given.add, Given.addSetting, readBinding]
        -- Bindings are the only pieces that can fail, so the first malformed one is met first.
        cases Binding.ofText? value with
        | none => rfl
        | some b =>
          refine (ih { given with bindings := given.bindings ++ [b] } allTexts allPaths
            allNames).trans ?_
          simp only [bind_assoc, pure_bind, List.append_assoc, List.singleton_append]
          rfl

end Collecting

/-! ## Tasks -/

/-- What a command line can ask for with an expression. The texts of bindings are as they were
given, whether or not they are bindings. -/
inductive Task where
  | tokenize
  | parse
  | differentiate (name : String)
  | simplify (bindings : List String)

namespace Task

def verb : Task → Verb
  | tokenize => .tokenize
  | parse => .parse
  | differentiate _ => .differentiate
  | simplify _ => .simplify

def names : Task → List String
  | differentiate name => [name]
  | _ => []

def bindings : Task → List String
  | simplify texts => texts
  | _ => []

/-- The command for a task, with its bindings read. -/
def command (source : Source) (bindings : List Binding) : Task → Command
  | tokenize => .tokenize source
  | parse => .parse source
  | differentiate name => .differentiate source name
  | simplify _ => .simplify source bindings

end Task

/-- The expression as an operand, if it comes from there. -/
def Source.operands : Source → List String
  | .text expression => [expression]
  | .file _ => []

/-- The path of the file, if the expression comes from one. -/
def Source.paths : Source → List String
  | .text _ => []
  | .file path => [path]

/-- The pieces are what a task on an expression needs, and nothing else, in any order. -/
structure Task.Needs (task : Task) (source : Source) (pieces : List Piece) : Prop where
  operands : operands pieces = source.operands
  paths : values .file pieces = source.paths
  nonempty : "" ∉ source.paths
  names : values .name pieces = task.names
  bindings : values .binding pieces = task.bindings

/-- The arguments are a command line for a task on an expression. -/
inductive Task.Asks (task : Task) (source : Source) : List String → Prop
  | intro {name : String} {pieces : List Piece} {arguments : List String} :
      Verb.ofName? name = some task.verb → Spelled pieces arguments → task.Needs source pieces →
      Asks task source (name :: arguments)

section Asking

variable {task : Task} {source : Source} {pieces : List Piece} {arguments : List String}

@[simp] theorem mem_values {setting : Setting} {value : String} :
    value ∈ values setting pieces ↔ .setting setting value ∈ pieces := by
  rw [values, List.mem_filterMap]
  constructor
  · rintro ⟨piece, mem, given⟩
    cases piece with
    | operand text => cases given
    | setting other written =>
      rw [Piece.value?] at given
      split at given
      · next same =>
        cases given
        exact same ▸ mem
      · cases given
  · exact fun mem => ⟨_, mem, if_pos rfl⟩

theorem Task.Needs.takesAll (needs : task.Needs source pieces) : task.verb.TakesAll pieces := by
  intro setting value mem
  have given := mem_values.mpr mem
  cases setting with
  | file => cases task <;> rfl
  | name =>
    rw [needs.names] at given
    cases task with
    | differentiate name => rfl
    | tokenize | parse | simplify => cases given
  | binding =>
    rw [needs.bindings] at given
    cases task with
    | simplify texts => rfl
    | tokenize | parse | differentiate => cases given

/-- A file or an expression is given, and the name where one is needed. -/
theorem Task.command_eq (task : Task) (source : Source) (bindings : List Binding) :
    Given.command ⟨source.operands.head?, source.paths.head?, task.names.head?, bindings⟩
      task.verb = .ok (task.command source bindings) := by
  cases task <;> cases source <;> rfl

theorem ofArguments_named {name : String} {verb : Verb} (named : Verb.ofName? name = some verb) :
    Invocation.ofArguments (name :: arguments) = readArguments verb .nothing arguments := by
  have bare : Argument.ofText name = .operand name := by
    refine ofText_of_bare fun dash => ?_
    unfold Verb.ofName? at named
    split at named <;> simp at dash named
  have notHelp : name ≠ "help" := by
    rintro rfl
    cases named
  rw [Invocation.ofArguments, bare]
  simp only [if_neg notHelp, named]

/-- A command line for a task is read as the task, unless a binding is malformed. -/
theorem ofArguments_of_asks (asks : task.Asks source arguments) :
    Invocation.ofArguments arguments = (do
      let bindings ← task.bindings.mapM readBinding
      return .command (task.command source bindings)) := by
  cases asks with
  | @intro name pieces arguments named spelled needs =>
    have operates : task.verb ≠ .repl := by cases task <;> nofun
    have oneText : source.operands.length ≤ 1 := by cases source <;> simp [Source.operands]
    have onePath : source.paths.length ≤ 1 := by cases source <;> simp [Source.paths]
    have oneName : task.names.length ≤ 1 := by cases task <;> simp [Task.names]
    have collected := foldlM_add operates oneText onePath oneName needs.nonempty .nothing
      needs.operands needs.paths needs.names
    rw [ofArguments_named named, readArguments_spelled spelled needs.takesAll, collected,
      needs.bindings, bind_assoc]
    congr 1
    funext bindings
    rw [pure_bind, Given.nothing, List.nil_append, task.command_eq source bindings]
    rfl

end Asking

end SumProduct.CommandLine
