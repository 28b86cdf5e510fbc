import SumProduct.Proofs.AcceptedCommandLines
import SumProduct.Proofs.Outcomes

/-!
# Options in any order

A command is given its expression behind `--` or in a file, and its options in some order. Reading
collects the values of each option on its own. So what a command line asks for depends on the
order of the bindings, but neither on the rest of the order nor on where the expression stands
(`Complete.reordered`).

A command line that gives too little, too much or something that cannot be read is refused in any
order (`Poses.exists_error`). Otherwise it asks for one task on its text (`Poses.asks`). In both
cases the run has the same outcome for all such command lines (`run_agrees`).
-/

namespace SumProduct.CommandLine

/-! ## Options of a command -/

/-- An option other than the file, with its value. -/
structure Choice where
  setting : Setting
  value : String
  /-- Whether the value stands behind `=`, and not in an argument of its own. -/
  attached : Bool
  notFile : setting ≠ .file
deriving DecidableEq

namespace Choice

def piece (choice : Choice) : Piece := .setting choice.setting choice.value

def arguments (choice : Choice) : List String :=
  if choice.attached then [choice.setting.flag ++ "=" ++ choice.value]
  else [choice.setting.flag, choice.value]

/-- The command takes the option, and does not take its value for another option. -/
def Readable (verb : Verb) (choice : Choice) : Prop :=
  verb.takes choice.setting = true ∧ (choice.attached = false → Bare choice.value)

end Choice

/-- The same options in another order, which leaves the bindings in theirs. -/
structure Reordered (first second : List Choice) : Prop where
  perm : first.Perm second
  bindings : first.filter (·.setting = .binding) = second.filter (·.setting = .binding)

/-- The arguments name a command and give it these options and the text, behind `--` at the end or
in a file that holds just that. -/
inductive Poses (world : World) (text : String) (verb : Verb) : List Choice → List String → Prop
  | text {name : String} {choices : List Choice} : Verb.ofName? name = some verb →
      Poses world text verb choices (name :: (choices.flatMap Choice.arguments ++ ["--", text]))
  | file {name path : String} {before after : List Choice} {words : List String} :
      Verb.ofName? name = some verb → path ≠ "" → Piece.Spells (.setting .file path) words →
      world.file? path = some text.toUTF8 →
      Poses world text verb (before ++ after)
        (name :: (before.flatMap Choice.arguments ++ (words ++ after.flatMap Choice.arguments)))

/-! ## Options that cannot be read -/

/-- Reading the arguments fails, whatever has been given before. -/
def Unreadable (verb : Verb) (arguments : List String) : Prop :=
  ∀ given, ∃ e, readArguments verb given arguments = .error e

section Unreadable

variable {verb : Verb} {given : Given} {setting : Setting} {text value : String}
  {arguments rest : List String} {choice : Choice} {choices : List Choice}

theorem Verb.takes_file (evaluates : verb ≠ .repl) : verb.takes .file = true := by
  cases verb with
  | repl => exact absurd rfl evaluates
  | tokenize | parse | differentiate | simplify => rfl

theorem readArguments_not_taken {attached : Option String}
    (asks : (Argument.ofText text).switch? = some (.setting setting attached))
    (not_taken : verb.takes setting = false) :
    readArguments verb given (text :: rest) = .error (.unexpectedArgument text) := by
  rw [readArguments]
  cases form : Argument.ofText text with
  | operand | separator =>
    rw [form] at asks
    cases asks
  | long | short =>
    rw [form] at asks
    simp only [asks, not_taken]
    rfl

theorem readArguments_not_bare
    (asks : (Argument.ofText text).switch? = some (.setting setting none))
    (takes : verb.takes setting = true) (not_bare : ¬Bare value) :
    readArguments verb given (text :: value :: rest) = .error (.missingValue setting) := by
  rw [readArguments]
  cases form : Argument.ofText text with
  | operand | separator =>
    rw [form] at asks
    cases asks
  | long | short =>
    rw [form] at asks
    simp only [asks, takes]
    cases next : Argument.ofText value with
    | operand => exact absurd (ofText_eq_operand next).2 not_bare
    | separator | long | short => rfl

theorem Choice.spells (readable : choice.Readable verb) : choice.piece.Spells choice.arguments := by
  obtain ⟨setting, value, attached, notFile⟩ := choice
  cases attached with
  | true => exact .attached
  | false => exact .separate (readable.2 rfl)

theorem unreadable_of_not_readable (not_readable : ¬choice.Readable verb) (rest : List String) :
    Unreadable verb (choice.arguments ++ rest) := by
  intro given
  obtain ⟨setting, value, attached, notFile⟩ := choice
  cases taken : verb.takes setting with
  | false =>
    cases attached with
    | true => exact ⟨_, readArguments_not_taken (switch?_attached setting value) taken⟩
    | false => exact ⟨_, readArguments_not_taken (switch?_flag setting) taken⟩
  | true =>
    cases attached with
    | true => exact absurd ⟨taken, nofun⟩ not_readable
    | false =>
      have not_bare : ¬Bare value := fun bare => not_readable ⟨taken, fun _ => bare⟩
      exact ⟨_, readArguments_not_bare (switch?_flag setting) taken not_bare⟩

/-- A setting in front, which may itself be refused, does not help. -/
theorem Unreadable.behind_setting (unreadable : Unreadable verb rest)
    (spells : Piece.Spells (.setting setting value) arguments)
    (takes : verb.takes setting = true) : Unreadable verb (arguments ++ rest) := by
  intro given
  rw [readArguments_piece spells (by rintro _ _ ⟨⟩; exact takes)]
  cases given.add verb (.setting setting value) with
  | error e => exact ⟨e, rfl⟩
  | ok given => exact unreadable given

theorem Unreadable.behind_choices (unreadable : Unreadable verb rest) (choices : List Choice) :
    Unreadable verb (choices.flatMap Choice.arguments ++ rest) := by
  induction choices with
  | nil => exact unreadable
  | cons choice choices ih =>
    rw [List.flatMap_cons, List.append_assoc]
    by_cases readable : choice.Readable verb
    · exact ih.behind_setting (choice.spells readable) readable.1
    · exact unreadable_of_not_readable readable _

theorem unreadable_of_mem (mem : choice ∈ choices) (not_readable : ¬choice.Readable verb)
    (rest : List String) : Unreadable verb (choices.flatMap Choice.arguments ++ rest) := by
  obtain ⟨before, after, rfl⟩ := List.append_of_mem mem
  rw [List.flatMap_append, List.flatMap_cons, List.append_assoc, List.append_assoc]
  exact (unreadable_of_not_readable not_readable _).behind_choices before

variable {world : World}

theorem Poses.exists_error_of_mem (evaluates : verb ≠ .repl)
    (poses : Poses world text verb choices arguments) (mem : choice ∈ choices)
    (not_readable : ¬choice.Readable verb) : ∃ e, Invocation.ofArguments arguments = .error e := by
  cases poses with
  | text named =>
    rw [ofArguments_named named]
    exact unreadable_of_mem mem not_readable _ .nothing
  | @file _ _ before after _ named _ spells _ =>
    rw [ofArguments_named named]
    rcases List.mem_append.mp mem with mem | mem
    · exact unreadable_of_mem mem not_readable _ .nothing
    · have behind := unreadable_of_mem mem not_readable []
      rw [List.append_nil] at behind
      have file := behind.behind_setting spells (Verb.takes_file evaluates)
      exact file.behind_choices before .nothing

end Unreadable

/-! ## Options that can be read -/

section Readable

variable {world world' : World} {verb : Verb} {text : String} {source : Source} {task : Task}
  {arguments arguments' rest : List String} {pieces more : List Piece}
  {choices first second : List Choice}

theorem Spelled.behind_choices (readable : ∀ choice ∈ choices, choice.Readable verb)
    (spelled : Spelled pieces rest) :
    Spelled (choices.map Choice.piece ++ pieces) (choices.flatMap Choice.arguments ++ rest) := by
  induction choices with
  | nil => exact spelled
  | cons choice choices ih =>
    obtain ⟨first, others⟩ := List.forall_mem_cons.mp readable
    rw [List.flatMap_cons, List.append_assoc]
    exact .cons (choice.spells first) (ih others)

theorem values_map_piece (setting : Setting) (choices : List Choice) :
    values setting (choices.map Choice.piece) =
      (choices.filter (·.setting = setting)).map Choice.value := by
  induction choices with
  | nil => rfl
  | cons choice choices ih =>
    rw [values, List.map_cons, List.filterMap_cons, ← values, ih]
    by_cases same : choice.setting = setting <;> simp [Choice.piece, Piece.value?, same]

@[simp] theorem values_file_map_piece (choices : List Choice) :
    values .file (choices.map Choice.piece) = [] := by
  rw [values_map_piece, List.filter_eq_nil_iff.mpr (by simp [Choice.notFile]), List.map_nil]

@[simp]
theorem operands_map_piece (choices : List Choice) : operands (choices.map Choice.piece) = [] := by
  simp [operands, Choice.piece, Piece.operand?]

/-- The pieces are the options, and the expression from its source. -/
structure Gives (choices : List Choice) (source : Source) (pieces : List Piece) : Prop where
  operands : operands pieces = source.operands
  paths : values .file pieces = source.paths
  nonempty : "" ∉ source.paths
  others : ∀ setting, setting ≠ .file →
    values setting pieces = values setting (choices.map Choice.piece)

theorem Gives.takesAll (gives : Gives choices source pieces) (evaluates : verb ≠ .repl)
    (readable : ∀ choice ∈ choices, choice.Readable verb) : verb.TakesAll pieces := by
  intro setting value mem
  by_cases isFile : setting = .file
  · exact isFile ▸ Verb.takes_file evaluates
  · have given := mem_values.mpr mem
    rw [gives.others setting isFile, mem_values, List.mem_map] at given
    obtain ⟨choice, among, same⟩ := given
    cases same
    exact (readable choice among).1

theorem gives_text (choices : List Choice) (text : String) :
    Gives choices (.text text) (choices.map Choice.piece ++ [.operand text]) := by
  refine ⟨?_, ?_, by simp [Source.paths], fun setting _ => ?_⟩
  · rw [operands_append, operands_map_piece]
    rfl
  · rw [values_append, values_file_map_piece]
    rfl
  · rw [values_append]
    exact List.append_nil _

theorem gives_file {path : String} (nonempty : path ≠ "") (before after : List Choice) :
    Gives (before ++ after) (.file path)
      (before.map Choice.piece ++ .setting .file path :: after.map Choice.piece) := by
  refine ⟨?_, ?_, by simpa [Source.paths] using nonempty.symm, fun setting other => ?_⟩
  · rw [operands_append, operands_map_piece]
    exact operands_map_piece after
  · rw [values_append, values_file_map_piece]
    exact congrArg (path :: ·) (values_file_map_piece after)
  · rw [List.map_append, values_append, values_append]
    have skipped : Piece.value? setting (.setting .file path) = none := if_neg other.symm
    rw [values, values, List.filterMap_cons_none skipped]
    rfl

/-- A command line with options that can be read writes them, together with its expression. -/
theorem Poses.exists_gives (poses : Poses world text verb choices arguments)
    (readable : ∀ choice ∈ choices, choice.Readable verb) :
    ∃ name rest source pieces, arguments = name :: rest ∧ Verb.ofName? name = some verb ∧
      source.Holds world text ∧ Spelled pieces rest ∧ Gives choices source pieces := by
  cases poses with
  | @text name _ named =>
    exact ⟨name, _, .text text, _, rfl, named, .text,
      (Spelled.separated [text]).behind_choices readable, gives_text choices text⟩
  | @file name path before after words named nonempty spells held =>
    obtain ⟨front, back⟩ := List.forall_mem_append.mp readable
    have behind := Spelled.nil.behind_choices back
    rw [List.append_nil, List.append_nil] at behind
    exact ⟨name, _, .file path, _, rfl, named, .file held,
      (Spelled.cons spells behind).behind_choices front, gives_file nonempty before after⟩

/-! ## What options ask for -/

/-- The options are all that the command needs for a task on an expression. -/
structure Complete (verb : Verb) (choices : List Choice) (task : Task) : Prop where
  same : task.verb = verb
  readable : ∀ choice ∈ choices, choice.Readable verb
  names : values .name (choices.map Choice.piece) = task.names
  bindings : values .binding (choices.map Choice.piece) = task.bindings

/-- The order does not matter: of the names there is at most one, and the bindings keep theirs. -/
theorem Complete.reordered (complete : Complete verb first task)
    (reordered : Reordered first second) : Complete verb second task := by
  obtain ⟨same, readable, names, bindings⟩ := complete
  rw [values_map_piece] at names bindings
  refine ⟨same, fun choice mem => readable choice (reordered.perm.mem_iff.mpr mem), ?_, ?_⟩
  · have perm := (reordered.perm.filter (·.setting = .name)).map Choice.value
    rw [names] at perm
    rw [values_map_piece]
    cases task with
    | differentiate name => exact (List.singleton_perm.mp perm).symm
    | tokenize | parse | simplify => exact List.nil_perm.mp perm
  · rw [values_map_piece, ← reordered.bindings, bindings]

theorem Reordered.symm (reordered : Reordered first second) : Reordered second first :=
  ⟨reordered.perm.symm, reordered.bindings.symm⟩

theorem Poses.asks (poses : Poses world text verb choices arguments)
    (complete : Complete verb choices task) :
    ∃ source, source.Holds world text ∧ task.Asks source arguments := by
  obtain ⟨name, rest, source, pieces, rfl, named, holds, spelled, gives⟩ :=
    poses.exists_gives complete.readable
  exact ⟨source, holds, .intro (complete.same ▸ named) spelled
    ⟨gives.operands, gives.paths, gives.nonempty, (gives.others .name nofun).trans complete.names,
      (gives.others .binding nofun).trans complete.bindings⟩⟩

theorem Given.command_ne_repl {given : Given} (evaluates : verb ≠ .repl) :
    given.command verb ≠ .ok .repl := by
  intro found
  cases verb with
  | repl => exact evaluates rfl
  | tokenize | parse | simplify =>
    obtain ⟨source, -, ⟨⟩⟩ := bind_eq_ok.mp found
  | differentiate =>
    obtain ⟨source, -, found⟩ := bind_eq_ok.mp found
    split at found <;> cases found

theorem Poses.exists_error (poses : Poses world text verb choices arguments)
    (evaluates : verb ≠ .repl) (incomplete : ¬∃ task, Complete verb choices task) :
    ∃ e, Invocation.ofArguments arguments = .error e := by
  by_cases readable : ∀ choice ∈ choices, choice.Readable verb
  · obtain ⟨name, rest, source, pieces, rfl, named, -, spelled, gives⟩ :=
      poses.exists_gives readable
    have takes := gives.takesAll evaluates readable
    cases result : Invocation.ofArguments (name :: rest) with
    | error e => exact ⟨e, rfl⟩
    | ok invocation =>
      rw [ofArguments_named named, readArguments_spelled spelled takes] at result
      obtain ⟨given, added, result⟩ := bind_eq_ok.mp result
      obtain ⟨command, found, -⟩ := bind_eq_ok.mp result
      have other : command ≠ .repl := by
        rintro rfl
        exact Given.command_ne_repl evaluates found
      obtain ⟨task, source, bindings, same, needs, -, -⟩ :=
        exists_task_of_command takes (collects_of_foldlM added) found other
      exact absurd ⟨task, same, readable, (gives.others .name nofun).symm.trans needs.names,
        (gives.others .binding nofun).symm.trans needs.bindings⟩ incomplete
  · obtain ⟨choice, mem, not_readable⟩ := by simpa using readable
    exact poses.exists_error_of_mem evaluates mem not_readable

end Readable

/-! ## Outcomes -/

/-- The first line of what is told of a failure. -/
def Outcome.firstLine (outcome : Outcome) : List Char :=
  outcome.errors.toList.takeWhile (· ≠ '\n')

/-- The same status and output, and the same first line of a syntax error. -/
structure Outcome.Agrees (outcome outcome' : Outcome) : Prop where
  status : outcome.status = outcome'.status
  output : outcome.output = outcome'.output
  firstLine : outcome.status = 65 → outcome.firstLine = outcome'.firstLine

section Outcomes

variable {world world' : World} {verb : Verb} {text : String} {source source' : Source}
  {arguments arguments' : List String} {first second : List Choice}

theorem Task.run_eq_of_holds (task : Task) (bindings : List Binding)
    (holds : source.Holds world text) (holds' : source'.Holds world' text) :
    (task.command source bindings).run world = (task.command source' bindings).run world' := by
  cases task <;>
    simp only [command, Command.run, Source.run_of_holds holds, Source.run_of_holds holds']

/-- A command has the same status, output and first line of a syntax error on a text that stands
behind `--` and on one that a file holds, and for its options in any order that leaves the bindings
in theirs. So it has if the command line cannot be read. -/
theorem run_agrees (evaluates : verb ≠ .repl) (reordered : Reordered first second)
    (poses : Poses world text verb first arguments)
    (poses' : Poses world' text verb second arguments') :
    (run world arguments).Agrees (run world' arguments') := by
  by_cases complete : ∃ task, Complete verb first task
  · obtain ⟨task, complete⟩ := complete
    obtain ⟨source, holds, asks⟩ := poses.asks complete
    obtain ⟨source', holds', asks'⟩ := poses'.asks (complete.reordered reordered)
    have same : run world arguments = run world' arguments' := by
      rw [run, run, ofArguments_of_asks asks, ofArguments_of_asks asks']
      cases task.bindings.mapM readBinding with
      | error e => rfl
      | ok bindings => exact task.run_eq_of_holds bindings holds holds'
    exact same ▸ ⟨rfl, rfl, fun _ => rfl⟩
  · have incomplete : ¬∃ task, Complete verb second task := by
      rintro ⟨task, complete'⟩
      exact complete ⟨task, complete'.reordered reordered.symm⟩
    obtain ⟨e, refused⟩ := poses.exists_error evaluates complete
    obtain ⟨e', refused'⟩ := poses'.exists_error evaluates incomplete
    rw [run, run, refused, refused']
    exact ⟨rfl, rfl, fun status => by cases status⟩

/-- A file between two bindings of one variable against a text behind them, and options that the
command does not take against the same ones in another order. -/
theorem run_agrees_simplify :
    let world : World := ⟨fun path => if path = "a" then some "x +\ny".toUTF8 else none, .empty⟩
    (run world ["simplify", "--let", "x=1", "-fa", "--let=x=2"]).Agrees
      (run world ["simplify", "--let", "x=1", "--let=x=2", "--", "x +\ny"]) ∧
    run world ["simplify", "--let", "x=1", "-fa", "--let=x=2"] = .success "(2.0000 + y)\n" ∧
    (run world ["simplify", "--by", "x", "--let=x=1", "--", "x $"]).Agrees
      (run world ["simplify", "--let=x=1", "--by", "x", "--", "x $"]) := by
  intro world
  let one : Choice := ⟨.binding, "x=1", false, nofun⟩
  let two : Choice := ⟨.binding, "x=2", true, nofun⟩
  let attached : Choice := ⟨.binding, "x=1", true, nofun⟩
  let name : Choice := ⟨.name, "x", false, nofun⟩
  have file : Piece.Spells (.setting .file "a") ["-fa"] := .shortAttached (by simp) (by simp)
  have posed : Poses world "x +\ny" .simplify ([one] ++ [two])
      ["simplify", "--let", "x=1", "-fa", "--let=x=2"] := .file rfl (by simp) file rfl
  have posed' : Poses world "x +\ny" .simplify [one, two]
      ["simplify", "--let", "x=1", "--let=x=2", "--", "x +\ny"] := .text rfl
  have refused : Poses world "x $" .simplify [name, attached]
      ["simplify", "--by", "x", "--let=x=1", "--", "x $"] := .text rfl
  have refused' : Poses world "x $" .simplify [attached, name]
      ["simplify", "--let=x=1", "--by", "x", "--", "x $"] := .text rfl
  have evaluates : Verb.simplify ≠ .repl := nofun
  exact ⟨run_agrees evaluates ⟨.refl _, rfl⟩ posed posed', by decide +kernel,
    run_agrees evaluates ⟨.swap attached name [], rfl⟩ refused refused'⟩

end Outcomes

end SumProduct.CommandLine
