import SumProduct.Proofs.CommandLines

/-!
# Accepted command lines

Arguments that are read as a command on an expression are well-formed, and their bindings can be
read. What asks for an option is one of its written forms, so arguments that are read to their end
write some pieces; and pieces that were all added give a task what it needs, each thing once.

Results:
1. `exists_spelled_of_readArguments`: accepted arguments write pieces.
2. `collects_of_foldlM`: what pieces have given that were all added.
3. `ofArguments_eq_command_iff`: which arguments are read as a command.
-/

namespace SumProduct.CommandLine

/-! ## Forms of arguments -/

section Inversions

variable {text name : String} {value : Option String} {letter : Char} {attached : List Char}
  {setting : Setting}

theorem ofText_eq_separator (form : Argument.ofText text = .separator) : text = "--" := by
  unfold Argument.ofText at form
  split at form
  · next dashes => exact String.toList_injective dashes
  · split at form <;> cases form
  · cases form
  · cases form

theorem ofText_eq_operand (form : Argument.ofText text = .operand name) :
    name = text ∧ Bare text := by
  unfold Argument.ofText at form
  split at form
  · cases form
  · split at form <;> cases form
  · cases form
  · next noDashes noOption noLetter =>
    cases form
    refine ⟨rfl, fun dash => ?_⟩
    obtain ⟨rest, spelled⟩ := List.head?_eq_some_iff.mp dash
    cases rest with
    | nil => exact String.toList_injective spelled
    | cons letter attached => exact absurd spelled (noLetter letter attached)

theorem ofText_eq_long (form : Argument.ofText text = .long name value) :
    text = "--" ++ name ++ (value.map ("=" ++ ·)).getD "" := by
  unfold Argument.ofText at form
  split at form
  · cases form
  · next option _ spelled =>
    have parts : option.takeWhile (· ≠ '=') ++ option.dropWhile (· ≠ '=') = option :=
      List.takeWhile_append_dropWhile
    -- What is behind the name is nothing, or starts with the sign that ended it.
    have stops := List.head?_dropWhile_not (· ≠ '=') option
    generalize option.takeWhile (· ≠ '=') = front at form parts
    generalize option.dropWhile (· ≠ '=') = back at form parts stops
    apply String.toList_injective
    split at form
    · cases form
      simp [spelled, ← parts]
    · next sign given =>
      cases form
      have equals : sign = '=' := by simpa using stops
      simp [spelled, ← parts, equals]
  · cases form
  · cases form

theorem ofText_eq_short (form : Argument.ofText text = .short letter attached) :
    text.toList = '-' :: letter :: attached := by
  unfold Argument.ofText at form
  split at form
  · cases form
  · split at form <;> cases form
  · next spelled =>
    cases form
    exact spelled
  · cases form

/-- A setting is asked for by its flag, or by the short flag of a file. -/
theorem switch?_eq_setting {argument : Argument}
    (asks : argument.switch? = some (.setting setting value)) :
    (∃ name, argument = .long name value ∧ setting.flag = "--" ++ name) ∨
      setting = .file ∧ ∃ attached, argument = .short 'f' attached ∧
        (attached = [] ∧ value = none ∨ ∃ path, value = some path ∧
          (attached = '=' :: path.toList ∨
            attached = path.toList ∧ path ≠ "" ∧ path.toList.head? ≠ some '=')) := by
  unfold Argument.switch? at asks
  split at asks
  · cases asks
  · cases asks
    exact .inl ⟨"file", rfl, rfl⟩
  · cases asks
    exact .inl ⟨"by", rfl, rfl⟩
  · cases asks
    exact .inl ⟨"let", rfl, rfl⟩
  · cases asks
  · cases asks
    exact .inr ⟨rfl, [], rfl, .inl ⟨rfl, rfl⟩⟩
  · cases asks
    exact .inr ⟨rfl, _, rfl, .inr ⟨_, rfl, .inl (by simp)⟩⟩
  · next path nonempty unequal =>
    cases asks
    refine .inr ⟨rfl, _, rfl, .inr ⟨_, rfl, .inr ⟨String.toList_ofList.symm, ?_, ?_⟩⟩⟩
    · exact mt String.ofList_eq_empty_iff.mp nonempty
    · rw [String.toList_ofList]
      intro equals
      obtain ⟨rest, spelled⟩ := List.head?_eq_some_iff.mp equals
      exact unequal rest spelled
  · cases asks

/-- What asks for a setting with its value writes it. -/
theorem spells_of_switch? {value : String}
    (asks : (Argument.ofText text).switch? = some (.setting setting (some value))) :
    Piece.Spells (.setting setting value) [text] := by
  rcases switch?_eq_setting asks with ⟨name, form, flag⟩ | ⟨rfl, attached, form, given⟩
  · have written : text = setting.flag ++ "=" ++ value := by
      rw [ofText_eq_long form, flag, Option.map_some, Option.getD_some, ← String.append_assoc]
    exact written ▸ .attached
  · have written := ofText_eq_short form
    rcases given with ⟨-, ⟨⟩⟩ | ⟨path, ⟨⟩, rfl | ⟨rfl, nonempty, unequal⟩⟩
    · have written : text = "-f=" ++ value := String.toList_injective (by simp [written])
      exact written ▸ .shortEquals
    · have written : text = "-f" ++ value := String.toList_injective (by simp [written])
      exact written ▸ .shortAttached nonempty unequal

/-- What asks for a setting without a value writes it together with the next argument. -/
theorem spells_of_switch?_none {value : String}
    (asks : (Argument.ofText text).switch? = some (.setting setting none)) (bare : Bare value) :
    Piece.Spells (.setting setting value) [text, value] := by
  rcases switch?_eq_setting asks with ⟨name, form, flag⟩ | ⟨rfl, attached, form, given⟩
  · have written : text = setting.flag := by
      rw [ofText_eq_long form, flag, Option.map_none, Option.getD_none, String.append_empty]
    exact written ▸ .separate bare
  · have written := ofText_eq_short form
    rcases given with ⟨rfl, -⟩ | ⟨path, ⟨⟩, -⟩
    have written : text = "-f" := String.toList_injective (by simp [written])
    exact written ▸ .short bare

end Inversions

/-! ## Accepted arguments -/

section Accepted

variable {verb : Verb} {given given' : Given} {command : Command} {pieces : List Piece}
  {arguments : List String}

theorem Verb.TakesAll.nil : verb.TakesAll [] := by
  intro setting value mem
  cases mem

theorem Verb.TakesAll.operand {text : String} (takes : verb.TakesAll pieces) :
    verb.TakesAll (.operand text :: pieces) := by
  intro setting value mem
  rcases List.mem_cons.mp mem with ⟨⟨⟩⟩ | mem
  exact takes setting value mem

theorem Verb.TakesAll.setting {setting : Setting} {value : String}
    (taken : verb.takes setting = true) (takes : verb.TakesAll pieces) :
    verb.TakesAll (.setting setting value :: pieces) := by
  intro other written mem
  rcases List.mem_cons.mp mem with ⟨⟨⟩⟩ | mem
  · exact taken
  · exact takes other written mem

/-- By induction along the reading: arguments that are read as a command write pieces that it takes.
-/
theorem exists_spelled_of_readArguments
    (read : readArguments verb given arguments = .ok (.command command)) :
    ∃ pieces, Spelled pieces arguments ∧ verb.TakesAll pieces := by
  fun_induction readArguments verb given arguments with
  | case1 given => exact ⟨[], .nil, .nil⟩
  | case2 given argument rest form =>
    obtain rfl := ofText_eq_separator form
    exact ⟨_, .separated rest, fun setting value mem => by simp at mem⟩
  | case3 given argument rest text form ih =>
    obtain ⟨rfl, bare⟩ := ofText_eq_operand form
    obtain ⟨given, -, read⟩ := bind_eq_ok.mp read
    obtain ⟨pieces, spelled, takes⟩ := ih given read
    exact ⟨_, .cons (.operand bare) spelled, takes.operand⟩
  -- Help and usage errors are no commands.
  | case4 | case5 | case6 | case8 | case10 => cases read
  | case7 given argument setting takes value rest _ _ asks ih =>
    obtain ⟨given, -, read⟩ := bind_eq_ok.mp read
    obtain ⟨pieces, spelled, others⟩ := ih given read
    exact ⟨_, .cons (spells_of_switch? asks) spelled, others.setting (by simpa using takes)⟩
  | case9 given argument setting takes value rest _ form _ _ asks ih =>
    obtain ⟨rfl, bare⟩ := ofText_eq_operand form
    obtain ⟨given, -, read⟩ := bind_eq_ok.mp read
    obtain ⟨pieces, spelled, others⟩ := ih given read
    exact ⟨_, .cons (spells_of_switch?_none asks bare) spelled,
      others.setting (by simpa using takes)⟩

/-- What some pieces have added to what had been given. -/
structure Collects (given : Given) (pieces : List Piece) (given' : Given) : Prop where
  expression : given'.expression.toList = given.expression.toList ++ operands pieces
  file : given'.file.toList = given.file.toList ++ values .file pieces
  name : given'.name.toList = given.name.toList ++ values .name pieces
  nonempty : "" ∉ values .file pieces
  bindings : ∃ bindings, Read (values .binding pieces) bindings ∧
    given'.bindings = given.bindings ++ bindings

@[simp] theorem operands_append (pieces more : List Piece) :
    operands (pieces ++ more) = operands pieces ++ operands more :=
  List.filterMap_append

@[simp] theorem values_append (setting : Setting) (pieces more : List Piece) :
    values setting (pieces ++ more) = values setting pieces ++ values setting more :=
  List.filterMap_append

theorem Collects.trans {next : Given} {more : List Piece} (first : Collects given pieces next)
    (second : Collects next more given') : Collects given (pieces ++ more) given' := by
  obtain ⟨expression₁, file₁, name₁, nonempty₁, bindings₁, read₁, collected₁⟩ := first
  obtain ⟨expression₂, file₂, name₂, nonempty₂, bindings₂, read₂, collected₂⟩ := second
  refine ⟨?_, ?_, ?_, ?_, bindings₁ ++ bindings₂, ?_, ?_⟩
  · simp [expression₂, expression₁]
  · simp [file₂, file₁]
  · simp [name₂, name₁]
  · simp [nonempty₁, nonempty₂]
  · rw [Read, values_append, List.map_append, List.map_append, read₁, read₂]
  · simp [collected₂, collected₁]

/-- A piece that is added finds its place free, and a binding is one. -/
theorem collects_of_add {piece : Piece} (added : given.add verb piece = .ok given') :
    Collects given [piece] given' := by
  cases piece with
  | operand text =>
    rw [Given.add, Given.addOperand] at added
    split at added
    · cases added
    · next free =>
      cases added
      have none : given.expression = none := by simpa using (not_or.mp free).2
      constructor <;> simp [none, operands, values, Piece.operand?, Piece.value?, Read]
  | setting setting value =>
    cases setting with
    | file =>
      rw [Given.add, Given.addSetting] at added
      split at added
      · cases added
      split at added
      · cases added
      · next free path =>
        cases added
        have none : given.file = none := by simpa using free
        constructor <;>
          simp [none, operands, values, Piece.operand?, Piece.value?, Read, Ne.symm path]
    | name =>
      rw [Given.add, Given.addSetting] at added
      split at added
      · cases added
      · next free =>
        cases added
        have none : given.name = none := by simpa using free
        constructor <;> simp [none, operands, values, Piece.operand?, Piece.value?, Read]
    | binding =>
      rw [Given.add, Given.addSetting] at added
      split at added
      · next b spelled =>
        cases added
        constructor <;> simp [operands, values, Piece.operand?, Piece.value?, Read, spelled]
      · cases added

/-- By induction on the pieces. -/
theorem collects_of_foldlM (added : pieces.foldlM (Given.add verb) given = .ok given') :
    Collects given pieces given' := by
  induction pieces generalizing given with
  | nil =>
    cases added
    exact ⟨by simp [operands], by simp [values], by simp [values], by simp [values], [], rfl,
      by simp⟩
  | cons piece pieces ih =>
    rw [List.foldlM_cons] at added
    obtain ⟨next, first, added⟩ := bind_eq_ok.mp added
    exact (collects_of_add first).trans (ih added)

theorem source_eq_ok {source : Source} (found : given.source = .ok source) :
    given.expression.toList = source.operands ∧ given.file.toList = source.paths := by
  unfold Given.source at found
  split at found
  · next expression file =>
    cases found
    rw [expression, file]
    exact ⟨rfl, rfl⟩
  · next expression file =>
    cases found
    rw [expression, file]
    exact ⟨rfl, rfl⟩
  · cases found
  · cases found

theorem Verb.TakesAll.values_eq_nil {setting : Setting} (takes : verb.TakesAll pieces)
    (not_taken : verb.takes setting = false) : values setting pieces = [] := by
  refine List.eq_nil_iff_forall_not_mem.mpr fun value mem => ?_
  rw [takes setting value (mem_values.mp mem)] at not_taken
  cases not_taken

/-- What was collected for a task from one place is what it needs. -/
theorem Collects.needs {task : Task} {source : Source} (collected : Collects .nothing pieces given)
    (found : given.source = .ok source) (names : values .name pieces = task.names)
    (bindings : values .binding pieces = task.bindings) : task.Needs source pieces := by
  obtain ⟨expression, file⟩ := source_eq_ok found
  have paths : values .file pieces = source.paths := by
    rw [← file, collected.file]
    rfl
  refine ⟨?_, paths, paths ▸ collected.nonempty, names, bindings⟩
  rw [← expression, collected.expression]
  rfl

/-- A command that is complete is a task. -/
theorem exists_task_of_command (takes : verb.TakesAll pieces)
    (collected : Collects .nothing pieces given) (complete : given.command verb = .ok command)
    (other : command ≠ .repl) :
    ∃ (task : Task) (source : Source) (bindings : List Binding), task.verb = verb ∧
      task.Needs source pieces ∧ Read task.bindings bindings ∧
      command = task.command source bindings := by
  obtain ⟨bindings, read, all⟩ := collected.bindings
  have single : given.name.toList = values .name pieces := collected.name
  cases verb with
  | tokenize =>
    obtain ⟨source, found, ⟨⟩⟩ := bind_eq_ok.mp complete
    exact ⟨.tokenize, source, [], rfl,
      collected.needs found (takes.values_eq_nil rfl) (takes.values_eq_nil rfl), rfl, rfl⟩
  | parse =>
    obtain ⟨source, found, ⟨⟩⟩ := bind_eq_ok.mp complete
    exact ⟨.parse, source, [], rfl,
      collected.needs found (takes.values_eq_nil rfl) (takes.values_eq_nil rfl), rfl, rfl⟩
  | differentiate =>
    obtain ⟨source, found, complete⟩ := bind_eq_ok.mp complete
    cases name : given.name with
    | none =>
      rw [name] at complete
      cases complete
    | some x =>
      rw [name] at complete single
      cases complete
      exact ⟨.differentiate x, source, [], rfl,
        collected.needs found single.symm (takes.values_eq_nil rfl), rfl, rfl⟩
  | simplify =>
    obtain ⟨source, found, ⟨⟩⟩ := bind_eq_ok.mp complete
    exact ⟨.simplify (values .binding pieces), source, bindings, rfl,
      collected.needs found (takes.values_eq_nil rfl) rfl, read, by rw [all]; rfl⟩
  | repl =>
    cases complete
    exact absurd rfl other

theorem readHelp_ne (arguments : List String) (command : Command) :
    readHelp arguments ≠ .ok (.command command) := by
  unfold readHelp
  split
  · nofun
  · nofun
  · split <;> nofun
  · nofun

/-- The first argument of a command is its name. -/
theorem exists_verb_of_ofArguments
    (accepted : Invocation.ofArguments arguments = .ok (.command command)) :
    ∃ name verb rest, arguments = name :: rest ∧ Verb.ofName? name = some verb ∧
      readArguments verb .nothing rest = .ok (.command command) := by
  unfold Invocation.ofArguments at accepted
  split at accepted
  · cases accepted
  next argument rest =>
    split at accepted
    · next name form =>
      obtain ⟨rfl, -⟩ := ofText_eq_operand form
      split at accepted
      · exact absurd accepted (readHelp_ne rest command)
      split at accepted
      · next verb named => exact ⟨name, verb, rest, rfl, named, accepted⟩
      · cases accepted
    all_goals cases accepted

/-- The arguments that are read as a command on an expression are exactly the well-formed ones with
bindings that can be read. -/
theorem ofArguments_eq_command_iff (other : command ≠ .repl) :
    Invocation.ofArguments arguments = .ok (.command command) ↔
      ∃ (task : Task) (source : Source) (bindings : List Binding), task.Asks source arguments ∧
        Read task.bindings bindings ∧ command = task.command source bindings := by
  constructor
  · intro accepted
    obtain ⟨name, verb, rest, rfl, named, read⟩ := exists_verb_of_ofArguments accepted
    obtain ⟨pieces, spelled, takes⟩ := exists_spelled_of_readArguments read
    rw [readArguments_spelled spelled takes] at read
    obtain ⟨given, added, read⟩ := bind_eq_ok.mp read
    obtain ⟨_, complete, ⟨⟩⟩ := bind_eq_ok.mp read
    obtain ⟨task, source, bindings, rfl, needs, all, same⟩ :=
      exists_task_of_command takes (collects_of_foldlM added) complete other
    exact ⟨task, source, bindings, .intro named spelled needs, all, same⟩
  · rintro ⟨task, source, bindings, asks, read, rfl⟩
    rw [ofArguments_of_asks asks, (mapM_eq_ok_iff_read readBinding_eq_ok_iff).mpr read]
    rfl

end Accepted

end SumProduct.CommandLine
