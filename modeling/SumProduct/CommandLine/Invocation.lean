import SumProduct.Environment

/-!
# Reading command lines

A command line names a command and gives its options and at most one operand, in any order. An
argument that starts with `-` is an option, unless it is `-` alone or stands behind `--`. The
value of an option is attached to it or is the next argument, which then must not look like an
option.

Arguments are read from left to right, and the first fault ends the reading. So does a question
for help or for the version. What is missing is only found at the end.
-/

namespace SumProduct.CommandLine

/-- Where a command takes its expression from. -/
inductive Source where
  | text (expression : String)
  | file (path : String)
deriving DecidableEq

inductive Command where
  | tokenize (source : Source)
  | parse (source : Source)
  | differentiate (source : Source) (name : String)
  | simplify (source : Source) (bindings : List Binding)
  | repl
deriving DecidableEq

inductive Invocation where
  | help
  | version
  | command (command : Command)
deriving DecidableEq

/-- The options that take a value. -/
inductive Setting where
  | file
  | name
  | binding
deriving DecidableEq

def Setting.flag : Setting → String
  | .file => "--file"
  | .name => "--by"
  | .binding => "--let"

/-- Why a command line cannot be read. -/
inductive UsageError where
  | noCommand
  | unknownCommand (name : String)
  | unexpectedArgument (argument : String)
  | missingValue (setting : Setting)
  | repeatedOption (setting : Setting)
  | emptyPath
  | malformedBinding (text : String)
  | noExpression
  | twoExpressions
  | noVariable
deriving DecidableEq

def UsageError.message : UsageError → String
  | .noCommand => "a command is required"
  | .unknownCommand name => s!"unknown command '{name}'"
  | .unexpectedArgument argument => s!"unexpected argument '{argument}'"
  | .missingValue setting => s!"a value is required for '{setting.flag}'"
  | .repeatedOption setting => s!"'{setting.flag}' cannot be used more than once"
  | .emptyPath => "the path of a file must not be empty"
  | .malformedBinding text => s!"malformed binding '{text}', write name=value"
  | .noExpression => "an expression or '--file' is required"
  | .twoExpressions => "an expression and '--file' cannot be used together"
  | .noVariable => "'--by' is required"

/-- The form of an argument. -/
inductive Argument where
  | operand (text : String)
  /-- The `--` that makes operands of all that follows. -/
  | separator
  | long (name : String) (value : Option String)
  | short (letter : Char) (attached : List Char)
deriving DecidableEq

def Argument.ofText (text : String) : Argument :=
  match text.toList with
  | ['-', '-'] => .separator
  | '-' :: '-' :: option =>
    let name := String.ofList (option.takeWhile (· ≠ '='))
    match option.dropWhile (· ≠ '=') with
    | [] => .long name none
    | _ :: value => .long name (some (String.ofList value))
  | '-' :: letter :: attached => .short letter attached
  | _ => .operand text

/-- What an option of a command asks for. -/
inductive Switch where
  | help
  | setting (setting : Setting) (value : Option String)
deriving DecidableEq

inductive Verb where
  | tokenize
  | parse
  | differentiate
  | simplify
  | repl
deriving DecidableEq

namespace Verb

def ofName? : String → Option Verb
  | "tokenize" => some .tokenize
  | "parse" => some .parse
  | "differentiate" => some .differentiate
  | "simplify" => some .simplify
  | "repl" => some .repl
  | _ => none

/-- Whether a command takes a setting. -/
def takes : Verb → Setting → Bool
  | .repl, _ => false
  | _, .file => true
  | verb, .name => verb = .differentiate
  | verb, .binding => verb = .simplify

end Verb

/-- What an argument asks for that has the form of an option. -/
def Argument.switch? : Argument → Option Switch
  | .long "help" none => some .help
  | .long "file" value => some (.setting .file value)
  | .long "by" value => some (.setting .name value)
  | .long "let" value => some (.setting .binding value)
  | .short 'h' _ => some .help
  | .short 'f' [] => some (.setting .file none)
  | .short 'f' ('=' :: value) => some (.setting .file (some (String.ofList value)))
  | .short 'f' value => some (.setting .file (some (String.ofList value)))
  | _ => none

/-- What the arguments of a command have given so far. -/
structure Given where
  expression : Option String
  file : Option String
  name : Option String
  bindings : List Binding
deriving DecidableEq

namespace Given

def nothing : Given := ⟨none, none, none, []⟩

def addOperand (given : Given) (verb : Verb) (text : String) : Except UsageError Given :=
  if verb = .repl ∨ given.expression.isSome then .error (.unexpectedArgument text)
  else .ok { given with expression := some text }

def addSetting (given : Given) (setting : Setting) (value : String) : Except UsageError Given :=
  match setting with
  | .file =>
    if given.file.isSome then .error (.repeatedOption .file)
    else if value = "" then .error .emptyPath
    else .ok { given with file := some value }
  | .name =>
    if given.name.isSome then .error (.repeatedOption .name)
    else .ok { given with name := some value }
  | .binding =>
    match Binding.ofText? value with
    | some b => .ok { given with bindings := given.bindings ++ [b] }
    | none => .error (.malformedBinding value)

def addOperands (given : Given) (verb : Verb) (texts : List String) : Except UsageError Given :=
  texts.foldlM (fun given text => given.addOperand verb text) given

/-- The one place that the expression comes from. -/
def source (given : Given) : Except UsageError Source :=
  match given.expression, given.file with
  | some text, none => .ok (.text text)
  | none, some path => .ok (.file path)
  | none, none => .error .noExpression
  | some _, some _ => .error .twoExpressions

/-- The command, if nothing is missing. -/
def command (given : Given) : Verb → Except UsageError Command
  | .tokenize => return .tokenize (← given.source)
  | .parse => return .parse (← given.source)
  | .simplify => return .simplify (← given.source) given.bindings
  | .repl => .ok .repl
  | .differentiate => do
    let source ← given.source
    match given.name with
    | some name => return .differentiate source name
    | none => throw .noVariable

end Given

/-- The arguments behind the name of a command. -/
def readArguments (verb : Verb) (given : Given) : List String → Except UsageError Invocation
  | [] => return .command (← given.command verb)
  | argument :: rest =>
    match Argument.ofText argument with
    | .separator => do
      let given ← given.addOperands verb rest
      return .command (← given.command verb)
    | .operand text => do
      let given ← given.addOperand verb text
      readArguments verb given rest
    | option =>
      match option.switch? with
      | none => throw (.unexpectedArgument argument)
      | some .help => return .help
      | some (.setting setting value) =>
        if !verb.takes setting then throw (.unexpectedArgument argument)
        else match value, rest with
          | some value, rest => do
            let given ← given.addSetting setting value
            readArguments verb given rest
          | none, [] => throw (.missingValue setting)
          | none, value :: rest =>
            match Argument.ofText value with
            | .operand value => do
              let given ← given.addSetting setting value
              readArguments verb given rest
            | _ => throw (.missingValue setting)

/-- The command that help is asked for: none, or one that exists. -/
def readHelp : List String → Except UsageError Invocation
  | [] | ["help"] => return .help
  | [name] => if (Verb.ofName? name).isSome then return .help else throw (.unknownCommand name)
  | _ :: extra :: _ => throw (.unexpectedArgument extra)

def Invocation.ofArguments : List String → Except UsageError Invocation
  | [] => throw .noCommand
  | argument :: rest =>
    match Argument.ofText argument with
    | .operand name =>
      if name = "help" then readHelp rest
      else match Verb.ofName? name with
        | some verb => readArguments verb .nothing rest
        | none => throw (.unknownCommand name)
    | .long "help" none | .short 'h' _ => return .help
    | .long "version" none | .short 'V' _ => return .version
    | _ => throw (.unexpectedArgument argument)

end SumProduct.CommandLine
