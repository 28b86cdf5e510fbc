import SumProduct.CommandLine.Invocation
import SumProduct.Session.Transcript

/-!
# Running command lines

A run sees the world as a function from paths to the bytes of files, and the bytes of standard
input. Its outcome is an exit status and two texts. The status is 65 for a syntax error, 2 for a
command line that cannot be read, and 1 for all other failures.
-/

namespace SumProduct.CommandLine

structure World where
  file? : String → Option ByteArray
  input : ByteArray

structure Outcome where
  status : Nat
  output : String
  errors : String
deriving DecidableEq

namespace Outcome

def success (output : String) : Outcome := ⟨0, output, ""⟩

/-- The message and advice of a failure behind some words. -/
def report (opening : String) (d : Diagnostic) : String :=
  opening ++ d.message ++ "\n" ++ (d.help.map fun help => "help: " ++ help ++ "\n").getD ""

/-- A syntax error in `text`, after `output` was written. -/
def syntaxError (text output : String) (e : SyntaxError) : Outcome :=
  ⟨65, output, report s!"[line {e.line text.toList}] Error: " e.diagnostic⟩

/-- A failed request about `text`. -/
def failure (text : String) : RequestError → Outcome
  | .expression e => syntaxError text "" e
  | e => ⟨1, "", report "Error: " e.diagnostic⟩

/-- The line of a request's result, or its failure. -/
def ofResult (text : String) : Except RequestError String → Outcome
  | .ok result => success (result ++ "\n")
  | .error e => failure text e

end Outcome

/-- The lines of the tokens before the first error, and that error. -/
def listing : List Item → List String × Option SyntaxError
  | [] => ([], none)
  | .error e :: _ => ([], some e)
  | .ok token :: rest =>
    let (lines, e) := listing rest
    ((token.display ++ "\n") :: lines, e)

/-- The text of a source, if it can be had. -/
def Source.load? (source : Source) (world : World) : Option String :=
  match source with
  | .text expression => some expression
  | .file path => do
    let bytes ← world.file? path
    String.fromUTF8? bytes

/-- Runs something on the text of a source. -/
def Source.run (source : Source) (world : World) (action : String → Outcome) : Outcome :=
  match source.load? world with
  | some content => action content
  | none => ⟨1, "", "Error: the file cannot be read\n"⟩

/-- Lists the tokens of a text, and the end of the text if no error comes before it. -/
def listTokens (text : String) : Outcome :=
  match listing (Token.scan text) with
  | (lines, none) => .success (String.join lines ++ "EOF  null\n")
  | (lines, some e) => .syntaxError text (String.join lines) e

/-- A request for the simplified expression, with its bindings already read. -/
def simplifyWith (text : String) (bindings : List Binding) : Except RequestError String := do
  let env ← (Environment.ofBindings bindings).mapError .value
  Request.simplified text env

def unreadableInput : String := "Error: reading from standard input failed\n"

/-- A whole session over standard input. -/
def runSession (input : ByteArray) : Outcome :=
  let transcript := Transcript.ofBytes input
  if transcript.readable then .success transcript.output
  else ⟨1, transcript.output, unreadableInput⟩

def Command.run (world : World) : Command → Outcome
  | .tokenize source => source.run world listTokens
  | .parse source => source.run world fun text =>
    .ofResult text ((Request.expression text).map Expression.text)
  | .differentiate source name => source.run world fun text =>
    .ofResult text (Request.derivative text name)
  | .simplify source bindings => source.run world fun text =>
    .ofResult text (simplifyWith text bindings)
  | .repl => runSession world.input

def usage : String :=
  "Parse, differentiate and simplify polynomial expressions\n\n" ++
  "Usage: symexpr <COMMAND>\n\n" ++
  "Commands:\n" ++
  "  tokenize       Print the tokens of an expression\n" ++
  "  parse          Print an expression in canonical form\n" ++
  "  differentiate  Print the derivative of an expression\n" ++
  "  simplify       Substitute values for variables and fold constants\n" ++
  "  repl           Read expressions and `!` commands from standard input\n" ++
  "  help           Print this message\n\n" ++
  "Options:\n" ++
  "  -f, --file <PATH>       Read the expression from a file instead\n" ++
  "      --by <VAR>          Variable to differentiate by\n" ++
  "      --let <NAME=VALUE>  Binding used for substitution, may be repeated\n" ++
  "  -h, --help              Print help\n" ++
  "  -V, --version           Print version\n"

def run (world : World) (arguments : List String) : Outcome :=
  match Invocation.ofArguments arguments with
  | .error e => ⟨2, "", "error: " ++ e.message ++ "\n\n" ++ usage⟩
  | .ok .help => .success usage
  | .ok .version => .success "symexpr 0.1.0\n"
  | .ok (.command command) => command.run world

end SumProduct.CommandLine
