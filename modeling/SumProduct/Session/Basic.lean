import SumProduct.Request

/-!
# Sessions

A line is an expression, or a command if it starts with `!`. Blanks at its two ends do not count.
The commands are `!d/d` with the name of a variable behind it, `!simplify` with bindings behind
it, and `!quit`.

A session remembers one expression. A line with an expression replaces it, and so does its
derivative; simplifying only shows. A line that fails changes nothing.
-/

namespace SumProduct

/-! ## Lines -/

inductive Line where
  | blank
  | expression (text : String)
  | derivative (name : String)
  | simplify (bindings : List String)
  | quit
  | unknown (text : String)
deriving DecidableEq

namespace Line

/-- The command behind the `!`, if it is one. -/
def command? (text : List Char) : Option Line :=
  if text = "quit".toList then some .quit
  else match Text.after? "d/d" text with
    | some name => some (.derivative (String.ofList (Text.trim name)))
    | none =>
      match Text.after? "simplify" text with
      | some rest =>
        if rest.head?.all Text.isBlank then some (.simplify ((Text.words rest).map String.ofList))
        else none
      | none => none

def ofText (line : String) : Line :=
  match Text.trim line.toList with
  | [] => .blank
  | '!' :: command => (command? command).getD (.unknown (String.ofList ('!' :: command)))
  | text => .expression (String.ofList text)

end Line

/-! ## What a line does -/

structure Session where
  current : Option Expression
deriving DecidableEq

/-- What a session answers to a line. -/
inductive Reply where
  | show (text : String)
  | nothing
  | quit
deriving DecidableEq

/-- Why a line fails. -/
inductive SessionError where
  | request (cause : RequestError)
  | noExpression
  | unknownCommand (line : String)
deriving DecidableEq

def SessionError.diagnostic : SessionError → Diagnostic
  | .request cause => cause.diagnostic
  | .noExpression =>
    { code := "symexpr::repl::no_expression"
      message := "no expression entered yet"
      help := some "type an expression first" }
  | .unknownCommand line =>
    { code := "symexpr::repl::unknown_command"
      message := s!"unknown command `{line}`"
      help := some "commands are `!d/d<var>`, `!simplify name=value ...` and `!quit`" }

namespace Session

/-- A session before its first line. -/
def start : Session := ⟨none⟩

/-- The expression that a command is about. -/
def expression (s : Session) : Except SessionError Expression :=
  match s.current with
  | some e => .ok e
  | none => .error .noExpression

/-- The session that remembers `e`, and `e` as the answer. -/
def remember (e : Expression) : Session × Reply := (⟨some e⟩, .show e.text)

/-- What a line does. The arguments of a command are looked at before the expression it is about.
-/
def step (s : Session) : Line → Except SessionError (Session × Reply)
  | .blank => .ok (s, .nothing)
  | .quit => .ok (s, .quit)
  | .unknown line => .error (.unknownCommand line)
  | .expression text => do
    let e ← (Request.expression text).mapError .request
    return remember e
  | .derivative name => do
    let x ← (Variable.ofName name).mapError fun cause => .request (.value cause)
    let e ← s.expression
    return remember (e.derivative x.name)
  | .simplify bindings => do
    let env ← (Request.environment bindings).mapError .request
    let e ← s.expression
    return (s, .show (e.simplify env).text)

/-- The answer to a line, and the session after it. -/
def handle (s : Session) (line : String) : Session × Except SessionError Reply :=
  match s.step (Line.ofText line) with
  | .ok (after, reply) => (after, .ok reply)
  | .error e => (s, .error e)

end Session

end SumProduct
