import SumProduct.Environment
import SumProduct.Expression.Evaluation
import SumProduct.Expression.Parser
import SumProduct.Expression.Basic

/-!
# Requests by text

A request takes texts and gives the canonical text of its result. When several of its texts are at
fault, the order of the steps decides which one is told: all bindings are read before the first is
defined, and `derivative` reads the expression before it looks at the variable.
-/

namespace SumProduct

/-- Why a request fails. -/
inductive RequestError where
  | expression (cause : SyntaxError)
  | value (cause : InvalidValue)
  | malformedBinding (text : String)
deriving DecidableEq

def RequestError.diagnostic : RequestError → Diagnostic
  | .expression cause => cause.diagnostic
  | .value cause => cause.diagnostic
  | .malformedBinding text =>
    { code := "symexpr::command::binding"
      message := s!"malformed binding `{text}`"
      help := some "write bindings as name=value, for example x=2.5" }

namespace Request

def expression (text : String) : Except RequestError Expression :=
  (Expression.parse text).mapError .expression

def binding (text : String) : Except RequestError Binding :=
  match Binding.ofText? text with
  | some b => .ok b
  | none => .error (.malformedBinding text)

/-- The environment of some binding texts. -/
def environment (texts : List String) : Except RequestError Environment := do
  let bindings ← texts.mapM binding
  (Environment.ofBindings bindings).mapError .value

/-- The derivative of the expression `text` by the variable `name`. -/
def derivative (text name : String) : Except RequestError String := do
  let e ← expression text
  let x ← (Variable.ofName name).mapError .value
  return (e.derivative x.name).text

/-- The expression `text`, simplified. -/
def simplified (text : String) (env : Environment) : Except RequestError String := do
  let e ← expression text
  return (e.simplify env).text

end Request

end SumProduct
