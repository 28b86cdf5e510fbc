import SumProduct.Decimal.Basic
import SumProduct.Text.WhiteSpace
import SumProduct.Value

/-!
# Environments

An environment gives numbers to finitely many variables. It holds each variable once, with the
value it was given last.

A binding is written `name=value`, with blanks allowed around both parts. Reading one only looks at
this form: whether the name and the value are fit is found out when they are defined in an
environment.
-/

namespace SumProduct

structure Environment where
  bindings : List (Variable × Number)
  distinct : (bindings.map Prod.fst).Nodup

namespace Environment

def empty : Environment := ⟨[], List.nodup_nil⟩

/-- How many variables have a value. -/
def size (env : Environment) : Nat := env.bindings.length

def isEmpty (env : Environment) : Bool := env.bindings.isEmpty

/-- The value of a variable. -/
def find? (env : Environment) (x : Variable) : Option Number := env.bindings.lookup x

/-- The value of the variable with a name, which may be any string. -/
def get? (env : Environment) (name : String) : Option Number :=
  (env.bindings.find? (·.1.name = name)).map Prod.snd

/-- Gives a variable a value, in place of the one it had. -/
def insert (env : Environment) (x : Variable) (v : Number) : Environment where
  bindings := (x, v) :: env.bindings.filter (·.1 ≠ x)
  distinct := by
    have kept := (List.filter_sublist (p := (·.1 ≠ x)) (l := env.bindings)).map Prod.fst
    simpa using kept.nodup env.distinct

@[simp] theorem find?_insert (env : Environment) (x y : Variable) (v : Number) :
    (env.insert x v).find? y = if y = x then some v else env.find? y := by
  have kept (bindings : List (Variable × Number)) (other : y ≠ x) :
      (bindings.filter (·.1 ≠ x)).lookup y = bindings.lookup y := by
    induction bindings with
    | nil => rfl
    | cons first rest ih =>
      by_cases same : first.1 = x
      · have differs : (y == first.1) = false := by simpa [same] using other
        rw [List.filter_cons_of_neg (by simpa using same), ih, List.lookup_cons, differs]
      · rw [List.filter_cons_of_pos (by simpa using same), List.lookup_cons, List.lookup_cons, ih]
  unfold find? insert
  rw [List.lookup_cons]
  by_cases same : y = x
  · simp [same]
  · have differs : (y == x) = false := by simpa using same
    rw [differs, if_neg same]
    exact kept env.bindings same

/-- Gives a name a value, if they are fit for it. An unfit name is told before an unfit value. -/
def define (env : Environment) (name : String) (value : Double) :
    Except InvalidValue Environment := do
  let x ← Variable.ofName name
  let v ← Number.ofDouble value
  return env.insert x v

/-- Defines all pairs in order. The first unfit one is the error. -/
def ofList (pairs : List (String × Double)) : Except InvalidValue Environment :=
  pairs.foldlM (fun env (name, value) => env.define name value) empty

/-- Environments are equal if they give the same variables the same values, in whatever order. -/
instance : BEq Environment where
  beq a b := a.size = b.size && a.bindings.all fun (x, v) => b.find? x = some v

end Environment

/-! ## Bindings -/

structure Binding where
  name : String
  value : Double
deriving DecidableEq

namespace Binding

/-- The binding that a text spells. The first `=` ends the name. -/
def ofText? (text : String) : Option Binding :=
  let name := text.toList.takeWhile (· ≠ '=')
  match text.toList.dropWhile (· ≠ '=') with
  | [] => none
  | _ :: value =>
    (Double.ofText? (Text.trim value)).map fun v => ⟨String.ofList (Text.trim name), v⟩

end Binding

/-- Defines all bindings in order. The first unfit one is the error. -/
def Environment.ofBindings (bindings : List Binding) : Except InvalidValue Environment :=
  Environment.ofList (bindings.map fun b => (b.name, b.value))

end SumProduct
