import SumProduct.Decimal.Layout

/-!
# Values of the leaves

A leaf of an expression is a number or a variable. Doubles and strings come from outside and may
be unfit for either: a number has to be finite and not negative, and the name of a variable is a
nonempty word of the letters `a-z` and `A-Z`.

Here as everywhere a failure is a value that says what went wrong, and a diagnostic is how it is
told.
-/

namespace SumProduct

/-- A message, a code that names the kind of failure, and perhaps a piece of advice. -/
structure Diagnostic where
  code : String
  message : String
  help : Option String
deriving DecidableEq

/-- Why a double is no number, or a string no variable. -/
inductive InvalidValue where
  | negative (value : Double)
  | notFinite (value : Double)
  | emptyName
  | notALetter (name : String) (character : Char)
deriving DecidableEq

/-- The number of a double. Minus zero is the number zero. -/
def Number.ofDouble : Double → Except InvalidValue Number
  | .finite negative magnitude =>
    if negative ∧ magnitude ≠ .zero then .error (.negative (.finite negative magnitude))
    else .ok magnitude
  | value => .error (.notFinite value)

@[simp] theorem Number.ofDouble_toDouble (v : Number) : ofDouble v.toDouble = .ok v := by
  simp [toDouble, ofDouble]

/-- Nothing is lost when a double without a minus sign is taken as a number. -/
theorem Number.eq_toDouble_of_ofDouble {d : Double} {v : Number} (positive : d.negative = false)
    (accepted : ofDouble d = .ok v) : d = v.toDouble := by
  cases d with
  | finite negative magnitude =>
    cases negative with
    | false =>
      rw [ofDouble, if_neg (by simp)] at accepted
      cases accepted
      rfl
    | true => cases positive
  | infinite negative => cases accepted
  | nan => cases accepted

/-- A nonempty word of the letters `a-z` and `A-Z`. -/
structure Variable where
  name : String
  ne_nil : name.toList ≠ []
  letters : ∀ c ∈ name.toList, c.isAlpha
deriving DecidableEq

namespace Variable

instance : Hashable Variable where
  hash x := hash x.name

@[ext]
theorem ext {x y : Variable} (same : x.name = y.name) : x = y := by
  cases x
  cases y
  cases same
  rfl

/-- The variable of a name. The error of a name with several offending characters has the first.
-/
def ofName (name : String) : Except InvalidValue Variable :=
  if nonempty : name.toList = [] then .error .emptyName
  else match offending : name.toList.find? (!·.isAlpha) with
    | some c => .error (.notALetter name c)
    | none => .ok ⟨name, nonempty, by simpa using offending⟩

@[simp] theorem ofName_name (x : Variable) : ofName x.name = .ok x := by
  have letters : x.name.toList.find? (!·.isAlpha) = none := by
    simpa using x.letters
  rw [ofName, dif_neg x.ne_nil]
  split
  · next c found => rw [letters] at found; cases found
  · rfl

theorem name_of_ofName {name : String} {x : Variable} (named : ofName name = .ok x) :
    x.name = name := by
  unfold ofName at named
  split at named
  · cases named
  split at named
  · cases named
  · cases named; rfl

end Variable

/-- How an unfit value is told. -/
def InvalidValue.diagnostic : InvalidValue → Diagnostic
  | .negative value =>
    { code := "symexpr::value::negative"
      message := "number must be nonnegative, got " ++ value.text
      help := some "negative literals are not supported" }
  | .notFinite value =>
    { code := "symexpr::value::not_finite"
      message := "number must be finite, got " ++ value.text
      help := none }
  | .emptyName =>
    { code := "symexpr::value::empty_name"
      message := "variable name must not be empty"
      help := none }
  | .notALetter name c =>
    { code := "symexpr::value::not_a_letter"
      message := s!"variable name `{name}` contains '{c}', which is not a letter"
      help := some "variable names are made of the letters a-z and A-Z only" }

end SumProduct
