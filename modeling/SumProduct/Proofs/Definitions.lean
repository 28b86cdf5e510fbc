import Mathlib.Data.Set.Card
import SumProduct.Proofs.Leaves

/-!
# Definitions, one after the other

`Environment.defineInPlace` defines a name in an environment that is changed in place, and
`Environment.afterCalls` is what a run of such calls leaves behind. `Fit` and `Unfit` say, without
an environment, which calls succeed and why the others fail.

Results:
1. `call_eq`: a call changes nothing before it has looked at the name and the value.
2. `get?_afterCalls` and `size_eq_ncard`: what is read after a run of calls, by the calls alone.
3. `ofList_eq_ok_iff` and `ofList_eq_error_iff`: defining all pairs of a list is such a run, up to
   the first pair that is unfit.
-/

namespace SumProduct

/-! ## What may be wrong -/

/-- What is told of a string that is no name. The first offending character comes before others. -/
inductive Variable.Unfit (name : String) : InvalidValue → Prop
  | empty : name = "" → Unfit name .emptyName
  | offending {before after : List Char} {c : Char} : name.toList = before ++ c :: after →
      (∀ d ∈ before, d.isAlpha = true) → c.isAlpha = false → Unfit name (.notALetter name c)

/-- What is told of a double that is no number. -/
inductive Number.Unfit (value : Double) : InvalidValue → Prop
  | notFinite : value.toRat? = none → Unfit value (.notFinite value)
  | negative {q : ℚ} : value.toRat? = some q → q < 0 → Unfit value (.negative value)

/-- The double, or zero if it is minus zero. -/
def Double.unsignedZero (d : Double) : Double :=
  if d = .finite true .zero then .finite false .zero else d

theorem Variable.ofName_eq_error_iff {name : String} {e : InvalidValue} :
    ofName name = .error e ↔ Unfit name e := by
  unfold ofName
  constructor
  · intro refused
    split at refused
    · next empty =>
      cases refused
      exact .empty (String.toList_eq_nil_iff.mp empty)
    split at refused
    · next c found =>
      cases refused
      obtain ⟨other, before, after, split, letters⟩ := List.find?_eq_some_iff_append.mp found
      exact .offending split (by simpa using letters) (by simpa using other)
    · cases refused
  · intro unfit
    cases unfit with
    | empty nothing =>
      subst nothing
      rfl
    | @offending before after c split letters other =>
      have found : name.toList.find? (!·.isAlpha) = some c :=
        List.find?_eq_some_iff_append.mpr ⟨by simpa using other, before, after, split,
          by simpa using letters⟩
      rw [dif_neg (by simp [split])]
      split
      · next d first =>
        obtain rfl := Option.some.inj (first.symm.trans found)
        rfl
      · next none =>
        rw [none] at found
        cases found

theorem Number.ofDouble_eq_error_iff {value : Double} {e : InvalidValue} :
    ofDouble value = .error e ↔ Unfit value e := by
  constructor
  · intro refused
    cases value with
    | infinite negative | nan =>
      cases refused
      exact .notFinite rfl
    | finite negative magnitude =>
      rw [ofDouble] at refused
      split at refused
      · next below =>
        cases refused
        obtain ⟨rfl, nonzero⟩ := below
        have positive : 0 < magnitude.toRat := magnitude.toRat_nonneg.lt_of_ne fun zero =>
          nonzero (toRat_inj.mp (zero.symm.trans toRat_zero.symm))
        exact .negative rfl (neg_neg_of_pos positive)
      · cases refused
  · intro unfit
    cases unfit with
    | notFinite none =>
      cases value with
      | infinite negative | nan => rfl
      | finite negative magnitude => cases none
    | negative some below =>
      cases value with
      | infinite negative | nan => cases some
      | finite negative magnitude =>
        obtain rfl := Option.some.inj some
        cases negative with
        | false => exact absurd below (not_lt_of_ge magnitude.toRat_nonneg)
        | true =>
          have nonzero : magnitude ≠ .zero := by
            rintro rfl
            simp at below
          exact if_pos ⟨rfl, nonzero⟩

/-- A double is taken as a number exactly if it is finite and not negative. -/
theorem Number.exists_ofDouble_iff {value : Double} :
    (∃ v, ofDouble value = .ok v) ↔ ∃ q, value.toRat? = some q ∧ 0 ≤ q := by
  constructor
  · rintro ⟨v, taken⟩
    exact ⟨v.toRat, ofDouble_eq_ok_iff.mp taken, v.toRat_nonneg⟩
  · rintro ⟨q, finite, nonneg⟩
    cases taken : ofDouble value with
    | ok v => exact ⟨v, rfl⟩
    | error e =>
      cases ofDouble_eq_error_iff.mp taken with
      | notFinite none => simp [none] at finite
      | negative some below =>
        obtain rfl := Option.some.inj (some.symm.trans finite)
        exact absurd below (not_lt_of_ge nonneg)

/-- The number of a double is the double itself, but for minus zero. -/
theorem Number.toDouble_of_ofDouble {value : Double} {v : Number} (taken : ofDouble value = .ok v) :
    v.toDouble = value.unsignedZero := by
  cases value with
  | infinite negative | nan => cases taken
  | finite negative magnitude =>
    rw [ofDouble] at taken
    split at taken
    · cases taken
    · next above =>
      obtain rfl := Except.ok.inj taken
      cases negative with
      | false => rfl
      | true =>
        have zero : magnitude = .zero := by simpa using above
        rw [zero]
        rfl

namespace Environment

/-! ## Calls -/

/-- The name is a nonempty word of letters, and the value is finite and not negative. -/
def Fit (name : String) (value : Double) : Prop :=
  Variable.IsName name ∧ ∃ q, value.toRat? = some q ∧ 0 ≤ q

/-- What is told of a name and a value that are not both fit: first what is wrong with the name. -/
inductive Unfit (name : String) (value : Double) : InvalidValue → Prop
  | name {e : InvalidValue} : Variable.Unfit name e → Unfit name value e
  | value {e : InvalidValue} : Variable.IsName name → Number.Unfit value e → Unfit name value e

/-- Defines a name in an environment that is changed in place, so that whatever was changed before
a failure would stay. -/
def defineInPlace (name : String) (value : Double) :
    ExceptT InvalidValue (StateM Environment) Unit := do
  let x ← Variable.ofName name
  let v ← Number.ofDouble value
  modify (·.insert x v)

/-- The result of a call, and the environment behind it. -/
def call (env : Environment) (name : String) (value : Double) :
    Except InvalidValue Unit × Environment :=
  (defineInPlace name value).run env

/-- The environment behind a run of calls. -/
def afterCalls (env : Environment) (calls : List (String × Double)) : Environment :=
  calls.foldl (fun env call => (env.call call.1 call.2).2) env

section Calls

variable {env env' : Environment} {name : String} {value : Double} {e : InvalidValue}
  {calls later : List (String × Double)}

theorem define_eq_error_iff (env : Environment) :
    env.define name value = .error e ↔ Unfit name value e := by
  unfold define
  rw [bind_eq_error]
  constructor
  · rintro (refused | ⟨x, named, refused⟩)
    · exact .name (Variable.ofName_eq_error_iff.mp refused)
    · rcases bind_eq_error.mp refused with refused | ⟨v, -, ⟨⟩⟩
      exact .value (Variable.exists_ofName_iff.mp ⟨x, named⟩)
        (Number.ofDouble_eq_error_iff.mp refused)
  · intro unfit
    cases unfit with
    | name unfit => exact .inl (Variable.ofName_eq_error_iff.mpr unfit)
    | value isName unfit =>
      obtain ⟨x, named⟩ := Variable.exists_ofName_iff.mpr isName
      exact .inr ⟨x, named, bind_eq_error.mpr (.inl (Number.ofDouble_eq_error_iff.mpr unfit))⟩

theorem define_eq_ok_iff : env.define name value = .ok env' ↔
    ∃ x v, Variable.ofName name = .ok x ∧ Number.ofDouble value = .ok v ∧
      env' = env.insert x v := by
  unfold define
  constructor
  · intro defined
    obtain ⟨x, named, defined⟩ := bind_eq_ok.mp defined
    obtain ⟨v, taken, defined⟩ := bind_eq_ok.mp defined
    exact ⟨x, v, named, taken, (Except.ok.inj defined).symm⟩
  · rintro ⟨x, v, named, taken, rfl⟩
    exact bind_eq_ok.mpr ⟨x, named, bind_eq_ok.mpr ⟨v, taken, rfl⟩⟩

/-- A call changes nothing before it has looked at the name and the value. -/
theorem call_eq (env : Environment) (name : String) (value : Double) :
    env.call name value = match env.define name value with
      | .ok after => (.ok (), after)
      | .error e => (.error e, env) := by
  unfold call defineInPlace define
  cases Variable.ofName name with
  | error e => rfl
  | ok x =>
    cases Number.ofDouble value with
    | error e => rfl
    | ok v => rfl

/-- The calls that fail are those that are not fit. -/
theorem exists_unfit_iff : (∃ e, Unfit name value e) ↔ ¬Fit name value := by
  constructor
  · rintro ⟨e, unfit⟩ ⟨isName, finite⟩
    obtain ⟨x, named⟩ := Variable.exists_ofName_iff.mpr isName
    obtain ⟨v, taken⟩ := Number.exists_ofDouble_iff.mpr finite
    have failed := (define_eq_error_iff empty).mpr unfit
    rw [define_eq_ok_iff.mpr ⟨x, v, named, taken, rfl⟩] at failed
    cases failed
  · intro notFit
    cases defined : empty.define name value with
    | error e => exact ⟨e, (define_eq_error_iff empty).mp defined⟩
    | ok env =>
      obtain ⟨x, v, named, taken, -⟩ := define_eq_ok_iff.mp defined
      exact absurd ⟨Variable.exists_ofName_iff.mp ⟨x, named⟩,
        Number.exists_ofDouble_iff.mp ⟨v, taken⟩⟩ notFit

theorem define_of_fit (env : Environment) (fit : Fit name value) :
    ∃ x v, x.name = name ∧ v.toDouble = value.unsignedZero ∧
      env.define name value = .ok (env.insert x v) := by
  obtain ⟨x, named⟩ := Variable.exists_ofName_iff.mpr fit.1
  obtain ⟨v, taken⟩ := Number.exists_ofDouble_iff.mpr fit.2
  exact ⟨x, v, Variable.name_of_ofName named, Number.toDouble_of_ofDouble taken,
    define_eq_ok_iff.mpr ⟨x, v, named, taken, rfl⟩⟩

theorem call_of_fit (env : Environment) (fit : Fit name value) :
    ∃ x v, x.name = name ∧ v.toDouble = value.unsignedZero ∧
      env.call name value = (.ok (), env.insert x v) := by
  obtain ⟨x, v, named, taken, defined⟩ := define_of_fit env fit
  exact ⟨x, v, named, taken, by rw [call_eq, defined]⟩

theorem call_of_unfit (env : Environment) (unfit : Unfit name value e) :
    env.call name value = (.error e, env) := by
  rw [call_eq, (define_eq_error_iff env).mpr unfit]

theorem call_eq_error_iff : (env.call name value).1 = .error e ↔ Unfit name value e := by
  constructor
  · intro failed
    by_cases fit : Fit name value
    · obtain ⟨x, v, -, -, called⟩ := call_of_fit env fit
      rw [called] at failed
      cases failed
    · obtain ⟨e', unfit⟩ := exists_unfit_iff.mpr fit
      rw [call_of_unfit env unfit] at failed
      obtain rfl := Except.error.inj failed
      exact unfit
  · intro unfit
    rw [call_of_unfit env unfit]

@[simp] theorem call_eq_ok_iff : (env.call name value).1 = .ok () ↔ Fit name value := by
  constructor
  · intro succeeded
    by_contra notFit
    obtain ⟨e, unfit⟩ := exists_unfit_iff.mpr notFit
    rw [call_of_unfit env unfit] at succeeded
    cases succeeded
  · intro fit
    obtain ⟨x, v, -, -, called⟩ := call_of_fit env fit
    rw [called]

end Calls

/-! ## What is read -/

/-- The value that the last successful call with a name gives it. -/
def LastGiven (calls : List (String × Double)) (name : String) (value : Double) : Prop :=
  ∃ before later, calls = before ++ (name, value) :: later ∧ Fit name value ∧
    ∀ other, (name, other) ∈ later → ¬Fit name other

/-- The names that the calls define. -/
def definedNames (calls : List (String × Double)) : Set String :=
  {name | ∃ value, (name, value) ∈ calls ∧ Fit name value}

section Reads

variable {env : Environment} {name : String} {v : Number}
  {calls rest : List (String × Double)}

@[simp] theorem get?_insert (env : Environment) (x : Variable) (v : Number) (name : String) :
    (env.insert x v).get? name = if name = x.name then some v else env.get? name := by
  unfold get? insert
  by_cases same : name = x.name
  · rw [if_pos same, List.find?_cons_of_pos (by simp [same])]
    rfl
  · have kept : (env.bindings.filter (·.1 ≠ x)).find? (·.1.name = name) =
        env.bindings.find? (·.1.name = name) := by
      rw [List.find?_filter]
      congr 1
      funext binding
      have other : binding.1.name = name → binding.1 ≠ x := by
        rintro rfl rfl
        exact same rfl
      simpa using other
    rw [if_neg same, List.find?_cons_of_neg (by simpa using Ne.symm same), kept]

/-- Names are counted once. -/
theorem size_eq_ncard (env : Environment) :
    env.size = {name | ∃ v, env.get? name = some v}.ncard := by
  -- The variables of an environment are distinct, and a variable is no more than its name.
  have distinct : (env.bindings.map (·.1.name)).Nodup := by
    have names : env.bindings.map (·.1.name) = (env.bindings.map Prod.fst).map Variable.name := by
      rw [List.map_map]
      rfl
    rw [names]
    exact env.distinct.map fun x y => Variable.ext
  have bound : {name | ∃ v, env.get? name = some v} =
      ↑(env.bindings.map (·.1.name)).toFinset := by
    ext name
    rw [Set.mem_ofPred_eq, ← Option.isSome_iff_exists, get?, Option.isSome_map, List.find?_isSome]
    simp
  rw [bound, Set.ncard_coe_finset, List.toFinset_card_of_nodup distinct, List.length_map, size]

/-- A name that is defined at all is defined a last time. -/
theorem exists_lastGiven (defined : name ∈ definedNames calls) :
    ∃ value, LastGiven calls name value := by
  obtain ⟨value, mem, fit⟩ := defined
  induction calls generalizing value with
  | nil => cases mem
  | cons call rest ih =>
    -- The last call with the name is in the rest, or else it is the first call.
    by_cases again : ∃ other, (name, other) ∈ rest ∧ Fit name other
    · obtain ⟨other, later, otherFit⟩ := again
      obtain ⟨last, before, behind, rfl, given⟩ := ih other later otherFit
      exact ⟨last, call :: before, behind, rfl, given⟩
    · have last : ∀ other, (name, other) ∈ rest → ¬Fit name other :=
        fun other later otherFit => again ⟨other, later, otherFit⟩
      rcases List.mem_cons.mp mem with rfl | later
      · exact ⟨value, [], rest, rfl, fit, last⟩
      · exact absurd fit (last value later)

@[simp] theorem afterCalls_append (env : Environment) (calls later : List (String × Double)) :
    env.afterCalls (calls ++ later) = (env.afterCalls calls).afterCalls later :=
  List.foldl_append

@[simp] theorem afterCalls_cons (env : Environment) (name : String) (value : Double)
    (later : List (String × Double)) : env.afterCalls ((name, value) :: later) =
      (env.call name value).2.afterCalls later := rfl

/-- By induction on the calls: those that fail or define other names do not matter to a name. -/
theorem get?_afterCalls_of_not_mem (other : name ∉ definedNames calls) :
    (env.afterCalls calls).get? name = env.get? name := by
  induction calls generalizing env with
  | nil => rfl
  | cons call rest ih =>
    obtain ⟨given, value⟩ := call
    have later : name ∉ definedNames rest := fun ⟨value, mem, fit⟩ =>
      other ⟨value, List.mem_cons_of_mem _ mem, fit⟩
    rw [afterCalls_cons, ih later]
    by_cases fit : Fit given value
    · obtain ⟨x, v, rfl, -, called⟩ := call_of_fit env fit
      have differs : name ≠ x.name := by
        rintro rfl
        exact other ⟨value, List.mem_cons_self, fit⟩
      simp [called, differs]
    · obtain ⟨e, unfit⟩ := exists_unfit_iff.mpr fit
      rw [call_of_unfit env unfit]

theorem get?_afterCalls_of_lastGiven (env : Environment) {value : Double}
    (given : LastGiven calls name value) :
    ((env.afterCalls calls).get? name).map Number.toDouble = some value.unsignedZero := by
  obtain ⟨before, later, rfl, fit, last⟩ := given
  obtain ⟨x, v, rfl, taken, called⟩ := call_of_fit (env.afterCalls before) fit
  have others : x.name ∉ definedNames later := fun ⟨other, mem, otherFit⟩ =>
    last other mem otherFit
  simp [called, get?_afterCalls_of_not_mem others, taken]

@[simp] theorem get?_empty (name : String) : empty.get? name = none := rfl

/-- After a run that starts from nothing, exactly the names that were defined have a value. -/
theorem exists_get?_iff : (∃ v, (empty.afterCalls calls).get? name = some v) ↔
    name ∈ definedNames calls := by
  constructor
  · rintro ⟨v, found⟩
    by_contra other
    simp [get?_afterCalls_of_not_mem other] at found
  · intro defined
    obtain ⟨value, given⟩ := exists_lastGiven defined
    obtain ⟨v, found, -⟩ := Option.map_eq_some_iff.mp
      (get?_afterCalls_of_lastGiven empty given)
    exact ⟨v, found⟩

/-- A name is read as what the last successful call with it gave. -/
theorem get?_afterCalls {d : Double} :
    ((empty.afterCalls calls).get? name).map Number.toDouble = some d ↔
      ∃ value, LastGiven calls name value ∧ d = value.unsignedZero := by
  constructor
  · intro read
    obtain ⟨v, found, -⟩ := Option.map_eq_some_iff.mp read
    obtain ⟨value, given⟩ := exists_lastGiven (exists_get?_iff.mp ⟨v, found⟩)
    rw [get?_afterCalls_of_lastGiven empty given] at read
    exact ⟨value, given, (Option.some.inj read).symm⟩
  · rintro ⟨value, given, rfl⟩
    exact get?_afterCalls_of_lastGiven empty given

theorem size_afterCalls (calls : List (String × Double)) :
    (empty.afterCalls calls).size = (definedNames calls).ncard := by
  rw [size_eq_ncard]
  congr 1
  ext name
  exact exists_get?_iff

theorem isEmpty_afterCalls (calls : List (String × Double)) :
    (empty.afterCalls calls).isEmpty = true ↔ definedNames calls = ∅ := by
  have finite : (definedNames calls).Finite :=
    (List.finite_toSet (calls.map Prod.fst)).subset fun name ⟨value, mem, _⟩ =>
      List.mem_map.mpr ⟨(name, value), mem, rfl⟩
  rw [isEmpty, List.isEmpty_iff_length_eq_zero, ← Set.ncard_eq_zero finite, ← size_afterCalls]
  rfl

end Reads

/-! ## Lists of pairs -/

section Lists

variable {env env' : Environment} {name : String} {value : Double} {e : InvalidValue}
  {pairs rest : List (String × Double)}

/-- Defines all pairs in order, from an environment on. -/
def defineAll (env : Environment) (pairs : List (String × Double)) :
    Except InvalidValue Environment :=
  pairs.foldlM (fun env (name, value) => env.define name value) env

theorem defineAll_cons : env.defineAll ((name, value) :: rest) =
    (env.define name value >>= fun next => next.defineAll rest) :=
  List.foldlM_cons

theorem defineAll_of_fit (fit : Fit name value) :
    env.defineAll ((name, value) :: rest) = (env.call name value).2.defineAll rest := by
  obtain ⟨x, v, -, -, defined⟩ := define_of_fit env fit
  have called : (env.call name value).2 = env.insert x v := by rw [call_eq, defined]
  rw [called, defineAll_cons, defined]
  rfl

theorem defineAll_of_unfit (unfit : Unfit name value e) :
    env.defineAll ((name, value) :: rest) = .error e := by
  rw [defineAll_cons, (define_eq_error_iff env).mpr unfit]
  rfl

/-- By induction on the pairs: as long as no call fails, it goes on like a run of calls. -/
theorem defineAll_eq_ok_iff : env.defineAll pairs = .ok env' ↔
    (∀ name value, (name, value) ∈ pairs → Fit name value) ∧ env' = env.afterCalls pairs := by
  induction pairs generalizing env with
  | nil => simp [defineAll, pure, Except.pure, afterCalls, eq_comm]
  | cons pair rest ih =>
    obtain ⟨name, value⟩ := pair
    by_cases fit : Fit name value
    · simp [defineAll_of_fit fit, ih, or_imp, forall_and, fit]
    · obtain ⟨e, unfit⟩ := exists_unfit_iff.mpr fit
      rw [defineAll_of_unfit unfit]
      exact iff_of_false nofun fun ⟨all, _⟩ => fit (all name value List.mem_cons_self)

/-- By induction on the pairs: the first one that is unfit ends the run. -/
theorem defineAll_eq_error_iff : env.defineAll pairs = .error e ↔
    ∃ before name value later, pairs = before ++ (name, value) :: later ∧
      (∀ name value, (name, value) ∈ before → Fit name value) ∧ Unfit name value e := by
  induction pairs generalizing env with
  | nil => simp [defineAll, pure, Except.pure]
  | cons pair rest ih =>
    obtain ⟨name, value⟩ := pair
    by_cases fit : Fit name value
    · rw [defineAll_of_fit fit, ih]
      constructor
      · rintro ⟨before, other, given, later, rfl, all, unfit⟩
        exact ⟨(name, value) :: before, other, given, later, rfl,
          by simpa [or_imp, forall_and, fit] using all, unfit⟩
      · rintro ⟨before, other, given, later, split, all, unfit⟩
        cases before with
        | nil =>
          obtain ⟨⟨⟩, rfl⟩ := List.cons.inj split
          exact absurd fit (exists_unfit_iff.mp ⟨e, unfit⟩)
        | cons first before =>
          obtain ⟨rfl, rfl⟩ := List.cons.inj split
          exact ⟨before, other, given, later, rfl,
            fun name value mem => all name value (List.mem_cons_of_mem _ mem), unfit⟩
    · obtain ⟨e', unfit⟩ := exists_unfit_iff.mpr fit
      rw [defineAll_of_unfit unfit]
      constructor
      · rintro ⟨⟩
        exact ⟨[], name, value, rest, rfl, by simp, unfit⟩
      · rintro ⟨before, other, given, later, split, all, other_unfit⟩
        cases before with
        | nil =>
          obtain ⟨⟨⟩, rfl⟩ := List.cons.inj split
          rw [← define_eq_error_iff env] at unfit other_unfit
          exact unfit.symm.trans other_unfit
        | cons first before =>
          obtain ⟨rfl, rfl⟩ := List.cons.inj split
          exact absurd (all name value List.mem_cons_self) fit

end Lists

/-- After any run of definitions on a new environment, a further call fails exactly if its name is
no name, or else its value is not finite or negative, and then it leaves no trace in what comes
later. Each name is read as what the last successful call with it gave, minus zero as zero, and the
names that were defined are counted once. Defining the pairs of a list is the run of these calls if
all are fit, and has the error of the first unfit pair otherwise. -/
theorem definitions_in_order (calls : List (String × Double)) :
    let env := empty.afterCalls calls
    (∀ name value, ((env.call name value).1 = .ok () ↔ Fit name value) ∧
      ∀ e, (env.call name value).1 = .error e ↔ Unfit name value e) ∧
    (∀ name value e later, (env.call name value).1 = .error e →
      empty.afterCalls (calls ++ (name, value) :: later) = empty.afterCalls (calls ++ later)) ∧
    (∀ name, (∀ d, (env.get? name).map Number.toDouble = some d ↔
        ∃ value, LastGiven calls name value ∧ d = value.unsignedZero) ∧
      (env.get? name = none ↔ ∀ value, (name, value) ∈ calls → ¬Fit name value)) ∧
    env.size = {name | ∃ value, (name, value) ∈ calls ∧ Fit name value}.ncard ∧
    (env.isEmpty = true ↔ ∀ name value, (name, value) ∈ calls → ¬Fit name value) ∧
    (∀ env', ofList calls = .ok env' ↔
      (∀ name value, (name, value) ∈ calls → Fit name value) ∧ env' = env) ∧
    ∀ e, ofList calls = .error e ↔
      ∃ before name value later, calls = before ++ (name, value) :: later ∧
        (∀ name value, (name, value) ∈ before → Fit name value) ∧ Unfit name value e := by
  intro env
  refine ⟨fun name value => ⟨call_eq_ok_iff, fun e => call_eq_error_iff⟩, ?_,
    fun name => ⟨fun d => get?_afterCalls, ?_⟩, size_afterCalls calls, ?_,
    fun env' => defineAll_eq_ok_iff, fun e => defineAll_eq_error_iff⟩
  · intro name value e later failed
    have unchanged := call_of_unfit env (call_eq_error_iff.mp failed)
    rw [afterCalls_append, afterCalls_append, afterCalls_cons, unchanged]
  · rw [Option.eq_none_iff_forall_ne_some, ← not_exists, exists_get?_iff]
    simp [definedNames]
  · rw [isEmpty_afterCalls, Set.eq_empty_iff_forall_notMem]
    simp [definedNames]

/-- A run with a bad name, a minus zero and an infinite value. Its list is refused for the name, and
a further call with a negative value fails without a trace. -/
theorem definitions_in_order_mixed :
    let calls : List (String × Double) := [("x", Number.one.toDouble), ("x1", .nan),
      ("y", .finite true .zero), ("x", .infinite true)]
    let minusOne : Double := .finite true .one
    let env := empty.afterCalls calls
    (env.get? "x").map Number.toDouble = some Number.one.toDouble ∧
    (env.get? "y").map Number.toDouble = some (.finite false .zero) ∧
    ofList calls = .error (.notALetter "x1" '1') ∧
    (env.call "y" minusOne).1 = .error (.negative minusOne) ∧
    empty.afterCalls (calls ++ [("y", minusOne), ("z", minusOne)]) =
      empty.afterCalls (calls ++ [("z", minusOne)]) := by
  intro calls minusOne env
  obtain ⟨outcome, traceless, reads, -, -, -, refused⟩ := definitions_in_order calls
  have isName {name : String} (letters : name ≠ "" ∧ ∀ c ∈ name.toList, c.isAlpha = true) :
      Variable.IsName name := letters
  have x : Fit "x" Number.one.toDouble :=
    ⟨isName (by simp), _, rfl, Number.one.toRat_nonneg⟩
  have y : Fit "y" (.finite true .zero) :=
    ⟨isName (by simp), _, rfl, by simp⟩
  have infinite : ¬Fit "x" (.infinite true) := fun ⟨_, _, finite, _⟩ => by cases finite
  have first : "x1".toList = ['x'] ++ '1' :: [] := by simp
  have badName : Unfit "x1" .nan (.notALetter "x1" '1') :=
    .name (.offending first (by simp) rfl)
  have negative : Unfit "y" minusOne (.negative minusOne) :=
    .value (isName (by simp)) (.negative rfl (by simp))
  have failed := ((outcome "y" minusOne).2 _).mpr negative
  refine ⟨?_, ?_, ?_, failed, traceless _ _ _ _ failed⟩
  · refine ((reads "x").1 _).mpr ⟨_, ⟨[], _, rfl, x, fun other mem => ?_⟩, by decide +kernel⟩
    simp only [List.mem_cons, Prod.mk.injEq, String.reduceEq, false_and, true_and,
      List.not_mem_nil, or_false, false_or] at mem
    rw [mem]
    exact infinite
  · refine ((reads "y").1 _).mpr ⟨_, ⟨[_, _], _, rfl, y, fun other mem => ?_⟩, by decide +kernel⟩
    simp at mem
  · refine (refused _).mpr ⟨[_], _, _, _, rfl, fun name value mem => ?_, badName⟩
    obtain ⟨rfl, rfl⟩ := Prod.mk.inj (List.mem_singleton.mp mem)
    exact x

end Environment

end SumProduct
