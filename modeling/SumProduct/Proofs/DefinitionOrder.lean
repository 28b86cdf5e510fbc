import SumProduct.Proofs.Definitions
import SumProduct.Proofs.PartialEvaluation

/-!
# The order of definitions

A definition only changes what is read of its own name. So definitions of different names may be
exchanged: what is read of a name after a run of calls is what is read after its own calls alone
(`get?_afterCalls_filter`), and a list of pairs is refused for an unfit pair wherever that stands.

Two environments are equal exactly if the same is read of each name (`beq_iff`). So the pairs of a
list may be defined in every order that keeps the pairs with the same name in theirs
(`ofList_reordered`). Where no name is given twice, that is every order at all.
-/

namespace SumProduct.Environment

/-! ## Equal environments -/

section Equality

variable {env env' : Environment} {x : Variable} {v : Number}

/-- A variable is held once, so each value that is held is the one that is found. -/
theorem find?_of_mem (mem : (x, v) ∈ env.bindings) : env.find? x = some v := by
  obtain ⟨before, after, split⟩ := List.append_of_mem mem
  have distinct := env.distinct
  rw [split, List.map_append, List.nodup_append] at distinct
  refine List.lookup_eq_some_iff.mpr ⟨before, after, split, fun binding earlier => ?_⟩
  have other := distinct.2.2 binding.1 (List.mem_map_of_mem earlier) x (by simp)
  simpa using Ne.symm other

theorem size_eq_of_get? (same : ∀ name, env.get? name = env'.get? name) : env.size = env'.size := by
  rw [size_eq_ncard, size_eq_ncard]
  simp only [same]

theorem find?_eq_of_get? (same : ∀ name, env.get? name = env'.get? name) (x : Variable) :
    env.find? x = env'.find? x := by
  rw [← get?_name, ← get?_name, same]

/-- The names that have a value. -/
theorem finite_names (env : Environment) : {name | ∃ v, env.get? name = some v}.Finite := by
  refine (List.finite_toSet (env.bindings.map (·.1.name))).subset fun name ⟨v, found⟩ => ?_
  obtain ⟨binding, first, -⟩ := Option.map_eq_some_iff.mp found
  have own : binding.1.name = name := by simpa using List.find?_some first
  exact List.mem_map.mpr ⟨binding, List.mem_of_find?_eq_some first, own⟩

/-- The second environment has no names that the first has not, since it has no more of them. -/
theorem beq_iff : (env == env') = true ↔ ∀ name, env.get? name = env'.get? name := by
  have unfolded : (env == env') = true ↔
      env.size = env'.size ∧ ∀ binding ∈ env.bindings, env'.find? binding.1 = some binding.2 := by
    show (env.size = env'.size && env.bindings.all _) = true ↔ _
    simp
  rw [unfolded]
  constructor
  · rintro ⟨sizes, held⟩ name
    have kept {name : String} {v : Number} (found : env.get? name = some v) :
        env'.get? name = some v := by
      obtain ⟨⟨x, w⟩, first, rfl⟩ := Option.map_eq_some_iff.mp found
      obtain rfl : x.name = name := by simpa using List.find?_some first
      rw [get?_name]
      exact held _ (List.mem_of_find?_eq_some first)
    cases found : env.get? name with
    | some v => exact (kept found).symm
    | none =>
      have names : {name | ∃ v, env.get? name = some v} = {name | ∃ v, env'.get? name = some v} :=
        Set.eq_of_subset_of_ncard_le (fun name ⟨v, found⟩ => ⟨v, kept found⟩)
          (by rw [← size_eq_ncard, ← size_eq_ncard, sizes]) env'.finite_names
      cases other : env'.get? name with
      | none => rfl
      | some v =>
        have held : name ∈ {name | ∃ v, env.get? name = some v} := names ▸ ⟨v, other⟩
        obtain ⟨w, read⟩ := held
        rw [found] at read
        cases read
  · intro same
    refine ⟨size_eq_of_get? same, fun binding mem => ?_⟩
    rw [← find?_eq_of_get? same]
    exact find?_of_mem mem

end Equality

/-! ## The calls of one name -/

section Calls

variable {env env' : Environment} {name : String} {calls : List (String × Double)}

/-- A call leaves other names alone, and what it gives its own name does not depend on the
environment. -/
theorem get?_call (env : Environment) (given : String) (value : Double) (name : String) :
    (env.call given value).2.get? name =
      if given = name then ((empty.call given value).2.get? name).or (env.get? name)
      else env.get? name := by
  by_cases fit : Fit given value
  · obtain ⟨x, named⟩ := Variable.exists_ofName_iff.mpr fit.1
    obtain ⟨v, taken⟩ := Number.exists_ofDouble_iff.mpr fit.2
    have called (env : Environment) : (env.call given value).2 = env.insert x v := by
      rw [call_eq, define_eq_ok_iff.mpr ⟨x, v, named, taken, rfl⟩]
    rw [called, called, get?_insert, get?_insert, Variable.name_of_ofName named]
    by_cases own : given = name
    · simp [own]
    · rw [if_neg (Ne.symm own), if_neg own]
  · obtain ⟨e, unfit⟩ := exists_unfit_iff.mpr fit
    simp [call_of_unfit env unfit, call_of_unfit empty unfit]

/-- By induction on the calls: what is read of a name only depends on its own calls. -/
theorem get?_afterCalls_filter (same : env.get? name = env'.get? name) :
    (env.afterCalls calls).get? name = (env'.afterCalls (calls.filter (·.1 = name))).get? name := by
  induction calls generalizing env env' with
  | nil => exact same
  | cons call rest ih =>
    obtain ⟨given, value⟩ := call
    by_cases own : given = name
    · rw [List.filter_cons_of_pos (by simpa using own), afterCalls_cons, afterCalls_cons]
      exact ih (by rw [get?_call env, get?_call env', same])
    · rw [List.filter_cons_of_neg (by simpa using own), afterCalls_cons]
      exact ih (by rw [get?_call, if_neg own, same])

end Calls

/-! ## Reordered pairs -/

/-- The second list has the pairs of the first in an order that keeps those with the same name in
theirs. -/
structure Reordered (pairs pairs' : List (String × Double)) : Prop where
  perm : pairs.Perm pairs'
  own : ∀ name, pairs.filter (·.1 = name) = pairs'.filter (·.1 = name)

section Reordering

variable {pairs pairs' : List (String × Double)} {env env' : Environment}

/-- Where no name is given twice, there is no order to keep. -/
theorem reordered_of_nodup (distinct : (pairs.map Prod.fst).Nodup) (perm : pairs.Perm pairs') :
    Reordered pairs pairs' := by
  refine ⟨perm, fun name => ?_⟩
  have few : (pairs.filter (·.1 = name)).length ≤ 1 := by
    rw [← List.countP_eq_length_filter]
    have count := List.nodup_iff_count_le_one.mp distinct name
    rwa [List.count, List.countP_map] at count
  have own := perm.filter (·.1 = name)
  rcases kept : pairs.filter (·.1 = name) with _ | ⟨pair, others⟩
  · rw [kept] at own ⊢
    exact own.nil_eq
  · rw [kept] at few own ⊢
    obtain rfl : others = [] := List.length_eq_zero_iff.mp (by simpa using few)
    exact List.singleton_perm.mp own

theorem exists_ofList_iff : (∃ env, ofList pairs = .ok env) ↔
    ∀ name value, (name, value) ∈ pairs → Fit name value := by
  constructor
  · rintro ⟨env, defined⟩
    exact (defineAll_eq_ok_iff.mp defined).1
  · intro fit
    exact ⟨_, defineAll_eq_ok_iff.mpr ⟨fit, rfl⟩⟩

/-- A list is refused, in whatever order, exactly if one of its pairs is unfit. -/
theorem exists_error_iff (perm : pairs.Perm pairs') : (∃ e, ofList pairs' = .error e) ↔
    ∃ name value, (name, value) ∈ pairs ∧ ¬Fit name value := by
  have accepted := @exists_ofList_iff pairs'
  simp only [← perm.mem_iff] at accepted
  cases defined : ofList pairs' with
  | ok env =>
    have fit := accepted.mp ⟨env, defined⟩
    refine iff_of_false nofun ?_
    rintro ⟨name, value, mem, unfit⟩
    exact unfit (fit name value mem)
  | error e =>
    refine iff_of_true ⟨e, rfl⟩ ?_
    by_contra none
    push Not at none
    obtain ⟨env, other⟩ := accepted.mpr none
    rw [defined] at other
    cases other

theorem get?_ofList_reordered (reordered : Reordered pairs pairs')
    (defined : ofList pairs = .ok env) (defined' : ofList pairs' = .ok env') (name : String) :
    env.get? name = env'.get? name := by
  obtain ⟨-, rfl⟩ := defineAll_eq_ok_iff.mp defined
  obtain ⟨-, rfl⟩ := defineAll_eq_ok_iff.mp defined'
  rw [get?_afterCalls_filter rfl, reordered.own, ← get?_afterCalls_filter rfl]

end Reordering

/-- The order in which different names are defined does not matter. A list of pairs and one that
only keeps the order of pairs with the same name are both accepted or both refused. If they are
accepted, their environments are equal: the same is read of each name, as many names have a value,
and each expression is simplified to the same one. If no name is given twice, every order of the
pairs is such a list. And a list is refused, in each order of its pairs, exactly if one of them is
unfit. -/
theorem ofList_reordered (pairs : List (String × Double)) :
    (∀ pairs', Reordered pairs pairs' →
      ((∃ env, ofList pairs = .ok env) ↔ ∃ env, ofList pairs' = .ok env) ∧
      ∀ env env', ofList pairs = .ok env → ofList pairs' = .ok env' →
        (env == env') = true ∧ (∀ name, env.get? name = env'.get? name) ∧ env.size = env'.size ∧
        ∀ e : Expression, e.simplify env = e.simplify env') ∧
    ((pairs.map Prod.fst).Nodup → ∀ pairs', pairs.Perm pairs' → Reordered pairs pairs') ∧
    ∀ pairs', pairs.Perm pairs' →
      ((∃ e, ofList pairs' = .error e) ↔
        ∃ name value, (name, value) ∈ pairs ∧ ¬Fit name value) := by
  refine ⟨fun pairs' reordered => ⟨?_, fun env env' defined defined' => ?_⟩,
    fun distinct pairs' => reordered_of_nodup distinct, fun pairs' => exists_error_iff⟩
  · simp only [exists_ofList_iff, reordered.perm.mem_iff]
  · have same := get?_ofList_reordered reordered defined defined'
    exact ⟨beq_iff.mpr same, same, size_eq_of_get? same,
      fun e => Expression.simplify_congr fun x _ => find?_eq_of_get? same x⟩

/-- Two values of one name, with another name between them or before them: the last one is read.
And a list of different names that is refused for the same pair at its start and at its end. -/
theorem ofList_reordered_exchanged :
    let one : Double := Number.one.toDouble
    let zero : Double := .finite true .zero
    let pairs := [("x", one), ("y", zero), ("x", zero)]
    let pairs' := [("y", zero), ("x", one), ("x", zero)]
    let refused := [("x1", zero), ("y", .nan), ("z", zero)]
    Reordered pairs pairs' ∧
    (∃ env env', ofList pairs = .ok env ∧ ofList pairs' = .ok env' ∧ (env == env') = true ∧
      env.get? "x" = some .zero ∧ env'.get? "x" = some .zero) ∧
    Reordered refused refused.reverse ∧ (∃ e, ofList refused.reverse = .error e) := by
  intro one zero pairs pairs' refused
  have reordered : Reordered pairs pairs' := by
    refine ⟨.swap _ _ _, fun name => ?_⟩
    by_cases own : "x" = name
    · subst own
      rfl
    · simp [pairs, pairs', List.filter_cons, own]
  obtain ⟨both, equal⟩ := (ofList_reordered pairs).1 pairs' reordered
  have computed : (do return (← ofList pairs).get? "x") = .ok (some .zero) := by decide +kernel
  obtain ⟨env, defined, read⟩ := bind_eq_ok.mp computed
  have last : env.get? "x" = some .zero := Except.ok.inj read
  obtain ⟨env', defined'⟩ := both.mp ⟨env, defined⟩
  obtain ⟨alike, same, -⟩ := equal env env' defined defined'
  obtain ⟨-, distinct, unfit⟩ := ofList_reordered refused
  have perm : refused.Perm refused.reverse := refused.reverse_perm.symm
  refine ⟨reordered, ⟨env, env', defined, defined', alike, last, (same "x").symm.trans last⟩,
    distinct (by decide) _ perm, (unfit _ perm).mpr ⟨"y", .nan, by simp [refused], ?_⟩⟩
  rintro ⟨-, q, finite, -⟩
  cases finite

end SumProduct.Environment
