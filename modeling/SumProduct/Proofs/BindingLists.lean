import SumProduct.Proofs.BindingTexts
import SumProduct.Proofs.Definitions

/-!
# Lists of bindings

A list of binding texts makes an environment, or nothing of it is kept. The first text that spells
no binding is told before anything that is wrong with a name or a value, wherever that stands. If
all texts spell bindings, the first one that is unfit is told. Otherwise each name has the value of
the last text that binds it (`Request.environment_of_texts`).

A session tells each of these failures before it misses an expression, and stays as it is.
-/

namespace SumProduct

open Text

/-! ## Bindings that are defined in order -/

namespace Environment

/-- The binding may be defined. -/
def FitBinding (b : Binding) : Prop := Fit b.name b.value

/-- What is told of the first binding that is unfit. -/
def FirstUnfit (bindings : List Binding) (e : InvalidValue) : Prop :=
  ∃ before b after, bindings = before ++ b :: after ∧ (∀ c ∈ before, FitBinding c) ∧
    Unfit b.name b.value e

/-- The value of the last binding of a name, with minus zero as zero. -/
def LastBound (bindings : List Binding) (name : String) (d : Double) : Prop :=
  ∃ before b later, bindings = before ++ b :: later ∧ b.name = name ∧
    (∀ c ∈ later, c.name ≠ name) ∧ d = b.value.unsignedZero

section Bindings

variable {bindings : List Binding} {env : Environment} {e : InvalidValue} {name : String}

theorem fit_pairs_iff : (∀ name value, (name, value) ∈ bindings.map (fun b => (b.name, b.value)) →
    Fit name value) ↔ ∀ b ∈ bindings, FitBinding b := by
  constructor
  · exact fun fit b mem => fit b.name b.value (List.mem_map_of_mem mem)
  · intro fit name value mem
    obtain ⟨b, among, ⟨⟩⟩ := List.mem_map.mp mem
    exact fit b among

/-- A pair among those of some bindings is that of one of them. -/
theorem exists_split_of_pairs {before later : List (String × Double)} {value : Double}
    (split : bindings.map (fun b => (b.name, b.value)) = before ++ (name, value) :: later) :
    ∃ front back, bindings = front ++ ⟨name, value⟩ :: back ∧
      before = front.map (fun b => (b.name, b.value)) ∧
      later = back.map (fun b => (b.name, b.value)) := by
  obtain ⟨front, rest, rfl, rfl, behind⟩ := List.map_eq_append_iff.mp split
  obtain ⟨b, back, rfl, ⟨⟩, rfl⟩ := List.map_eq_cons_iff.mp behind
  exact ⟨front, back, rfl, rfl, rfl⟩

theorem ofBindings_eq_ok_iff : ofBindings bindings = .ok env ↔ (∀ b ∈ bindings, FitBinding b) ∧
    env = empty.afterCalls (bindings.map fun b => (b.name, b.value)) :=
  defineAll_eq_ok_iff.trans (and_congr_left' fit_pairs_iff)

theorem ofBindings_eq_error_iff : ofBindings bindings = .error e ↔ FirstUnfit bindings e := by
  refine defineAll_eq_error_iff.trans ?_
  constructor
  · rintro ⟨before, name, value, later, split, fit, unfit⟩
    obtain ⟨before, later, rfl, rfl, rfl⟩ := exists_split_of_pairs split
    exact ⟨before, _, later, rfl, fit_pairs_iff.mp fit, unfit⟩
  · rintro ⟨before, b, later, rfl, fit, unfit⟩
    exact ⟨_, b.name, b.value, _, List.map_append, fit_pairs_iff.mpr fit, unfit⟩

theorem get?_ofBindings (defined : ofBindings bindings = .ok env) {d : Double} :
    (env.get? name).map Number.toDouble = some d ↔ LastBound bindings name d := by
  obtain ⟨fit, rfl⟩ := ofBindings_eq_ok_iff.mp defined
  rw [get?_afterCalls]
  constructor
  · rintro ⟨value, ⟨before, later, split, -, last⟩, rfl⟩
    obtain ⟨before, later, rfl, rfl, rfl⟩ := exists_split_of_pairs split
    refine ⟨before, _, later, rfl, rfl, fun c mem same => ?_, rfl⟩
    -- Each call is fit, so a later one of the name would be the last.
    have among : (name, c.value) ∈ later.map fun b => (b.name, b.value) :=
      List.mem_map.mpr ⟨c, mem, by rw [same]⟩
    have own : FitBinding c := fit c (by simp [mem])
    exact last c.value among (same ▸ own)
  · rintro ⟨before, b, later, rfl, rfl, last, rfl⟩
    refine ⟨b.value, ⟨_, _, List.map_append, fit b (by simp), fun other mem => ?_⟩, rfl⟩
    obtain ⟨c, among, same⟩ := List.mem_map.mp mem
    exact absurd (Prod.mk.inj same).1 (last c among)

theorem get?_ofBindings_eq_none (defined : ofBindings bindings = .ok env) :
    env.get? name = none ↔ ∀ b ∈ bindings, b.name ≠ name := by
  obtain ⟨fit, rfl⟩ := ofBindings_eq_ok_iff.mp defined
  rw [Option.eq_none_iff_forall_ne_some, ← not_exists, exists_get?_iff]
  constructor
  · rintro none b mem rfl
    exact none ⟨b.value, List.mem_map_of_mem mem, fit b mem⟩
  · rintro others ⟨value, mem, -⟩
    obtain ⟨b, among, same⟩ := List.mem_map.mp mem
    exact others b among (Prod.mk.inj same).1

end Bindings

end Environment

/-! ## Texts that are read in order -/

namespace Request

open Environment

/-- The first text that spells no binding. -/
def FirstMalformed (texts : List String) (text : String) : Prop :=
  ∃ before after, texts = before ++ text :: after ∧ Binding.Malformed text ∧
    ∀ other ∈ before, ¬Binding.Malformed other

section Texts

variable {texts : List String} {bindings : List Binding} {e : RequestError} {env : Environment}

theorem not_malformed_iff {text : String} :
    ¬Binding.Malformed text ↔ ∃ b, binding text = .ok b := by
  simp only [Binding.Malformed, not_forall, not_not, binding_eq_ok_iff]

/-- The texts are read if they spell the bindings one by one. -/
theorem mapM_binding_eq_ok_iff :
    texts.mapM binding = .ok bindings ↔ List.Forall₂ Binding.Spells texts bindings := by
  simp only [mapM_eq_ok_iff, ← List.forall₂_eq_eq_eq, List.forall₂_map_left_iff,
    List.forall₂_map_right_iff, binding_eq_ok_iff]

theorem mapM_binding_eq_error_iff : texts.mapM binding = .error e ↔
    ∃ text, FirstMalformed texts text ∧ e = .malformedBinding text := by
  simp only [mapM_eq_error_iff, binding_eq_error_iff, ← not_malformed_iff]
  constructor
  · rintro ⟨before, text, after, split, read, rfl, malformed⟩
    exact ⟨text, ⟨before, after, split, malformed, read⟩, rfl⟩
  · rintro ⟨text, ⟨before, after, split, malformed, read⟩, rfl⟩
    exact ⟨before, text, after, split, read, rfl, malformed⟩

/-- Texts that spell bindings are defined after all of them have been read. -/
theorem environment_of_spells (spelled : List.Forall₂ Binding.Spells texts bindings) :
    environment texts = (ofBindings bindings).mapError .value := by
  rw [environment, mapM_binding_eq_ok_iff.mpr spelled]
  rfl

theorem not_malformed_of_spells (spelled : List.Forall₂ Binding.Spells texts bindings)
    {text : String} (mem : text ∈ texts) : ¬Binding.Malformed text := by
  induction spelled with
  | nil => cases mem
  | cons first _ ih =>
    rcases List.mem_cons.mp mem with rfl | later
    · exact fun malformed => malformed _ first
    · exact ih later

theorem exists_firstMalformed (malformed : ∃ text ∈ texts, Binding.Malformed text) :
    ∃ text, FirstMalformed texts text ∧ environment texts = .error (.malformedBinding text) := by
  obtain ⟨text, mem, malformed⟩ := malformed
  cases read : texts.mapM binding with
  | error e =>
    obtain ⟨first, isFirst, rfl⟩ := mapM_binding_eq_error_iff.mp read
    exact ⟨first, isFirst, bind_eq_error.mpr (.inl read)⟩
  | ok bindings =>
    exact absurd malformed (not_malformed_of_spells (mapM_binding_eq_ok_iff.mp read) mem)

theorem exists_spells (wellFormed : ∀ text ∈ texts, ¬Binding.Malformed text) :
    ∃ bindings, List.Forall₂ Binding.Spells texts bindings := by
  cases read : texts.mapM binding with
  | ok bindings => exact ⟨bindings, mapM_binding_eq_ok_iff.mp read⟩
  | error e =>
    obtain ⟨text, ⟨before, after, rfl, malformed, -⟩, rfl⟩ := mapM_binding_eq_error_iff.mp read
    exact absurd malformed (wellFormed text (by simp))

theorem exists_firstUnfit (spelled : List.Forall₂ Binding.Spells texts bindings)
    (unfit : ∃ b ∈ bindings, ¬FitBinding b) :
    ∃ e, FirstUnfit bindings e ∧ environment texts = .error (.value e) := by
  rw [environment_of_spells spelled]
  cases defined : ofBindings bindings with
  | error e => exact ⟨e, ofBindings_eq_error_iff.mp defined, rfl⟩
  | ok env =>
    obtain ⟨b, mem, unfit⟩ := unfit
    exact absurd ((ofBindings_eq_ok_iff.mp defined).1 b mem) unfit

theorem exists_environment (spelled : List.Forall₂ Binding.Spells texts bindings)
    (fit : ∀ b ∈ bindings, FitBinding b) :
    ∃ env, environment texts = .ok env ∧ ∀ name,
      (∀ d, (env.get? name).map Number.toDouble = some d ↔ LastBound bindings name d) ∧
      (env.get? name = none ↔ ∀ b ∈ bindings, b.name ≠ name) := by
  rw [environment_of_spells spelled]
  have defined := ofBindings_eq_ok_iff.mpr ⟨fit, rfl⟩
  rw [defined]
  exact ⟨_, rfl, fun name => ⟨fun d => get?_ofBindings defined, get?_ofBindings_eq_none defined⟩⟩

end Texts

/-! ## Sessions -/

section Sessions

variable {s : Session} {line : String} {texts : List String}

theorem handle_eq_noExpression_iff (reads : Line.Reads line (.simplify texts)) :
    (s.handle line).2 = .error .noExpression ↔
      (∃ env, environment texts = .ok env) ∧ s.current = none := by
  constructor
  · intro failed
    obtain ⟨parsed, kind, -, fails⟩ := Session.fails_of_handle failed
    rw [Line.ofText_eq_iff.mpr reads] at kind
    subst kind
    cases fails with
    | simplify defined missing => exact ⟨⟨_, defined⟩, missing⟩
  · rintro ⟨⟨env, defined⟩, missing⟩
    rw [Session.handle_of_fails reads (.simplify defined missing)]

end Sessions

/-- Binding texts make an environment or have one error, in a fixed order. If some text spells no
binding, the first such text is the error, whatever names and values the texts in front of it have.
Otherwise, if the name or the value of some binding is unfit, the error is that of the first such
binding. Otherwise there is an environment, in which each name has the value of the last text that
binds it and no other name has one. A session tells each of these errors before it misses an
expression, and stays as it is, also when it is changed in place. -/
theorem environment_of_texts (texts : List String) :
    ((∃ text ∈ texts, Binding.Malformed text) →
      ∃ text, FirstMalformed texts text ∧ environment texts = .error (.malformedBinding text)) ∧
    ((∀ text ∈ texts, ¬Binding.Malformed text) →
      ∃ bindings, List.Forall₂ Binding.Spells texts bindings ∧
        ((∃ b ∈ bindings, ¬FitBinding b) →
          ∃ e, FirstUnfit bindings e ∧ environment texts = .error (.value e)) ∧
        ((∀ b ∈ bindings, FitBinding b) →
          ∃ env, environment texts = .ok env ∧ ∀ name,
            (∀ d, (env.get? name).map Number.toDouble = some d ↔ LastBound bindings name d) ∧
            (env.get? name = none ↔ ∀ b ∈ bindings, b.name ≠ name))) ∧
    ∀ (s : Session) (line : String), Line.Reads line (.simplify texts) →
      (∀ e, environment texts = .error e →
        s.handle line = (s, .error (.request e)) ∧
        (Session.handleInPlace line).run s = (.error (.request e), s)) ∧
      ((s.handle line).2 = .error .noExpression ↔
        (∃ env, environment texts = .ok env) ∧ s.current = none) := by
  refine ⟨exists_firstMalformed, fun wellFormed => ?_, fun s line reads => ⟨fun e failed => ?_, ?_⟩⟩
  · obtain ⟨bindings, spelled⟩ := exists_spells wellFormed
    exact ⟨bindings, spelled, exists_firstUnfit spelled, exists_environment spelled⟩
  · have handled : s.handle line = (s, .error (.request e)) :=
      Session.handle_of_fails reads (.bindings failed)
    exact ⟨handled, by rw [Session.run_handleInPlace, handled]⟩
  · exact handle_eq_noExpression_iff reads

/-- A malformed text behind two unfit bindings, these two alone, and a name that is bound twice. -/
theorem environment_of_texts_mixed :
    let line := "!simplify y=-1 x1=2 z w"
    FirstMalformed ["y=-1", "x1=2", "z", "w"] "z" ∧
    Session.start.handle line = (.start, .error (.request (.malformedBinding "z"))) ∧
    (Session.handleInPlace line).run .start = (.error (.request (.malformedBinding "z")), .start) ∧
    (∃ e, environment ["y=-1", "x1=2"] = .error (.value e)) ∧
    ∃ env, environment ["x=1", "y=-0", "x=0"] = .ok env ∧
      (env.get? "x").map Number.toDouble = some (.finite false .zero) ∧ env.get? "z" = none := by
  intro line
  let minusOne : Double := .finite true .one
  let two : Number := ⟨1024 * 2 ^ 52, by rw [rankLimit_eq]; decide⟩
  let bound : List Binding :=
    [⟨"x", Number.one.toDouble⟩, ⟨"y", .finite true .zero⟩, ⟨"x", .finite false .zero⟩]
  have malformed : Binding.Malformed "z" :=
    (binding_eq_error_iff.mp
      (show binding "z" = .error (.malformedBinding "z") by decide +kernel)).2
  have reads : Line.Reads line (.simplify ["y=-1", "x1=2", "z", "w"]) :=
    Line.ofText_eq_iff.mp (by decide +kernel)
  have handled : Session.start.handle line =
      (.start, .error (.request (.malformedBinding "z"))) := by decide +kernel
  have unfit : ["y=-1", "x1=2"].mapM binding =
      .ok [⟨"y", minusOne⟩, ⟨"x1", two.toDouble⟩] := by decide +kernel
  have fit : ["x=1", "y=-0", "x=0"].mapM binding = .ok bound := by decide +kernel
  obtain ⟨text, first, failed⟩ :=
    (environment_of_texts ["y=-1", "x1=2", "z", "w"]).1 ⟨"z", by simp, malformed⟩
  obtain ⟨told, inPlace⟩ := ((environment_of_texts _).2.2 .start line reads).1 _ failed
  obtain rfl : "z" = text := by
    rw [handled] at told
    cases told
    rfl
  refine ⟨first, told, inPlace, ?_, ?_⟩
  · obtain ⟨bindings, spelled, refused, -⟩ := (environment_of_texts ["y=-1", "x1=2"]).2.1
      fun text mem => not_malformed_of_spells (mapM_binding_eq_ok_iff.mp unfit) mem
    rw [← mapM_binding_eq_ok_iff, unfit] at spelled
    cases spelled
    obtain ⟨e, -, failed⟩ := refused ⟨⟨"y", minusOne⟩, by simp, fun ⟨_, q, value, nonneg⟩ => by
      cases value
      simp at nonneg
      linarith⟩
    exact ⟨e, failed⟩
  · obtain ⟨bindings, spelled, -, defined⟩ := (environment_of_texts ["x=1", "y=-0", "x=0"]).2.1
      fun text mem => not_malformed_of_spells (mapM_binding_eq_ok_iff.mp fit) mem
    rw [← mapM_binding_eq_ok_iff, fit] at spelled
    obtain rfl : bound = bindings := Except.ok.inj spelled
    have x : Variable.IsName "x" := ⟨by simp, by simp⟩
    have y : Variable.IsName "y" := ⟨by simp, by simp⟩
    have fits : ∀ b ∈ bound, FitBinding b := List.forall_mem_cons.mpr
      ⟨⟨x, _, rfl, Number.one.toRat_nonneg⟩, List.forall_mem_cons.mpr
        ⟨⟨y, _, rfl, by simp⟩, List.forall_mem_singleton.mpr
          ⟨x, _, rfl, Number.zero.toRat_nonneg⟩⟩⟩
    obtain ⟨env, made, reads⟩ := defined fits
    refine ⟨env, made, ((reads "x").1 _).mpr ?_, (reads "z").2.mpr (by simp [bound])⟩
    exact ⟨[_, _], _, [], rfl, rfl, by simp, by decide +kernel⟩

end Request

end SumProduct
