import SumProduct.CommandLine.Run
import SumProduct.Proofs.ByteLines
import SumProduct.Proofs.CommandLines
import SumProduct.Proofs.Definitions
import SumProduct.Proofs.OneLine
import SumProduct.Proofs.Requests

/-!
# Outcomes of command lines

A well-formed command line goes through three layers: its bindings are read, its expression is
loaded, and the request is carried out. The first layer that finds a fault ends the run, with a
status of its own. Within a request the order differs: `simplify` defines its bindings before it
reads the expression, and `differentiate` reads the expression before it looks at the variable.

Results:
1. `Task.answered`: what a task prints for a text, and with which status it ends.
2. `run_of_asks`: the outcome of each well-formed command line.
-/

namespace SumProduct

open Text

/-! ## Lines of tokens -/

theorem Text.oneLine_ofList {text : List Char} (line : ∀ c ∈ text, c ≠ '\n') :
    OneLine (String.ofList text) := by
  unfold OneLine
  rw [String.toList_ofList]
  exact fun feed => line '\n' feed rfl

theorem Text.oneLine_toString (n : Nat) : OneLine (toString n) := by
  have digits : ∀ c ∈ Nat.toDigits 10 n, c ≠ '\n' := by
    rintro c mem rfl
    cases isDigit_of_mem_toDigits _ mem
  exact oneLine_ofList digits

theorem Decimal.not_feed_of_mem_pointed (d : Decimal) : ∀ c ∈ d.pointed, c ≠ '\n' := by
  intro c mem
  unfold pointed at mem
  split at mem
  · rcases List.mem_append.mp mem with digit | zero
    · exact d.not_feed_of_mem_plain c digit
    · rintro rfl
      simp at zero
  · exact d.not_feed_of_mem_plain c mem

theorem Token.oneLine_display {text : String} {token : Token} (mem : .ok token ∈ scan text) :
    OneLine token.display := by
  obtain ⟨before, lexeme, after, -, cut⟩ := exists_cut_of_mem_scan mem
  have literal : OneLine token.literal := by
    have spelled : token.literal = String.ofList lexeme := by cases cut <;> rfl
    rw [spelled]
    exact oneLine_of_visible cut.visible
  have classed {name : String} (named : OneLine name) :
      OneLine (name ++ token.literal ++ " null") := (named.append literal).append (by decide)
  unfold display
  split
  · exact classed (by decide)
  · exact classed (by decide)
  · exact classed (by decide)
  · exact classed (by decide)
  · exact classed (by decide)
  · next value _ =>
    have number := oneLine_ofList value.shortest.not_feed_of_mem_pointed
    exact ((OneLine.append (by decide) literal).append (by decide)).append number

namespace CommandLine

/-! ## Kinds of outcomes -/

namespace Outcome

/-- The run ends with the status and prints nothing on standard output. -/
structure Fails (outcome : Outcome) (status : Nat) : Prop where
  status : outcome.status = status
  output : outcome.output = ""

/-- The run succeeds and prints exactly one line. -/
structure Shows (outcome : Outcome) (line : String) : Prop where
  outcome : outcome = success (line ++ "\n")
  oneLine : OneLine line

/-- The first line of what is told of a syntax error in a text. -/
def errorLine (text : String) (e : SyntaxError) : String :=
  "[line " ++ toString (e.line text.toList) ++ "] Error: " ++ e.diagnostic.message

/-- The run ends with a syntax error in a text, behind some output. -/
structure Refuses (outcome : Outcome) (text output : String) (e : SyntaxError) : Prop where
  status : outcome.status = 65
  output : outcome.output = output
  errors : ∃ more, outcome.errors = errorLine text e ++ "\n" ++ more
  oneLine : OneLine (errorLine text e)

end Outcome

/-- A line for each token. -/
def tokenLines (tokens : List Token) : String :=
  String.join (tokens.map fun token => token.display ++ "\n")

/-- The binding has the right form, but its name is no name or its value is not finite or negative.
-/
def UnfitBinding (text : String) : Prop :=
  ∃ b, Binding.ofText? text = some b ∧ ¬Environment.Fit b.name b.value

/-- What the outcome of a task on a text has to be, where all bindings have the right form. -/
def Task.Answered (text : String) (outcome : Outcome) : Task → Prop
  | tokenize =>
    (∀ token, .ok token ∈ Token.scan text → OneLine token.display) ∧
    (∀ tokens, Token.scan text = tokens.map .ok →
      outcome = .success (tokenLines tokens ++ "EOF  null\n")) ∧
    ∀ tokens e rest, Token.scan text = tokens.map .ok ++ .error e :: rest →
      outcome.Refuses text (tokenLines tokens) e
  | parse =>
    (∀ e, Expression.parse text = .ok e → outcome.Shows e.text) ∧
    ∀ e, Expression.parse text = .error e → outcome.Refuses text "" e
  | differentiate name =>
    (∀ e, Expression.parse text = .error e → outcome.Refuses text "" e) ∧
    ∀ e, Expression.parse text = .ok e →
      (¬Variable.IsName name → outcome.Fails 1) ∧
      (Variable.IsName name →
        ∃ shown, Request.derivative text name = .ok shown ∧ outcome.Shows shown)
  | simplify bindings =>
    ((∃ binding ∈ bindings, UnfitBinding binding) → outcome.Fails 1) ∧
    ((∀ binding ∈ bindings, ¬UnfitBinding binding) →
      ∃ env, Request.environment bindings = .ok env ∧
        (∀ e, Expression.parse text = .error e → outcome.Refuses text "" e) ∧
        ∀ e, Expression.parse text = .ok e →
          ∃ shown, Request.simplified text env = .ok shown ∧ outcome.Shows shown)

/-! ### Outcomes of results -/

section Results

variable {text output shown : String} {e : SyntaxError}

theorem shows_ofResult (line : OneLine shown) : (Outcome.ofResult text (.ok shown)).Shows shown :=
  ⟨rfl, line⟩

theorem fails_ofResult (cause : InvalidValue) :
    (Outcome.ofResult text (.error (.value cause))).Fails 1 :=
  ⟨rfl, rfl⟩

theorem refuses_syntaxError (line : OneLine e.diagnostic.message) :
    (Outcome.syntaxError text output e).Refuses text output e := by
  refine ⟨rfl, rfl, ⟨_, rfl⟩, ?_⟩
  exact ((OneLine.append (by decide) (oneLine_toString _)).append (by decide)).append line

theorem refuses_ofResult (failed : Expression.parse text = .error e) :
    (Outcome.ofResult text (.error (.expression e))).Refuses text "" e :=
  refuses_syntaxError (oneLine_of_parse failed)

end Results

/-! ## Bindings -/

section Bindings

variable {texts : List String} {bindings : List Binding}

theorem binding_eq_ok_iff (text : String) (b : Binding) :
    Request.binding text = .ok b ↔ Binding.ofText? text = some b := by
  unfold Request.binding
  cases Binding.ofText? text <;> simp

theorem Read.environment (read : Read texts bindings) :
    Request.environment texts = (Environment.ofBindings bindings).mapError .value := by
  rw [Request.environment, (mapM_eq_ok_iff_read binding_eq_ok_iff).mpr read]
  rfl

theorem Read.mem_iff (read : Read texts bindings) {b : Binding} :
    b ∈ bindings ↔ ∃ text ∈ texts, Binding.ofText? text = some b := by
  rw [← List.mem_map, read, List.mem_map_of_injective (Option.some_injective _)]

/-- The bindings are defined if all of them are fit. -/
theorem Read.exists_environment_iff (read : Read texts bindings) :
    (∃ env, Environment.ofBindings bindings = .ok env) ↔ ∀ text ∈ texts, ¬UnfitBinding text := by
  constructor
  · rintro ⟨env, defined⟩ text mem ⟨b, spelled, unfit⟩
    have among := read.mem_iff.mpr ⟨text, mem, spelled⟩
    exact unfit ((Environment.defineAll_eq_ok_iff.mp defined).1 _ _ (List.mem_map_of_mem among))
  · intro fit
    refine ⟨_, Environment.defineAll_eq_ok_iff.mpr ⟨fun name value mem => ?_, rfl⟩⟩
    obtain ⟨b, among, ⟨⟩⟩ := List.mem_map.mp mem
    obtain ⟨text, given, spelled⟩ := read.mem_iff.mp among
    by_contra unfit
    exact fit text given ⟨b, spelled, unfit⟩

end Bindings

/-! ## Tasks on a text -/

section Tasks

variable {text : String}

/-- What is listed are the tokens in front of the first error, and that error. -/
@[simp] theorem listing_append (tokens : List Token) (rest : List Item) :
    listing (tokens.map .ok ++ rest) =
      (tokens.map (·.display ++ "\n") ++ (listing rest).1, (listing rest).2) := by
  induction tokens with
  | nil => rfl
  | cons token tokens ih =>
    rw [List.map_cons, List.cons_append, listing, ih]
    rfl

theorem answered_tokenize (text : String) : Task.tokenize.Answered text (listTokens text) := by
  refine ⟨fun token => Token.oneLine_display, fun tokens items => ?_, fun tokens e rest items => ?_⟩
  · have listed := listing_append tokens []
    rw [List.append_nil, ← items] at listed
    rw [listTokens, listed]
    simp [listing, tokenLines]
  · have line : OneLine e.diagnostic.message := by
      have mem : .error e ∈ Token.scan text := by simp [items]
      obtain ⟨before, lexeme, after, -, cut⟩ := Token.exists_cut_of_mem_scan mem
      exact oneLine_of_cut cut
    have listed := listing_append tokens (.error e :: rest)
    rw [← items] at listed
    rw [listTokens, listed]
    simpa [listing, tokenLines] using refuses_syntaxError line

theorem answered_parse (text : String) : Task.parse.Answered text
    (.ofResult text ((Request.expression text).map Expression.text)) := by
  refine ⟨fun e parsed => ?_, fun e failed => ?_⟩
  · rw [Request.expression_eq_ok parsed]
    exact shows_ofResult e.oneLine_text
  · rw [Request.expression, failed]
    exact refuses_ofResult failed

theorem answered_differentiate (text name : String) : (Task.differentiate name).Answered text
    (.ofResult text (Request.derivative text name)) := by
  refine ⟨fun e failed => ?_, fun e parsed => ⟨fun unnamed => ?_, fun named => ?_⟩⟩
  · rw [Request.derivative, Request.expression, failed]
    exact refuses_ofResult failed
  · cases refused : Variable.ofName name with
    | ok x => exact absurd (Variable.exists_ofName_iff.mp ⟨x, refused⟩) unnamed
    | error cause =>
      rw [Request.derivative, Request.expression_eq_ok parsed, refused]
      exact fails_ofResult cause
  · obtain ⟨x, named⟩ := Variable.exists_ofName_iff.mpr named
    rw [Request.derivative_eq_ok parsed named]
    exact ⟨_, rfl, shows_ofResult (Expression.oneLine_text _)⟩

theorem answered_simplify {texts : List String} {bindings : List Binding}
    (read : Read texts bindings) : (Task.simplify texts).Answered text
      (.ofResult text (simplifyWith text bindings)) := by
  -- The bindings are defined first, so an unfit one hides any fault of the text.
  refine ⟨fun ⟨given, mem, unfit⟩ => ?_, fun fit => ?_⟩
  · cases defined : Environment.ofBindings bindings with
    | ok env => exact absurd unfit (read.exists_environment_iff.mp ⟨env, defined⟩ given mem)
    | error cause =>
      rw [simplifyWith, defined]
      exact fails_ofResult cause
  · obtain ⟨env, defined⟩ := read.exists_environment_iff.mpr fit
    have requested : Request.environment texts = .ok env := by
      rw [read.environment, defined]
      rfl
    have simplified : simplifyWith text bindings = Request.simplified text env := by
      rw [simplifyWith, defined]
      rfl
    rw [simplified]
    refine ⟨env, requested, fun e failed => ?_, fun e parsed => ?_⟩
    · rw [Request.simplified, Request.expression, failed]
      exact refuses_ofResult failed
    · rw [Request.simplified_eq_ok parsed env]
      exact ⟨_, rfl, shows_ofResult (Expression.oneLine_text _)⟩

end Tasks

/-! ## Command lines -/

/-- The source has this text: it is given on the command line, or it is the UTF-8 that a file holds.
-/
inductive Source.Holds (world : World) : Source → String → Prop
  | text {expression : String} : Holds world (.text expression) expression
  | file {path expression : String} : world.file? path = some expression.toUTF8 →
      Holds world (.file path) expression

section Running

variable {world : World} {source : Source} {text : String} {action : String → Outcome}

theorem fromUTF8?_bytes {bytes : ByteArray} :
    String.fromUTF8? bytes = some text ↔ bytes = text.toUTF8 := by
  have read := @fromUTF8?_eq_some_iff text bytes.data.toList
  rw [Array.toArray_toList, utf8, Array.toList_inj] at read
  exact read.trans ByteArray.ext_iff.symm

theorem Source.load?_eq_some_iff : source.load? world = some text ↔ source.Holds world text := by
  cases source with
  | text expression =>
    constructor
    · rintro ⟨⟩
      exact .text
    · rintro ⟨⟩
      rfl
  | file path =>
    have loaded : load? (.file path) world = some text ↔ world.file? path = some text.toUTF8 := by
      simp [load?, Option.bind_eq_some_iff, fromUTF8?_bytes]
    rw [loaded]
    exact ⟨.file, fun (.file held) => held⟩

theorem Source.run_of_holds (holds : source.Holds world text) :
    source.run world action = action text := by
  rw [run, load?_eq_some_iff.mpr holds]

theorem Source.fails_run (unread : ¬∃ text, source.Holds world text) :
    (source.run world action).Fails 1 := by
  cases loaded : source.load? world with
  | some text => exact absurd ⟨text, load?_eq_some_iff.mp loaded⟩ unread
  | none =>
    rw [run, loaded]
    exact ⟨rfl, rfl⟩

variable {task : Task} {bindings : List Binding}

theorem Task.fails_run (unread : ¬∃ text, source.Holds world text) :
    ((task.command source bindings).run world).Fails 1 := by
  cases task <;> exact Source.fails_run unread

theorem Task.answered_run (read : Read task.bindings bindings) (holds : source.Holds world text) :
    task.Answered text ((task.command source bindings).run world) := by
  cases task with
  | tokenize =>
    rw [command, Command.run, Source.run_of_holds holds]
    exact answered_tokenize text
  | parse =>
    rw [command, Command.run, Source.run_of_holds holds]
    exact answered_parse text
  | differentiate name =>
    rw [command, Command.run, Source.run_of_holds holds]
    exact answered_differentiate text name
  | simplify texts =>
    rw [command, Command.run, Source.run_of_holds holds]
    exact answered_simplify read

end Running

/-- A well-formed command line with a malformed binding ends with 2 whatever its expression is.
Otherwise it ends with 1 if its expression cannot be loaded, and with the outcome of its task on the
text if it can. -/
theorem run_of_asks {task : Task} {source : Source} {arguments : List String}
    (asks : task.Asks source arguments) (world : World) :
    ((∃ binding ∈ task.bindings, Binding.ofText? binding = none) →
      (run world arguments).Fails 2) ∧
    ((∀ binding ∈ task.bindings, Binding.ofText? binding ≠ none) →
      ((¬∃ text, source.Holds world text) → (run world arguments).Fails 1) ∧
      ∀ text, source.Holds world text → task.Answered text (run world arguments)) := by
  have invocation := ofArguments_of_asks asks
  -- Bindings are read with the arguments, so a malformed one ends the run before a file is opened.
  refine ⟨fun ⟨binding, mem, malformed⟩ => ?_, fun formed => ?_⟩
  · cases result : task.bindings.mapM readBinding with
    | ok bindings =>
      have read := (mapM_eq_ok_iff_read readBinding_eq_ok_iff).mp result
      exact absurd malformed (exists_read_iff.mp ⟨bindings, read⟩ binding mem)
    | error e =>
      rw [result] at invocation
      rw [run, invocation]
      exact ⟨rfl, rfl⟩
  · obtain ⟨bindings, read⟩ := exists_read_iff.mpr formed
    have started : run world arguments = (task.command source bindings).run world := by
      rw [run, invocation, (mapM_eq_ok_iff_read readBinding_eq_ok_iff).mpr read]
      rfl
    rw [started]
    exact ⟨Task.fails_run, fun text => Task.answered_run read⟩

/-- Command lines with several faults at once: a malformed binding, an unfit one and a file that
cannot be read; an unfit binding and a syntax error; a syntax error and a name that is none. Then a
file with a token in front of a stray character is listed. The last one has no fault. -/
theorem run_of_asks_faults :
    let world : World := ⟨fun path => if path = "a" then some "x\n$".toUTF8 else none, .empty⟩
    (run world ["simplify", "--let=x=-1", "-f", "b", "--let", "y"]).Fails 2 ∧
    (run world ["simplify", "--let=x=-1", "-f", "b"]).Fails 1 ∧
    (run world ["simplify", "--let=x=-1", "--", "x *"]).Fails 1 ∧
    (run world ["differentiate", "x *", "--by", "x2"]).Refuses "x *" "" (.unexpectedEnd 3) ∧
    (run world ["tokenize", "-fa"]).Refuses "x\n$" "IDENTIFIER x null\n"
      (.unexpectedCharacter '$' 2) ∧
    (run world ["simplify", "--let=x=2", "x*x + y"]).Shows "(4.0000 + y)" := by
  intro world
  have unfit : UnfitBinding "x=-1" := by
    have negative : Number.Unfit (.finite true .one) _ :=
      .negative rfl (by simp)
    have refused : Environment.Unfit "x" (.finite true .one) _ :=
      .value ⟨by simp, by simp⟩ negative
    exact ⟨⟨"x", .finite true .one⟩, by decide +kernel,
      Environment.exists_unfit_iff.mp ⟨_, refused⟩⟩
  have formed : ∀ binding ∈ ["x=-1"], Binding.ofText? binding ≠ none :=
    List.forall_mem_singleton.mpr (by decide +kernel)
  have below : Piece.Spells (.setting .binding "x=-1") ["--let=x=-1"] := .attached
  have missing : Piece.Spells (.setting .file "b") ["-f", "b"] := .short (by decide)
  have unread : ¬∃ text, Source.Holds world (.file "b") text := by
    rintro ⟨text, held⟩
    cases held with
    | file held => simp [world] at held
  refine ⟨?_, ?_, ?_, ?_, ?_, ?_⟩
  · have other : Piece.Spells (.setting .binding "y") ["--let", "y"] := .separate (by decide)
    have asks : (Task.simplify ["x=-1", "y"]).Asks (.file "b")
        ["simplify", "--let=x=-1", "-f", "b", "--let", "y"] :=
      .intro rfl (.cons below (.cons missing (.cons other .nil)))
        ⟨rfl, rfl, by simp [Source.paths], rfl, rfl⟩
    exact (run_of_asks asks world).1 ⟨"y", by simp [Task.bindings], rfl⟩
  · have asks : (Task.simplify ["x=-1"]).Asks (.file "b") ["simplify", "--let=x=-1", "-f", "b"] :=
      .intro rfl (.cons below (.cons missing .nil)) ⟨rfl, rfl, by simp [Source.paths], rfl, rfl⟩
    exact ((run_of_asks asks world).2 formed).1 unread
  · have asks : (Task.simplify ["x=-1"]).Asks (.text "x *")
        ["simplify", "--let=x=-1", "--", "x *"] :=
      .intro rfl (.cons below (.separated ["x *"])) ⟨rfl, rfl, by simp [Source.paths], rfl, rfl⟩
    have answered := ((run_of_asks asks world).2 formed).2 _ .text
    exact answered.1 ⟨_, List.mem_singleton_self _, unfit⟩
  · have operand : Piece.Spells (.operand "x *") ["x *"] := .operand (by decide)
    have name : Piece.Spells (.setting .name "x2") ["--by", "x2"] := .separate (by decide)
    have asks : (Task.differentiate "x2").Asks (.text "x *")
        ["differentiate", "x *", "--by", "x2"] :=
      .intro rfl (.cons operand (.cons name .nil)) ⟨rfl, rfl, by simp [Source.paths], rfl, rfl⟩
    have answered := ((run_of_asks asks world).2 (by simp [Task.bindings])).2 _ .text
    exact answered.1 _ (by decide +kernel)
  · have file : Piece.Spells (.setting .file "a") ["-fa"] := .shortAttached (by simp) (by simp)
    have asks : Task.tokenize.Asks (.file "a") ["tokenize", "-fa"] :=
      .intro rfl (.cons file .nil) ⟨rfl, rfl, by simp [Source.paths], rfl, rfl⟩
    have answered := ((run_of_asks asks world).2 (by simp [Task.bindings])).2 "x\n$" (.file rfl)
    exact answered.2.2 [⟨.ident, "x", 0⟩] _ [] (by decide +kernel)
  · have two : Piece.Spells (.setting .binding "x=2") ["--let=x=2"] := .attached
    have operand : Piece.Spells (.operand "x*x + y") ["x*x + y"] := .operand (by decide)
    have asks : (Task.simplify ["x=2"]).Asks (.text "x*x + y")
        ["simplify", "--let=x=2", "x*x + y"] :=
      .intro rfl (.cons two (.cons operand .nil)) ⟨rfl, rfl, by simp [Source.paths], rfl, rfl⟩
    have formed : ∀ binding ∈ ["x=2"], Binding.ofText? binding ≠ none :=
      List.forall_mem_singleton.mpr (by decide +kernel)
    have answered := ((run_of_asks asks world).2 formed).2 _ .text
    have fit : ¬UnfitBinding "x=2" := by
      rintro ⟨b, spelled, notFit⟩
      obtain ⟨e, unfit⟩ := Environment.exists_unfit_iff.mpr notFit
      have defined : (Binding.ofText? "x=2").map (fun b =>
          (Environment.empty.define b.name b.value).isOk) = some true := by decide +kernel
      rw [spelled, Option.map_some, (Environment.define_eq_error_iff _).mpr unfit] at defined
      cases defined
    obtain ⟨env, defined, -, shows⟩ := answered.2 (List.forall_mem_singleton.mpr fit)
    let x : Variable := ⟨"x", by simp, by simp⟩
    let y : Variable := ⟨"y", by simp, by simp⟩
    have parsed : Expression.parse "x*x + y" = .ok (.sum (.prod (.var x) (.var x)) (.var y)) := by
      decide +kernel
    obtain ⟨shown, simplified, outcome⟩ := shows _ parsed
    have computed : (Request.environment ["x=2"] >>= Request.simplified "x*x + y") =
        .ok "(4.0000 + y)" := by decide +kernel
    rw [defined] at computed
    cases simplified.symm.trans computed
    exact outcome

end CommandLine

end SumProduct
