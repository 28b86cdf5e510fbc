import SumProduct.Proofs.Definitions
import SumProduct.Proofs.PartialEvaluation
import SumProduct.Proofs.Requests

/-!
# Values that are written into a text

A variable can be given a value in an environment, or a number literal can be written in its place
in the text. In an expression neither a name nor a number touches another one, so a literal that
takes the place of a name does not merge with what stands around it, and the items of the text stay
the same but for the names that were replaced (`scanFrom_writeLiterals`). The grammar takes a number
where it takes a name. So both ways give the same result (`literals_are_values`).
-/

namespace SumProduct

open Token Text

/-! ## Literals -/

/-- Digits, or digits with a point and more digits behind it, and the number that they spell. -/
structure Literal where
  whole : List Char
  fraction : List Char
  text : List Char
  value : Number
  numeral : Numeral whole fraction text []
  nearest : (Decimal.ofDigits whole fraction).nearest? = some value

/-- Literals for finitely many variables. The first one for a variable counts. -/
abbrev Literals := List (Variable × Literal)

namespace Literals

/-- The literal for the variable with a name. -/
def get? (literals : Literals) (name : String) : Option Literal :=
  (literals.find? (·.1.name = name)).map Prod.snd

/-- The value of the variable with a name. -/
def value? (literals : Literals) (name : String) : Option Number :=
  (literals.get? name).map Literal.value

end Literals

namespace Token

/-- The token with the literal of its variable in the place of its name, if there is one. -/
def replace (literals : Literals) (token : Token) : Token :=
  match token.kind, literals.get? token.literal with
  | .ident, some w => { token with kind := .number w.value, literal := String.ofList w.text }
  | _, _ => token

/-- What is written for a lexeme that stands for an item. -/
def writeItem (literals : Literals) (lexeme : List Char) : Item → List Char
  | .ok token => (token.replace literals).literal.toList
  | .error _ => lexeme

/-- The text with literals in the places of names. -/
def writeLiterals (literals : Literals) (text : List Char) : List Char :=
  match text with
  | [] => []
  | c :: rest =>
    if c.isWhitespace then c :: writeLiterals literals rest
    else
      let lexeme := (splitLexeme c rest).1
      writeItem literals lexeme (ofLexeme c lexeme 0) ++
        writeLiterals literals (splitLexeme c rest).2
termination_by text.length
decreasing_by
  · simp
  · have := length_splitLexeme_le c rest
    simp
    omega

/-! ## Where an operand ends -/

/-- The token is an operand by itself. -/
def IsOperand (token : Token) : Prop := token.kind = .ident ∨ ∃ v, token.kind = .number v

/-- No name and no number goes on here, not even with a point. -/
def Ends (after : List Char) : Prop :=
  ∀ c ∈ after.head?, c.isWhitespace = true ∨ ∃ kind, (c, kind) ∈ symbols

section Ending

variable {p : Char → Bool} {run whole fraction literal after after' : List Char}

theorem Ends.outside (ends : Ends after) (space : [' ', '\t', '\r', '\n'].all (!p ·) = true)
    (symbol : symbols.all (!p ·.1) = true) : ∀ c ∈ after.head?, p c = false := by
  intro c first
  rcases ends c first with blank | ⟨kind, mem⟩
  · exact not_class_of_isWhitespace blank space
  · exact Bool.eq_false_iff.mpr fun inside => not_mem_symbols_of_class inside symbol kind mem

theorem MaximalRun.ended (maximal : MaximalRun p run after) (ends : Ends after')
    (space : [' ', '\t', '\r', '\n'].all (!p ·) = true)
    (symbol : symbols.all (!p ·.1) = true) : MaximalRun p run after' :=
  ⟨maximal.nonempty, maximal.inside, ends.outside space symbol⟩

/-- A number stays the same number in front of any text that ends it. -/
theorem Numeral.ended (numeral : Numeral whole fraction literal after) (ends : Ends after') :
    Numeral whole fraction literal after' := by
  cases numeral with
  | whole digits _ =>
    refine .whole (digits.ended ends rfl rfl) fun c rest pointed => ?_
    have point := ends.outside (p := (· == '.')) rfl rfl '.' (by simp [pointed])
    cases point
  | pointed digits behind =>
    have point : MaximalRun Char.isDigit whole ('.' :: (fraction ++ after')) :=
      ⟨digits.nonempty, digits.inside, digits.ends⟩
    exact .pointed point (behind.ended ends rfl rfl)

end Ending

/-! ## The items of the written text -/

section Replacing

variable (literals : Literals) {offset : Nat} {lexeme after after' : List Char} {token : Token}

theorem replace_of_some {w : Literal} (ident : token.kind = .ident)
    (found : literals.get? token.literal = some w) :
    token.replace literals =
      { token with kind := .number w.value, literal := String.ofList w.text } := by
  rw [replace, ident, found]

theorem replace_of_none (none : literals.get? token.literal = none) :
    token.replace literals = token := by
  rw [replace, none]
  split
  · next found => cases found
  · rfl

theorem replace_of_ne (other : token.kind ≠ .ident) : token.replace literals = token := by
  rw [replace]
  split
  · next ident _ => exact absurd ident other
  · rfl

theorem ne_ident_of_symbol {c : Char} {kind : TokenKind} (symbol : (c, kind) ∈ symbols) :
    kind ≠ .ident := by
  rintro rfl
  simp [symbols] at symbol

/-- What is written for a token is cut off as the replaced token, where it ends if it has to. -/
theorem Cut.replace (cut : Cut offset lexeme after (.ok token))
    (ends : token.IsOperand → Ends after') (offset' : Nat) :
    Cut offset' (token.replace literals).literal.toList after'
      (.ok { token.replace literals with offset := offset' }) := by
  cases cut with
  | symbol symbol =>
    rw [replace_of_ne literals (ne_ident_of_symbol symbol), String.toList_ofList]
    exact .symbol symbol
  | name word =>
    have ends := ends (.inl rfl)
    cases found : literals.get? (String.ofList lexeme) with
    | some w =>
      rw [replace_of_some literals rfl found, String.toList_ofList]
      exact .number (w.numeral.ended ends) w.nearest
    | none =>
      rw [replace_of_none literals found, String.toList_ofList]
      exact .name (word.ended ends rfl rfl)
  | number numeral value =>
    have ends := ends (.inr ⟨_, rfl⟩)
    rw [replace_of_ne literals (by simp), String.toList_ofList]
    exact .number (numeral.ended ends) value

theorem writeLiterals_space {c : Char} (space : c.isWhitespace = true) (rest : List Char) :
    writeLiterals literals (c :: rest) = c :: writeLiterals literals rest := by
  rw [writeLiterals, if_pos space]

@[simp] theorem writeItem_moveBy (item : Item) (bytes : Nat) :
    writeItem literals lexeme (Item.moveBy item bytes) = writeItem literals lexeme item := by
  cases item with
  | error e => rfl
  | ok token =>
    obtain ⟨kind, literal, offset⟩ := token
    cases kind with
    | ident =>
      simp only [writeItem, Item.moveBy, moveBy, replace]
      cases literals.get? literal <;> rfl
    | leftParen | rightParen | plus | star | number => rfl

/-- What is written for a lexeme does not depend on its place. -/
theorem writeLiterals_cut {item : Item} (cut : Cut offset lexeme after item) :
    writeLiterals literals (lexeme ++ after) =
      writeItem literals lexeme item ++ writeLiterals literals after := by
  obtain ⟨c, others, rfl⟩ := List.exists_cons_of_ne_nil cut.nonempty
  have visible := cut.visible c List.mem_cons_self
  obtain ⟨first, -⟩ := cut.eq_splitLexeme (List.cons_append ..).symm
  -- The lexeme is written as if it stood at offset 0.
  have placed := (cut_splitLexeme 0 (others ++ after) visible).moveBy offset
  rw [first, Nat.zero_add] at placed
  obtain ⟨-, -, rfl⟩ := cut.unique placed rfl
  rw [List.cons_append, writeLiterals, if_neg (by simp [visible]), first, writeItem_moveBy]

/-- What ends an operand is not replaced. -/
theorem Ends.writeLiterals (ends : Ends after) : Ends (writeLiterals literals after) := by
  cases after with
  | nil =>
    rw [Token.writeLiterals]
    exact ends
  | cons c rest =>
    rcases ends c rfl with space | ⟨kind, symbol⟩
    · rw [writeLiterals_space literals space]
      rintro d ⟨⟩
      exact .inl space
    · have cut : Cut 0 [c] rest (.ok ⟨kind, String.ofList [c], 0⟩) := .symbol symbol
      rw [← List.singleton_append, writeLiterals_cut literals cut, writeItem,
        replace_of_ne literals (ne_ident_of_symbol symbol), String.toList_ofList]
      rintro d ⟨⟩
      exact .inr ⟨kind, symbol⟩

end Replacing

end Token

/-! ## The written text -/

namespace Expression

/-- Behind an operand no other one may stand. -/
theorem Place.step_behind_ne_ok {depth : Nat} {token : Token} {next : Place}
    (operand : token.IsOperand) : (behind depth).step token ≠ .ok next := by
  obtain ⟨kind, literal, offset⟩ := token
  intro stepped
  rcases operand with ⟨⟨⟩⟩ | ⟨v, ⟨⟩⟩ <;> cases depth <;> cases stepped

/-- An operand is taken in front of it only. -/
theorem Place.exists_behind_of_step {place next : Place} {token : Token}
    (operand : token.IsOperand) (stepped : place.step token = .ok next) :
    ∃ depth, next = behind depth := by
  cases place with
  | behind depth => exact absurd stepped (step_behind_ne_ok operand)
  | before depth =>
    refine ⟨depth, ?_⟩
    rcases operand with kind | ⟨v, kind⟩ <;>
    · simp only [step, kind] at stepped
      exact (Except.ok.inj stepped).symm

/-- What is taken behind an operand ends it. -/
theorem Place.ends_of_pass {depth offset : Nat} {after : List Char} {next : Place}
    (passed : (behind depth).pass (scanFrom offset after) = .ok next) : Ends after := by
  cases after with
  | nil => rintro c ⟨⟩
  | cons c rest =>
    rintro d ⟨⟩
    by_cases space : c.isWhitespace = true
    · exact .inl space
    obtain ⟨lexeme, after, item, split, cut⟩ :=
      exists_cut offset rest (Bool.eq_false_iff.mpr space)
    rw [split, scanFrom_cut cut] at passed
    cases cut with
    | symbol symbol =>
      obtain ⟨rfl, -⟩ := List.cons.inj split
      exact .inr ⟨_, symbol⟩
    | name | number =>
      obtain ⟨behind, stepped, -⟩ := bind_eq_ok.mp passed
      refine absurd stepped (step_behind_ne_ok ?_)
      first | exact .inl rfl | exact .inr ⟨_, rfl⟩
    | tooLarge | stray => cases passed

section Writing

variable (literals : Literals)

/-- The token may stand in the written text for the token of the text. -/
def WrittenFor (token' token : Token) : Prop :=
  ∃ offset, token' = { token.replace literals with offset := offset }

/-- By induction along the scan of the text, which has no fault: each of its tokens is written. -/
theorem scanFrom_writeLiterals (offset : Nat) (text : List Char) {place next : Place}
    (passed : place.pass (scanFrom offset text) = .ok next) (offset' : Nat) :
    ∃ tokens tokens', scanFrom offset text = tokens.map .ok ∧
      scanFrom offset' (writeLiterals literals text) = tokens'.map .ok ∧
      List.Forall₂ (WrittenFor literals) tokens' tokens := by
  fun_induction scanFrom offset text generalizing place offset' with
  | case1 offset =>
    rw [writeLiterals, scanFrom]
    exact ⟨[], [], rfl, rfl, .nil⟩
  | case2 offset c rest space ih =>
    rw [writeLiterals_space literals space, scanFrom_space space]
    exact ih passed _
  | @case3 offset c rest visible lexeme ih =>
    have cut := cut_splitLexeme offset rest (Bool.eq_false_iff.mpr visible)
    rw [← splitLexeme_append c rest, writeLiterals_cut literals cut]
    generalize ofLexeme c (splitLexeme c rest).1 offset = item at cut passed ⊢
    cases item with
    | error e => cases passed
    | ok token =>
      obtain ⟨behind, stepped, passed⟩ := bind_eq_ok.mp passed
      -- The grammar wants a symbol behind an operand, and a symbol stays where it is.
      have ends (operand : token.IsOperand) :
          Ends (writeLiterals literals (splitLexeme c rest).2) := by
        obtain ⟨depth, rfl⟩ := Place.exists_behind_of_step operand stepped
        exact (Place.ends_of_pass passed).writeLiterals literals
      rw [writeItem, scanFrom_cut (cut.replace literals ends offset')]
      obtain ⟨tokens, tokens', items, items', written⟩ := ih passed _
      rw [items, items']
      exact ⟨token :: tokens, _ :: tokens', rfl, rfl, .cons ⟨offset', rfl⟩ written⟩

end Writing

/-! ## The expression -/

/-- The expression with numbers in the places of the variables that have a value. -/
def replaceVars (value? : String → Option Number) : Expression → Expression
  | .num v => .num v
  | .var x =>
    match value? x.name with
    | some v => .num v
    | none => .var x
  | .sum l r => .sum (l.replaceVars value?) (r.replaceVars value?)
  | .prod l r => .prod (l.replaceVars value?) (r.replaceVars value?)

section Values

variable {literals : Literals} {text : String} {e : Expression}

/-- A written token is the operand that the replaced variable is. -/
theorem Replaces.of_writtenFor {token' token : Token} (written : WrittenFor literals token' token) :
    Replaces (replaceVars literals.value?) token' token := by
  obtain ⟨offset, rfl⟩ := written
  refine ⟨fun v kind levels => ?_, fun x kind literal levels => ?_, fun symbol => ?_⟩
  · rw [replace_of_ne literals (by simp [kind])]
    exact .number kind
  · rw [replaceVars, Literals.value?, literal]
    cases found : literals.get? token.literal with
    | some w =>
      rw [replace_of_some literals kind found]
      exact .number rfl
    | none =>
      rw [replace_of_none literals found]
      exact .name kind literal
  · have other : token.kind ≠ .ident := by
      intro ident
      simp [ident] at symbol
    rw [replace_of_ne literals other]

/-- A text that is an expression stays one, with numbers in the places of the variables. -/
theorem parse_writeLiterals (literals : Literals) (parsed : parse text = .ok e) :
    parse (String.ofList (writeLiterals literals text.toList)) =
      .ok (e.replaceVars literals.value?) := by
  obtain ⟨tokens, items, derived⟩ := ofItems_eq_ok_iff.mp parsed
  cases passed : (Place.before 0).pass (Token.scan text) with
  | error fault =>
    rw [parse_of_fault passed] at parsed
    cases parsed
  | ok place =>
    obtain ⟨tokens₀, tokens', items₀, items', written⟩ :=
      scanFrom_writeLiterals literals 0 text.toList passed 0
    obtain rfl : tokens = tokens₀ := by
      have same : tokens.map (.ok : Token → Item) = tokens₀.map .ok := items.symm.trans items₀
      rwa [List.map_inj_right fun _ _ => Except.ok.inj] at same
    refine ofItems_eq_ok_iff.mpr ⟨tokens', ?_, ?_⟩
    · rw [Token.scan, String.toList_ofList, items']
    · exact derived.replace (fun _ _ => rfl) (fun _ _ => rfl)
        (written.imp fun _ _ => Replaces.of_writtenFor)

/-- By induction on the expression: a variable with a value is simplified to what was put in its
place, so the operations are folded alike. -/
theorem simplify_replaceVars {env : Environment} {value? : String → Option Number}
    (agrees : ∀ name, env.get? name = value? name) (e : Expression) :
    (e.replaceVars value?).simplify .empty = e.simplify env := by
  induction e with
  | num v => rfl
  | var x =>
    rw [replaceVars, simplify, ← agrees, env.get?_name]
    cases env.find? x <;> rfl
  | sum l r ihl ihr => rw [replaceVars, simplify, ihl, ihr, simplify]
  | prod l r ihl ihr => rw [replaceVars, simplify, ihl, ihr, simplify]

end Values

end Expression

/-- Some environment gives the variables the values of their literals, and it can be defined. -/
theorem Literals.exists_environment (literals : Literals) :
    ∃ env : Environment, env.Defined ∧ ∀ name, env.get? name = literals.value? name := by
  induction literals with
  | nil => exact ⟨.empty, .empty, fun name => rfl⟩
  | cons binding literals ih =>
    obtain ⟨x, w⟩ := binding
    obtain ⟨env, defined, values⟩ := ih
    have again : env.define x.name w.value.toDouble = .ok (env.insert x w.value) :=
      Environment.define_eq_ok_iff.mpr
        ⟨x, w.value, x.ofName_name, Number.ofDouble_toDouble w.value, rfl⟩
    refine ⟨env.insert x w.value, .define defined again, fun name => ?_⟩
    rw [Environment.get?_insert, values, Literals.value?, Literals.value?, Literals.get?,
      Literals.get?]
    by_cases same : name = x.name
    · rw [if_pos same, List.find?_cons_of_pos (by simp [same])]
      rfl
    · have other : ¬x.name = name := fun name => same name.symm
      rw [if_neg same, List.find?_cons_of_neg (by simpa using other)]

namespace Expression

/-- A literal that is written in the place of a variable and the same value in an environment are
the same to a request. The text with literals in the places of names is an expression if the text
is one, with numbers in the places of these variables. There is an environment that gives them these
values, and the request for the text in such an environment has the result of the request for the
other text in the empty one. -/
theorem literals_are_values (literals : Literals) {text : String} {e : Expression}
    (parsed : parse text = .ok e) :
    let written := String.ofList (writeLiterals literals text.toList)
    parse written = .ok (e.replaceVars literals.value?) ∧
    (∃ env : Environment, env.Defined ∧ ∀ name, env.get? name = literals.value? name) ∧
    ∀ env : Environment, (∀ name, env.get? name = literals.value? name) →
      ∃ shown, Request.simplified text env = .ok shown ∧
        Request.simplified written .empty = .ok shown := by
  intro written
  have replaced : parse written = .ok (e.replaceVars literals.value?) :=
    parse_writeLiterals literals parsed
  refine ⟨replaced, literals.exists_environment, fun env agrees => ⟨(e.simplify env).text, ?_, ?_⟩⟩
  · exact Request.simplified_eq_ok parsed env
  · rw [Request.simplified_eq_ok replaced .empty, simplify_replaceVars agrees]

/-- A literal with a point between symbols and beside white space, and one so large that its square
overflows. The name that starts like the variables is left alone. -/
theorem literals_are_values_overflow :
    let x : Variable := ⟨"x", by simp, by simp⟩
    let y : Variable := ⟨"y", by simp, by simp⟩
    let xy : Variable := ⟨"xy", by simp, by simp⟩
    ∃ v w : Literal, v.text = ['2', '.', '5', '0'] ∧ w.text = '1' :: List.replicate 200 '0' ∧
      let literals : Literals := [(x, v), (y, w)]
      let written := String.ofList (writeLiterals literals "y*y*(x+\txy)*x".toList)
      parse written = .ok (.prod (.prod (.prod (.num w.value) (.num w.value))
        (.sum (.num v.value) (.var xy))) (.num v.value)) ∧
      ∃ env : Environment, (∀ name, env.get? name = literals.value? name) ∧
        ∃ shown, Request.simplified "y*y*(x+\txy)*x" env = .ok shown ∧
          Request.simplified written .empty = .ok shown := by
  intro x y xy
  let v : Literal :=
    { whole := ['2'], fraction := ['5', '0'], text := ['2'] ++ '.' :: ['5', '0'], value := _
      numeral := .pointed ⟨by simp, by simp, by simp⟩ ⟨by simp, by simp, by simp⟩
      nearest := (Option.some_get (by decide +kernel)).symm }
  let w : Literal :=
    { whole := '1' :: List.replicate 200 '0', fraction := []
      text := '1' :: List.replicate 200 '0', value := _
      numeral := .whole ⟨by simp, List.all_eq_true.mp (by decide +kernel), by simp⟩ (by simp)
      nearest := (Option.some_get (by decide +kernel)).symm }
  have parsed : parse "y*y*(x+\txy)*x" = .ok (.prod (.prod (.prod (.var y) (.var y))
      (.sum (.var x) (.var xy))) (.var x)) := by decide +kernel
  obtain ⟨replaced, ⟨env, -, agrees⟩, same⟩ := literals_are_values [(x, v), (y, w)] parsed
  exact ⟨v, w, rfl, rfl, replaced, env, agrees, same env agrees⟩

end Expression

end SumProduct
