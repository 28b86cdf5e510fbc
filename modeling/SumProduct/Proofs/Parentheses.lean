/-!
# Parentheses in a text

How many parentheses are open at a place in a text, whether they come in pairs, and where a text
first opens one too many.
-/

namespace SumProduct.Text

/-- How many parentheses are open behind a text. -/
def depth (text : List Char) : Int := text.count '(' - text.count ')'

@[simp] theorem depth_append (a b : List Char) : depth (a ++ b) = depth a + depth b := by
  simp only [depth, List.count_append]
  omega

@[simp] theorem depth_opening (text : List Char) : depth ('(' :: text) = depth text + 1 := by
  have other : (List.count ')' ('(' :: text)) = List.count ')' text := by simp
  simp only [depth, List.count_cons_self, other]
  omega

@[simp] theorem depth_closing : depth [')'] = -1 := by decide

/-- Whether a text has no parentheses. -/
def Plain (text : List Char) : Prop := '(' ∉ text ∧ ')' ∉ text

theorem depth_plain {text : List Char} (plain : Plain text) : depth text = 0 := by
  rw [depth, List.count_eq_zero.mpr plain.1, List.count_eq_zero.mpr plain.2]
  rfl

theorem Plain.append {a b : List Char} (left : Plain a) (right : Plain b) : Plain (a ++ b) := by
  constructor
  · exact fun mem => (List.mem_append.mp mem).elim left.1 right.1
  · exact fun mem => (List.mem_append.mp mem).elim left.2 right.2

/-! ## Few open parentheses -/

/-- Each opening parenthesis of the text stands inside fewer than `levels` open ones. -/
def Shallow (levels : Nat) (text : List Char) : Prop :=
  ∀ before after, text = before ++ '(' :: after → depth before < levels

section Shallow

variable {levels more : Nat} {a b text : List Char}

theorem shallow_plain (plain : Plain text) : Shallow levels text := by
  intro before after split
  exact absurd (by simp [split]) plain.1

/-- No more parentheses are open than there are. -/
theorem shallow_of_count_le (few : text.count '(' ≤ levels) : Shallow levels text := by
  rintro before after rfl
  rw [List.count_append, List.count_cons_self] at few
  rw [depth]
  omega

theorem Shallow.append (left : Shallow levels a) (closed : depth a = 0)
    (right : Shallow levels b) : Shallow levels (a ++ b) := by
  intro before after split
  -- The parenthesis stands in `b`, or else in `a`; where `a` ends, it is the first of `b`.
  rcases List.append_eq_append_iff.mp split with ⟨middle, rfl, behind⟩ | ⟨middle, rfl, behind⟩
  · rw [depth_append, closed, Int.zero_add]
    exact right middle after behind
  · cases middle with
    | nil =>
      rw [List.append_nil] at closed
      have inside := right [] after behind.symm
      rwa [closed]
    | cons c middle =>
      rw [List.cons_append] at behind
      obtain ⟨rfl, rfl⟩ := List.cons.inj behind
      exact left before middle rfl

theorem Shallow.opening (inside : Shallow levels text) : Shallow (levels + 1) ('(' :: text) := by
  intro before after split
  cases before with
  | nil => exact Int.natCast_pos.mpr (Nat.succ_pos levels)
  | cons c before =>
    obtain ⟨rfl, behind⟩ := List.cons.inj split
    have lt := inside before after behind
    rw [depth_opening]
    omega

theorem Shallow.closing (inside : Shallow levels text) : Shallow levels (text ++ [')']) := by
  intro before after split
  rcases List.append_eq_append_iff.mp split with ⟨middle, rfl, behind⟩ | ⟨middle, rfl, behind⟩
  · cases middle with
    | nil => cases behind
    | cons c middle => simp at behind
  · cases middle with
    | nil => cases behind
    | cons c middle =>
      rw [List.cons_append] at behind
      obtain ⟨rfl, rfl⟩ := List.cons.inj behind
      exact inside before middle rfl

theorem Shallow.front (whole : Shallow levels (a ++ b)) : Shallow levels a := by
  rintro before after rfl
  exact whole before (after ++ b) (by simp)

theorem Shallow.back (whole : Shallow levels (a ++ b)) (closed : depth a = 0) :
    Shallow levels b := by
  rintro before after rfl
  have inside := whole (a ++ before) after (by simp)
  simpa [closed] using inside

theorem Shallow.inner (whole : Shallow levels ('(' :: (text ++ [')']))) :
    ∃ fewer, levels = fewer + 1 ∧ Shallow fewer text := by
  obtain ⟨fewer, rfl⟩ : ∃ fewer, levels = fewer + 1 :=
    Nat.exists_eq_add_one_of_ne_zero (Nat.ne_of_gt (Int.natCast_pos.mp (whole [] _ rfl)))
  refine ⟨fewer, rfl, ?_⟩
  rintro before after rfl
  have inside := whole ('(' :: before) (after ++ [')']) (by simp)
  rw [depth_opening] at inside
  exact Int.lt_of_add_lt_add_right inside

end Shallow

/-! ## The parentheses alone -/

/-- The parentheses of a text, without what stands between them. -/
def parentheses (text : List Char) : List Char := text.filter fun c => c = '(' ∨ c = ')'

section Alone

variable {levels : Nat} {a b text : List Char}

@[simp] theorem parentheses_append : parentheses (a ++ b) = parentheses a ++ parentheses b :=
  List.filter_append ..

theorem parentheses_plain (plain : Plain text) : parentheses text = [] := by
  refine List.filter_eq_nil_iff.mpr fun c mem paren => ?_
  rcases of_decide_eq_true paren with rfl | rfl
  · exact plain.1 mem
  · exact plain.2 mem

@[simp] theorem depth_parentheses : depth (parentheses text) = depth text := by
  rw [depth, parentheses, List.count_filter (by decide), List.count_filter (by decide), depth]

theorem Shallow.alone (shallow : Shallow levels text) : Shallow levels (parentheses text) := by
  intro before after split
  obtain ⟨front, rest, rfl, rfl, behind⟩ := List.filter_eq_append_iff.mp split
  obtain ⟨skipped, rest, rfl, others, -⟩ := List.filter_eq_cons_iff.mp behind
  have none : parentheses skipped = [] := List.filter_eq_nil_iff.mpr others
  have inside := shallow (front ++ skipped) rest (by simp)
  rwa [← depth_parentheses, parentheses_append, none, List.append_nil] at inside

end Alone

/-- As many parentheses are closed as are opened, and no more than `levels` are open at once. -/
structure Balanced (levels : Nat) (text : List Char) : Prop where
  closed : depth text = 0
  shallow : Shallow levels text

namespace Balanced

variable {levels : Nat} {a b text : List Char}

theorem plain (plain : Plain text) : Balanced levels text :=
  ⟨depth_plain plain, shallow_plain plain⟩

theorem append (left : Balanced levels a) (right : Balanced levels b) : Balanced levels (a ++ b) :=
  ⟨by simp [left.closed, right.closed],
    left.shallow.append left.closed right.shallow⟩

theorem group (inside : Balanced levels text) : Balanced (levels + 1) ('(' :: (text ++ [')'])) :=
  ⟨by simp [inside.closed],
    inside.shallow.closing.opening⟩

end Balanced

/-! ## Parentheses in pairs -/

/-- Each closing parenthesis closes one that was opened in front of it, and in the end all are
closed. -/
structure Paired (text : List Char) : Prop where
  closed : depth text = 0
  opened : ∀ before after, text = before ++ after → 0 ≤ depth before

namespace Paired

variable {a b text : List Char}

theorem nil : Paired [] := by
  refine ⟨rfl, fun before after split => ?_⟩
  rw [(List.append_eq_nil_iff.mp split.symm).1]
  exact Int.le_refl 0

theorem append (left : Paired a) (right : Paired b) : Paired (a ++ b) := by
  refine ⟨by simp [left.closed, right.closed], fun before after split => ?_⟩
  rcases List.append_eq_append_iff.mp split with ⟨middle, rfl, behind⟩ | ⟨middle, behind, -⟩
  · simpa [left.closed] using right.opened middle after behind
  · exact left.opened before middle behind

theorem group (inside : Paired text) : Paired ('(' :: (text ++ [')'])) := by
  refine ⟨by simp [inside.closed], fun before after split => ?_⟩
  cases before with
  | nil => exact Int.le_refl 0
  | cons c before =>
    obtain ⟨rfl, inner⟩ := List.cons.inj split
    rw [depth_opening]
    rcases List.append_eq_append_iff.mp inner with ⟨middle, rfl, behind⟩ | ⟨middle, behind, -⟩
    · -- Behind the inner text the closing parenthesis is all that is left.
      rw [depth_append, inside.closed]
      rcases List.append_eq_singleton_iff.mp behind.symm with ⟨rfl, -⟩ | ⟨rfl, -⟩
      · decide
      · decide
    · have open_inside := inside.opened before middle behind
      omega

end Paired

/-! ## One parenthesis too many -/

/-- The text goes on behind `before` with the first of its opening parentheses that stands inside
`levels` open ones. -/
structure FirstInside (levels : Nat) (text before : List Char) : Prop where
  opens : ∃ after, text = before ++ '(' :: after
  depth_eq : depth before = levels
  shallow : Shallow levels before

namespace FirstInside

variable {levels : Nat} {text before : List Char}

theorem here : FirstInside 0 ('(' :: text) [] :=
  ⟨⟨text, rfl⟩, rfl, shallow_plain ⟨List.not_mem_nil, List.not_mem_nil⟩⟩

theorem append_right (first : FirstInside levels text before) (rest : List Char) :
    FirstInside levels (text ++ rest) before := by
  obtain ⟨⟨after, rfl⟩, depth_eq, shallow⟩ := first
  exact ⟨⟨after ++ rest, by simp⟩, depth_eq, shallow⟩

theorem append_left {skipped : List Char} (balanced : Balanced levels skipped)
    (first : FirstInside levels text before) :
    FirstInside levels (skipped ++ text) (skipped ++ before) := by
  obtain ⟨⟨after, rfl⟩, depth_eq, shallow⟩ := first
  refine ⟨⟨after, by simp⟩, ?_, balanced.shallow.append balanced.closed shallow⟩
  simp [balanced.closed, depth_eq]

theorem group (first : FirstInside levels text before) :
    FirstInside (levels + 1) ('(' :: text) ('(' :: before) := by
  obtain ⟨⟨after, rfl⟩, depth_eq, shallow⟩ := first
  refine ⟨⟨after, rfl⟩, ?_, shallow.opening⟩
  simp [depth_eq]

end FirstInside

end SumProduct.Text
