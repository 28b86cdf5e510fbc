import Mathlib.Data.List.Basic

/-!
# Steps that may fail

What the success or the failure of some steps says of the single step: of two steps, of one step
with its error told in another way, and of a step for each item of a list. The first failure ends
them all.
-/

namespace SumProduct

/-! ## Two steps -/

/-- A sequence of two steps succeeds if both do. -/
theorem bind_eq_ok {ε α β : Type} {first : Except ε α} {next : α → Except ε β} {b : β} :
    (first >>= next) = .ok b ↔ ∃ a, first = .ok a ∧ next a = .ok b := by
  cases first with
  | error e => simp [bind, Except.bind]
  | ok a => simp [bind, Except.bind]

/-- It fails if one of them does, and the second only comes to its turn behind the first. -/
theorem bind_eq_error {ε α β : Type} {first : Except ε α} {next : α → Except ε β} {e : ε} :
    (first >>= next) = .error e ↔
      first = .error e ∨ ∃ a, first = .ok a ∧ next a = .error e := by
  cases first with
  | error e => simp [bind, Except.bind]
  | ok a => simp [bind, Except.bind]

/-! ## Results with another error -/

section Errors

variable {ε ε' α : Type} {result : Except ε α} {f : ε → ε'}

@[simp] theorem mapError_eq_ok {a : α} : result.mapError f = .ok a ↔ result = .ok a := by
  cases result with
  | error e => exact iff_of_false nofun nofun
  | ok b => exact ⟨fun same => congrArg _ (Except.ok.inj same), fun same => by rw [same]; rfl⟩

theorem mapError_eq_error {e' : ε'} :
    result.mapError f = .error e' ↔ ∃ e, result = .error e ∧ f e = e' := by
  cases result with
  | error e => simp [Except.mapError]
  | ok a => simp [Except.mapError]

end Errors

/-! ## Steps over a list -/

section Steps

variable {ε σ α β : Type} {e : ε} {items : List α}

/-- By induction on the items: the steps in front of the first failure succeed. -/
theorem mapM_eq_error_iff {f : α → Except ε β} : items.mapM f = .error e ↔
    ∃ before a after, items = before ++ a :: after ∧ (∀ b ∈ before, ∃ result, f b = .ok result) ∧
      f a = .error e := by
  induction items with
  | nil => simp [pure, Except.pure]
  | cons first rest ih =>
    rw [List.mapM_cons, bind_eq_error]
    constructor
    · rintro (here | ⟨result, here, failed⟩)
      · exact ⟨[], first, rest, rfl, by simp, here⟩
      rcases bind_eq_error.mp failed with later | ⟨_, -, ⟨⟩⟩
      obtain ⟨before, a, after, rfl, earlier, failed⟩ := ih.mp later
      exact ⟨first :: before, a, after, rfl, List.forall_mem_cons.mpr ⟨⟨result, here⟩, earlier⟩,
        failed⟩
    · rintro ⟨before, a, after, split, earlier, failed⟩
      cases before with
      | nil =>
        obtain ⟨rfl, -⟩ := List.cons.inj split
        exact .inl failed
      | cons b before =>
        obtain ⟨rfl, rfl⟩ := List.cons.inj split
        obtain ⟨⟨result, here⟩, earlier⟩ := List.forall_mem_cons.mp earlier
        exact .inr ⟨result, here,
          bind_eq_error.mpr (.inl (ih.mpr ⟨before, a, after, rfl, earlier, failed⟩))⟩

theorem mapM_eq_error {f : α → Except ε β}
    (failed : items.mapM f = .error e) : ∃ a ∈ items, f a = .error e := by
  obtain ⟨before, a, after, rfl, -, failed⟩ := mapM_eq_error_iff.mp failed
  exact ⟨a, by simp, failed⟩

theorem mapM_eq_ok_iff {f : α → Except ε β} {results : List β} :
    items.mapM f = .ok results ↔ items.map f = results.map .ok := by
  induction items generalizing results with
  | nil => cases results <;> simp [pure, Except.pure]
  | cons first rest ih =>
    rw [List.mapM_cons, bind_eq_ok]
    constructor
    · rintro ⟨result, here, accepted⟩
      obtain ⟨others, later, made⟩ := bind_eq_ok.mp accepted
      cases made
      rw [List.map_cons, here, ih.mp later, List.map_cons]
    · intro same
      obtain ⟨result, others, rfl, here, later⟩ := List.map_eq_cons_iff.mp same.symm
      exact ⟨result, here.symm, bind_eq_ok.mpr ⟨others, ih.mpr later.symm, rfl⟩⟩

theorem mem_of_mapM_eq_ok {f : α → Except ε β} {results : List β}
    (accepted : items.mapM f = .ok results) : ∀ b ∈ results, ∃ a ∈ items, f a = .ok b := by
  intro b mem
  have among : .ok b ∈ items.map f := mapM_eq_ok_iff.mp accepted ▸ List.mem_map_of_mem mem
  exact List.mem_map.mp among

theorem foldlM_eq_error {f : σ → α → Except ε σ} {s : σ}
    (failed : items.foldlM f s = .error e) : ∃ before, ∃ a ∈ items, f before a = .error e := by
  induction items generalizing s with
  | nil => cases failed
  | cons first rest ih =>
    rw [List.foldlM_cons] at failed
    rcases bind_eq_error.mp failed with here | ⟨after, -, failed⟩
    · exact ⟨s, first, List.mem_cons_self, here⟩
    obtain ⟨before, a, mem, failed⟩ := ih failed
    exact ⟨before, a, List.mem_cons_of_mem first mem, failed⟩

end Steps

end SumProduct
