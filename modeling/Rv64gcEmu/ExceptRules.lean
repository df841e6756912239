import Mathlib.Logic.Basic

/-- A sequence of two steps succeeds exactly when both do. -/
theorem Except.bind_eq_ok_iff {ε α β : Type} {x : Except ε α} {f : α → Except ε β} {b : β} :
    (x >>= f) = Except.ok b ↔ ∃ a, x = Except.ok a ∧ f a = Except.ok b := by
  cases x with
  | error e => simp [bind, Except.bind]
  | ok a => simp [bind, Except.bind]

theorem Except.ok_bind {ε α β : Type} {a : α} {f : α → Except ε β} :
    ((Except.ok a : Except ε α) >>= f) = f a := rfl

theorem Except.ite_error_eq_ok_iff {ε α : Type} {p : Prop} [Decidable p] {e : ε}
    {x : Except ε α} {b : α} :
    (if p then x else Except.error e) = Except.ok b ↔ p ∧ x = Except.ok b := by
  split
  next h => simp [h]
  next h => simp [h]

theorem Except.ite_bind {ε α β : Type} {p : Prop} [Decidable p] {x y : Except ε α}
    {f : α → Except ε β} :
    (if p then x else y) >>= f = if p then x >>= f else y >>= f := by
  split
  next => rfl
  next => rfl

/-- A choice between two steps, with the same steps behind both. -/
theorem Except.ite_bind_eq_ok_iff {ε α β : Type} {p : Prop} [Decidable p] {x y : Except ε α}
    {f : α → Except ε β} {b : β} :
    (if p then x >>= f else y >>= f) = Except.ok b ↔
      ∃ a, (if p then x else y) = Except.ok a ∧ f a = Except.ok b := by
  split
  next => exact Except.bind_eq_ok_iff
  next => exact Except.bind_eq_ok_iff

/-- A run over a list ends in a state exactly when each of its steps can be made in the state
that the run before it has led to. -/
theorem Except.foldlM_ok_iff {ε σ α : Type} {step : σ → α → Except ε σ} {l : List α} {s : σ} :
    (∃ t, l.foldlM step s = .ok t) ↔ ∀ before x after, l = before ++ x :: after →
      ∀ u, before.foldlM step s = .ok u → ∃ t, step u x = .ok t := by
  induction l generalizing s with
  | nil =>
    refine iff_of_true ⟨s, rfl⟩ fun before x after h => ?_
    simp at h
  | cons y l ih =>
    simp only [List.foldlM_cons, Except.bind_eq_ok_iff]
    constructor
    · rintro ⟨t, s', hs', hl⟩ before x after h u hu
      cases before with
      | nil =>
        obtain ⟨rfl, rfl⟩ := List.cons.inj h
        cases Except.ok.inj hu
        exact ⟨s', hs'⟩
      | cons z before =>
        obtain ⟨rfl, hsplit⟩ := List.cons.inj h
        obtain ⟨s'', hs'', hu⟩ := Except.bind_eq_ok_iff.mp hu
        cases Except.ok.inj (hs'.symm.trans hs'')
        exact ih.mp ⟨t, hl⟩ before x after hsplit u hu
    · intro h
      obtain ⟨s', hs'⟩ := h [] y l rfl s rfl
      have hrest : ∃ t, l.foldlM step s' = .ok t := ih.mpr fun before x after hl u hu =>
        h (y :: before) x after (congrArg (y :: ·) hl) u
          (Except.bind_eq_ok_iff.mpr ⟨s', hs', hu⟩)
      obtain ⟨t, ht⟩ := hrest
      exact ⟨t, s', hs', ht⟩
