import Rv64gcEmu.Since

namespace Recency

/-- What an event means to the slots of a cache. -/
inductive Effect (ι : Type) where
  | use (i : ι)
  | reset
  | other

variable {ι α : Type} {effect : α → Effect ι} {start : Nat} {i j : ι} {history : List α} {x : α}

/-- The counter of a slot: every use of a slot adds one to the counters of the others. -/
def age [DecidableEq ι] (effect : α → Effect ι) (start : Nat) (i : ι) : List α → Nat
  | [] => start
  | x :: history =>
    match effect x with
    | .use j => if j = i then 0 else age effect start i history + 1
    | .reset => start
    | .other => age effect start i history

/-- The slot was used, and has not been reset since. -/
def Used (effect : α → Effect ι) (i : ι) (history : List α) : Prop :=
  Since (fun x => effect x = .use i) (fun x => effect x = .reset) history

/-- The slot `j` was used after the last use of the slot `i`. -/
def Later (effect : α → Effect ι) (i j : ι) (history : List α) : Prop :=
  Since (fun x => effect x = .use j) (fun x => effect x = .use i ∨ effect x = .reset) history

theorem used_use (h : effect x = .use j) :
    Used effect i (x :: history) ↔ j = i ∨ Used effect i history := by
  unfold Used
  simp [Since.cons_iff, h]

theorem used_reset (h : effect x = .reset) : ¬Used effect i (x :: history) := by
  unfold Used
  simp [Since.cons_iff, h]

theorem used_other (h : effect x = .other) :
    Used effect i (x :: history) ↔ Used effect i history := by
  unfold Used
  simp [Since.cons_iff, h]

variable [DecidableEq ι]

theorem age_use (h : effect x = .use j) :
    age effect start i (x :: history) = if j = i then 0 else age effect start i history + 1 := by
  simp only [age, h]

theorem age_reset (h : effect x = .reset) : age effect start i (x :: history) = start := by
  simp only [age, h]

theorem age_other (h : effect x = .other) :
    age effect start i (x :: history) = age effect start i history := by
  simp only [age, h]

/-- A slot that was not used is older than every slot that was. -/
theorem age_lt_of_not_used (hi : Used effect i history) (hj : ¬Used effect j history) :
    age effect start i history < age effect start j history := by
  induction history with
  | nil => exact absurd hi Since.not_nil
  | cons x history ih =>
    cases hx : effect x with
    | use k =>
      rw [used_use hx] at hi hj
      push Not at hj
      rw [age_use hx, age_use hx, if_neg hj.1]
      split
      next => omega
      next hk =>
        have hlt := ih (hi.resolve_left hk) hj.2
        omega
    | reset => exact absurd hi (used_reset hx)
    | other =>
      rw [used_other hx] at hi hj
      rw [age_other hx, age_other hx]
      exact ih hi hj

/-- Of two slots the older one was used the longer ago. -/
theorem later_of_age_le (hj : Used effect j history)
    (h : age effect start j history ≤ age effect start i history) : Later effect i j history := by
  induction history with
  | nil => exact absurd hj Since.not_nil
  | cons x history ih =>
    unfold Later
    rw [Since.cons_iff]
    cases hx : effect x with
    | use k =>
      by_cases hk : k = j
      · exact .inl (by rw [hk])
      · rw [used_use hx] at hj
        rw [age_use hx, age_use hx, if_neg hk] at h
        by_cases hki : k = i
        · rw [if_pos hki] at h
          omega
        · rw [if_neg hki] at h
          exact .inr ⟨by simp [hki], ih (hj.resolve_left hk) (by omega)⟩
    | reset => exact absurd hj (used_reset hx)
    | other =>
      rw [used_other hx] at hj
      rw [age_other hx, age_other hx] at h
      exact .inr ⟨by simp, ih hj h⟩

/-- The oldest slot was not used, if there is such a slot. -/
theorem oldest_not_used (h : ∀ j, age effect start j history ≤ age effect start i history)
    (hj : ¬Used effect j history) : ¬Used effect i history := by
  intro hi
  have hlt : age effect start i history < age effect start j history :=
    age_lt_of_not_used hi hj
  have hle := h j
  omega

/-- No counter has gone up by more than the number of events. -/
theorem age_le_length : age effect start i history ≤ start + history.length := by
  induction history with
  | nil => exact le_refl start
  | cons x history ih =>
    rw [List.length_cons]
    cases hx : effect x with
    | use k =>
      rw [age_use hx]
      split
      next => omega
      next => omega
    | reset =>
      rw [age_reset hx]
      omega
    | other =>
      rw [age_other hx]
      omega

end Recency
