import Mathlib.Tactic.Common

namespace Transition

variable {σ α : Type}

/-- One step of a run. -/
structure Step (σ α : Type) where
  before : σ
  label : α
  after : σ

/-- The runs of a labelled transition relation, each with its steps, the last one first. -/
inductive Steps (R : σ → α → σ → Prop) (start : σ) : List (Step σ α) → σ → Prop
  | start : Steps R start [] start
  | step {steps : List (Step σ α)} {s s' : σ} {a : α} (run : Steps R start steps s) (h : R s a s') :
      Steps R start (⟨s, a, s'⟩ :: steps) s'

namespace Steps

variable {R : σ → α → σ → Prop} {start s : σ} {steps : List (Step σ α)}

/-- What every permitted step keeps holds at the end of a run of permitted steps. -/
theorem invariant {I : σ → Prop} {ok : Step σ α → Prop}
    (hstep : ∀ s a s', R s a s' → I s → ok ⟨s, a, s'⟩ → I s') (h0 : I start)
    (run : Steps R start steps s) (hok : ∀ t ∈ steps, ok t) : I s := by
  induction run with
  | start => exact h0
  | @step steps s s' a run h ih =>
    have hs : I s := ih fun t ht => hok t (List.mem_cons_of_mem _ ht)
    exact hstep s a s' h hs (hok _ List.mem_cons_self)

/-- What every step keeps holds at the end of every run. -/
theorem always {I : σ → Prop} (hstep : ∀ s a s', R s a s' → I s → I s') (h0 : I start)
    (run : Steps R start steps s) : I s :=
  @invariant _ _ R start s steps I (fun _ => True) (fun s a s' h hs _ => hstep s a s' h hs) h0 run
    fun _ _ => trivial

/-- A run goes on with a run from where it ends. -/
theorem append {middle : σ} {later : List (Step σ α)} (run : Steps R start steps middle)
    (run' : Steps R middle later s) : Steps R start (later ++ steps) s := by
  induction run' with
  | start => exact run
  | step _ h ih => exact .step ih h

/-- Each step of a run is made at the end of the run before it. -/
theorem of_suffix {t : Step σ α} {earlier : List (Step σ α)} (run : Steps R start steps s)
    (h : (t :: earlier) <:+ steps) : Steps R start earlier t.before ∧ R t.before t.label t.after := by
  induction run with
  | start => simp at h
  | @step steps s s' a run hr ih =>
    rcases List.suffix_cons_iff.mp h with heq | h
    · obtain ⟨rfl, rfl⟩ := List.cons.inj heq
      exact ⟨run, hr⟩
    · exact ih h

theorem forall_suffix_cons {x : Step σ α} {p : Step σ α → List (Step σ α) → Prop} :
    (∀ t earlier, t :: earlier <:+ x :: steps → p t earlier) ↔
      p x steps ∧ ∀ t earlier, t :: earlier <:+ steps → p t earlier := by
  constructor
  · intro h
    exact ⟨h x steps (List.suffix_refl _), fun t earlier ht =>
      h t earlier (List.suffix_cons_iff.mpr (.inr ht))⟩
  · rintro ⟨hx, h⟩ t earlier ht
    rcases List.suffix_cons_iff.mp ht with heq | ht
    · obtain ⟨rfl, rfl⟩ := List.cons.inj heq
      exact hx
    · exact h t earlier ht

/-- An invariant of the state and the steps that led to it. -/
theorem past_invariant {I : List (Step σ α) → σ → Prop} {ok : Step σ α → List (Step σ α) → Prop}
    (hstep : ∀ earlier s a s', R s a s' → I earlier s → ok ⟨s, a, s'⟩ earlier →
      I (⟨s, a, s'⟩ :: earlier) s')
    (h0 : I [] start) (run : Steps R start steps s)
    (hok : ∀ t earlier, t :: earlier <:+ steps → ok t earlier) : I steps s := by
  induction run with
  | start => exact h0
  | @step steps s s' a run h ih =>
    obtain ⟨ht, hok⟩ := forall_suffix_cons.mp hok
    exact hstep steps s a s' h (ih hok) ht

/-- If the good steps are those that meet a condition, and lead to states of the same
kind, then a run has only good steps exactly when all its steps meet the condition. -/
theorem forall_iff {I : σ → Prop} {good cond : Step σ α → Prop}
    (hstep : ∀ s a s', R s a s' → I s → (good ⟨s, a, s'⟩ ↔ cond ⟨s, a, s'⟩))
    (hnext : ∀ s a s', R s a s' → I s → good ⟨s, a, s'⟩ → I s') (h0 : I start)
    (run : Steps R start steps s) : (∀ t ∈ steps, good t) ↔ ∀ t ∈ steps, cond t := by
  induction run with
  | start => simp
  | @step steps s s' a run h ih =>
    rw [List.forall_mem_cons, List.forall_mem_cons, ih]
    have hs : (∀ t ∈ steps, cond t) → I s := fun hc => run.invariant hnext h0 (ih.mpr hc)
    constructor
    · rintro ⟨hg, hc⟩
      exact ⟨(hstep s a s' h (hs hc)).mp hg, hc⟩
    · rintro ⟨hg, hc⟩
      exact ⟨(hstep s a s' h (hs hc)).mpr hg, hc⟩

/-- The same, where all three may depend on the steps before. -/
theorem forall_past_iff {I : List (Step σ α) → σ → Prop}
    {good cond : Step σ α → List (Step σ α) → Prop}
    (hstep : ∀ earlier s a s', R s a s' → I earlier s →
      (good ⟨s, a, s'⟩ earlier ↔ cond ⟨s, a, s'⟩ earlier))
    (hnext : ∀ earlier s a s', R s a s' → I earlier s → good ⟨s, a, s'⟩ earlier →
      I (⟨s, a, s'⟩ :: earlier) s')
    (h0 : I [] start) (run : Steps R start steps s) :
    (∀ t earlier, t :: earlier <:+ steps → good t earlier) ↔
      ∀ t earlier, t :: earlier <:+ steps → cond t earlier := by
  induction run with
  | start => simp
  | @step steps s s' a run h ih =>
    rw [forall_suffix_cons, forall_suffix_cons, ih]
    have hs : (∀ t earlier, t :: earlier <:+ steps → cond t earlier) → I steps s :=
      fun hc => run.past_invariant hnext h0 (ih.mpr hc)
    constructor
    · rintro ⟨hg, hc⟩
      exact ⟨(hstep steps s a s' h (hs hc)).mp hg, hc⟩
    · rintro ⟨hg, hc⟩
      exact ⟨(hstep steps s a s' h (hs hc)).mpr hg, hc⟩

end Steps

end Transition
