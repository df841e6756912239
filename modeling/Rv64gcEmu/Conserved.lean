import Mathlib.Data.List.Infix
import Rv64gcEmu.Transition

namespace Transition

variable {σ α β : Type}

/-- What the steps of a run give, in their order. -/
def gathered (f : Step σ α → List β) : List (Step σ α) → List β
  | [] => []
  | t :: earlier => gathered f earlier ++ f t

namespace Steps

variable {R : σ → α → σ → Prop} {start s : σ} {steps : List (Step σ α)} {I : σ → Prop}
  {input output : Step σ α → List β} {contents : σ → List β} {ok : Step σ α → Prop}

/-- If each step takes its inputs in behind the contents and its outputs off the front, then so does
a run. -/
theorem conserved (hkeep : ∀ s a s', R s a s' → I s → I s')
    (hstep : ∀ s a s', R s a s' → I s → ok ⟨s, a, s'⟩ →
      contents s ++ input ⟨s, a, s'⟩ = output ⟨s, a, s'⟩ ++ contents s')
    (h0 : I start) (run : Steps R start steps s) (hok : ∀ t ∈ steps, ok t) :
    contents start ++ gathered input steps = gathered output steps ++ contents s := by
  induction run with
  | start => simp [gathered]
  | @step steps s s' a run h ih =>
    have hprev := ih fun t ht => hok t (List.mem_cons_of_mem _ ht)
    have hnext := hstep s a s' h (run.always hkeep h0) (hok _ List.mem_cons_self)
    rw [gathered, gathered, ← List.append_assoc, hprev, List.append_assoc, hnext, List.append_assoc]

/-- If moreover a step that is not good loses something, then a run without losses has only good
steps. -/
theorem all_of_conserved (hkeep : ∀ s a s', R s a s' → I s → I s')
    (hstep : ∀ s a s', R s a s' → I s → ok ⟨s, a, s'⟩ →
      contents s ++ input ⟨s, a, s'⟩ = output ⟨s, a, s'⟩ ++ contents s')
    (hloss : ∀ s a s', R s a s' → I s → ¬ok ⟨s, a, s'⟩ →
      (output ⟨s, a, s'⟩).length + (contents s').length <
        (contents s).length + (input ⟨s, a, s'⟩).length)
    (h0 : I start) (run : Steps R start steps s) :
    (gathered output steps).length + (contents s).length ≤
        (contents start).length + (gathered input steps).length ∧
      ((gathered output steps).length + (contents s).length =
        (contents start).length + (gathered input steps).length → ∀ t ∈ steps, ok t) := by
  induction run with
  | start => simp [gathered]
  | @step steps s s' a run h ih =>
    have hs := run.always hkeep h0
    obtain ⟨hle, hall⟩ := ih
    simp only [gathered, List.length_append]
    by_cases hok : ok ⟨s, a, s'⟩
    · have hone := congrArg List.length (hstep s a s' h hs hok)
      rw [List.length_append, List.length_append] at hone
      refine ⟨by omega, fun heq t ht => ?_⟩
      rcases List.mem_cons.mp ht with rfl | ht
      · exact hok
      · exact hall (by omega) t ht
    · have hone := hloss s a s' h hs hok
      exact ⟨by omega, by omega⟩

end Steps

end Transition
