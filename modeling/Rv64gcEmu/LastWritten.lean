import Rv64gcEmu.Transition

/-- The content of a memory after a history of writes, the latest first. A write gives the cells
that it sets their new values. -/
def lastWritten {ι α : Type} (initial : ι → α) : List (ι → Option α) → ι → α
  | [], x => initial x
  | w :: earlier, x => (w x).getD (lastWritten initial earlier x)

namespace Transition.Steps

variable {σ α ι β : Type} {R : σ → α → σ → Prop} {start s : σ} {steps : List (Step σ α)}

/-- If each step sets the cells that its write names, and no other one, then at the end of a run
every cell holds what was written to it last. -/
theorem eq_lastWritten {I : σ → Prop} {memory : σ → ι → β} {write : Step σ α → ι → Option β}
    {P : ι → Prop} (hkeep : ∀ s a s', R s a s' → I s → I s')
    (hstep : ∀ s a s', R s a s' → I s → ∀ x, P x →
      memory s' x = (write ⟨s, a, s'⟩ x).getD (memory s x))
    (h0 : I start) (run : Steps R start steps s) {x : ι} (hx : P x) :
    memory s x = lastWritten (memory start) (steps.map write) x := by
  induction run with
  | start => rfl
  | @step steps s s' a run h ih =>
    rw [hstep s a s' h (run.always hkeep h0) x hx, ih, List.map_cons, lastWritten]

end Transition.Steps
