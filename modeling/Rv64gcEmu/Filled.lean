import Mathlib.Tactic.Common

/-- Between two memories the cells `cell 0, ..., cell (n - 1)` have got the values of a
source, and no other cell has changed. -/
structure Filled {ι α : Type} (cell : Nat → ι) (n : Nat) (source : Nat → α) (before after : ι → α) :
    Prop where
  inside : ∀ k < n, after (cell k) = source k
  outside : ∀ x, (∀ k < n, x ≠ cell k) → after x = before x

namespace Filled

variable {ι α : Type} {cell : Nat → ι} {n : Nat} {source : Nat → α} {before middle after : ι → α}

theorem zero (cell : Nat → ι) (source : Nat → α) (memory : ι → α) :
    Filled cell 0 source memory memory where
  inside k hk := absurd hk (Nat.not_lt_zero k)
  outside _ _ := rfl

/-- One cell, and then those that follow. -/
theorem succ (hval : middle (cell 0) = source 0) (hrest : ∀ x, x ≠ cell 0 → middle x = before x)
    (hne : ∀ k < n, cell 0 ≠ cell (k + 1))
    (h : Filled (fun k => cell (k + 1)) n (fun k => source (k + 1)) middle after) :
    Filled cell (n + 1) source before after where
  inside k hk := by
    cases k with
    | zero => exact (h.outside _ hne).trans hval
    | succ k => exact h.inside k (Nat.lt_of_succ_lt_succ hk)
  outside x hx := by
    have hlater : ∀ k < n, x ≠ cell (k + 1) := fun k hk => hx (k + 1) (Nat.succ_lt_succ hk)
    exact (h.outside x hlater).trans (hrest x (hx 0 (Nat.succ_pos n)))

/-- The cells and their values may be written in another way. -/
theorem congr {cell' : Nat → ι} {source' : Nat → α} (hc : ∀ k < n, cell' k = cell k)
    (hs : ∀ k < n, source' k = source k) (h : Filled cell n source before after) :
    Filled cell' n source' before after where
  inside k hk := by rw [hc k hk, hs k hk, h.inside k hk]
  outside x hx := h.outside x fun k hk he => hx k hk (he.trans (hc k hk).symm)

end Filled
