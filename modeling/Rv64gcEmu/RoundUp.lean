import Mathlib.Order.Bounds.Basic
import Mathlib.Tactic.Common

/-- The first multiple of `a` from `n` on. -/
def roundUp (n a : Nat) : Nat := (n + a - 1) / a * a

namespace roundUp

variable {n m a : Nat}

theorem isLeast (ha : 0 < a) : IsLeast {k | a ∣ k ∧ n ≤ k} (roundUp n a) := by
  unfold roundUp
  refine ⟨⟨Nat.dvd_mul_left _ _, ?_⟩, ?_⟩
  · have hdiv := Nat.lt_div_mul_add ha (a := n + a - 1)
    omega
  · rintro k ⟨⟨q, rfl⟩, hk⟩
    rw [Nat.mul_comm]
    have hlt : n + a - 1 < a * (q + 1) := by
      rw [Nat.mul_succ]
      omega
    exact Nat.mul_le_mul_left a (Nat.lt_succ_iff.mp (Nat.div_lt_of_lt_mul hlt))

theorem le (ha : 0 < a) : n ≤ roundUp n a := (isLeast ha).1.2

theorem dvd (n a : Nat) : a ∣ roundUp n a := Nat.dvd_mul_left _ _

/-- Two numbers have the same next multiple exactly when none lies between them. -/
theorem eq_iff (ha : 0 < a) (h : n ≤ m) :
    roundUp n a = roundUp m a ↔ ∀ k, n ≤ k → k < m → ¬a ∣ k := by
  constructor
  · intro heq k hn hm hk
    have hleast := (isLeast ha).2 ⟨hk, hn⟩
    have hge := le ha (n := m)
    omega
  · intro hno
    have hge : m ≤ roundUp n a := by
      by_contra hlt
      exact hno _ (le ha) (Nat.not_le.mp hlt) (dvd n a)
    refine Nat.le_antisymm ?_ ?_
    · exact (isLeast ha).2 ⟨dvd m a, h.trans (le ha)⟩
    · exact (isLeast ha).2 ⟨dvd n a, hge⟩

end roundUp
