import Mathlib.Algebra.Group.Nat.Defs
import Mathlib.Algebra.Order.Group.Defs
import Mathlib.Data.Int.ConditionallyCompleteOrder
import Mathlib.Order.WithBot
import Mathlib.Order.Interval.Set.Defs
import Mathlib.Order.Monotone.Basic
import Mathlib.Order.SuccPred.Basic
import Mathlib.Tactic.Ring

namespace SignMagnitude

/-- The number of the pattern `n` with `m` fraction bits, in halves of the least one: below `2 ^ m`
there is no leading bit, above it the exponent is one more. -/
def weight (m n : Nat) : Nat :=
  if n / 2 ^ m = 0 then n * 2 else (2 ^ m + n % 2 ^ m) * 2 ^ (n / 2 ^ m)

@[simp] theorem weight_zero (m : Nat) : weight m 0 = 0 := by
  unfold weight
  rw [Nat.zero_div, if_pos rfl, Nat.zero_mul]

theorem weight_lt_succ (m n : Nat) : weight m n < weight m (n + 1) := by
  have hp : 0 < 2 ^ m := Nat.two_pow_pos m
  have hn := Nat.div_add_mod n (2 ^ m)
  have hr := Nat.mod_lt n hp
  unfold weight
  generalize n / 2 ^ m = q at hn
  generalize n % 2 ^ m = r at hn hr
  generalize 2 ^ m = p at hp hn hr
  rcases Nat.lt_or_ge (r + 1) p with h | h
  · -- the exponent stays
    have hq : (n + 1) / p = q := by
      rw [← hn, Nat.add_assoc, Nat.mul_add_div hp, Nat.div_eq_of_lt h, Nat.add_zero]
    have hr' : (n + 1) % p = r + 1 := by
      rw [← hn, Nat.add_assoc, Nat.mul_add_mod, Nat.mod_eq_of_lt h]
    rw [hq, hr']
    split
    next => omega
    next => exact Nat.mul_lt_mul_of_pos_right (by omega) (Nat.two_pow_pos q)
  · -- the fraction was full
    have hsucc : n + 1 = p * (q + 1) := by
      rw [Nat.mul_succ]
      omega
    have hq : (n + 1) / p = q + 1 := by rw [hsucc, Nat.mul_div_cancel_left _ hp]
    have hr' : (n + 1) % p = 0 := by rw [hsucc, Nat.mul_mod_right]
    rw [hq, hr', if_neg q.succ_ne_zero, Nat.add_zero]
    split
    next h0 =>
      rw [h0, Nat.mul_zero, Nat.zero_add] at hn
      rw [h0, Nat.zero_add, Nat.pow_one]
      omega
    next =>
      calc (p + r) * 2 ^ q < p * 2 * 2 ^ q :=
            Nat.mul_lt_mul_of_pos_right (by omega) (Nat.two_pow_pos q)
        _ = p * 2 ^ (q + 1) := by ring

theorem weight_strictMono (m : Nat) : StrictMono (weight m) :=
  strictMono_nat_of_lt_succ (weight_lt_succ m)

section Signed

variable {α : Type*} [AddCommGroup α] {w : ℕ → α}

/-- The odd function that is `w` on the naturals. -/
def odd (w : ℕ → α) (r : ℤ) : α := if r < 0 then -w r.natAbs else w r.natAbs

theorem odd_natCast (w : ℕ → α) (n : ℕ) : odd w n = w n := by
  unfold odd
  rw [if_neg (by omega), Int.natAbs_natCast]

theorem odd_neg_natCast (h0 : w 0 = 0) (n : ℕ) : odd w (-n) = -w n := by
  unfold odd
  rw [Int.natAbs_neg, Int.natAbs_natCast]
  split
  next => rfl
  next h =>
    have hn : n = 0 := by omega
    rw [hn, h0, neg_zero]

/-- From `top` on there is an infinity on each side. -/
def extended (w : ℕ → α) (top : ℕ) (r : ℤ) : WithBot (WithTop α) :=
  if r ≤ -top then ⊥ else if top ≤ r then .some ⊤ else .some (.some (odd w r))

variable [LinearOrder α] [IsOrderedAddMonoid α]

theorem odd_strictMono (hw : StrictMono w) (h0 : w 0 = 0) : StrictMono (odd w) := by
  have hnonneg : ∀ n, 0 ≤ w n := fun n => h0 ▸ hw.monotone (Nat.zero_le n)
  intro r s hrs
  unfold odd
  by_cases hr : r < 0
  · rw [if_pos hr]
    by_cases hs : s < 0
    · rw [if_pos hs]
      exact neg_lt_neg (hw (by omega))
    · rw [if_neg hs]
      have hpos : 0 < w r.natAbs := h0 ▸ hw (by omega)
      exact lt_of_lt_of_le (neg_neg_of_pos hpos) (hnonneg _)
  · rw [if_neg hr, if_neg (by omega)]
    exact hw (by omega)

theorem extended_strictMonoOn (hw : StrictMono w) (h0 : w 0 = 0) {top : ℕ} :
    StrictMonoOn (extended w top) (Set.Icc (-top : ℤ) top) := by
  intro r hr s hs hrs
  have hr' := hr.1
  have hs' := hs.2
  unfold extended
  rw [if_neg (show ¬s ≤ -(top : ℤ) by omega)]
  by_cases hbot : r ≤ -(top : ℤ)
  · rw [if_pos hbot]
    split
    next => exact WithBot.bot_lt_coe _
    next => exact WithBot.bot_lt_coe _
  · rw [if_neg hbot, if_neg (show ¬(top : ℤ) ≤ r by omega)]
    split
    next => exact WithBot.coe_lt_coe.mpr (WithTop.coe_lt_top _)
    next =>
      exact WithBot.coe_lt_coe.mpr (WithTop.coe_lt_coe.mpr (odd_strictMono hw h0 hrs))

end Signed

end SignMagnitude
