import Mathlib.Algebra.Order.Floor.Ring
import Mathlib.Algebra.Order.Group.Abs
import Mathlib.Algebra.Ring.Int.Parity
import Mathlib.Tactic.Linarith

/-- How a number is rounded to an integer. -/
inductive Rounding where
  | nearestEven
  | towardZero
  | down
  | up
  | nearestAway
  deriving DecidableEq, Repr

namespace Rounding

variable {K : Type} [Field K] [LinearOrder K] [FloorRing K]

/-- The nearest integer; `up` says where a number halfway between two of them goes. -/
def nearest (v : K) (up : Prop) [Decidable up] : ℤ :=
  if 1 / 2 < Int.fract v ∨ Int.fract v = 1 / 2 ∧ up then ⌊v⌋ + 1 else ⌊v⌋

def truncate (v : K) : ℤ := if v < 0 then ⌈v⌉ else ⌊v⌋

def toInt (m : Rounding) (v : K) : ℤ :=
  match m with
  | nearestEven => nearest v (¬Even ⌊v⌋)
  | towardZero => truncate v
  | down => ⌊v⌋
  | up => ⌈v⌉
  | nearestAway => nearest v (0 ≤ v)

variable {v : K} {a b : ℤ}

theorem truncate_of_nonneg (h : 0 ≤ v) : truncate v = ⌊v⌋ := if_neg (not_lt.mpr h)

theorem nearestEven_mem (ha : a ≤ 0) (hb : 0 ≤ b)
    (h : a ≤ nearestAway.toInt v ∧ nearestAway.toInt v ≤ b) :
    a ≤ nearestEven.toInt v ∧ nearestEven.toInt v ≤ b := by
  change a ≤ nearest v (¬Even ⌊v⌋) ∧ nearest v (¬Even ⌊v⌋) ≤ b
  change a ≤ nearest v (0 ≤ v) ∧ nearest v (0 ≤ v) ≤ b at h
  unfold nearest at *
  by_cases hgt : 1 / 2 < Int.fract v
  · rw [if_pos (.inl hgt)] at *
    exact h
  · simp only [hgt, false_or] at *
    by_cases hpos : 0 ≤ v
    · have hfloor : 0 ≤ ⌊v⌋ := Int.floor_nonneg.mpr hpos
      simp only [hpos, and_true] at h
      split at h
      next => split <;> omega
      next hne =>
        rw [if_neg fun hc => hne hc.1]
        exact h
    · have hfloor : ⌊v⌋ < 0 := Int.floor_lt.mpr (by exact_mod_cast not_le.mp hpos)
      simp only [hpos, and_false, if_false] at h
      split <;> omega

variable [IsStrictOrderedRing K]

theorem ceil_cases (v : K) :
    (⌈v⌉ = ⌊v⌋ ∧ Int.fract v = 0) ∨ (⌈v⌉ = ⌊v⌋ + 1 ∧ 0 < Int.fract v) := by
  have hv := Int.floor_add_fract v
  have h1 := Int.fract_lt_one v
  rcases (Int.fract_nonneg v).eq_or_lt with h | h
  · refine .inl ⟨Int.ceil_eq_iff.mpr ⟨?_, ?_⟩, h.symm⟩ <;> linarith
  · refine .inr ⟨Int.ceil_eq_iff.mpr ⟨?_, ?_⟩, h⟩ <;> push_cast <;> linarith

theorem nearest_eq_floor_or_ceil (v : K) (up : Prop) [Decidable up] :
    nearest v up = ⌊v⌋ ∨ nearest v up = ⌈v⌉ := by
  unfold nearest
  split
  next h =>
    rcases ceil_cases v with ⟨_, h0⟩ | ⟨hc, _⟩
    · rw [h0] at h
      norm_num at h
    · exact .inr hc.symm
  next => exact .inl rfl

theorem truncate_intCast (n : ℤ) : truncate (n : K) = n := by
  unfold truncate
  rw [Int.ceil_intCast, Int.floor_intCast, ite_self]

theorem truncate_neg (h : 0 ≤ v) : truncate (-v) = -⌊v⌋ := by
  rcases h.eq_or_lt with rfl | hpos
  · rw [neg_zero, Int.floor_zero, neg_zero]
    exact (truncate_of_nonneg le_rfl).trans Int.floor_zero
  · exact (if_pos (neg_lt_zero.mpr hpos)).trans Int.ceil_neg

/-- Every mode gives one of the two neighbours. -/
theorem toInt_eq_floor_or_ceil (m : Rounding) (v : K) : m.toInt v = ⌊v⌋ ∨ m.toInt v = ⌈v⌉ := by
  cases m with
  | nearestEven => exact nearest_eq_floor_or_ceil v _
  | nearestAway => exact nearest_eq_floor_or_ceil v _
  | towardZero =>
    change truncate v = ⌊v⌋ ∨ truncate v = ⌈v⌉
    unfold truncate
    split
    next => exact .inr rfl
    next => exact .inl rfl
  | down => exact .inl rfl
  | up => exact .inr rfl

theorem toInt_intCast (m : Rounding) (n : ℤ) : m.toInt (n : K) = n := by
  rcases m.toInt_eq_floor_or_ceil (n : K) with h | h
  · exact h.trans (Int.floor_intCast n)
  · exact h.trans (Int.ceil_intCast n)

theorem nearestAway_of_nonneg (h : 0 ≤ v) : nearestAway.toInt v = ⌊v + 1 / 2⌋ := by
  have hv := Int.floor_add_fract v
  have h0 := Int.fract_nonneg v
  have h1 := Int.fract_lt_one v
  change nearest v (0 ≤ v) = ⌊v + 1 / 2⌋
  unfold nearest
  split
  next hup =>
    have hhalf : 1 / 2 ≤ Int.fract v := hup.elim le_of_lt fun hup => hup.1.ge
    refine (Int.floor_eq_iff.mpr ⟨?_, ?_⟩).symm
    · push_cast
      linarith
    · push_cast
      linarith
  next hdown =>
    obtain ⟨hle, hne⟩ := not_or.mp hdown
    have hlt := (not_lt.mp hle).lt_of_ne fun he => hne ⟨he, h⟩
    exact (Int.floor_eq_iff.mpr ⟨by linarith, by linarith⟩).symm

theorem nearestAway_of_neg (h : v < 0) : nearestAway.toInt v = ⌈v - 1 / 2⌉ := by
  have hv := Int.floor_add_fract v
  have h0 := Int.fract_nonneg v
  have h1 := Int.fract_lt_one v
  change nearest v (0 ≤ v) = ⌈v - 1 / 2⌉
  unfold nearest
  split
  next hup =>
    have hgt := hup.resolve_right fun hup => not_le.mpr h hup.2
    refine (Int.ceil_eq_iff.mpr ⟨?_, ?_⟩).symm
    · push_cast
      linarith
    · push_cast
      linarith
  next hdown =>
    have hle := not_lt.mp (not_or.mp hdown).1
    exact (Int.ceil_eq_iff.mpr ⟨by linarith, by linarith⟩).symm

theorem nearestAway_neg (h : 0 ≤ v) : nearestAway.toInt (-v) = -⌊v + 1 / 2⌋ := by
  rcases h.eq_or_lt with rfl | hpos
  · rw [neg_zero, ← Int.cast_zero, toInt_intCast, Int.cast_zero, zero_add]
    have hfloor : ⌊(1 / 2 : K)⌋ = 0 := Int.floor_eq_zero_iff.mpr ⟨by linarith, by linarith⟩
    rw [hfloor, neg_zero]
  · have hneg : -v - 1 / 2 = -(v + 1 / 2) := (neg_add' v (1 / 2)).symm
    rw [nearestAway_of_neg (neg_lt_zero.mpr hpos), hneg, Int.ceil_neg]

theorem truncate_mem_iff (ha : a ≤ 0) (hb : 0 ≤ b) :
    (a ≤ truncate v ∧ truncate v ≤ b) ↔ (a : K) - 1 < v ∧ v < b + 1 := by
  have ha' : (a : K) ≤ 0 := by exact_mod_cast ha
  have hb' : (0 : K) ≤ b := by exact_mod_cast hb
  unfold truncate
  split
  next h =>
    have hle : ⌈v⌉ ≤ 0 := Int.ceil_le.mpr (by exact_mod_cast h.le)
    rw [Int.le_ceil_iff]
    exact and_congr_right' (iff_of_true (hle.trans hb) (by linarith))
  next h =>
    have hle : 0 ≤ ⌊v⌋ := Int.le_floor.mpr (by exact_mod_cast not_lt.mp h)
    rw [Int.floor_le_iff]
    exact and_congr_left' (iff_of_true (ha.trans hle) (by linarith))

theorem nearestAway_mem_iff (ha : a ≤ 0) (hb : 0 ≤ b) :
    (a ≤ nearestAway.toInt v ∧ nearestAway.toInt v ≤ b) ↔
      (a : K) - 1 / 2 < v ∧ v < b + 1 / 2 := by
  have ha' : (a : K) ≤ 0 := by exact_mod_cast ha
  have hb' : (0 : K) ≤ b := by exact_mod_cast hb
  have hv := Int.floor_add_fract v
  have h0 := Int.fract_nonneg v
  have h1 := Int.fract_lt_one v
  change (a ≤ nearest v (0 ≤ v) ∧ nearest v (0 ≤ v) ≤ b) ↔ _
  unfold nearest
  split
  next h =>
    have hhalf : 1 / 2 ≤ Int.fract v := h.elim le_of_lt fun h => h.1.ge
    refine and_congr ⟨fun hle => ?_, fun hlt => ?_⟩ ⟨fun hle => ?_, fun hlt => ?_⟩
    · have hle' : (a : K) ≤ ⌊v⌋ + 1 := by exact_mod_cast hle
      rcases h with h | h
      · linarith
      · linarith [h.2]
    · have hlt' : (a : K) < (⌊v⌋ + 2 : ℤ) := by push_cast; linarith
      have := Int.cast_lt.mp hlt'
      omega
    · have hle' : (⌊v⌋ : K) + 1 ≤ b := by exact_mod_cast hle
      linarith
    · have hlt' : (⌊v⌋ : K) < b := by linarith
      exact Int.cast_lt.mp hlt'
  next h =>
    obtain ⟨hhalf, htie⟩ := not_or.mp h
    have hhalf := not_lt.mp hhalf
    refine and_congr ⟨fun hle => ?_, fun hlt => ?_⟩ ⟨fun hle => ?_, fun hlt => ?_⟩
    · have hle' : (a : K) ≤ ⌊v⌋ := by exact_mod_cast hle
      linarith
    · have hlt' : (a : K) < (⌊v⌋ + 1 : ℤ) := by push_cast; linarith
      have := Int.cast_lt.mp hlt'
      omega
    · have hle' : (⌊v⌋ : K) ≤ b := by exact_mod_cast hle
      rcases hhalf.eq_or_lt with heq | hlt
      · have hneg : v < 0 := not_le.mp fun hn => htie ⟨heq, hn⟩
        linarith
      · linarith
    · have hlt' : (⌊v⌋ : K) < (b + 1 : ℤ) := by push_cast; linarith
      have := Int.cast_lt.mp hlt'
      omega

theorem fract_half_iff (n : ℤ) : (Int.fract v = 1 / 2 ∧ ⌊v⌋ = n) ↔ v = n + 1 / 2 := by
  constructor
  · rintro ⟨hf, rfl⟩
    rw [← hf, Int.floor_add_fract]
  · rintro rfl
    have hfloor : ⌊(n : K) + 1 / 2⌋ = n := by
      refine Int.floor_eq_iff.mpr ⟨?_, ?_⟩ <;> linarith
    exact ⟨by rw [Int.fract, hfloor, add_sub_cancel_left], hfloor⟩

/-- Halfway, the lower neighbour of a positive number is the one closer to zero. -/
theorem exists_even_tie_iff (htie : Int.fract v = 1 / 2) :
    (∃ k : ℕ, |v| = 2 * k + 1 / 2) ↔ (Even ⌊v⌋ ↔ 0 ≤ v) := by
  have hv := ((fract_half_iff ⌊v⌋).mp ⟨htie, rfl⟩)
  by_cases hpos : 0 ≤ v
  · rw [abs_of_nonneg hpos, iff_true_right hpos]
    constructor
    · rintro ⟨k, hk⟩
      have hk' : v = (2 * k : ℤ) + 1 / 2 := by push_cast; exact hk
      have hfloor := ((fract_half_iff _).mpr hk').2
      exact ⟨k, by omega⟩
    · rintro ⟨k, hk⟩
      have hk0 : 0 ≤ ⌊v⌋ := Int.floor_nonneg.mpr hpos
      refine ⟨k.toNat, ?_⟩
      have hcast : ((k.toNat : ℤ) : K) = k := by rw [Int.toNat_of_nonneg (by omega)]
      rw [hk] at hv
      push_cast at hv hcast
      linarith
  · have hneg := not_le.mp hpos
    rw [abs_of_neg hneg, iff_false_right hpos]
    constructor
    · rintro ⟨k, hk⟩ ⟨j, hj⟩
      have hk' : v = (-2 * k - 1 : ℤ) + 1 / 2 := by push_cast; linarith
      have hfloor := ((fract_half_iff _).mpr hk').2
      omega
    · intro hodd
      obtain ⟨k, hk⟩ := Int.not_even_iff_odd.mp hodd
      have hk0 : ⌊v⌋ < 0 := Int.floor_lt.mpr (by exact_mod_cast hneg)
      refine ⟨(-k - 1).toNat, ?_⟩
      have hcast : (((-k - 1).toNat : ℤ) : K) = (-k - 1 : ℤ) := by
        rw [Int.toNat_of_nonneg (by omega)]
      rw [hk] at hv
      push_cast at hv hcast
      linarith

/-- The two differ halfway between an even number and the next one away from zero. -/
theorem nearestEven_eq_nearestAway_iff :
    nearestEven.toInt v = nearestAway.toInt v ↔ ∀ k : ℕ, |v| ≠ 2 * k + 1 / 2 := by
  change nearest v (¬Even ⌊v⌋) = nearest v (0 ≤ v) ↔ _
  by_cases htie : Int.fract v = 1 / 2
  · have hn : ∀ (up : Prop) [Decidable up], nearest v up = if up then ⌊v⌋ + 1 else ⌊v⌋ := by
      intro up _
      unfold nearest
      simp only [htie, lt_irrefl, false_or, true_and]
    rw [hn, hn, ← not_exists, exists_even_tie_iff htie]
    by_cases he : Even ⌊v⌋ <;> by_cases hpos : 0 ≤ v <;> simp [he, hpos]
  · have hn : ∀ (up : Prop) [Decidable up], nearest v up = if 1 / 2 < Int.fract v then ⌊v⌋ + 1
        else ⌊v⌋ := by
      intro up _
      unfold nearest
      simp only [htie, false_and, or_false]
    rw [hn, hn]
    refine iff_of_true rfl fun k hk => htie ?_
    rcases le_total 0 v with hpos | hneg
    · rw [abs_of_nonneg hpos] at hk
      have hk' : v = (2 * k : ℤ) + 1 / 2 := by push_cast; exact hk
      exact ((fract_half_iff _).mpr hk').1
    · rw [abs_of_nonpos hneg] at hk
      have hk' : v = (-2 * k - 1 : ℤ) + 1 / 2 := by push_cast; linarith
      exact ((fract_half_iff _).mpr hk').1

end Rounding
