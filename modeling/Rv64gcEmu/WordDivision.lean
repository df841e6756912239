import Mathlib.Data.Int.ModEq
import Mathlib.Tactic.Common

namespace WordDivision

variable {w : Nat} {n d q r v : BitVec w}

/-- The one signed quotient that is not a word. -/
def Overflows (n d : BitVec w) : Prop := n = BitVec.intMin w ∧ d = -1#w

instance (n d : BitVec w) : Decidable (Overflows n d) := inferInstanceAs (Decidable (_ ∧ _))

/-- The quotient `q` and the remainder `r` of the signed words `n` and `d`. -/
structure Signed (n d q r : BitVec w) : Prop where
  euclid : n = q * d + r
  truncated : d ≠ 0#w → ¬Overflows n d → q.toInt = n.toInt.tdiv d.toInt
  sign : r = 0#w ∨ r.msb = n.msb
  by_zero : d = 0#w → q = BitVec.allOnes w ∧ r = n
  overflow : Overflows n d → q = BitVec.intMin w ∧ r = 0#w

structure Unsigned (n d q r : BitVec w) : Prop where
  quotient : d ≠ 0#w → q.toNat = n.toNat / d.toNat
  remainder : d ≠ 0#w → r.toNat = n.toNat % d.toNat
  by_zero : d = 0#w → q = BitVec.allOnes w ∧ r = n

/-- The instructions that divide. -/
inductive Op where
  | div
  | divu
  | rem
  | remu
  deriving DecidableEq, Repr

/-- The value `v` is what the instruction leaves for the operands `n` and `d`. -/
def Op.Gives (n d v : BitVec w) : Op → Prop
  | .div => ∃ r, Signed n d v r
  | .divu => ∃ r, Unsigned n d v r
  | .rem => ∃ q, Signed n d q v
  | .remu => ∃ q, Unsigned n d q v

def Op.result (n d : BitVec w) : Op → BitVec w
  | .div => if d = 0#w then BitVec.allOnes w else n.sdiv d
  | .divu => if d = 0#w then BitVec.allOnes w else n / d
  | .rem => n.srem d
  | .remu => n % d

theorem Op.result_div_of_zero (h : d = 0#w) : result n d .div = BitVec.allOnes w := if_pos h

theorem Op.result_div_of_ne (h : d ≠ 0#w) : result n d .div = n.sdiv d := if_neg h

theorem Op.result_divu_of_zero (h : d = 0#w) : result n d .divu = BitVec.allOnes w := if_pos h

theorem Op.result_divu_of_ne (h : d ≠ 0#w) : result n d .divu = n / d := if_neg h

theorem sdiv_eq_ofInt (n d : BitVec w) : n.sdiv d = BitVec.ofInt w (n.toInt.tdiv d.toInt) := by
  apply BitVec.eq_of_toInt_eq
  rw [BitVec.toInt_sdiv, BitVec.toInt_ofInt]

theorem srem_eq_ofInt (n d : BitVec w) : n.srem d = BitVec.ofInt w (n.toInt.tmod d.toInt) := by
  rw [← BitVec.toInt_srem, BitVec.ofInt_toInt]

theorem sdiv_mul_add_srem (n d : BitVec w) : n.sdiv d * d + n.srem d = n := by
  have hd : d = BitVec.ofInt w d.toInt := BitVec.ofInt_toInt.symm
  calc n.sdiv d * d + n.srem d
      = BitVec.ofInt w (n.toInt.tdiv d.toInt) * BitVec.ofInt w d.toInt +
          BitVec.ofInt w (n.toInt.tmod d.toInt) := by
        rw [sdiv_eq_ofInt, srem_eq_ofInt, ← hd]
    _ = BitVec.ofInt w (n.toInt.tdiv d.toInt * d.toInt + n.toInt.tmod d.toInt) := by
        rw [BitVec.ofInt_add, BitVec.ofInt_mul]
    _ = BitVec.ofInt w n.toInt := by rw [Int.tdiv_mul_add_tmod]
    _ = n := BitVec.ofInt_toInt

theorem toInt_sdiv_of_not_overflows (h : ¬Overflows n d) :
    (n.sdiv d).toInt = n.toInt.tdiv d.toInt :=
  BitVec.toInt_sdiv_of_ne_or_ne n d (by rw [← not_and_or]; exact h)

theorem tmod_nonpos {n : Int} (d : Int) (h : n ≤ 0) : n.tmod d ≤ 0 := by
  have hn := Int.tmod_nonneg d (Int.neg_nonneg_of_nonpos h)
  rw [Int.neg_tmod] at hn
  omega

/-- A remainder has the sign of the dividend. -/
theorem srem_sign (n d : BitVec w) : n.srem d = 0#w ∨ (n.srem d).msb = n.msb := by
  by_cases hz : n.srem d = 0#w
  · exact .inl hz
  · have hne : n.toInt.tmod d.toInt ≠ 0 := by
      intro h
      rw [srem_eq_ofInt, h] at hz
      exact hz rfl
    refine .inr ?_
    rw [BitVec.msb_eq_toInt, BitVec.msb_eq_toInt, BitVec.toInt_srem]
    refine decide_eq_decide.mpr ?_
    constructor
    · intro hr
      by_contra hn
      have h := Int.tmod_nonneg d.toInt (Int.not_lt.mp hn)
      omega
    · intro hn
      have h := tmod_nonpos d.toInt (Int.le_of_lt hn)
      omega

theorem Overflows.ne_zero (hw : 0 < w) (h : Overflows n d) : d ≠ 0#w := by
  intro hd
  have hone := congrArg BitVec.toNat (BitVec.neg_eq_zero_iff.mp (h.2.symm.trans hd))
  rw [BitVec.toNat_ofNat, BitVec.toNat_ofNat, Nat.one_mod_two_pow hw, Nat.zero_mod] at hone
  exact absurd hone (by decide)

theorem Overflows.sdiv (h : Overflows n d) : n.sdiv d = BitVec.intMin w := by
  rw [h.1, h.2]
  exact BitVec.intMin_sdiv_neg_one

theorem Overflows.srem (h : Overflows n d) : n.srem d = 0#w := by
  have he := sdiv_mul_add_srem n d
  have hm : BitVec.intMin w * -1#w = BitVec.intMin w := by
    rw [BitVec.mul_neg, BitVec.mul_one, BitVec.neg_intMin]
  rw [h.sdiv, h.2, hm, ← h.2, h.1] at he
  rw [h.1]
  exact BitVec.add_right_eq_self.mp he

theorem signed_result (hw : 0 < w) (n d : BitVec w) :
    Signed n d (Op.result n d .div) (Op.result n d .rem) := by
  by_cases hd : d = 0#w
  · subst hd
    rw [Op.result_div_of_zero rfl, Op.result, BitVec.srem_zero]
    exact ⟨by simp, fun h => absurd rfl h, .inr rfl, fun _ => ⟨rfl, rfl⟩,
      fun h => absurd rfl (h.ne_zero hw)⟩
  · rw [Op.result_div_of_ne hd]
    exact ⟨(sdiv_mul_add_srem n d).symm, fun _ h => toInt_sdiv_of_not_overflows h, srem_sign n d,
      fun h => absurd h hd, fun h => ⟨h.sdiv, h.srem⟩⟩

theorem Signed.quotient_eq (h : Signed n d q r) : q = Op.result n d .div := by
  by_cases hd : d = 0#w
  · rw [Op.result_div_of_zero hd]
    exact (h.by_zero hd).1
  · rw [Op.result_div_of_ne hd]
    by_cases ho : Overflows n d
    · rw [(h.overflow ho).1, ho.sdiv]
    · apply BitVec.eq_of_toInt_eq
      rw [h.truncated hd ho, toInt_sdiv_of_not_overflows ho]

theorem Signed.remainder_eq (h : Signed n d q r) : r = Op.result n d .rem := by
  simp only [Op.result]
  by_cases hd : d = 0#w
  · rw [(h.by_zero hd).2, hd, BitVec.srem_zero]
  · have hq := h.quotient_eq
    rw [Op.result_div_of_ne hd] at hq
    have he : n.sdiv d * d + n.srem d = n.sdiv d * d + r := by
      rw [sdiv_mul_add_srem, ← hq]
      exact h.euclid
    exact ((BitVec.add_right_inj _).mp he).symm

theorem unsigned_result (n d : BitVec w) :
    Unsigned n d (Op.result n d .divu) (Op.result n d .remu) := by
  refine ⟨fun hd => ?_, fun _ => BitVec.toNat_umod, fun hd => ?_⟩
  · rw [Op.result_divu_of_ne hd]
    exact BitVec.toNat_udiv
  · rw [Op.result_divu_of_zero hd, Op.result, hd]
    exact ⟨rfl, BitVec.umod_zero⟩

theorem Unsigned.unique (h : Unsigned n d q r) :
    q = Op.result n d .divu ∧ r = Op.result n d .remu := by
  have hs := unsigned_result n d
  by_cases hd : d = 0#w
  · rw [(h.by_zero hd).1, (h.by_zero hd).2, (hs.by_zero hd).1, (hs.by_zero hd).2]
    exact ⟨rfl, rfl⟩
  · constructor
    · apply BitVec.eq_of_toNat_eq
      rw [h.quotient hd, hs.quotient hd]
    · apply BitVec.eq_of_toNat_eq
      rw [h.remainder hd, hs.remainder hd]

/-- An instruction has one result, whatever the operands. -/
theorem gives_iff (hw : 0 < w) (op : Op) : op.Gives n d v ↔ v = op.result n d := by
  constructor
  · intro h
    cases op with
    | div => exact h.choose_spec.quotient_eq
    | divu => exact h.choose_spec.unique.1
    | rem => exact h.choose_spec.remainder_eq
    | remu => exact h.choose_spec.unique.2
  · intro h
    subst h
    cases op with
    | div => exact ⟨_, signed_result hw n d⟩
    | divu => exact ⟨_, unsigned_result n d⟩
    | rem => exact ⟨_, signed_result hw n d⟩
    | remu => exact ⟨_, unsigned_result n d⟩

theorem natAbs_tmod_lt {n e : Int} (h : e ≠ 0) : (n.tmod e).natAbs < e.natAbs := by
  rw [Int.natAbs_tmod]
  exact Nat.mod_lt _ (Int.natAbs_pos.mpr h)

/-- A remainder lies between zero and the dividend. -/
theorem tmod_between (n e : Int) : (0 ≤ n → 0 ≤ n.tmod e ∧ n.tmod e ≤ n) ∧
    (n ≤ 0 → n ≤ n.tmod e ∧ n.tmod e ≤ 0) := by
  have habs : (n.tmod e).natAbs ≤ n.natAbs := by
    rw [Int.natAbs_tmod]
    exact Nat.mod_le _ _
  constructor
  · intro h
    have hr := Int.tmod_nonneg e h
    omega
  · intro h
    have hr := tmod_nonpos e h
    omega

theorem tmod_eq_self_iff {n e : Int} : n.tmod e = n ↔ e = 0 ∨ n.natAbs < e.natAbs := by
  constructor
  · intro h
    by_cases he : e = 0
    · exact .inl he
    · have hlt := natAbs_tmod_lt (n := n) he
      rw [h] at hlt
      exact .inr hlt
  · rintro (rfl | h)
    · exact Int.tmod_zero n
    · have hn := Int.natAbs_tmod n e
      rw [Nat.mod_eq_of_lt h] at hn
      rcases Int.le_total 0 n with h0 | h0
      · have hr := Int.tmod_nonneg e h0
        omega
      · have hr := tmod_nonpos e h0
        omega

/-- The remainder by a divisor that was not cut to the range of the dividend. -/
theorem tmod_wide_iff {n d e half : Int} (hn : -half ≤ n ∧ n < half)
    (hd : d = e ∨ half < d.natAbs ∨ (d = half ∧ e = -half)) :
    n.tmod d = n.tmod e ↔
      d = e ∨ e = 0 ∨ n.natAbs < e.natAbs ∨ (n = -half ∧ d = half ∧ e = -half) := by
  rcases hd with rfl | hd | ⟨rfl, rfl⟩
  · exact iff_of_true rfl (.inl rfl)
  · have hwide : n.tmod d = n := tmod_eq_self_iff.mpr (.inr (by omega))
    constructor
    · intro h
      rw [hwide] at h
      rcases tmod_eq_self_iff.mp h.symm with h0 | hlt
      · exact .inr (.inl h0)
      · exact .inr (.inr (.inl hlt))
    · rintro (rfl | h0 | hlt | ⟨-, hh, -⟩)
      · rfl
      · rw [hwide, tmod_eq_self_iff.mpr (.inl h0)]
      · rw [hwide, tmod_eq_self_iff.mpr (.inr hlt)]
      · omega
  · rw [Int.tmod_neg]
    refine iff_of_true rfl ?_
    by_cases hlow : n = -d
    · exact .inr (.inr (.inr ⟨hlow, rfl, rfl⟩))
    · exact .inr (.inr (.inl (by omega)))

theorem mod_eq_iff_dvd_sub {a b r : Nat} (hr : r < b) (ha : r ≤ a) : a % b = r ↔ b ∣ a - r := by
  rw [← Nat.modEq_iff_dvd' ha, Nat.ModEq, Nat.mod_eq_of_lt hr]
  exact eq_comm

/-- The dividend and its low part have the same remainder. -/
theorem mod_eq_low_mod_iff {a b m : Nat} : a % b = a % m % b ↔ b ∣ m * (a / m) := by
  have hsub : a - a % m = m * (a / m) := by
    have he := Nat.mod_add_div a m
    omega
  rw [← hsub, ← Nat.modEq_iff_dvd' (Nat.mod_le a m)]
  exact eq_comm

theorem mod_add_le {a b : Nat} (hb : 0 < b) (h : b ≤ a) : a % b + b ≤ a := by
  have hq : 0 < a / b := Nat.div_pos h hb
  have he := Nat.mod_add_div a b
  have hm : b ≤ b * (a / b) := Nat.le_mul_of_pos_right b hq
  omega

theorem mod_eq_self_iff {a b : Nat} : a % b = a ↔ b = 0 ∨ a < b := by
  constructor
  · intro h
    by_cases hb : b = 0
    · exact .inl hb
    · have hlt := Nat.mod_lt a (Nat.pos_of_ne_zero hb)
      rw [h] at hlt
      exact .inr hlt
  · rintro (rfl | h)
    · exact Nat.mod_zero a
    · exact Nat.mod_eq_of_lt h

end WordDivision
