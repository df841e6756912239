import Mathlib.Tactic.Common
import Mathlib.Tactic.Linarith

namespace WideProduct

variable {w v : Nat}

theorem append_halves (x : BitVec (w + w)) : (x >>> w).setWidth w ++ x.setWidth w = x := by
  apply BitVec.eq_of_getLsbD_eq
  intro i hi
  rw [BitVec.getLsbD_append, BitVec.getLsbD_setWidth, BitVec.getLsbD_setWidth,
    BitVec.getLsbD_ushiftRight]
  by_cases hlow : i < w
  · simp [hlow]
  · have hup : i - w < w := by omega
    have he : w + (i - w) = i := by omega
    simp [hlow, hup, he]

/-- The upper half is the same under both shifts. -/
theorem setWidth_sshiftRight (x : BitVec (w + w)) :
    (x.sshiftRight w).setWidth w = (x >>> w).setWidth w := by
  apply BitVec.eq_of_getLsbD_eq
  intro i hi
  rw [BitVec.getLsbD_setWidth, BitVec.getLsbD_setWidth, BitVec.getLsbD_sshiftRight,
    BitVec.getLsbD_ushiftRight]
  have h1 : ¬w + w ≤ i := by omega
  have h2 : w + i < w + w := by omega
  simp [h1, h2]

theorem setWidth_signExtend (a : BitVec w) (h : w ≤ v) : (a.signExtend v).setWidth w = a := by
  apply BitVec.eq_of_getLsbD_eq
  intro i hi
  have hv : i < v := by omega
  rw [BitVec.getLsbD_setWidth, BitVec.getLsbD_signExtend]
  simp [hi, hv]

/-- A signed product fits in twice the width. -/
theorem not_smulOverflow (a b : BitVec w) (hw : 0 < w) (hv : w + w ≤ v) :
    BitVec.smulOverflow (a.signExtend v) (b.signExtend v) = false := by
  have hlo := @BitVec.le_toInt_mul_toInt w a b
  have hhi := @BitVec.toInt_mul_toInt_le w a b
  have hpow : (2 : Int) ^ (w * 2 - 2) < 2 ^ (v - 1) :=
    Int.pow_lt_pow_of_lt (by decide) (by omega)
  simp only [BitVec.smulOverflow]
  rw [BitVec.toInt_signExtend_of_le (by omega), BitVec.toInt_signExtend_of_le (by omega),
    Bool.or_eq_false_iff]
  exact ⟨decide_eq_false (by omega), decide_eq_false (by omega)⟩

theorem toInt_signed (a b : BitVec w) (hw : 0 < w) (hv : w + w ≤ v) :
    (a.signExtend v * b.signExtend v).toInt = a.toInt * b.toInt := by
  have h := not_smulOverflow a b hw hv
  rw [BitVec.toInt_mul_of_not_smulOverflow (by rw [h]; decide),
    BitVec.toInt_signExtend_of_le (by omega), BitVec.toInt_signExtend_of_le (by omega)]

theorem two_pow_mul_le (hv : w + w ≤ v) : 2 ^ w * 2 ^ w ≤ 2 ^ v := by
  rw [← Nat.pow_add]
  exact Nat.pow_le_pow_right (by decide) hv

theorem not_umulOverflow (a b : BitVec w) (hv : w + w ≤ v) :
    BitVec.umulOverflow (a.setWidth v) (b.setWidth v) = false := by
  have hpow := two_pow_mul_le hv
  have hlt : a.toNat * b.toNat < 2 ^ w * 2 ^ w :=
    Nat.mul_lt_mul_of_lt_of_le a.isLt (Nat.le_of_lt b.isLt) (Nat.two_pow_pos w)
  have hle : 2 ^ w ≤ 2 ^ v := Nat.pow_le_pow_right (by decide) (by omega)
  have ha := a.isLt
  have hb := b.isLt
  rw [BitVec.umulOverflow, BitVec.toNat_setWidth, BitVec.toNat_setWidth,
    Nat.mod_eq_of_lt (by omega), Nat.mod_eq_of_lt (by omega)]
  exact decide_eq_false (by omega)

theorem toNat_unsigned (a b : BitVec w) (hv : w + w ≤ v) :
    (a.setWidth v * b.setWidth v).toNat = a.toNat * b.toNat := by
  have h := not_umulOverflow a b hv
  have hle : 2 ^ w ≤ 2 ^ v := Nat.pow_le_pow_right (by decide) (by omega)
  have ha := a.isLt
  have hb := b.isLt
  rw [BitVec.toNat_mul_of_not_umulOverflow (by rw [h]; decide), BitVec.toNat_setWidth,
    BitVec.toNat_setWidth, Nat.mod_eq_of_lt (by omega), Nat.mod_eq_of_lt (by omega)]

/-- A signed word times an unsigned one. -/
theorem toInt_mixed (a b : BitVec w) (hw : 0 < w) (hv : w + w ≤ v) :
    (a.signExtend v * b.setWidth v).toInt = a.toInt * b.toNat := by
  have hlo := @BitVec.le_two_mul_toInt w a
  have hhi := @BitVec.two_mul_toInt_lt w a
  have hb : (b.toNat : Int) < 2 ^ w := by exact_mod_cast b.isLt
  have hb0 : (0 : Int) ≤ b.toNat := Int.natCast_nonneg _
  have hpow : (2 : Int) ^ w * 2 ^ w ≤ 2 ^ v := by exact_mod_cast two_pow_mul_le hv
  have htwo : (2 : Int) ≤ 2 ^ w := by
    exact_mod_cast Nat.pow_le_pow_right (by decide : 0 < 2) hw
  have hunsigned : (b.setWidth v).toInt = b.toNat := by
    rw [BitVec.toInt_setWidth]
    refine Int.bmod_eq_of_le_mul_two ?_ ?_
    · push_cast
      nlinarith only [hb0, hpow, htwo]
    · push_cast
      nlinarith only [hb, hb0, hpow, htwo]
  rw [BitVec.toInt_mul, BitVec.toInt_signExtend_of_le (by omega), hunsigned]
  refine Int.bmod_eq_of_le_mul_two ?_ ?_
  · push_cast
    nlinarith only [hlo, hb, hb0, hpow, htwo]
  · push_cast
    nlinarith only [hhi, hb, hb0, hpow, htwo]

end WideProduct
