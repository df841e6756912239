import Mathlib.Tactic.Common
import Mathlib.Tactic.Ring

namespace SignedWord

variable {w n : Nat}

/-- The low part and the word are the same number modulo the low part's size. -/
theorem toInt_setWidth_eq_bmod (x : BitVec w) (h : n ≤ w) :
    (x.setWidth n).toInt = x.toInt.bmod (2 ^ n) := by
  rw [BitVec.toInt_setWidth, BitVec.toInt_eq_toNat_bmod x,
    Int.bmod_bmod_of_dvd (Nat.pow_dvd_pow 2 h)]

theorem dvd_toInt_setWidth_sub (x : BitVec w) (h : n ≤ w) :
    ((2 ^ n : Nat) : Int) ∣ (x.setWidth n).toInt - x.toInt := by
  rw [toInt_setWidth_eq_bmod x h]
  exact Int.dvd_bmod_sub_self

/-- A word in the range of its low part is the sign extension of it. -/
theorem signExtend_setWidth {x : BitVec w} (h : n ≤ w) (hlo : -((2 ^ n : Nat) : Int) ≤ x.toInt * 2)
    (hhi : x.toInt * 2 < (2 ^ n : Nat)) : (x.setWidth n).signExtend w = x := by
  apply BitVec.eq_of_toInt_eq
  rw [BitVec.toInt_signExtend_of_le h, toInt_setWidth_eq_bmod x h]
  exact Int.bmod_eq_of_le_mul_two hlo hhi

theorem toInt_eq_iff_signExtend {x : BitVec w} {y : BitVec n} (h : n ≤ w) :
    x = y.signExtend w ↔ x.toInt = y.toInt := by
  rw [← BitVec.toInt_inj, BitVec.toInt_signExtend_of_le h]

/-- Below its width, an extended word has the bits it had. -/
theorem extractLsb'_signExtend (y : BitVec n) {i m : Nat} (hm : i + m ≤ n) (hw : n ≤ w) :
    (y.signExtend w).extractLsb' i m = y.extractLsb' i m := by
  apply BitVec.eq_of_getLsbD_eq
  intro j hj
  have hn : i + j < n := by omega
  have hwj : i + j < w := by omega
  simp only [BitVec.getLsbD_extractLsb', BitVec.getLsbD_signExtend, hn, hwj, hj, decide_true,
    Bool.true_and, if_true]

/-- The multiples of `2 ^ n` are the words whose low part is zero. -/
theorem dvd_toInt_iff (x : BitVec w) (h : n ≤ w) : 2 ^ n ∣ x.toInt ↔ x.extractLsb' 0 n = 0#n := by
  have hp : (2 ^ n : Int) = ((2 ^ n : Nat) : Int) := by push_cast; rfl
  rw [← BitVec.setWidth_eq_extractLsb' h, ← BitVec.toInt_inj, toInt_setWidth_eq_bmod x h,
    BitVec.toInt_zero, hp]
  exact Int.dvd_iff_bmod_eq_zero

end SignedWord
