import Rv64gcEmu.SignedWord

/-- The word is a number that the field can hold. -/
structure IsImmediate {w : Nat} (n k : Nat) (x : BitVec w) : Prop where
  le_toInt : -2 ^ (n - 1) ≤ x.toInt
  toInt_lt : x.toInt < 2 ^ (n - 1)
  dvd_toInt : 2 ^ k ∣ x.toInt

/-- The words of `w` bits that are immediates of `n` bits, multiples of `2 ^ k`. -/
abbrev Immediate (w n k : Nat) := { x : BitVec w // IsImmediate n k x }

namespace IsImmediate

open SignedWord (extractLsb'_signExtend dvd_toInt_iff signExtend_setWidth)

variable {w n k : Nat} {x : BitVec w}

instance : Decidable (IsImmediate n k x) :=
  decidable_of_iff (-2 ^ (n - 1) ≤ x.toInt ∧ x.toInt < 2 ^ (n - 1) ∧ 2 ^ k ∣ x.toInt)
    ⟨fun h => ⟨h.1, h.2.1, h.2.2⟩, fun h => ⟨h.le_toInt, h.toInt_lt, h.dvd_toInt⟩⟩

/-- An immediate is the sign extension of its lower `n` bits. -/
theorem signExtend_low (h : IsImmediate n k x) (hn : 0 < n) (hw : n ≤ w) :
    (x.extractLsb' 0 n).signExtend w = x := by
  have hp : (2 ^ n : Int) = 2 ^ (n - 1) * 2 := by
    rw [← Int.pow_succ]
    exact congrArg _ (Nat.succ_pred_eq_of_pos hn).symm
  have hlo := h.le_toInt
  have hhi := h.toInt_lt
  rw [← BitVec.setWidth_eq_extractLsb' hw]
  apply signExtend_setWidth hw
  · push_cast
    omega
  · push_cast
    omega

/-- The bits of it that no field keeps are zero. -/
theorem low_eq_zero (h : IsImmediate n k x) (hk : k ≤ w) : x.extractLsb' 0 k = 0#k :=
  (dvd_toInt_iff x hk).mp h.dvd_toInt

/-- A field that has been put together and extended is an immediate. -/
theorem of_signExtend {y : BitVec n} (hx : x = y.signExtend w) (hw : n ≤ w) (hk : k ≤ n)
    (hy : y.extractLsb' 0 k = 0#k) : IsImmediate n k x := by
  have hkw : k ≤ w := hk.trans hw
  have hi : x.toInt = y.toInt := by
    rw [hx, BitVec.toInt_signExtend_of_le hw]
  refine ⟨?_, ?_, ?_⟩
  · rw [hi]
    exact BitVec.le_toInt y
  · rw [hi]
    exact BitVec.toInt_lt
  · rw [dvd_toInt_iff x hkw, hx, extractLsb'_signExtend y (by omega) hw, hy]

theorem of_signExtend_zero {y : BitVec n} (hx : x = y.signExtend w) (hw : n ≤ w) :
    IsImmediate n 0 x :=
  of_signExtend hx hw (Nat.zero_le n) (BitVec.eq_of_zero_length rfl)

end IsImmediate
