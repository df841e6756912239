import Rv64gcEmu.BitField
import Rv64gcEmu.HostModel

namespace Rv64gcEmu

namespace Helper

def readBit (value : Word) (offset : Nat) : Word :=
  if value &&& (1#64 <<< offset) ≠ 0 then 1 else 0

def readBits (value : Word) (upperOffset lowerOffset : Nat) : Word :=
  let mask : Word := (1#64 <<< (upperOffset - lowerOffset + 1)) - 1
  (value >>> lowerOffset) &&& mask

def writeBit (value : Word) (offset : Nat) (writeValue : Word) : Word :=
  if writeValue = 0 then value &&& ~~~(1#64 <<< offset) else value ||| (1#64 <<< offset)

def writeBits (value : Word) (upperOffset lowerOffset : Nat) (writeValue : Word) : Word :=
  let mask : Word := ((1#64 <<< (upperOffset - lowerOffset + 1)) - 1) <<< lowerOffset
  (value &&& ~~~mask) ||| (writeValue <<< lowerOffset)

/-- The division is undefined for a zero alignment. -/
def alignUp (value alignment : Word) : HostM Word :=
  if alignment = 0 then .error .undefined
  else .ok (((value + alignment - 1) / alignment) * alignment)

def valueInRange (value lowerRange upperRange : Word) : Bool :=
  lowerRange ≤ value && value < upperRange

def valueInRangeInclusive (value lowerRange upperRange : Word) : Bool :=
  lowerRange ≤ value && value ≤ upperRange

end Helper

/-- `SIGNEXTEND_CAST(val, int8_t)` and its siblings: keep the low `n` bits, then sign-extend. -/
def signExtendCast {w : Nat} (val : BitVec w) (n : Nat) : Word := (val.setWidth n).signExtend 64

open BitField (getLsbD_one_shiftLeft)

theorem and_one_shiftLeft_ne_zero {w : Nat} {v : BitVec w} {k : Nat} (hk : k < w) :
    v &&& (1#w <<< k) ≠ 0 ↔ v.getLsbD k = true := by
  constructor
  · intro h
    by_contra hb
    apply h
    apply BitVec.eq_of_getLsbD_eq
    intro i hi
    rw [BitVec.getLsbD_and, getLsbD_one_shiftLeft]
    by_cases hik : i = k
    · subst hik
      simp [hb]
    · simp [hik]
  · intro h hz
    have hb := congrArg (fun x => x.getLsbD k) hz
    simp only [BitVec.getLsbD_and, getLsbD_one_shiftLeft, h, hk, decide_true, Bool.and_self] at hb
    exact absurd hb (by simp)

theorem readBit_eq {v : Word} {k : Nat} (hk : k < 64) :
    Helper.readBit v k = if v.getLsbD k then 1 else 0 := by
  unfold Helper.readBit
  simp only [and_one_shiftLeft_ne_zero hk]

theorem getLsbD_writeBit (v x : Word) (k i : Nat) (hi : i < 64) :
    (Helper.writeBit v k x).getLsbD i = if i = k then decide (x ≠ 0) else v.getLsbD i := by
  unfold Helper.writeBit
  by_cases hx : x = 0
  · by_cases hik : i = k
    · subst hik
      simp only [hx, if_true, BitVec.getLsbD_and, BitVec.getLsbD_not, getLsbD_one_shiftLeft, hi]
      simp
    · simp only [hx, if_true, BitVec.getLsbD_and, BitVec.getLsbD_not, getLsbD_one_shiftLeft, hi, hik]
      simp
  · by_cases hik : i = k
    · subst hik
      simp only [hx, if_false, BitVec.getLsbD_or, getLsbD_one_shiftLeft, hi]
      simpa using hx
    · simp only [hx, if_false, BitVec.getLsbD_or, getLsbD_one_shiftLeft, hi, hik]
      simp

theorem and_not_one_eq_self_iff (v : Word) : v = v &&& ~~~1 ↔ v.getLsbD 0 = false := by
  constructor
  · intro h
    rw [h]
    simp
  · intro h
    apply BitVec.eq_of_getLsbD_eq
    intro i hi
    have h1 : (1 : Word) = 1#64 := rfl
    rw [BitVec.getLsbD_and, BitVec.getLsbD_not, h1, BitVec.getLsbD_one]
    by_cases hz : i = 0
    · subst hz
      simp only [h, Bool.false_and]
    · simp only [hz, hi, decide_true, decide_false, Bool.and_false, Bool.not_false, Bool.and_true]

end Rv64gcEmu
