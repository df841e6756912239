import Mathlib.Logic.Function.Basic
import Mathlib.Tactic.Common

namespace LittleEndian

/-- Byte `k` of a word, counted from the least significant one. -/
def byteOf {w : Nat} (v : BitVec w) (k : Nat) : BitVec 8 := (v >>> (8 * k)).setWidth 8

/-- The word whose bytes stand at `off, off + 1, ...`. -/
def read {w : Nat} (mem : Nat → BitVec 8) (off : Nat) : Nat → BitVec w
  | 0 => 0
  | n + 1 => (mem off).setWidth w ||| (read mem (off + 1) n <<< 8)

/-- Copy the `n` low bytes of a word to `off, off + 1, ...`. -/
def write {w : Nat} (mem : Nat → BitVec 8) (off : Nat) (v : BitVec w) (n : Nat) : Nat → BitVec 8 :=
  fun i => if off ≤ i ∧ i < off + n then byteOf v (i - off) else mem i

theorem getLsbD_byteOf {w : Nat} (v : BitVec w) (k i : Nat) :
    (byteOf v k).getLsbD i = (decide (i < 8) && v.getLsbD (8 * k + i)) := by
  simp [byteOf, BitVec.getLsbD_setWidth, BitVec.getLsbD_ushiftRight]

theorem getLsbD_read {w : Nat} (mem : Nat → BitVec 8) (off n i : Nat) :
    (read mem off n : BitVec w).getLsbD i =
      (decide (i < w) && decide (i < 8 * n) && (mem (off + i / 8)).getLsbD (i % 8)) := by
  induction n generalizing off i with
  | zero => simp [read]
  | succ n ih =>
    rw [read, BitVec.getLsbD_or, BitVec.getLsbD_setWidth, BitVec.getLsbD_shiftLeft, ih]
    by_cases hw : i < w
    · by_cases hi : i < 8
      · have hd : i / 8 = 0 := by omega
        have hm : i % 8 = i := by omega
        have hn : i < 8 * (n + 1) := by omega
        simp [hw, hi, hd, hm, hn]
      · have hz : (mem off).getLsbD i = false := BitVec.getLsbD_of_ge _ _ (by omega)
        have hd : off + 1 + (i - 8) / 8 = off + i / 8 := by omega
        have hm : (i - 8) % 8 = i % 8 := by omega
        have hlt : (i - 8 < 8 * n) = (i < 8 * (n + 1)) := by rw [eq_iff_iff]; omega
        have hsub : i - 8 < w := by omega
        simp [hw, hi, hz, hd, hm, hlt, hsub]
    · simp [hw]

theorem byteOf_read {w : Nat} (mem : Nat → BitVec 8) (off : Nat) {n k : Nat}
    (hk : k < n) (hn : 8 * n ≤ w) : byteOf (read mem off n : BitVec w) k = mem (off + k) := by
  apply BitVec.eq_of_getLsbD_eq
  intro i hi
  have hd : (8 * k + i) / 8 = k := by omega
  have hm : (8 * k + i) % 8 = i := by omega
  have hw : 8 * k + i < w := by omega
  have hb : 8 * k + i < 8 * n := by omega
  simp only [getLsbD_byteOf, getLsbD_read, hi, hd, hm, hw, hb, decide_true, Bool.true_and]

/-- The word with one byte set has zero in the others. -/
theorem byteOf_single (k j : Nat) (hj : j ≠ k) :
    byteOf (0xff#64 <<< (8 * k)) j = byteOf 0#64 j := by
  apply BitVec.eq_of_getLsbD_eq
  intro i hi
  rw [getLsbD_byteOf, getLsbD_byteOf, BitVec.getLsbD_shiftLeft]
  by_cases hlt : 8 * j + i < 8 * k
  · simp [hlt]
  · have hge : 8 ≤ 8 * j + i - 8 * k := by omega
    have hz : (0xff#64).getLsbD (8 * j + i - 8 * k) = false := by
      have hff : (0xff#64) = (0xff#8).setWidth 64 := rfl
      rw [hff, BitVec.getLsbD_setWidth, BitVec.getLsbD_of_ge _ _ hge, Bool.and_false]
    simp [hlt, hz]

theorem byteOf_single_ne (k : Nat) (hk : k < 8) :
    byteOf (0xff#64 <<< (8 * k)) k ≠ byteOf 0#64 k := by
  intro h
  have hb := congrArg (fun b => b.getLsbD 0) h
  have hk' : 8 * k < 64 := by omega
  simp only [getLsbD_byteOf, BitVec.getLsbD_shiftLeft, Nat.add_zero, Nat.sub_self, hk'] at hb
  simp at hb

/-- A word is determined by its bytes. -/
theorem eq_of_byteOf_eq {w : Nat} {u v : BitVec w} (h : ∀ k, 8 * k < w → byteOf u k = byteOf v k) :
    u = v := by
  apply BitVec.eq_of_getLsbD_eq
  intro i hi
  have hb := congrArg (fun b => b.getLsbD (i % 8)) (h (i / 8) (by omega))
  have he : 8 * (i / 8) + i % 8 = i := by omega
  have hm : i % 8 < 8 := by omega
  simpa only [getLsbD_byteOf, he, hm, decide_true, Bool.true_and] using hb

theorem read_congr {w : Nat} {mem mem' : Nat → BitVec 8} {off n : Nat}
    (h : ∀ k, k < n → mem (off + k) = mem' (off + k)) :
    (read mem off n : BitVec w) = read mem' off n := by
  apply BitVec.eq_of_getLsbD_eq
  intro i hi
  rw [getLsbD_read, getLsbD_read]
  by_cases hb : i < 8 * n
  · rw [h (i / 8) (by omega)]
  · simp [hb]

theorem write_of_not_mem {w : Nat} (mem : Nat → BitVec 8) {off n i : Nat} (v : BitVec w)
    (h : ¬(off ≤ i ∧ i < off + n)) : write mem off v n i = mem i := by
  simp [write, h]

theorem write_of_mem {w : Nat} (mem : Nat → BitVec 8) {off n i : Nat} (v : BitVec w)
    (h : off ≤ i ∧ i < off + n) : write mem off v n i = byteOf v (i - off) := by
  simp [write, h]

theorem read_write_disjoint {w w' : Nat} (mem : Nat → BitVec 8) {off off' n n' : Nat}
    (v : BitVec w') (h : off + n ≤ off' ∨ off' + n' ≤ off) :
    (read (write mem off' v n') off n : BitVec w) = read mem off n :=
  read_congr fun k hk => write_of_not_mem mem v (by omega)

/-- Reading back the low bytes of a word. -/
theorem read_write_low {w w' : Nat} (mem : Nat → BitVec 8) (off n : Nat) (v : BitVec w')
    (hn : 8 * n = w) : (read (write mem off v n) off n : BitVec w) = v.setWidth w := by
  apply eq_of_byteOf_eq
  intro k hk
  rw [byteOf_read _ _ (by omega) (by omega), write_of_mem _ _ (by omega), Nat.add_sub_cancel_left]
  apply BitVec.eq_of_getLsbD_eq
  intro i hi
  have hw : 8 * k + i < w := by omega
  rw [getLsbD_byteOf, getLsbD_byteOf, BitVec.getLsbD_setWidth]
  simp [hw]

/-- Reading back a whole word. -/
theorem read_write_same {w : Nat} (mem : Nat → BitVec 8) (off n : Nat) (v : BitVec w)
    (hn : 8 * n = w) : (read (write mem off v n) off n : BitVec w) = v :=
  (read_write_low mem off n v hn).trans (BitVec.setWidth_eq v)

/-- The width of the word does not matter as long as it holds the bytes. -/
theorem setWidth_read {w w' : Nat} (mem : Nat → BitVec 8) (off n : Nat) (hn : 8 * n ≤ w') :
    (read mem off n : BitVec w').setWidth w = read mem off n := by
  apply BitVec.eq_of_getLsbD_eq
  intro i hi
  rw [BitVec.getLsbD_setWidth, getLsbD_read, getLsbD_read]
  by_cases hb : i < 8 * n
  · have hw : i < w' := by omega
    simp [hi, hw]
  · simp [hb]

/-- A word whose upper half is zero. -/
theorem read_double {w w' : Nat} (mem : Nat → BitVec 8) (off n : Nat) (hn : 8 * n = w)
    (hhigh : (read mem (off + n) n : BitVec w) = 0) :
    (read mem off (2 * n) : BitVec w') = (read mem off n : BitVec w).setWidth w' := by
  apply BitVec.eq_of_getLsbD_eq
  intro i hi
  rw [BitVec.getLsbD_setWidth, getLsbD_read, getLsbD_read]
  by_cases hlow : i < 8 * n
  · have h2 : i < 8 * (2 * n) := by omega
    have hw : i < w := by omega
    simp [hi, hlow, h2, hw]
  · by_cases h2 : i < 8 * (2 * n)
    · have hb := congrArg (fun x => x.getLsbD (i - 8 * n)) hhigh
      have hd : off + n + (i - 8 * n) / 8 = off + i / 8 := by omega
      have hm : (i - 8 * n) % 8 = i % 8 := by omega
      have hlt : i - 8 * n < w := by omega
      have hlt' : i - 8 * n < 8 * n := by omega
      simp only [getLsbD_read, hd, hm, hlt, hlt', decide_true, Bool.true_and] at hb
      simp [hi, hlow, h2, hb]
    · simp [hlow, h2]

/-- Writing back the word that was read changes nothing. -/
theorem write_read_same {w : Nat} (mem : Nat → BitVec 8) (off n : Nat) (hn : 8 * n ≤ w) :
    write mem off (read mem off n : BitVec w) n = mem := by
  funext i
  by_cases h : off ≤ i ∧ i < off + n
  · rw [write_of_mem _ _ h, byteOf_read _ _ (by omega) hn]
    congr 1
    omega
  · exact write_of_not_mem mem _ h

end LittleEndian
