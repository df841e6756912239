import Rv64gcEmu.Turn

namespace Rv64gcEmu

open BitField (getLsbD_lowMask getLsbD_one_shiftLeft)

namespace Csr

/-- A bit of `mstatus`, as its cell holds it. -/
def status (csr : Csr) (i : Nat) : Bool := (csr.regs Address.mstatus).getLsbD i

/-- A read of `mstatus` sets bit 33, which a write then stores. -/
theorem getLsbD_load_mstatus (csr : Csr) {i : Nat} (hi : i < 33) :
    (csr.load Address.mstatus).getLsbD i = csr.status i := by
  change (csr.regs Address.mstatus ||| 1#64 <<< 33).getLsbD i = _
  have hne : i ≠ 33 := by omega
  rw [BitVec.getLsbD_or, getLsbD_one_shiftLeft]
  simp [hne, status]

theorem status_setCell (csr : Csr) {x : BitVec 12} (h : Address.mstatus ≠ x) (v : Word) (i : Nat) :
    (csr.setCell x v).status i = csr.status i := by
  unfold status
  rw [setCell_regs, Function.update_of_ne h]

theorem status_store (csr : Csr) {x : BitVec 12} (h : Address.mstatus ≠ cellOf x) (v : Word)
    (i : Nat) : (csr.store x v).status i = csr.status i := by
  unfold status
  rw [store_of_ne h]

theorem status_writeBitMstatus (csr : Csr) (bit : Mask.MstatusBit) (v : Word) {i : Nat}
    (hi : i < 33) : (csr.writeBitMstatus bit v).status i =
      if i = bit.offset then decide (v ≠ 0) else csr.status i := by
  change (Helper.writeBit (csr.load Address.mstatus) bit.offset v).getLsbD i = _
  rw [getLsbD_writeBit _ _ _ _ (by omega), getLsbD_load_mstatus csr hi]

theorem sstatus_offset (bit : Mask.SstatusBit) : Mask.sstatus.getLsbD bit.offset = true := by
  cases bit <;> rfl

/-- A write of `sstatus` goes through its mask. -/
theorem status_writeBitSstatus (csr : Csr) (bit : Mask.SstatusBit) (v : Word) {i : Nat}
    (hi : i < 64) : (csr.writeBitSstatus bit v).status i =
      if i = bit.offset then decide (v ≠ 0) else csr.status i := by
  change ((csr.regs Address.mstatus &&& ~~~Mask.sstatus) |||
    (Helper.writeBit (csr.regs Address.mstatus &&& Mask.sstatus) bit.offset v &&&
      Mask.sstatus)).getLsbD i = _
  rw [BitVec.getLsbD_or, BitVec.getLsbD_and, BitVec.getLsbD_and, BitVec.getLsbD_not,
    getLsbD_writeBit _ _ _ _ hi, BitVec.getLsbD_and]
  by_cases hb : i = bit.offset
  · rw [hb, sstatus_offset]
    simp
  · unfold status
    cases Mask.sstatus.getLsbD i <;> simp [hb, hi]

theorem status_writeMppMode (csr : Csr) (mode : Mode) {i : Nat} (hi : i < 33) :
    (csr.writeMppMode mode).status i =
      (csr.status i && !decide (i = 11 ∨ i = 12) || decide (11 ≤ i) && mode.code.getLsbD (i - 11)) := by
  have hmask : (((1#64 <<< (12 - 11 + 1)) - 1) <<< 11 : Word).getLsbD i = decide (i = 11 ∨ i = 12) := by
    change (BitVec.ofNat 64 (2 ^ 2 - 1) <<< 11).getLsbD i = _
    rw [BitVec.getLsbD_shiftLeft, getLsbD_lowMask]
    by_cases h : i < 11
    · have hne : ¬(i = 11 ∨ i = 12) := by omega
      simp [h, hne]
    · have hlt : i < 64 := by omega
      have hsub : i - 11 < 64 := by omega
      simp only [h, hlt, hsub, decide_true, decide_false, Bool.not_false, Bool.true_and]
      exact decide_eq_decide.mpr (by omega)
  change ((csr.load Address.mstatus &&& ~~~(((1#64 <<< (12 - 11 + 1)) - 1) <<< 11)) |||
    (mode.code <<< 11)).getLsbD i = _
  have hlt : i < 64 := by omega
  rw [BitVec.getLsbD_or, BitVec.getLsbD_and, BitVec.getLsbD_not, hmask,
    getLsbD_load_mstatus csr hi, BitVec.getLsbD_shiftLeft]
  simp only [hlt, decide_true, Bool.true_and, ← decide_not, not_lt]

theorem readBitMstatus_eq (csr : Csr) (bit : Mask.MstatusBit) :
    csr.readBitMstatus bit = if csr.status bit.offset then 1 else 0 := by
  have hb : bit.offset < 33 := by cases bit <;> decide
  rw [readBitMstatus, readBit, readBit_eq (by omega), getLsbD_load_mstatus csr hb]

theorem readBitSstatus_eq (csr : Csr) (bit : Mask.SstatusBit) :
    csr.readBitSstatus bit = if csr.status bit.offset then 1 else 0 := by
  have hb : bit.offset < 64 := by cases bit <;> decide
  rw [readBitSstatus, readBit, readBit_eq hb]
  change (if (csr.regs Address.mstatus &&& Mask.sstatus).getLsbD bit.offset then _ else _) = _
  rw [BitVec.getLsbD_and, sstatus_offset, Bool.and_true]
  rfl

end Csr

/-- The privilege levels that take traps. -/
inductive Level where
  | supervisor
  | machine
  deriving DecidableEq

/-- What a trap saves, and the interrupt-enable bit. -/
structure TrapRegs where
  epc : Word
  cause : Word
  tval : Word
  ie : Bool
  pie : Bool
  pp : Word
  deriving DecidableEq

namespace Level

def mode : Level → Mode
  | supervisor => .supervisor
  | machine => .machine

def tvec : Level → BitVec 12
  | supervisor => Address.stvec
  | machine => Address.mtvec

def regs (level : Level) (csr : Csr) : TrapRegs :=
  match level with
  | supervisor =>
    { epc := csr.regs Address.sepc
      cause := csr.regs Address.scause
      tval := csr.regs Address.stval
      ie := csr.status 1
      pie := csr.status 5
      pp := ((csr.regs Address.mstatus).extractLsb' 8 1).setWidth 64 }
  | machine =>
    { epc := csr.regs Address.mepc
      cause := csr.regs Address.mcause
      tval := csr.regs Address.mtval
      ie := csr.status 3
      pie := csr.status 7
      pp := ((csr.regs Address.mstatus).extractLsb' 11 2).setWidth 64 }

/-- The CSRs that a trap to the level saves to. -/
def cells : Level → List (BitVec 12)
  | supervisor => [Address.sepc, Address.scause, Address.stval]
  | machine => [Address.mepc, Address.mcause, Address.mtval]

/-- The bits of `mstatus` that belong to the level. -/
def bits : Level → List Nat
  | supervisor => [1, 5, 8]
  | machine => [3, 7, 11, 12]

theorem regs_congr {level : Level} {a b : Csr} (hc : ∀ x ∈ level.cells, b.regs x = a.regs x)
    (hs : ∀ i ∈ level.bits, b.status i = a.status i) : level.regs b = level.regs a := by
  cases level with
  | supervisor =>
    simp only [cells, bits, List.mem_cons, List.not_mem_nil, or_false, forall_eq_or_imp,
      forall_eq] at hc hs
    have hpp : (b.regs Address.mstatus).extractLsb' 8 1 = (a.regs Address.mstatus).extractLsb' 8 1 := by
      apply BitVec.eq_of_getLsbD_eq
      intro i hi
      obtain rfl : i = 0 := by omega
      simpa [Csr.status] using hs.2.2
    simp only [regs, hc.1, hc.2.1, hc.2.2, hs.1, hs.2.1, hpp]
  | machine =>
    simp only [cells, bits, List.mem_cons, List.not_mem_nil, or_false, forall_eq_or_imp,
      forall_eq] at hc hs
    have hpp : (b.regs Address.mstatus).extractLsb' 11 2 = (a.regs Address.mstatus).extractLsb' 11 2 := by
      apply BitVec.eq_of_getLsbD_eq
      intro i hi
      obtain rfl | rfl : i = 0 ∨ i = 1 := by omega
      · simpa [Csr.status] using hs.2.2.1
      · simpa [Csr.status] using hs.2.2.2
    simp only [regs, hc.1, hc.2.1, hc.2.2, hs.1, hs.2.1, hpp]

theorem lt_of_mem_bits {level : Level} {i : Nat} (h : i ∈ level.bits) : i < 33 := by
  cases level with
  | supervisor =>
    simp only [bits, List.mem_cons, List.not_mem_nil, or_false] at h
    omega
  | machine =>
    simp only [bits, List.mem_cons, List.not_mem_nil, or_false] at h
    omega

end Level

end Rv64gcEmu
