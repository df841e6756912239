import Rv64gcEmu.TrapLevel

namespace Rv64gcEmu

namespace Csr

/-- The three CSRs that a trap writes first. -/
def saveTrap (csr : Csr) (level : Level) (epc cause tval : Word) : Csr :=
  match level with
  | .supervisor => ((csr.store Address.sepc epc).store Address.scause cause).store Address.stval tval
  | .machine => ((csr.store Address.mepc epc).store Address.mcause cause).store Address.mtval tval

theorem saveTrap_status (csr : Csr) (level : Level) (epc cause tval : Word) (i : Nat) :
    (csr.saveTrap level epc cause tval).status i = csr.status i := by
  cases level with
  | supervisor =>
    simp only [saveTrap]
    rw [status_store _ (by decide), status_store _ (by decide), status_store _ (by decide)]
  | machine =>
    simp only [saveTrap]
    rw [status_store _ (by decide), status_store _ (by decide), status_store _ (by decide)]

theorem saveTrap_of_not_mem (csr : Csr) {level : Level} (epc cause tval : Word) {x : BitVec 12}
    (h : x ∉ level.cells) : (csr.saveTrap level epc cause tval).regs x = csr.regs x := by
  cases level with
  | supervisor =>
    simp only [Level.cells, List.mem_cons, List.not_mem_nil, or_false, not_or] at h
    simp only [saveTrap]
    rw [store_of_ne h.2.2, store_of_ne h.2.1, store_of_ne h.1]
  | machine =>
    simp only [Level.cells, List.mem_cons, List.not_mem_nil, or_false, not_or] at h
    simp only [saveTrap]
    rw [store_of_ne h.2.2, store_of_ne h.2.1, store_of_ne h.1]

theorem decide_readBitSstatus (csr : Csr) (bit : Mask.SstatusBit) :
    decide (csr.readBitSstatus bit ≠ 0) = csr.status bit.offset := by
  rw [readBitSstatus_eq]
  cases csr.status bit.offset <;> rfl

theorem decide_readBitMstatus (csr : Csr) (bit : Mask.MstatusBit) :
    decide (csr.readBitMstatus bit ≠ 0) = csr.status bit.offset := by
  rw [readBitMstatus_eq]
  cases csr.status bit.offset <;> rfl

/-- The bits that a trap writes last: the old interrupt-enable bit is kept in `xPIE`. -/
def stackStatus (csr : Csr) (level : Level) (mode : Mode) : Csr :=
  match level with
  | .supervisor => ((csr.writeBitSstatus .spie (csr.readBitSstatus .sie)).writeBitSstatus
      .sie 0).writeBitSstatus .spp mode.code
  | .machine => ((csr.writeBitMstatus .mpie (csr.readBitMstatus .mie)).writeBitMstatus
      .mie 0).writeMppMode mode

theorem stackStatus_regs (csr : Csr) (level : Level) (mode : Mode) {x : BitVec 12}
    (h : x ≠ Address.mstatus) : (csr.stackStatus level mode).regs x = csr.regs x := by
  cases level with
  | supervisor =>
    have hs : x ≠ cellOf Address.sstatus := h
    simp only [stackStatus, writeBitSstatus, writeBit_of_ne hs]
  | machine =>
    have hm : x ≠ cellOf Address.mstatus := h
    simp only [stackStatus, writeBitMstatus, writeMppMode, writeBits, writeBit_of_ne hm,
      store_of_ne hm]

theorem stackStatus_supervisor (csr : Csr) (mode : Mode) {i : Nat} (hi : i < 64) :
    (csr.stackStatus .supervisor mode).status i =
      if i = 8 then decide (mode.code ≠ 0) else if i = 1 then false
      else if i = 5 then csr.status 1 else csr.status i := by
  simp only [stackStatus, status_writeBitSstatus _ _ _ hi, decide_readBitSstatus,
    Mask.SstatusBit.offset]
  simp

theorem stackStatus_machine (csr : Csr) (mode : Mode) {i : Nat} (hi : i < 33) :
    (csr.stackStatus .machine mode).status i =
      ((if i = 3 then false else if i = 7 then csr.status 3 else csr.status i) &&
        !decide (i = 11 ∨ i = 12) || decide (11 ≤ i) && mode.code.getLsbD (i - 11)) := by
  simp only [stackStatus, status_writeMppMode _ _ hi, status_writeBitMstatus _ _ _ hi,
    decide_readBitMstatus, Mask.MstatusBit.offset]
  simp

end Csr

namespace Level

/-- The mode is kept in `xPP`, as far as `xPP` has room for it. -/
theorem pp_supervisor {csr : Csr} {mode : Mode} (hm : mode = .user ∨ mode = .supervisor) :
    (supervisor.regs csr).pp = mode.code ↔ csr.status 8 = decide (mode.code ≠ 0) := by
  have hpp : (supervisor.regs csr).pp = if csr.status 8 then 1 else 0 := by
    apply BitVec.eq_of_getLsbD_eq
    intro i hi
    simp only [regs, BitVec.getLsbD_setWidth, BitVec.getLsbD_extractLsb', hi, decide_true,
      Bool.true_and]
    unfold Csr.status
    by_cases hz : i = 0
    · subst hz
      cases (csr.regs Address.mstatus).getLsbD 8 <;> rfl
    · have h1 : ¬i < 1 := by omega
      cases (csr.regs Address.mstatus).getLsbD 8 <;> simp [h1, hz]
  rw [hpp]
  rcases hm with rfl | rfl
  · cases csr.status 8 <;> decide
  · cases csr.status 8 <;> decide

theorem pp_machine {csr : Csr} {mode : Mode} (hm : mode ≠ .invalid) :
    (machine.regs csr).pp = mode.code ↔
      csr.status 11 = mode.code.getLsbD 0 ∧ csr.status 12 = mode.code.getLsbD 1 := by
  have hbit : ∀ i, i < 2 → (machine.regs csr).pp.getLsbD i = csr.status (11 + i) := by
    intro i hi
    have h64 : i < 64 := by omega
    simp only [regs, BitVec.getLsbD_setWidth, BitVec.getLsbD_extractLsb', hi, h64, decide_true,
      Bool.true_and, Csr.status]
  have hhigh : ∀ i, ¬i < 2 → (machine.regs csr).pp.getLsbD i = mode.code.getLsbD i := by
    intro i hi
    have hz : mode.code.getLsbD i = false := by
      have hle : mode.code.toNat < 2 ^ 2 := by
        cases mode with
        | invalid => exact absurd rfl hm
        | _ => decide
      rw [← BitVec.testBit_toNat]
      exact Nat.testBit_lt_two_pow (lt_of_lt_of_le hle (Nat.pow_le_pow_right (by decide) (by omega)))
    rw [hz]
    simp [regs, hi]
  constructor
  · intro h
    exact ⟨by rw [← hbit 0 (by decide), h], by rw [← hbit 1 (by decide), h]⟩
  · rintro ⟨h11, h12⟩
    apply BitVec.eq_of_getLsbD_eq
    intro i _
    by_cases hi : i < 2
    · obtain rfl | rfl : i = 0 ∨ i = 1 := by omega
      · rw [hbit 0 hi, h11]
      · rw [hbit 1 hi, h12]
    · exact hhigh i hi

theorem pp_stackStatus (level : Level) (csr : Csr) {mode : Mode} (hm : mode ≠ .invalid)
    (hs : level = .supervisor → mode ≠ .machine) :
    (level.regs (csr.stackStatus level mode)).pp = mode.code := by
  cases level with
  | supervisor =>
    refine (pp_supervisor ?_).mpr ?_
    · cases mode with
      | user => exact .inl rfl
      | supervisor => exact .inr rfl
      | machine => exact absurd rfl (hs rfl)
      | invalid => exact absurd rfl hm
    · rw [Csr.stackStatus_supervisor _ _ (by decide)]
      simp
  | machine =>
    refine (pp_machine hm).mpr ⟨?_, ?_⟩
    · rw [Csr.stackStatus_machine _ _ (by decide)]
      simp
    · rw [Csr.stackStatus_machine _ _ (by decide)]
      simp

/-- The registers of the level that a trap was taken to. -/
theorem regs_taken (level : Level) (csr : Csr) {mode : Mode} (epc cause tval : Word)
    (hm : mode ≠ .invalid) (hs : level = .supervisor → mode ≠ .machine) :
    level.regs ((csr.saveTrap level epc cause tval).stackStatus level mode) =
      ⟨epc, cause, tval, false, (level.regs csr).ie, mode.code⟩ := by
  have hpp := level.pp_stackStatus (csr.saveTrap level epc cause tval) hm hs
  have hcell : ∀ x, x ≠ Address.mstatus → ((csr.saveTrap level epc cause tval).stackStatus
      level mode).regs x = (csr.saveTrap level epc cause tval).regs x :=
    fun x hx => Csr.stackStatus_regs _ _ _ hx
  cases level with
  | supervisor =>
    simp only [regs, TrapRegs.mk.injEq] at hpp ⊢
    refine ⟨?_, ?_, ?_, ?_, ?_, hpp⟩
    · rw [hcell _ (by decide)]
      rfl
    · rw [hcell _ (by decide)]
      rfl
    · rw [hcell _ (by decide)]
      rfl
    · rw [Csr.stackStatus_supervisor _ _ (by decide)]
      rfl
    · rw [Csr.stackStatus_supervisor _ _ (by decide)]
      exact Csr.saveTrap_status csr _ _ _ _ _
  | machine =>
    simp only [regs, TrapRegs.mk.injEq] at hpp ⊢
    refine ⟨?_, ?_, ?_, ?_, ?_, hpp⟩
    · rw [hcell _ (by decide)]
      rfl
    · rw [hcell _ (by decide)]
      rfl
    · rw [hcell _ (by decide)]
      rfl
    · rw [Csr.stackStatus_machine _ _ (by decide)]
      rfl
    · rw [Csr.stackStatus_machine _ _ (by decide)]
      simpa using Csr.saveTrap_status csr machine epc cause tval 3

/-- A trap leaves the registers of the other level alone. -/
theorem regs_other {level other : Level} (h : other ≠ level) (csr : Csr) (mode : Mode)
    (epc cause tval : Word) :
    other.regs ((csr.saveTrap level epc cause tval).stackStatus level mode) = other.regs csr := by
  have hcells : ∀ x ∈ other.cells, x ≠ Address.mstatus ∧ x ∉ level.cells := by
    cases level <;> cases other <;> simp [cells] at h ⊢
  refine regs_congr (fun x hx => ?_) fun i hi => ?_
  · obtain ⟨hm, hn⟩ := hcells x hx
    rw [Csr.stackStatus_regs _ _ _ hm, Csr.saveTrap_of_not_mem _ _ _ _ hn]
  · cases level with
    | supervisor =>
      cases other with
      | supervisor => exact absurd rfl h
      | machine =>
        have hi' : i ≠ 8 ∧ i ≠ 1 ∧ i ≠ 5 := by
          simp only [bits, List.mem_cons, List.not_mem_nil, or_false] at hi
          omega
        rw [Csr.stackStatus_supervisor _ _ (by have := lt_of_mem_bits hi; omega), if_neg hi'.1,
          if_neg hi'.2.1, if_neg hi'.2.2, Csr.saveTrap_status]
    | machine =>
      cases other with
      | machine => exact absurd rfl h
      | supervisor =>
        have hi' : i ≠ 3 ∧ i ≠ 7 ∧ ¬(i = 11 ∨ i = 12) ∧ ¬11 ≤ i := by
          simp only [bits, List.mem_cons, List.not_mem_nil, or_false] at hi
          omega
        rw [Csr.stackStatus_machine _ _ (lt_of_mem_bits hi), if_neg hi'.1, if_neg hi'.2.1,
          Csr.saveTrap_status]
        simp [hi'.2.2.1, hi'.2.2.2]

end Level

namespace Trap

/-- What a trap is taken for. -/
inductive Cause where
  | interrupt (intVal : Interrupt)
  | exception (excVal : Exception)
  deriving DecidableEq

namespace Cause

def process (cpu : Cpu) : Cause → Cpu
  | interrupt i => Interrupt.process cpu i
  | exception e => Exception.process cpu e

/-- The bit of the cause in `mideleg` or `medeleg`; the machine timer has none. -/
def delegated (cpu : Cpu) : Cause → Bool
  | interrupt i => (cpu.cregs.regs Address.mideleg).getLsbD i.code && i ≠ .machineTimer
  | exception e => (cpu.cregs.regs Address.medeleg).getLsbD e.code

def level (cpu : Cpu) (cause : Cause) : Level :=
  if cause.delegated cpu ∧ (cpu.mode = .user ∨ cpu.mode = .supervisor) then .supervisor
  else .machine

/-- The value of `xcause`. -/
def value : Cause → Word
  | interrupt i => (1#64 <<< 63) ||| BitVec.ofNat 64 i.code
  | exception e => BitVec.ofNat 64 e.code

def tval (cpu : Cpu) : Cause → Word
  | interrupt _ => 0
  | exception _ => cpu.excData

/-- Where the handler starts: an interrupt adds four times its cause to a vectored base. -/
def target (tvec : Word) : Cause → Word
  | interrupt i => (tvec &&& ~~~3) + if tvec.getLsbD 0 then 4 * BitVec.ofNat 64 i.code else 0
  | exception _ => tvec &&& ~~~3

end Cause

/-- The state behind a trap that was taken to a level. -/
structure Taken (before : Cpu) (cause : Cause) (level : Level) (after : Cpu) : Prop where
  mode : after.mode = level.mode
  pc : after.pc = cause.target (before.cregs.regs level.tvec)
  cregs : after.cregs = (before.cregs.saveTrap level (before.pc &&& ~~~1) cause.value
    (cause.tval before)).stackStatus level before.mode

theorem vtOffset_eq (i : Interrupt) (tvec : Word) :
    (tvec &&& ~~~3) + Interrupt.vtOffset i tvec = (Cause.interrupt i).target tvec := by
  have h1 : tvec &&& 1 ≠ 0 ↔ tvec.getLsbD 0 = true := @and_one_shiftLeft_ne_zero 64 tvec 0 (by decide)
  unfold Interrupt.vtOffset Cause.target
  simp only [h1, BitVec.mul_comm]

theorem level_eq (before : Cpu) (cause : Cause) : cause.level before =
    if toSupervisor (before.setSleep false) (cause.delegated before) then .supervisor
    else .machine := by
  unfold Cause.level toSupervisor
  simp only [Cpu.setSleep_mode, Bool.and_eq_true, Bool.or_eq_true, decide_eq_true_eq]

/-- The four blocks: two kinds of traps, two levels. -/
theorem process_taken (before : Cpu) (cause : Cause) :
    Taken before cause (cause.level before) (cause.process before) := by
  rw [level_eq]
  cases cause with
  | interrupt i =>
    change Taken _ _ _ (enter (before.setSleep false) ((Cause.interrupt i).delegated before)
      (Interrupt.vtOffset i) (Cause.interrupt i).value 0)
    unfold enter
    split
    next => exact ⟨rfl, vtOffset_eq i _, rfl⟩
    next => exact ⟨rfl, vtOffset_eq i _, rfl⟩
  | exception e =>
    change Taken _ _ _ (enter (before.setSleep false) ((Cause.exception e).delegated before)
      (fun _ => 0) (Cause.exception e).value before.excData)
    unfold enter
    split
    next => exact ⟨rfl, BitVec.add_zero _, rfl⟩
    next => exact ⟨rfl, BitVec.add_zero _, rfl⟩

end Trap

end Rv64gcEmu
