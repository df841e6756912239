import Rv64gcEmu.CsrPrivilege
import Rv64gcEmu.Run
import Rv64gcEmu.SupervisorViews
import Rv64gcEmu.TrapEntry
import Mathlib.Logic.Relation

namespace Rv64gcEmu

namespace Decoder

def isCsr (d : Decoder) : Bool := d.insnSize = 4 && d.opcodeType = some .csr

/-- The four forms that set or clear bits only read when `rs1` is the zero register or the
immediate 0. -/
def writesCsr (d : Decoder) : Bool :=
  d.isCsr && (d.funct3 = 1 || d.funct3 = 5 || (d.funct3 ≠ 0 && d.funct3 ≠ 4 && d.rs1 ≠ 0))

/-- The return instruction of the level: `SRET` or `MRET`. -/
def returns (d : Decoder) (level : Level) : Bool :=
  d.isCsr && d.funct3 = 0 && d.rs2 = 2 && d.funct7 = match level with
    | .supervisor => 0x08
    | .machine => 0x18

end Decoder

namespace Level

variable {level : Level} {csr : Csr}

theorem regs_setCell {x : BitVec 12} (hx : x ∉ level.cells) (hm : Address.mstatus ≠ x) (v : Word) :
    level.regs (csr.setCell x v) = level.regs csr := by
  refine regs_congr (fun y hy => ?_) fun i _ => Csr.status_setCell csr hm v i
  rw [Csr.setCell_regs, Function.update_of_ne (ne_of_mem_of_not_mem hy hx)]

theorem mem_cells_ne {x : BitVec 12} (h : x ∈ level.cells) : x ≠ Address.mstatus := by
  rintro rfl
  cases level <;> simp [cells] at h

theorem regs_writeBitSstatus {bit : Mask.SstatusBit} (h : bit.offset ∉ level.bits) (v : Word) :
    level.regs (csr.writeBitSstatus bit v) = level.regs csr := by
  refine regs_congr (fun y hy => Csr.writeBit_of_ne (mem_cells_ne hy) _ _) fun i hi => ?_
  have hlt := lt_of_mem_bits hi
  rw [Csr.status_writeBitSstatus _ _ _ (by omega), if_neg (ne_of_mem_of_not_mem hi h)]

theorem regs_writeBitMstatus {bit : Mask.MstatusBit} (h : bit.offset ∉ level.bits) (v : Word) :
    level.regs (csr.writeBitMstatus bit v) = level.regs csr := by
  refine regs_congr (fun y hy => Csr.writeBit_of_ne (mem_cells_ne hy) _ _) fun i hi => ?_
  rw [Csr.status_writeBitMstatus _ _ _ (lt_of_mem_bits hi), if_neg (ne_of_mem_of_not_mem hi h)]

theorem regs_writeMppMode (mode : Mode) :
    supervisor.regs (csr.writeMppMode mode) = supervisor.regs csr := by
  have hm : ∀ y ∈ supervisor.cells, y ≠ Csr.cellOf Address.mstatus := fun y hy => mem_cells_ne hy
  refine regs_congr (fun y hy => Csr.store_of_ne (hm y hy) _) fun i hi => ?_
  have hi' : ¬(i = 11 ∨ i = 12) ∧ ¬11 ≤ i := by
    simp only [bits, List.mem_cons, List.not_mem_nil, or_false] at hi
    omega
  rw [Csr.status_writeMppMode _ _ (lt_of_mem_bits hi)]
  simp [hi'.1, hi'.2]

/-- Writing a CSR back as it was read. -/
theorem regs_store_load (address : BitVec 12) :
    level.regs (csr.store address (csr.load address)) = level.regs csr := by
  by_cases hm : address = Address.mstatus
  · subst hm
    change level.regs (csr.setCell Address.mstatus (csr.load Address.mstatus)) = _
    refine regs_congr (fun y hy => Function.update_of_ne (mem_cells_ne hy) _ _) fun i hi => ?_
    unfold Csr.status
    rw [Csr.setCell_regs, Function.update_self]
    exact csr.getLsbD_load_mstatus (lt_of_mem_bits hi)
  · rw [Csr.store_load hm]

end Level

namespace Csr

/-- The bits that a return writes last: `xPIE` goes back to `xIE`. -/
def unstackStatus (csr : Csr) (level : Level) : Csr :=
  match level with
  | .supervisor => ((csr.writeBitSstatus .sie (csr.readBitSstatus .spie)).writeBitSstatus
      .spie 1).writeBitSstatus .spp Mode.user.code
  | .machine => ((csr.writeBitMstatus .mie (csr.readBitMstatus .mpie)).writeBitMstatus
      .mpie 1).writeMppMode .user

theorem unstackStatus_ie (csr : Csr) (level : Level) :
    (level.regs (csr.unstackStatus level)).ie = (level.regs csr).pie := by
  cases level with
  | supervisor =>
    change (csr.unstackStatus .supervisor).status 1 = csr.status 5
    simp only [unstackStatus]
    rw [status_writeBitSstatus _ _ _ (by decide), if_neg (by decide),
      status_writeBitSstatus _ _ _ (by decide), if_neg (by decide),
      status_writeBitSstatus _ _ _ (by decide), if_pos (by decide), decide_readBitSstatus]
    rfl
  | machine =>
    change (csr.unstackStatus .machine).status 3 = csr.status 7
    simp only [unstackStatus]
    rw [status_writeMppMode _ _ (by decide), status_writeBitMstatus _ _ _ (by decide),
      if_neg (by decide), status_writeBitMstatus _ _ _ (by decide),
      if_pos (by decide),
      decide_readBitMstatus]
    simp [Mask.MstatusBit.offset]

theorem unstackStatus_other {csr : Csr} {level other : Level} (h : other ≠ level) :
    other.regs (csr.unstackStatus level) = other.regs csr := by
  cases level with
  | supervisor =>
    cases other with
    | supervisor => exact absurd rfl h
    | machine =>
      simp only [unstackStatus]
      rw [Level.regs_writeBitSstatus (by decide), Level.regs_writeBitSstatus (by decide),
        Level.regs_writeBitSstatus (by decide)]
  | machine =>
    cases other with
    | machine => exact absurd rfl h
    | supervisor =>
      simp only [unstackStatus]
      rw [Level.regs_writeMppMode, Level.regs_writeBitMstatus (by decide),
        Level.regs_writeBitMstatus (by decide)]

end Csr

/-- The mode that a return of the level goes back to. -/
def Level.returnMode (level : Level) (csr : Csr) : Mode :=
  match level with
  | .supervisor => if csr.readBitSstatus .spp = 0 then .user else .supervisor
  | .machine => csr.readMppMode

/-- The state behind a return of a level. -/
structure Returned (level : Level) (cpu after : Cpu) : Prop where
  pc : after.pc = (level.regs cpu.cregs).epc - 4
  mode : after.mode = level.returnMode cpu.cregs
  excVal : after.excVal = cpu.excVal
  cregs : ∃ csr, (csr = cpu.cregs ∨ csr = cpu.cregs.writeBitMstatus .mprv 0) ∧
    after.cregs = csr.unstackStatus level

theorem Returned.base {l : Level} {csr csr' : Csr}
    (h : csr' = csr ∨ csr' = csr.writeBitMstatus .mprv 0) : l.regs csr' = l.regs csr := by
  rcases h with rfl | rfl
  · rfl
  · exact Level.regs_writeBitMstatus (by cases l <;> simp [Level.bits, Mask.MstatusBit.offset]) 0

/-- Of the CSRs, a return writes `mstatus` only. -/
theorem Returned.cell {level : Level} {a b : Cpu} (h : Returned level a b) {x : BitVec 12}
    (hx : x ≠ Address.mstatus) : b.cregs.regs x = a.cregs.regs x := by
  obtain ⟨csr, hbase, hc⟩ := h.cregs
  have hcsr : csr.regs x = a.cregs.regs x := by
    rcases hbase with rfl | rfl
    · rfl
    · exact Csr.writeBit_of_ne hx _ _
  have hs : x ≠ Csr.cellOf Address.sstatus := hx
  have hm : x ≠ Csr.cellOf Address.mstatus := hx
  rw [hc, ← hcsr]
  cases level with
  | supervisor =>
    exact (Csr.writeBit_of_ne hs _ _).trans ((Csr.writeBit_of_ne hs _ _).trans
      (Csr.writeBit_of_ne hs _ _))
  | machine =>
    exact (Csr.store_of_ne hm _).trans ((Csr.writeBit_of_ne hm _ _).trans
      (Csr.writeBit_of_ne hm _ _))

theorem CsrInsn.sret_cases (cpu : Cpu) (d : Decoder) :
    sret cpu d = cpu.illegal d ∧ (cpu.cregs.status 22 = true ∨ cpu.mode = .user) ∨
      Returned .supervisor cpu (sret cpu d) ∧ cpu.cregs.status 22 = false ∧ cpu.mode ≠ .user := by
  have htsr : cpu.cregs.readBitMstatus .tsr = 1 ↔ cpu.cregs.status 22 = true := by
    rw [Csr.readBitMstatus_eq]
    change (if cpu.cregs.status 22 then 1 else 0) = (1 : Word) ↔ _
    cases cpu.cregs.status 22 <;> decide
  unfold sret
  by_cases hi : cpu.cregs.readBitMstatus .tsr = 1 ∨ cpu.mode = .user
  · rw [if_pos hi]
    exact .inl ⟨rfl, hi.imp htsr.mp id⟩
  · rw [if_neg hi]
    simp only [not_or, htsr, Bool.not_eq_true] at hi
    refine .inr ⟨?_, hi⟩
    by_cases hs : cpu.cregs.readBitSstatus .spp = 0
    · have hs' : (cpu.setPc (cpu.cregs.load Address.sepc - 4)).cregs.readBitSstatus .spp = 0 := hs
      simp only [hs', if_true, Cpu.setMode_mode]
      refine ⟨rfl, ?_, rfl, _, .inr rfl, rfl⟩
      exact (if_pos hs).symm
    · have hs' : (cpu.setPc (cpu.cregs.load Address.sepc - 4)).cregs.readBitSstatus .spp ≠ 0 := hs
      simp only [hs', if_false, Cpu.setMode_mode, reduceCtorEq]
      refine ⟨rfl, ?_, rfl, _, .inl rfl, rfl⟩
      exact (if_neg hs).symm

theorem CsrInsn.mret_cases (cpu : Cpu) (d : Decoder) :
    mret cpu d = cpu.illegal d ∧ cpu.mode ≠ .machine ∨
      Returned .machine cpu (mret cpu d) ∧ cpu.mode = .machine := by
  unfold mret
  by_cases hm : cpu.mode = .machine
  · refine .inr ⟨?_, hm⟩
    rw [if_neg (not_not.mpr hm)]
    by_cases hr : (cpu.setPc (cpu.cregs.load Address.mepc - 4)).cregs.readMppMode = .machine
    · simp only [hr, Cpu.setMode_mode, ne_eq, not_true_eq_false, if_false]
      exact ⟨rfl, hr.symm, rfl, _, .inl rfl, rfl⟩
    · simp only [hr, Cpu.setMode_mode, ne_eq, not_false_eq_true, if_true]
      exact ⟨rfl, rfl, rfl, _, .inr rfl, rfl⟩
  · exact .inl ⟨if_pos hm, hm⟩

namespace CsrInsn

section Handler

variable {level : Level} {cpu : Cpu} {d : Decoder} {rhs : Word} {op : CsrOp}

theorem defaultHandler_keeps (hop : ∀ v, op v rhs = v) (csr : BitVec 12) :
    level.regs (csrDefaultHandler cpu d csr rhs op).cregs = level.regs cpu.cregs := by
  change level.regs (cpu.cregs.store csr (op (cpu.cregs.load csr) rhs)) = _
  rw [hop]
  exact Level.regs_store_load csr

theorem fcsrCell_keeps {csr : Csr} {x : BitVec 12}
    (hx : x = Address.fcsr ∨ x = Address.fflags ∨ x = Address.frm) (v : Word) :
    level.regs (csr.setCell x v) = level.regs csr := by
  rcases hx with rfl | rfl | rfl
  · exact Level.regs_setCell (by cases level <;> simp [Level.cells]) (by decide) v
  · exact Level.regs_setCell (by cases level <;> simp [Level.cells]) (by decide) v
  · exact Level.regs_setCell (by cases level <;> simp [Level.cells]) (by decide) v

theorem csrHandlers_keeps (hop : ∀ v, op v rhs = v) (csr : BitVec 12) :
    level.regs (csrHandlers csr cpu d csr rhs op).cregs = level.regs cpu.cregs := by
  have hfcsr : ∀ {a : Csr} (v v' v'' : Word) {x : BitVec 12}, x = Address.fflags ∨ x = Address.frm →
      level.regs (((a.setCell x v).setCell x v').setCell Address.fcsr v'') = level.regs a := by
    intro a v v' v'' x hx
    rw [fcsrCell_keeps (.inl rfl), fcsrCell_keeps (.inr hx), fcsrCell_keeps (.inr hx)]
  refine @csrHandlers_cases
    (fun handler => level.regs (handler cpu d csr rhs op).cregs = level.regs cpu.cregs) csr
    (hfcsr _ _ _ (.inl rfl)) (hfcsr _ _ _ (.inl rfl)) (hfcsr _ _ _ (.inr rfl)) ?_ rfl ?_ ?_
    (defaultHandler_keeps hop csr)
  · unfold csrSatpHandler
    simp only
    split
    next => exact @defaultHandler_keeps level (cpu.illegal d) d rhs op hop csr
    next => exact @defaultHandler_keeps level cpu d rhs op hop csr
  · unfold csrEnforcedReadonlyHandler
    simp only
    split
    next => rfl
    next => rfl
  · unfold csrPrivledgedHandler
    split
    next => rfl
    next => exact defaultHandler_keeps hop csr

end Handler

variable {level : Level} {cpu : Cpu} {d : Decoder}

/-- Of the environment instructions, only the returns write CSRs. -/
theorem environment_cases (cpu : Cpu) (d : Decoder) :
    (environment cpu d).cregs = cpu.cregs ∨
      d.rs2 = 2 ∧ d.funct7 = 0x08 ∧ environment cpu d = sret cpu d ∨
      d.rs2 = 2 ∧ d.funct7 = 0x18 ∧ environment cpu d = mret cpu d := by
  unfold environment
  split
  next =>
    unfold sfencevma
    simp only
    split
    next => exact .inl rfl
    next => exact .inl rfl
  next =>
    split
    next => exact .inl rfl
    next =>
      split
      next => exact .inl rfl
      next =>
        split
        next =>
          unfold ecall
          split <;> exact .inl rfl
        next => exact .inl rfl
        next h2 =>
          split
          next => exact .inl rfl
          next h7 => exact .inr (.inl ⟨h2, h7, rfl⟩)
          next h7 => exact .inr (.inr ⟨h2, h7, rfl⟩)
          next => exact .inl rfl
        next =>
          split
          next => exact .inl rfl
          next => exact .inl rfl
        next => exact .inl rfl

theorem environment_keeps (hd : d.isCsr = true) (h3 : d.funct3 = 0) (hexc : cpu.excVal = none)
    (hret : ¬(d.returns level ∧ (environment cpu d).excVal = none)) :
    level.regs (environment cpu d).cregs = level.regs cpu.cregs := by
  have hother : ∀ {l : Level} {after : Cpu}, Returned l cpu after → level ≠ l →
      level.regs after.cregs = level.regs cpu.cregs := by
    intro l after hr hne
    obtain ⟨csr, hbase, heq⟩ := hr.cregs
    rw [heq, Csr.unstackStatus_other hne, Returned.base hbase]
  rcases environment_cases cpu d with hc | ⟨h2, h7, he⟩ | ⟨h2, h7, he⟩
  · rw [hc]
  · rw [he] at hret ⊢
    rcases sret_cases cpu d with ⟨hi, _⟩ | ⟨hr, _⟩
    · rw [hi]
      rfl
    · refine hother hr ?_
      rintro rfl
      exact hret ⟨by simp [Decoder.returns, hd, h3, h2, h7], hr.excVal.trans hexc⟩
  · rw [he] at hret ⊢
    rcases mret_cases cpu d with ⟨hi, _⟩ | ⟨hr, _⟩
    · rw [hi]
      rfl
    · refine hother hr ?_
      rintro rfl
      exact hret ⟨by simp [Decoder.returns, hd, h3, h2, h7], hr.excVal.trans hexc⟩

/-- A form that does not write leaves every value as it is. -/
theorem op_of_not_writes {cpu : Cpu} {d : Decoder} {op : CsrOp} {imm : Bool}
    (hd : d.isCsr = true) (h0 : cpu.regs 0 = 0) (hform : form d = some (op, imm))
    (hw : d.writesCsr = false) (v : Word) : op v (operand cpu d imm) = v := by
  have hset : opSet v 0 = v := BitVec.or_zero
  have hclear : opClear v 0 = v := by
    change v &&& ~~~0#64 = v
    rw [BitVec.not_zero, BitVec.and_allOnes]
  have hrhs : d.rs1 = 0 → operand cpu d imm = 0 := by
    intro hrs
    unfold operand
    rw [hrs, h0]
    cases imm <;> rfl
  simp only [Decoder.writesCsr, hd, Bool.true_and] at hw
  unfold form at hform
  split at hform
  next h3 => simp [h3] at hw
  next h3 =>
    cases hform
    rw [hrhs (by simpa [h3] using hw), hset]
  next h3 =>
    cases hform
    rw [hrhs (by simpa [h3] using hw), hclear]
  next h3 => simp [h3] at hw
  next h3 =>
    cases hform
    rw [hrhs (by simpa [h3] using hw), hset]
  next h3 =>
    cases hform
    rw [hrhs (by simpa [h3] using hw), hclear]
  next => cases hform

/-- An instruction of a handler that writes no CSR, and is no return of the level. -/
theorem funct3_keeps (hd : d.isCsr = true) (h0 : cpu.regs 0 = 0) (hexc : cpu.excVal = none)
    (hw : d.writesCsr = false) (hret : ¬(d.returns level ∧ (funct3 cpu d).excVal = none)) :
    level.regs (funct3 cpu d).cregs = level.regs cpu.cregs := by
  cases hform : form d with
  | some p =>
    obtain ⟨op, imm⟩ := p
    rw [funct3_of_form cpu hform]
    exact csrHandlers_keeps (op_of_not_writes hd h0 hform hw) d.csr
  | none =>
    rcases form_none hform cpu with h | ⟨h3, h⟩
    · rw [h]
      rfl
    · rw [h] at hret ⊢
      exact environment_keeps hd h3 hexc hret

end CsrInsn

namespace Level

theorem readBits_mpp (csr : Csr) : csr.readBits Address.mstatus 12 11 = (machine.regs csr).pp := by
  change (csr.load Address.mstatus >>> 11) &&& BitVec.ofNat 64 (2 ^ 2 - 1) = _
  apply BitVec.eq_of_getLsbD_eq
  intro i hi
  rw [BitVec.getLsbD_and, BitVec.getLsbD_ushiftRight, BitField.getLsbD_lowMask]
  simp only [regs, BitVec.getLsbD_setWidth, BitVec.getLsbD_extractLsb', hi, decide_true,
    Bool.true_and]
  by_cases h2 : i < 2
  · simp only [h2, decide_true, Bool.and_true, Bool.true_and]
    exact csr.getLsbD_load_mstatus (by omega)
  · simp [h2]

/-- A return goes back to the mode that the trap has saved. -/
theorem returnMode_of_pp {level : Level} {csr : Csr} {mode : Mode} (hm : mode ≠ .invalid)
    (hs : level = .supervisor → mode ≠ .machine) (h : (level.regs csr).pp = mode.code) :
    level.returnMode csr = mode := by
  cases level with
  | supervisor =>
    have hus : mode = .user ∨ mode = .supervisor := by
      cases mode with
      | user => exact .inl rfl
      | supervisor => exact .inr rfl
      | machine => exact absurd rfl (hs rfl)
      | invalid => exact absurd rfl hm
    have h8 := (pp_supervisor hus).mp h
    unfold returnMode
    simp only
    rw [Csr.readBitSstatus_eq]
    change (if (if csr.status 8 then 1 else 0 : Word) = 0 then Mode.user else .supervisor) = mode
    rw [h8]
    rcases hus with rfl | rfl
    · rfl
    · rfl
  | machine =>
    change csr.readMppMode = mode
    unfold Csr.readMppMode
    rw [readBits_mpp, h]
    cases mode with
    | invalid => exact absurd rfl hm
    | _ => rfl

end Level

open Trap (Cause)

/-- A trap that was taken, as software sees it. -/
structure Entered (before : Cpu) (cause : Cause) (level : Level) (after : Cpu) : Prop where
  mode : after.mode = level.mode
  privilege : before.mode.code ≤ after.mode.code
  pc : after.pc = cause.target (before.cregs.regs level.tvec)
  own : level.regs after.cregs = ⟨before.pc, cause.value, cause.tval before, false,
    (level.regs before.cregs).ie, before.mode.code⟩
  other : ∀ l, l ≠ level → l.regs after.cregs = l.regs before.cregs

theorem level_supervisor {cpu : Cpu} {cause : Cause} (h : cause.level cpu = .supervisor) :
    cpu.mode = .user ∨ cpu.mode = .supervisor := by
  unfold Cause.level at h
  split at h
  next hd => exact hd.2
  next => cases h

theorem process_other (before : Cpu) (cause : Cause) {l : Level} (h : l ≠ cause.level before) :
    l.regs (cause.process before).cregs = l.regs before.cregs := by
  rw [(Trap.process_taken before cause).cregs]
  exact Level.regs_other h _ _ _ _ _

theorem not_machine_of_supervisor {cpu : Cpu} {cause : Cause} (h : cause.level cpu = .supervisor) :
    cpu.mode ≠ .machine := by
  intro hm
  rcases level_supervisor h with hu | hs
  · exact absurd (hu.symm.trans hm) (by simp)
  · exact absurd (hs.symm.trans hm) (by simp)

theorem process_entered {before : Cpu} {cause : Cause} (hm : before.mode ≠ .invalid)
    (hpc : before.pc.getLsbD 0 = false) :
    Entered before cause (cause.level before) (cause.process before) := by
  have ht := Trap.process_taken before cause
  refine ⟨ht.mode, ?_, ht.pc, ?_, fun l hl => process_other before cause hl⟩
  · rw [ht.mode]
    cases hl : cause.level before with
    | supervisor =>
      rcases level_supervisor hl with hu | hs
      · rw [hu]
        decide
      · rw [hs]
        decide
    | machine =>
      cases hmode : before.mode with
      | invalid => exact absurd hmode hm
      | _ => decide
  · rw [ht.cregs, ← (and_not_one_eq_self_iff _).mpr hpc]
    exact Level.regs_taken _ _ _ _ _ hm not_machine_of_supervisor

/-- What may happen between a trap to a level and its return: a poll of the devices, and
one instruction. The handler takes no other trap to the level, does not return from it,
and writes no CSR; it may be trapped to the other level and come back. -/
inductive HandlerStep (level : Level) : Cpu → Cpu → Prop
  | poll {a c : Cpu} {env : Cpu.Env} {i : Option Interrupt} (h : a.poll env = .ok (i, c))
      (hi : ∀ x, i = some x → (Cause.interrupt x).level c ≠ level) :
      HandlerStep level a (c.interrupted i)
  | insn {a c : Cpu} {size : Word} (h : a._loop = .ok (size, c))
      (hd : ∀ f d, a.Fetched f d →
        d.writesCsr = false ∧ ¬(d.returns level ∧ c.excVal = none))
      (he : ∀ e, c.excVal = some e → (Cause.exception e).level c ≠ level) :
      HandlerStep level a (c.finish size)

theorem Polled.level_regs {level : Level} {a b : Cpu} (h : a.Polled b) :
    level.regs b.cregs = level.regs a.cregs := by
  have hcell : ∀ x ∈ level.cells, x ≠ Address.cycle ∧ x ≠ Address.time ∧ x ≠ Address.mip := by
    cases level <;> simp [Level.cells]
  refine Level.regs_congr (fun x hx => ?_) fun i _ => ?_
  · obtain ⟨hc, ht, hm⟩ := hcell x hx
    exact h.csr x hc ht hm
  · unfold Csr.status
    rw [h.csr Address.mstatus (by decide) (by decide) (by decide)]

theorem Cpu.Frame.level_regs {level : Level} {a b : Cpu} (h : a.Frame b) :
    level.regs b.cregs = level.regs a.cregs := by
  have hcell : ∀ x ∈ level.cells, x ≠ Address.fflags := by
    cases level <;> simp [Level.cells]
  refine Level.regs_congr (fun x hx => h.csr x (hcell x hx)) fun i _ => ?_
  unfold Csr.status
  rw [h.csr Address.mstatus (by decide)]

section Handler

variable {level : Level} {a b c : Cpu} {size : Word}

theorem finish_keeps (he : ∀ e, c.excVal = some e → (Cause.exception e).level c ≠ level) :
    level.regs (c.finish size).cregs = level.regs c.cregs := by
  cases h : c.excVal with
  | some e =>
    have hp := process_other c (.exception e) (he e h).symm
    rcases Cpu.finish_of_exception h size with hf | hf
    · rw [hf]
      exact hp
    · rw [hf]
      exact hp
  | none =>
    rw [Cpu.finish_of_none h]
    rfl

theorem execute_keeps {f : Cpu} {d : Decoder} (hf : a.Fetched f d)
    (h : f.execute d = .ok (size, c))
    (hd : d.writesCsr = false ∧ ¬(d.returns level ∧ c.excVal = none)) :
    level.regs c.cregs = level.regs f.cregs := by
  cases Cpu.execute_ran h with
  | plain _ _ heff => exact heff.frame.level_regs
  | atomic _ _ hx => rw [(Atomic.funct3_frame hx).cregs]
  | csr hcsr _ hx =>
    subst hx
    have his : d.isCsr = true := by simp [Decoder.isCsr, hcsr.1, hcsr.2]
    exact CsrInsn.funct3_keeps his hf.regs_zero hf.exc hd.1 hd.2

theorem _loop_keeps (h : a._loop = .ok (size, c))
    (hd : ∀ f d, a.Fetched f d → d.writesCsr = false ∧ ¬(d.returns level ∧ c.excVal = none)) :
    level.regs c.cregs = level.regs a.cregs := by
  rcases Cpu.loop_cases h with ⟨_, _, rfl⟩ | ⟨_, _, _, v, hf⟩ | ⟨f, d, hf, _, _, rfl⟩ | ⟨f, d, hf, _, hx⟩
  · rfl
  · rw [(Mmu.fetch_coreEq hf).cregs]
    rfl
  · change level.regs f.cregs = _
    rw [hf.coreEq.cregs]
    rfl
  · rw [execute_keeps hf hx (hd f d hf), hf.coreEq.cregs]
    rfl

/-- A step of the handler leaves what the trap has saved. -/
theorem HandlerStep.regs (h : HandlerStep level a b) : level.regs b.cregs = level.regs a.cregs := by
  cases h with
  | @poll c env i hp hi =>
    rw [← Polled.level_regs (Cpu.poll_polled hp)]
    cases i with
    | none => rfl
    | some x => exact process_other c (.interrupt x) (hi x rfl).symm
  | insn h hd he => rw [finish_keeps he, _loop_keeps h hd]

theorem handler_regs (h : Relation.ReflTransGen (HandlerStep level) a b) :
    level.regs b.cregs = level.regs a.cregs := by
  induction h with
  | refl => rfl
  | tail _ step ih => exact step.regs.trans ih

theorem funct3_of_returns {f : Cpu} {d : Decoder} (hd : d.returns level) :
    CsrInsn.funct3 f d = match level with
      | .supervisor => CsrInsn.sret f d
      | .machine => CsrInsn.mret f d := by
  simp only [Decoder.returns, Bool.and_eq_true, decide_eq_true_eq] at hd
  obtain ⟨⟨⟨_, h3⟩, h2⟩, h7⟩ := hd
  unfold CsrInsn.funct3
  rw [h3]
  simp only [CsrInsn.environment, h2]
  cases level with
  | supervisor =>
    rw [h7]
    rfl
  | machine =>
    rw [h7]
    rfl

theorem opcode_of_returns {d : Decoder} (hd : d.returns level) :
    d.opcode = OpcodeType.code .csr := by
  simp only [Decoder.returns, Decoder.isCsr, Bool.and_eq_true, decide_eq_true_eq] at hd
  exact Decoder.opcode_of_type hd.1.1.1.2

/-- The return instruction, executed in the mode of its level. -/
theorem loop_of_returns {r f : Cpu} {d : Decoder} (hf : r.Fetched f d) (hd : d.returns level)
    (hmode : r.mode = level.mode) (htsr : level = .supervisor → r.cregs.status 22 = false) :
    ∃ after, r._loop = .ok (4, after) ∧ Returned level f after := by
  refine ⟨_, CsrInsn.loop_of_csr hf (opcode_of_returns hd), ?_⟩
  rw [funct3_of_returns hd]
  have hfm : f.mode = level.mode := hf.coreEq.mode.trans hmode
  cases level with
  | supervisor =>
    rcases CsrInsn.sret_cases f d with ⟨_, hbad⟩ | ⟨hret, _⟩
    · have ht : f.cregs.status 22 = false := by
        rw [hf.coreEq.cregs]
        exact htsr rfl
      rw [ht, hfm] at hbad
      simp [Level.mode] at hbad
    · exact hret
  | machine =>
    rcases CsrInsn.mret_cases f d with ⟨_, hbad⟩ | ⟨hret, _⟩
    · exact absurd hfm hbad
    · exact hret

end Handler

/-- What the software that was interrupted gets back. -/
structure Restored (before : Cpu) (level : Level) (after : Cpu) : Prop where
  pc : after.pc = before.pc
  mode : after.mode = before.mode
  ie : (level.regs after.cregs).ie = (level.regs before.cregs).ie

/-- A trap saves to one level and leaves the other alone, and the return of that level
undoes it, whatever its handler does short of writing CSRs. -/
theorem trap_return {before : Cpu} {cause : Cause} (hm : before.mode ≠ .invalid)
    (hpc : before.pc.getLsbD 0 = false) :
    Entered before cause (cause.level before) (cause.process before) ∧
    ∀ r f d, Relation.ReflTransGen (HandlerStep (cause.level before)) (cause.process before) r →
      r.Fetched f d → d.returns (cause.level before) → r.mode = (cause.level before).mode →
      (cause.level before = .supervisor → r.cregs.status 22 = false) →
      ∃ after, r._loop = .ok (4, after) ∧ Restored before (cause.level before) (after.finish 4) := by
  have hentered := @process_entered before cause hm hpc
  refine ⟨hentered, fun r f d hrun hf hd hmode htsr => ?_⟩
  obtain ⟨after, hl, hret⟩ := loop_of_returns hf hd hmode htsr
  have hregs : (cause.level before).regs f.cregs = ⟨before.pc, cause.value, cause.tval before, false,
      ((cause.level before).regs before.cregs).ie, before.mode.code⟩ := by
    rw [hf.coreEq.cregs]
    exact (handler_regs hrun).trans hentered.own
  refine ⟨after, hl, ?_⟩
  rw [Cpu.finish_of_none (hret.excVal.trans hf.exc)]
  refine ⟨?_, ?_, ?_⟩
  · change after.pc + 4 = _
    rw [hret.pc, hregs, BitVec.sub_add_cancel]
  · change after.mode = _
    rw [hret.mode]
    exact Level.returnMode_of_pp hm not_machine_of_supervisor (by rw [hregs])
  · change ((cause.level before).regs after.cregs).ie = _
    obtain ⟨csr, hbase, heq⟩ := hret.cregs
    rw [heq, Csr.unstackStatus_ie, Returned.base hbase, hregs]

/-- User code behind a handler of two instructions, `nop` and `mret`. -/
def userCode : Cpu :=
  let cpu := (Cpu.ofImage [0x13, 0x00, 0x00, 0x00, 0x73, 0x00, 0x20, 0x30] (by decide)).setMode .user
  (cpu.setCregs (cpu.cregs.setCell Address.mtvec 0x80000000)).setPc 0x80000100

theorem trap_return_userCode : ∃ r after : Cpu,
    Entered userCode (.exception .ecallUMode) .machine
      (Cause.process userCode (.exception .ecallUMode)) ∧
    r._loop = .ok (4, after) ∧ Restored userCode .machine (after.finish 4) := by
  have hnop : (Cause.process userCode (.exception .ecallUMode)).Fetched _ ⟨0x13⟩ :=
    ⟨rfl, ⟨_, rfl, rfl⟩, rfl⟩
  have hstep : HandlerStep .machine (Cause.process userCode (.exception .ecallUMode)) _ :=
    .insn (by rw [Cpu.loop_of_fetched hnop (by decide)]; rfl)
      (fun f d hf => by
        obtain ⟨_, rfl⟩ := hnop.unique hf
        exact ⟨by decide, fun h => absurd h.1 (by decide)⟩)
      (fun e he => by cases he)
  obtain ⟨hentered, hreturn⟩ := @trap_return userCode (.exception .ecallUMode) (by decide) rfl
  obtain ⟨after, hl, hr⟩ := hreturn _ _ ⟨0x30200073⟩
    (.tail (.single hstep) (@HandlerStep.poll .machine _ _ ⟨0, .idle⟩ none rfl (fun x hx => by cases hx)))
    ⟨rfl, ⟨_, rfl, rfl⟩, rfl⟩ (by decide) rfl (fun h => by cases h)
  exact ⟨_, after, hentered, hl, hr⟩

end Rv64gcEmu
