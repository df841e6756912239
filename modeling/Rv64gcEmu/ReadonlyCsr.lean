import Rv64gcEmu.TrapReturn

namespace Rv64gcEmu

namespace CsrInsn

/-- Bits 11:10 of a CSR number are set: the register is read-only. -/
def Readonly (csr : BitVec 12) : Prop := csr.extractLsb' 10 2 = 3

instance (csr : BitVec 12) : Decidable (Readonly csr) := inferInstanceAs (Decidable (_ = _))

/-- What the read-only space of the CSR numbers asks of an instruction. -/
structure KeepsReadonly (before after : Cpu) (d : Decoder) : Prop where
  cells : ∀ x, Readonly x → after.cregs.regs x = before.cregs.regs x
  refused : Readonly d.csr → d.writesCsr = true →
    after.excVal = some .illegalInstruction ∧ after.regs d.rd = before.regs d.rd
  granted : Readonly d.csr → d.writesCsr = false →
    after.excVal = none ∧ after.regs d.rd = before.cregs.load d.csr

/-- An attempt to write is one to give `cycle` another value. -/
def OnlyCycleWritten (cpu : Cpu) (d : Decoder) (op : CsrOp) (rhs : Word) : Prop :=
  Readonly d.csr → d.writesCsr = true →
    d.csr = Address.cycle ∧ op (cpu.cregs.load Address.cycle) rhs ≠ cpu.cregs.load Address.cycle

section Handlers

variable {cpu : Cpu} {d : Decoder} {op : CsrOp} {rhs : Word}

/-- The cells that an instruction does not name, apart from those of the floating-point unit. -/
theorem csrHandlers_cell {csr x : BitVec 12} (hx : x ≠ Csr.cellOf csr) (hflags : x ≠ Address.fflags)
    (hfrm : x ≠ Address.frm) (hfcsr : x ≠ Address.fcsr) :
    (csrHandlers csr cpu d csr rhs op).cregs.regs x = cpu.cregs.regs x := by
  refine @csrHandlers_cases (fun handler => (handler cpu d csr rhs op).cregs.regs x = cpu.cregs.regs x)
    csr ?_ ?_ ?_ ?_ rfl ?_ ?_ (Csr.store_of_ne hx _)
  · exact (Function.update_of_ne hfcsr _ _).trans ((Function.update_of_ne hflags _ _).trans
      (Function.update_of_ne hflags _ _))
  · exact (Function.update_of_ne hfcsr _ _).trans ((Function.update_of_ne hflags _ _).trans
      (Function.update_of_ne hflags _ _))
  · exact (Function.update_of_ne hfcsr _ _).trans ((Function.update_of_ne hfrm _ _).trans
      (Function.update_of_ne hfrm _ _))
  · unfold csrSatpHandler
    simp only
    split
    next => exact Csr.store_of_ne hx _
    next => exact Csr.store_of_ne hx _
  · rw [enforcedReadonlyHandler_cregs]
  · unfold csrPrivledgedHandler
    split
    next => rfl
    next => exact Csr.store_of_ne hx _

theorem readonly_ne {x y : BitVec 12} (hx : Readonly x) (hy : ¬Readonly y) : x ≠ y := by
  rintro rfl
  exact hy hx

theorem csrHandlers_readonly_cell {csr x : BitVec 12} (hx : Readonly x) (hne : x ≠ csr) :
    (csrHandlers csr cpu d csr rhs op).cregs.regs x = cpu.cregs.regs x := by
  refine csrHandlers_cell ?_ (readonly_ne hx (by decide)) (readonly_ne hx (by decide))
    (readonly_ne hx (by decide))
  unfold Csr.cellOf
  split
  next => exact readonly_ne hx (by decide)
  next =>
    split
    next => exact readonly_ne hx (by decide)
    next =>
      split
      next => exact readonly_ne hx (by decide)
      next => exact hne

/-- The three policies of the read-only space. -/
theorem csrHandlers_readonly {csr : BitVec 12} (h : Readonly csr) :
    csrHandlers csr = csrDefaultHandlerReadonly ∨
      (csr = Address.cycle ∧ csrHandlers csr = csrEnforcedReadonlyHandler) ∨
      (csr ≠ Address.cycle ∧ csrHandlers csr = csrDefaultHandler) := by
  have h1 : csr ≠ Address.fcsr := readonly_ne h (by decide)
  have h2 : csr ≠ Address.fflags := readonly_ne h (by decide)
  have h3 : csr ≠ Address.frm := readonly_ne h (by decide)
  have h4 : csr ≠ Address.satp := readonly_ne h (by decide)
  have h5 : csr ≠ Address.mstatus := readonly_ne h (by decide)
  unfold csrHandlers
  simp only [if_neg h1, if_neg h2, if_neg h3, if_neg h4, if_neg h5]
  split
  next => exact .inl rfl
  next =>
    split
    next hc => exact .inr (.inl ⟨hc, rfl⟩)
    next hc => exact .inr (.inr ⟨hc, rfl⟩)

theorem load_readonly {csr : BitVec 12} (h : Readonly csr) (a : Csr) : a.load csr = a.regs csr := by
  have h1 : csr ≠ Address.sstatus := readonly_ne h (by decide)
  have h2 : csr ≠ Address.sie := readonly_ne h (by decide)
  have h3 : csr ≠ Address.sip := readonly_ne h (by decide)
  have h4 : csr ≠ Address.mstatus := readonly_ne h (by decide)
  unfold Csr.load
  rw [if_neg h1, if_neg h2, if_neg h3, if_neg h4]

theorem store_readonly {csr : BitVec 12} (h : Readonly csr) (a : Csr) (v : Word) :
    a.store csr v = a.setCell csr v := by
  have h1 : csr ≠ Address.sstatus := readonly_ne h (by decide)
  have h2 : csr ≠ Address.sie := readonly_ne h (by decide)
  have h3 : csr ≠ Address.sip := readonly_ne h (by decide)
  unfold Csr.store
  rw [if_neg h1, if_neg h2, if_neg h3]

/-- A read-only register that is named by an instruction which does not write. -/
theorem csrHandlers_reads (hexc : cpu.excVal = none) (hr : Readonly d.csr)
    (hop : ∀ v, op v rhs = v) (hw : d.writesCsr = false) :
    KeepsReadonly cpu (csrHandlers d.csr cpu d d.csr rhs op) d := by
  have hcells : ∀ x, Readonly x →
      (csrHandlers d.csr cpu d d.csr rhs op).cregs.regs d.csr = cpu.cregs.regs d.csr →
      (csrHandlers d.csr cpu d d.csr rhs op).cregs.regs x = cpu.cregs.regs x := by
    intro x hx hown
    by_cases hne : x = d.csr
    · rw [hne]
      exact hown
    · exact csrHandlers_readonly_cell hx hne
  have hnw : ∀ after : Cpu, Readonly d.csr → d.writesCsr = true →
      after.excVal = some .illegalInstruction ∧ after.regs d.rd = cpu.regs d.rd := by
    intro _ _ hw'
    rw [hw] at hw'
    cases hw'
  rcases csrHandlers_readonly hr with h | ⟨_, h⟩ | ⟨_, h⟩
  · refine ⟨fun x hx => hcells x hx ?_, hnw _, fun _ _ => ?_⟩
    · rw [h]
      rfl
    · rw [h]
      exact ⟨hexc, Function.update_self _ _ _⟩
  · have hsame : csrEnforcedReadonlyHandler cpu d d.csr rhs op =
        cpu.setReg d.rd (cpu.cregs.load d.csr) := by
      unfold csrEnforcedReadonlyHandler
      simp only [hop]
      exact if_neg (not_not.mpr rfl)
    refine ⟨fun x hx => hcells x hx ?_, hnw _, fun _ _ => ?_⟩
    · rw [h, hsame]
      rfl
    · rw [h, hsame]
      exact ⟨hexc, Function.update_self _ _ _⟩
  · refine ⟨fun x hx => hcells x hx ?_, hnw _, fun _ _ => ?_⟩
    · rw [h]
      change (cpu.cregs.store d.csr (op (cpu.cregs.load d.csr) rhs)).regs d.csr = _
      rw [hop, load_readonly hr, store_readonly hr, Csr.setCell_self]
    · rw [h]
      exact ⟨hexc, Function.update_self _ _ _⟩

/-- An attempt to write is refused by the handler of `cycle` only. -/
theorem csrHandlers_writes (hexc : cpu.excVal = none) (hr : Readonly d.csr)
    (hw : d.writesCsr = true) : KeepsReadonly cpu (csrHandlers d.csr cpu d d.csr rhs op) d ↔
      d.csr = Address.cycle ∧ op (cpu.cregs.load Address.cycle) rhs ≠ cpu.cregs.load Address.cycle := by
  have hquiet : ∀ after : Cpu, after.excVal = none → ¬KeepsReadonly cpu after d := by
    intro after he hk
    have hx := (hk.refused hr hw).1
    rw [he] at hx
    cases hx
  have hdefault : csrHandlers d.csr = csrDefaultHandlerReadonly → d.csr ≠ Address.cycle := by
    intro h hc
    have hrd : ∀ a : Cpu, csrHandlers d.csr a d Address.cycle 0 opWrite =
        csrDefaultHandlerReadonly a d Address.cycle 0 opWrite := fun a => by rw [h]
    have h1 := hrd (cpu.setCregs (cpu.cregs.setCell Address.cycle 1))
    rw [hc] at h1
    have he := congrArg Cpu.excVal h1
    change some Exception.illegalInstruction = cpu.excVal at he
    rw [hexc] at he
    cases he
  rcases csrHandlers_readonly hr with h | ⟨hc, h⟩ | ⟨hc, h⟩
  · refine iff_of_false (hquiet _ ?_) fun hk => hdefault h hk.1
    rw [h]
    exact hexc
  · rw [h, and_iff_right hc, hc]
    unfold csrEnforcedReadonlyHandler
    simp only
    split
    next hne =>
      refine iff_of_true ⟨fun _ _ => rfl, fun _ _ => ⟨rfl, rfl⟩, fun _ hw' => ?_⟩ (Ne.symm hne)
      rw [hw] at hw'
      cases hw'
    next heq => exact iff_of_false (hquiet _ hexc) (not_not.mpr (not_not.mp heq).symm)
  · refine iff_of_false (hquiet _ ?_) fun hk => hc hk.1
    rw [h]
    exact hexc

end Handlers

/-- The read-only space is kept exactly when no instruction but a real change of `cycle`
attempts a write. -/
theorem keepsReadonly_iff {before fetched : Cpu} {d : Decoder} {op : CsrOp} {imm : Bool}
    (hf : before.Fetched fetched d) (hop : d.opcode = OpcodeType.code .csr)
    (hform : form d = some (op, imm)) :
    ∃ after, before._loop = .ok (4, after) ∧ (KeepsReadonly fetched after d ↔
      OnlyCycleWritten fetched d op (operand fetched d imm)) := by
  have hd : d.isCsr = true := by simp [Decoder.isCsr, insnSize_of_csr hop, opcodeType_of_csr hop]
  refine ⟨_, loop_of_csr hf hop, ?_⟩
  rw [funct3_of_form fetched hform]
  by_cases hr : Readonly d.csr
  · cases hw : d.writesCsr with
    | true =>
      rw [csrHandlers_writes hf.exc hr hw]
      exact ⟨fun h _ _ => h, fun h => h hr hw⟩
    | false =>
      refine iff_of_true ?_ fun _ hw' => ?_
      · exact csrHandlers_reads hf.exc hr (op_of_not_writes hd hf.regs_zero hform hw) hw
      · rw [hw] at hw'
        cases hw'
  · refine iff_of_true ⟨fun x hx => ?_, fun h => absurd h hr, fun h => absurd h hr⟩
      fun h => absurd h hr
    exact csrHandlers_readonly_cell hx (readonly_ne hx hr)

/-- `csrrw x0, time, x5`. -/
def timeWriter : Cpu := (Cpu.ofImage [0x73, 0x90, 0x12, 0xc0] (by decide)).setReg 5 7

def writeTime : Decoder := ⟨0xc0129073⟩

theorem timeWriter_fetched : timeWriter.Fetched (timeWriter.setReg 0 0) writeTime :=
  ⟨rfl, ⟨_, rfl, rfl⟩, rfl⟩

theorem keepsReadonly_iff_timeWriter : ∃ after, timeWriter._loop = .ok (4, after) ∧
    (KeepsReadonly (timeWriter.setReg 0 0) after writeTime ↔
      OnlyCycleWritten (timeWriter.setReg 0 0) writeTime opWrite
        (operand (timeWriter.setReg 0 0) writeTime false)) :=
  keepsReadonly_iff timeWriter_fetched rfl rfl

theorem timeWriter_writes : ¬ ∀ (before fetched after : Cpu) (d : Decoder) (op : CsrOp)
    (imm : Bool), before.Fetched fetched d → d.opcode = OpcodeType.code .csr →
    form d = some (op, imm) → before._loop = .ok (4, after) → KeepsReadonly fetched after d := by
  intro h
  have hloop := loop_of_csr timeWriter_fetched rfl
  have hk := h _ _ _ _ opWrite false timeWriter_fetched rfl rfl hloop
  exact absurd (hk.cells Address.time (by decide)) (by decide)

end CsrInsn

end Rv64gcEmu
