import Rv64gcEmu.DecoderFields
import Rv64gcEmu.LoopCases
import Rv64gcEmu.MaskedView

namespace Rv64gcEmu

namespace CsrInsn

/-- Bits 9:8 of a CSR number: the lowest privilege that may name it. -/
def level (csr : BitVec 12) : Word := (csr.extractLsb' 8 2).setWidth 64

/-- The number denotes a privilege above that of the mode. -/
def Underprivileged (mode : Mode) (csr : BitVec 12) : Prop := mode.code < level csr

instance (mode : Mode) (csr : BitVec 12) : Decidable (Underprivileged mode csr) :=
  inferInstanceAs (Decidable (_ < _))

/-- The six forms: what is computed, and whether the operand is an immediate. -/
def form (d : Decoder) : Option (CsrOp × Bool) :=
  match d.funct3 with
  | 0x1 => some (opWrite, false)
  | 0x2 => some (opSet, false)
  | 0x3 => some (opClear, false)
  | 0x5 => some (opWrite, true)
  | 0x6 => some (opSet, true)
  | 0x7 => some (opClear, true)
  | _ => none

def operand (cpu : Cpu) (d : Decoder) (imm : Bool) : Word :=
  if imm then d.rs1.setWidth 64 else cpu.regs d.rs1

theorem funct3_of_form (cpu : Cpu) {d : Decoder} {op : CsrOp} {imm : Bool}
    (h : form d = some (op, imm)) :
    funct3 cpu d = csrHandlers d.csr cpu d d.csr (operand cpu d imm) op := by
  unfold form at h
  unfold funct3
  split at h
  next hf =>
    cases h
    rw [hf]
    rfl
  next hf =>
    cases h
    rw [hf]
    rfl
  next hf =>
    cases h
    rw [hf]
    rfl
  next hf =>
    cases h
    rw [hf]
    rfl
  next hf =>
    cases h
    rw [hf]
    rfl
  next hf =>
    cases h
    rw [hf]
    rfl
  next => cases h

theorem form_none {d : Decoder} (h : form d = none) (cpu : Cpu) :
    funct3 cpu d = cpu.illegal d ∨ d.funct3 = 0 ∧ funct3 cpu d = environment cpu d := by
  unfold form at h
  unfold funct3
  split
  next h3 => exact .inr ⟨h3, rfl⟩
  next h3 => simp [h3] at h
  next h3 => simp [h3] at h
  next h3 => simp [h3] at h
  next h3 => simp [h3] at h
  next h3 => simp [h3] at h
  next h3 => simp [h3] at h
  next => exact .inl rfl

/-- What a refused instruction leaves as it was. -/
structure Blocked (before after : Cpu) : Prop where
  exc : after.excVal = some .illegalInstruction
  cregs : after.cregs = before.cregs
  mmu : after.mmu = before.mmu
  regs : ∀ r, r ≠ 0 → after.regs r = before.regs r

/-- The bits of a machine CSR that Supervisor mode is given through `sstatus`, `sie` and `sip`. -/
def supervisorWindow (csr : Csr) (address : BitVec 12) : Word :=
  if address = Address.mstatus then Mask.sstatus
  else if address = Address.mie then csr.regs Address.mideleg
  else if address = Address.mip then csr.regs Address.mideleg &&& Mask.ssip
  else 0

def window (mode : Mode) (csr : Csr) (address : BitVec 12) : Word :=
  if mode = .supervisor then supervisorWindow csr address else 0

/-- No CSR above the mode has changed, but for the window into the machine CSRs. -/
def Untouched (mode : Mode) (a b : Csr) : Prop :=
  ∀ address, Underprivileged mode address →
    b.regs address &&& ~~~window mode a address = a.regs address &&& ~~~window mode a address

/-- What the privilege of a CSR number asks of an instruction that names it. -/
def RespectsPrivilege (csr : BitVec 12) (before after : Cpu) : Prop :=
  (Underprivileged before.mode csr → Blocked before after) ∧
  Untouched before.mode before.cregs after.cregs

/-- A write of `satp` with `mstatus.TVM` set that changes nothing. -/
structure SatpKept (cpu : Cpu) (d : Decoder) (op : CsrOp) (rhs : Word) : Prop where
  tvm : cpu.cregs.readBitMstatus .tvm = 1
  satp : op (cpu.cregs.load Address.satp) rhs = cpu.cregs.load Address.satp
  rd : d.rd = 0 ∨ cpu.regs d.rd = cpu.cregs.load Address.satp
  mmu : (Mmu.update cpu).mmu = cpu.mmu

/-- The mode may name the CSR, or the handler refuses the instruction, or it changes nothing. -/
def Refused (cpu : Cpu) (d : Decoder) (op : CsrOp) (rhs : Word) : Prop :=
  Underprivileged cpu.mode d.csr →
    (d.csr = Address.mstatus ∧ cpu.mode = .user) ∨ (d.csr = Address.satp ∧ SatpKept cpu d op rhs)

theorem level_le (csr : BitVec 12) : level csr ≤ 3 := by
  rw [BitVec.le_def, level, BitVec.toNat_setWidth]
  have hlt := (csr.extractLsb' 8 2).isLt
  have h3 : (3 : Word).toNat = 3 := rfl
  omega

theorem not_underprivileged_of_le {mode : Mode} {csr : BitVec 12} (h : 3 ≤ mode.code) :
    ¬Underprivileged mode csr := by
  intro hu
  have hl := BitVec.le_def.mp (level_le csr)
  have hc := BitVec.le_def.mp h
  have hlt := BitVec.lt_def.mp hu
  omega

theorem not_underprivileged_of_zero {mode : Mode} {csr : BitVec 12} (h : level csr = 0) :
    ¬Underprivileged mode csr := by
  intro hu
  have hlt := BitVec.lt_def.mp hu
  rw [h] at hlt
  simp at hlt

theorem untouched_refl (mode : Mode) (a : Csr) : Untouched mode a a := fun _ _ => rfl

/-- Writing a cell that the mode may name. -/
theorem untouched_setCell {mode : Mode} {a b : Csr} (h : Untouched mode a b) {address : BitVec 12}
    (v : Word) (ha : ¬Underprivileged mode address) : Untouched mode a (b.setCell address v) := by
  intro x hx
  have hne : x ≠ address := by
    rintro rfl
    exact ha hx
  rw [Csr.setCell_regs, Function.update_of_ne hne]
  exact h x hx

/-- Supervisor mode writes a machine CSR within its window only. -/
theorem untouched_window {a : Csr} {address : BitVec 12} (value : Word) :
    Untouched .supervisor a (a.setCell address
      ((a.regs address &&& ~~~supervisorWindow a address) |||
        (value &&& supervisorWindow a address))) := by
  intro x _
  rw [Csr.setCell_regs]
  by_cases hx : x = address
  · subst hx
    rw [Function.update_self, window, if_pos rfl]
    exact MaskedView.merge_and_not_mask
  · rw [Function.update_of_ne hx]

theorem untouched_store {mode : Mode} {a : Csr} {address : BitVec 12} (value : Word)
    (h : ¬Underprivileged mode address) : Untouched mode a (a.store address value) := by
  unfold Csr.store
  by_cases hmode : mode = .user ∨ mode = .supervisor
  · split
    next hs =>
      subst hs
      rcases hmode with rfl | rfl
      · exact absurd (by decide) h
      · exact untouched_window value
    next =>
      split
      next hs =>
        subst hs
        rcases hmode with rfl | rfl
        · exact absurd (by decide) h
        · exact untouched_window value
      next =>
        split
        next hs =>
          subst hs
          rcases hmode with rfl | rfl
          · exact absurd (by decide) h
          · exact untouched_window value
        next => exact untouched_setCell (untouched_refl mode a) value h
  · intro x hx
    exfalso
    cases mode with
    | user => exact hmode (.inl rfl)
    | supervisor => exact hmode (.inr rfl)
    | machine => exact not_underprivileged_of_le (by decide) hx
    | invalid => exact not_underprivileged_of_le (by decide) hx

section Handlers

variable {cpu : Cpu} {d : Decoder} {op : CsrOp} {rhs : Word}

theorem defaultHandler_untouched {csr : BitVec 12} (h : ¬Underprivileged cpu.mode csr) :
    Untouched cpu.mode cpu.cregs (csrDefaultHandler cpu d csr rhs op).cregs :=
  untouched_store _ h

/-- The floating-point handlers write the cells of `fflags`, `frm` and `fcsr`. -/
theorem fcsrHandlers_untouched {csr : BitVec 12}
    (h : csr = Address.fcsr ∨ csr = Address.fflags ∨ csr = Address.frm) :
    Untouched cpu.mode cpu.cregs (csrHandlers csr cpu d csr rhs op).cregs := by
  have h0 : ∀ a, level a = 0 → ¬Underprivileged cpu.mode a := fun _ => not_underprivileged_of_zero
  have base := untouched_refl cpu.mode cpu.cregs
  rcases h with rfl | rfl | rfl
  · exact untouched_setCell (untouched_setCell (untouched_setCell base _ (h0 _ rfl)) _ (h0 _ rfl)) _
      (h0 _ rfl)
  · exact untouched_setCell (untouched_setCell (untouched_setCell base _ (h0 _ rfl)) _ (h0 _ rfl)) _
      (h0 _ rfl)
  · exact untouched_setCell (untouched_setCell (untouched_setCell base _ (h0 _ rfl)) _ (h0 _ rfl)) _
      (h0 _ rfl)

theorem satpHandler_cregs :
    (csrSatpHandler cpu d Address.satp rhs op).cregs =
      cpu.cregs.store Address.satp (op (cpu.cregs.load Address.satp) rhs) := by
  unfold csrSatpHandler
  split <;> rfl

theorem enforcedReadonlyHandler_cregs {csr : BitVec 12} :
    (csrEnforcedReadonlyHandler cpu d csr rhs op).cregs = cpu.cregs := by
  unfold csrEnforcedReadonlyHandler
  simp only
  split <;> rfl

theorem privledgedHandler_untouched {csr : BitVec 12} (h : ¬Underprivileged cpu.mode csr) :
    Untouched cpu.mode cpu.cregs (csrPrivledgedHandler cpu d csr rhs op).cregs := by
  unfold csrPrivledgedHandler
  split
  next => exact untouched_refl _ _
  next => exact untouched_store _ h

/-- An instruction that may name its CSR leaves those above its mode alone. -/
theorem csrHandlers_untouched {csr : BitVec 12} (h : ¬Underprivileged cpu.mode csr) :
    Untouched cpu.mode cpu.cregs (csrHandlers csr cpu d csr rhs op).cregs := by
  by_cases hf : csr = Address.fcsr ∨ csr = Address.fflags ∨ csr = Address.frm
  · exact fcsrHandlers_untouched hf
  · obtain ⟨h1, h2, h3⟩ : csr ≠ Address.fcsr ∧ csr ≠ Address.fflags ∧ csr ≠ Address.frm := by
      simpa only [not_or] using hf
    unfold csrHandlers
    simp only [h1, h2, h3, if_false]
    split
    next hs =>
      subst hs
      rw [satpHandler_cregs]
      exact untouched_store _ h
    next =>
      split
      next => exact untouched_refl _ _
      next =>
        split
        next =>
          rw [enforcedReadonlyHandler_cregs]
          exact untouched_refl _ _
        next =>
          split
          next => exact privledgedHandler_untouched h
          next => exact defaultHandler_untouched h

theorem satpHandler_regs : (csrSatpHandler cpu d Address.satp rhs op).regs =
    Function.update cpu.regs d.rd (cpu.cregs.load Address.satp) := by
  unfold csrSatpHandler
  split <;> rfl

theorem satpHandler_excVal : (csrSatpHandler cpu d Address.satp rhs op).excVal =
    if cpu.cregs.readBitMstatus .tvm = 1 then some .illegalInstruction else cpu.excVal := by
  unfold csrSatpHandler
  split <;> rfl

theorem satpHandler_mmu : (csrSatpHandler cpu d Address.satp rhs op).mmu =
    (Mmu.update (cpu.setCregs
      (cpu.cregs.store Address.satp (op (cpu.cregs.load Address.satp) rhs)))).mmu := by
  unfold csrSatpHandler
  split <;> rfl

theorem store_satp_iff {v : Word} :
    cpu.cregs.store Address.satp v = cpu.cregs ↔ v = cpu.cregs.load Address.satp := by
  constructor
  · intro h
    have hcell := congrArg (fun a => a.regs Address.satp) h
    change Function.update cpu.cregs.regs Address.satp v Address.satp = _ at hcell
    rwa [Function.update_self] at hcell
  · rintro rfl
    exact Csr.setCell_self cpu.cregs Address.satp

theorem satpHandler_blocked_iff (hexc : cpu.excVal = none) :
    Blocked cpu (csrSatpHandler cpu d Address.satp rhs op) ↔ SatpKept cpu d op rhs := by
  constructor
  · intro hb
    have he := hb.exc
    have hc := hb.cregs
    have hm := hb.mmu
    rw [satpHandler_excVal] at he
    rw [satpHandler_cregs] at hc
    rw [satpHandler_mmu, hc] at hm
    refine ⟨?_, store_satp_iff.mp hc, ?_, hm⟩
    · by_contra htvm
      rw [if_neg htvm, hexc] at he
      cases he
    · by_cases hrd : d.rd = 0
      · exact .inl hrd
      · have hr := hb.regs d.rd hrd
        rw [satpHandler_regs, Function.update_self] at hr
        exact .inr hr.symm
  · intro hk
    have hc := store_satp_iff.mpr hk.satp
    refine ⟨?_, ?_, ?_, fun r hr => ?_⟩
    · rw [satpHandler_excVal, if_pos hk.tvm]
    · rw [satpHandler_cregs, hc]
    · rw [satpHandler_mmu, hc]
      exact hk.mmu
    · rw [satpHandler_regs]
      by_cases hrd : r = d.rd
      · subst hrd
        rw [Function.update_self]
        exact (hk.rd.resolve_left hr).symm
      · exact Function.update_of_ne hrd _ _

theorem csrHandlers_satp : csrHandlers Address.satp = csrSatpHandler := rfl

theorem csrHandlers_mstatus : csrHandlers Address.mstatus = csrPrivledgedHandler := rfl

/-- Only two handlers ever refuse an instruction because of the mode. -/
theorem csrHandlers_blocked_iff (hexc : cpu.excVal = none) (hu : Underprivileged cpu.mode d.csr) :
    Blocked cpu (csrHandlers d.csr cpu d d.csr rhs op) ↔
      (d.csr = Address.mstatus ∧ cpu.mode = .user) ∨
      (d.csr = Address.satp ∧ SatpKept cpu d op rhs) := by
  have quiet : ∀ after : Cpu, after.excVal = cpu.excVal → ¬Blocked cpu after := by
    intro after he hb
    have hexc' := hb.exc
    rw [he, hexc] at hexc'
    cases hexc'
  by_cases hs : d.csr = Address.satp
  · have hm : Address.satp ≠ Address.mstatus := by decide
    rw [hs, csrHandlers_satp, satpHandler_blocked_iff hexc]
    simp only [hm, false_and, false_or, true_and]
  · simp only [hs, false_and, or_false]
    by_cases hm : d.csr = Address.mstatus
    · simp only [hm, csrHandlers_mstatus, true_and]
      unfold csrPrivledgedHandler
      split
      next hmode => exact ⟨fun _ => hmode, fun _ => ⟨rfl, rfl, rfl, fun _ _ => rfl⟩⟩
      next hmode => exact ⟨fun hb => absurd hb (quiet _ rfl), fun h => absurd h hmode⟩
    · have low : ∀ a, d.csr = a → level a ≠ 0 := by
        rintro a rfl h0
        exact not_underprivileged_of_zero h0 hu
      have h1 : d.csr ≠ Address.fcsr := fun h => low _ h rfl
      have h2 : d.csr ≠ Address.fflags := fun h => low _ h rfl
      have h3 : d.csr ≠ Address.frm := fun h => low _ h rfl
      have h4 : d.csr ≠ Address.cycle := fun h => low _ h rfl
      unfold csrHandlers
      simp only [h1, h2, h3, h4, hs, hm, if_false, false_and, iff_false]
      split
      next => exact quiet _ rfl
      next => exact quiet _ rfl

end Handlers

theorem opcodeType_of_csr {d : Decoder} (h : d.opcode = OpcodeType.code .csr) :
    d.opcodeType = some .csr :=
  Decoder.opcodeType_of_opcode (d.opcode_eq.symm.trans h)

theorem insnSize_of_csr {d : Decoder} (h : d.opcode = OpcodeType.code .csr) : d.insnSize = 4 :=
  Decoder.insnSize_of_type (opcodeType_of_csr h)

theorem loop_of_csr {before fetched : Cpu} {d : Decoder} (hf : before.Fetched fetched d)
    (h : d.opcode = OpcodeType.code .csr) : before._loop = .ok (4, funct3 fetched d) := by
  have hz : d.insn ≠ 0 := by
    intro hz
    simp [Decoder.opcode, hz, OpcodeType.code] at h
  rw [Cpu.loop_of_fetched hf hz, Cpu.execute_of_type (opcodeType_of_csr h)]
  unfold Cpu.execute32
  rw [opcodeType_of_csr h]
  rfl

/-- Exactly the refused instructions keep to the privilege of the CSR they name. -/
theorem respectsPrivilege_iff {before fetched : Cpu} {d : Decoder} {op : CsrOp} {imm : Bool}
    (hf : before.Fetched fetched d) (hop : d.opcode = OpcodeType.code .csr)
    (hform : form d = some (op, imm)) :
    ∃ after, before._loop = .ok (4, after) ∧
      (RespectsPrivilege d.csr fetched after ↔ Refused fetched d op (operand fetched d imm)) := by
  refine ⟨_, loop_of_csr hf hop, ?_⟩
  rw [funct3_of_form fetched hform]
  by_cases hu : Underprivileged fetched.mode d.csr
  · have hb := @csrHandlers_blocked_iff fetched d op (operand fetched d imm) hf.exc hu
    constructor
    · exact fun h _ => hb.mp (h.1 hu)
    · intro h
      have hblocked := hb.mpr (h hu)
      refine ⟨fun _ => hblocked, ?_⟩
      rw [hblocked.cregs]
      exact untouched_refl _ _
  · exact ⟨fun _ h => absurd h hu, fun _ => ⟨fun h => absurd h hu, csrHandlers_untouched hu⟩⟩

/-- `csrrw x0, mtvec, x5` in User mode. -/
def userTrapVector : Cpu :=
  ((Cpu.ofImage [0x73, 0x90, 0x52, 0x30] (by decide)).setMode .user).setReg 5 1

def writeTrapVector : Decoder := ⟨0x30529073⟩

theorem userTrapVector_fetched :
    userTrapVector.Fetched (userTrapVector.setReg 0 0) writeTrapVector :=
  ⟨rfl, ⟨_, rfl, rfl⟩, rfl⟩

theorem respectsPrivilege_iff_userTrapVector : ∃ after, userTrapVector._loop = .ok (4, after) ∧
    (RespectsPrivilege writeTrapVector.csr (userTrapVector.setReg 0 0) after ↔
      Refused (userTrapVector.setReg 0 0) writeTrapVector opWrite
        (operand (userTrapVector.setReg 0 0) writeTrapVector false)) :=
  respectsPrivilege_iff userTrapVector_fetched rfl rfl

theorem userTrapVector_written : ¬ ∀ (before fetched after : Cpu) (d : Decoder) (op : CsrOp)
    (imm : Bool), before.Fetched fetched d → d.opcode = OpcodeType.code .csr →
    form d = some (op, imm) → before._loop = .ok (4, after) →
    RespectsPrivilege d.csr fetched after := by
  intro h
  have hloop := loop_of_csr userTrapVector_fetched rfl
  have hb := (h _ _ _ _ opWrite false userTrapVector_fetched rfl rfl hloop).1 (by decide)
  exact absurd hb.exc (by decide)

end CsrInsn

end Rv64gcEmu
