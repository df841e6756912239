import Rv64gcEmu.SystemStep

namespace Rv64gcEmu

namespace Decoder

/-- A CSR instruction that names `satp`. -/
def accessesSatp (d : Decoder) : Bool := (CsrInsn.form d).isSome && d.csr = Address.satp

/-- `SFENCE.VMA`. -/
def fences (d : Decoder) : Bool := d.funct3 = 0 && d.funct7 = 0x09

end Decoder

namespace CsrInsn

/-- What an instruction that traps leaves as it was. -/
structure NoEffect (before after : Cpu) : Prop extends InPlace before after where
  cregs : after.cregs = before.cregs
  regs : ∀ r, r ≠ 0 → after.regs r = before.regs r
  mmu : after.mmu = before.mmu

/-- The traps of the system opcode, those that `mstatus` asks for among them. -/
structure TrapsCleanly (before after : Cpu) (d : Decoder) : Prop where
  noEffect : after.excVal = some .illegalInstruction → NoEffect before after
  tvm : before.mode = .supervisor → before.cregs.readBitMstatus .tvm = 1 →
    d.accessesSatp = true ∨ d.fences = true → after.excVal = some .illegalInstruction
  tsr : before.mode = .supervisor → before.cregs.readBitMstatus .tsr = 1 →
    d.returns .supervisor = true → after.excVal = some .illegalInstruction
  machine : before.mode = .machine →
    d.accessesSatp = true ∨ d.fences = true ∨ d.returns .supervisor = true →
    after.excVal ≠ some .illegalInstruction

/-- The MMU has nothing to take over from `satp` and nothing to flush. -/
structure MmuFresh (cpu : Cpu) : Prop where
  mode : cpu.mmu.mode = (Helper.readBits (cpu.cregs.load Address.satp) 63 60).setWidth 4
  root : cpu.mmu.mppn = (Helper.readBits (cpu.cregs.load Address.satp) 43 0 <<< 12).setWidth 32
  tlb : ∀ i, cpu.mmu.tlbCache i = Mmu.emptyEntry

/-- No trap that the code does not stop at does anything. -/
structure TrapsAreVoid (cpu : Cpu) (d : Decoder) : Prop where
  satp : ∀ (op : CsrOp) (imm : Bool), form d = some (op, imm) → d.csr = Address.satp →
    cpu.cregs.readBitMstatus .tvm = 1 → cpu.mode ≠ .machine ∧
      op (cpu.cregs.load Address.satp) (operand cpu d imm) = cpu.cregs.load Address.satp ∧
      (d.rd = 0 ∨ cpu.regs d.rd = cpu.cregs.load Address.satp) ∧ MmuFresh cpu
  fence : d.fences = true → cpu.cregs.readBitMstatus .tvm = 1 ∨ cpu.mode = .user →
    (cpu.cregs.readBitMstatus .tvm = 1 → cpu.mode ≠ .machine) ∧ MmuFresh cpu
  sret : d.returns .supervisor = true → cpu.cregs.readBitMstatus .tsr = 1 → cpu.mode ≠ .machine

section Handlers

variable {cpu : Cpu} {d : Decoder}

theorem update_mmu_iff : (Mmu.update cpu).mmu = cpu.mmu ↔ MmuFresh cpu := by
  constructor
  · intro h
    exact ⟨(congrArg Mmu.mode h).symm, (congrArg Mmu.mppn h).symm,
      fun i => (congrFun (congrArg Mmu.tlbCache h) i).symm⟩
  · intro h
    have ht : cpu.mmu.tlbCache = fun _ => Mmu.emptyEntry := funext h.tlb
    change Mmu.mk (fun _ => Mmu.emptyEntry) _ _ = cpu.mmu
    rw [← h.mode, ← h.root, ← ht]

theorem noEffect_illegal (cpu : Cpu) (d : Decoder) : NoEffect cpu (cpu.illegal d) :=
  ⟨⟨rfl, rfl⟩, rfl, fun _ _ => rfl, rfl⟩

/-- The other handlers refuse at once or not at all. -/
theorem csrHandlers_clean {csr : BitVec 12} (hs : csr ≠ Address.satp) (hexc : cpu.excVal = none)
    (rhs : Word) (op : CsrOp) : csrHandlers csr cpu d csr rhs op = cpu.illegal d ∨
      (csrHandlers csr cpu d csr rhs op).excVal = none := by
  unfold csrHandlers
  rw [if_neg hs]
  split
  next => exact .inr hexc
  next =>
    split
    next => exact .inr hexc
    next =>
      split
      next => exact .inr hexc
      next =>
        split
        next => exact .inr hexc
        next =>
          split
          next =>
            unfold csrEnforcedReadonlyHandler
            simp only
            split
            next => exact .inl rfl
            next => exact .inr hexc
          next =>
            split
            next =>
              unfold csrPrivledgedHandler
              split
              next => exact .inl rfl
              next => exact .inr hexc
            next => exact .inr hexc

theorem sret_excVal_iff (hexc : cpu.excVal = none) :
    (sret cpu d).excVal = some .illegalInstruction ↔
      cpu.cregs.readBitMstatus .tsr = 1 ∨ cpu.mode = .user := by
  have htsr : cpu.cregs.readBitMstatus .tsr = 1 ↔ cpu.cregs.status 22 = true := by
    rw [Csr.readBitMstatus_eq]
    change (if cpu.cregs.status 22 then 1 else 0) = (1 : Word) ↔ _
    cases cpu.cregs.status 22 <;> decide
  rw [htsr]
  rcases sret_cases cpu d with ⟨hi, hbad⟩ | ⟨hret, h22, hu⟩
  · rw [hi]
    exact iff_of_true rfl hbad
  · rw [hret.excVal, hexc, h22]
    simp [hu]

/-- Of the environment instructions, only the fence goes on behind its exception. -/
theorem environment_clean (h7 : d.funct7 ≠ 0x09) (hexc : cpu.excVal = none) :
    environment cpu d = cpu.illegal d ∨
      (environment cpu d).excVal ≠ some .illegalInstruction := by
  have hnone : ∀ after : Cpu, after.excVal = none → after.excVal ≠ some .illegalInstruction := by
    intro after h
    rw [h]
    exact (Option.some_ne_none _).symm
  unfold environment
  rw [if_neg h7]
  split
  next => exact .inl rfl
  next =>
    split
    next => exact .inl rfl
    next =>
      split
      next =>
        unfold ecall
        split
        next => exact .inr (by simp)
        next => exact .inr (by simp)
        next => exact .inr (by simp)
        next => exact .inl rfl
      next => exact .inr (by simp [ebreak])
      next =>
        split
        next => exact .inl rfl
        next =>
          rcases sret_cases cpu d with ⟨hi, _⟩ | ⟨hret, _⟩
          · exact .inl hi
          · exact .inr (hnone _ (hret.excVal.trans hexc))
        next =>
          rcases mret_cases cpu d with ⟨hi, _⟩ | ⟨hret, _⟩
          · exact .inl hi
          · exact .inr (hnone _ (hret.excVal.trans hexc))
        next => exact .inl rfl
      next =>
        split
        next => exact .inr (hnone _ hexc)
        next => exact .inl rfl
      next => exact .inl rfl

/-- Neither an access to `satp` nor a fence: what traps does nothing. -/
theorem funct3_clean (hexc : cpu.excVal = none) (hs : d.accessesSatp = false)
    (hf : d.fences = false) : funct3 cpu d = cpu.illegal d ∨
      (funct3 cpu d).excVal ≠ some .illegalInstruction := by
  cases hform : form d with
  | some p =>
    obtain ⟨op, imm⟩ := p
    have hne : d.csr ≠ Address.satp := by
      intro h
      simp [Decoder.accessesSatp, hform, h] at hs
    rw [funct3_of_form cpu hform]
    refine (csrHandlers_clean hne hexc _ op).imp id fun h => ?_
    rw [h]
    exact (Option.some_ne_none _).symm
  | none =>
    rcases form_none hform cpu with h | ⟨h3, h⟩
    · exact .inl h
    · rw [h]
      refine environment_clean ?_ hexc
      intro h7
      simp [Decoder.fences, h3, h7] at hf

/-- An access to `satp`: the handler traps, and then does what it would do anyway. -/
theorem satp_trapsCleanly_iff (hexc : cpu.excVal = none) {op : CsrOp} {imm : Bool}
    (hform : form d = some (op, imm)) (hs : d.csr = Address.satp) :
    TrapsCleanly cpu (csrSatpHandler cpu d Address.satp (operand cpu d imm) op) d ↔
      TrapsAreVoid cpu d := by
  have hacc : d.accessesSatp = true := by simp [Decoder.accessesSatp, hform, hs]
  have h3 : d.funct3 ≠ 0 := by
    intro h3
    simp [form, h3] at hform
  have hfence : d.fences = false := by
    rw [Decoder.fences, decide_eq_false h3, Bool.false_and]
  have hret : d.returns .supervisor = false := by
    rw [Decoder.returns, decide_eq_false h3, Bool.and_false, Bool.false_and, Bool.false_and]
  have he := @satpHandler_excVal cpu d op (operand cpu d imm)
  by_cases ht : cpu.cregs.readBitMstatus .tvm = 1
  · rw [if_pos ht] at he
    have hblocked := @satpHandler_blocked_iff cpu d op (operand cpu d imm) hexc
    constructor
    · intro h
      have hn := h.noEffect he
      have hk := hblocked.mp ⟨he, hn.cregs, hn.mmu, hn.regs⟩
      refine ⟨fun op' imm' hform' _ _ => ?_, fun hf => ?_, fun hr => ?_⟩
      · rw [hform] at hform'
        cases hform'
        exact ⟨fun hm => h.machine hm (.inl hacc) he, hk.satp, hk.rd, update_mmu_iff.mp hk.mmu⟩
      · rw [hfence] at hf
        cases hf
      · rw [hret] at hr
        cases hr
    · intro h
      obtain ⟨hm, hsatp, hrd, hfresh⟩ := h.satp op imm hform hs ht
      have hb := hblocked.mpr ⟨ht, hsatp, hrd, update_mmu_iff.mpr hfresh⟩
      have hin : InPlace cpu (csrSatpHandler cpu d Address.satp (operand cpu d imm) op) :=
        csrHandlers_inPlace Address.satp
      exact ⟨fun _ => ⟨hin, hb.cregs, hb.regs, hb.mmu⟩, fun _ _ _ => he, fun _ _ _ => he,
        fun hm' => absurd hm' hm⟩
  · rw [if_neg ht, hexc] at he
    have hne : (csrSatpHandler cpu d Address.satp (operand cpu d imm) op).excVal ≠
        some .illegalInstruction := by
      rw [he]
      exact (Option.some_ne_none _).symm
    refine iff_of_true ⟨fun h => absurd h hne, fun _ h => absurd h ht, fun _ _ hr => ?_,
      fun _ _ => hne⟩ ⟨fun _ _ _ _ h => absurd h ht, fun hf => ?_, fun hr => ?_⟩
    · rw [hret] at hr
      cases hr
    · rw [hfence] at hf
      cases hf
    · rw [hret] at hr
      cases hr

theorem sfencevma_excVal (hexc : cpu.excVal = none) : (sfencevma cpu d).excVal =
    if cpu.cregs.readBitMstatus .tvm = 1 ∨ cpu.mode = .user then some .illegalInstruction
    else none := by
  unfold sfencevma
  simp only
  split
  next => rfl
  next => exact hexc

theorem sfencevma_noEffect_iff : NoEffect cpu (sfencevma cpu d) ↔ MmuFresh cpu := by
  have hmmu : (sfencevma cpu d).mmu = (Mmu.update cpu).mmu := by
    unfold sfencevma
    simp only
    split
    next => rfl
    next => rfl
  rw [← update_mmu_iff, ← hmmu]
  constructor
  · exact fun h => h.mmu
  · intro h
    refine ⟨⟨?_, ?_⟩, ?_, fun r _ => ?_, h⟩
    all_goals
      unfold sfencevma
      simp only
      split
      next => rfl
      next => rfl

/-- The fence traps, and then takes over `satp` and flushes. -/
theorem fence_trapsCleanly_iff (hexc : cpu.excVal = none) (hf : d.fences = true) :
    TrapsCleanly cpu (sfencevma cpu d) d ↔ TrapsAreVoid cpu d := by
  obtain ⟨h3, h7⟩ : d.funct3 = 0 ∧ d.funct7 = 0x09 := by simpa [Decoder.fences] using hf
  have hform : form d = none := by simp [form, h3]
  have hret : d.returns .supervisor = false := by simp [Decoder.returns, h7]
  have he := @sfencevma_excVal cpu d hexc
  constructor
  · intro h
    refine ⟨fun op imm hform' => ?_, fun _ hc => ⟨fun ht hm => ?_, ?_⟩, fun hr => ?_⟩
    · rw [hform] at hform'
      cases hform'
    · rw [if_pos hc] at he
      exact h.machine hm (.inr (.inl hf)) he
    · rw [if_pos hc] at he
      exact sfencevma_noEffect_iff.mp (h.noEffect he)
    · rw [hret] at hr
      cases hr
  · intro h
    refine ⟨fun hi => ?_, fun _ ht _ => ?_, fun _ _ hr => ?_, fun hm _ hi => ?_⟩
    · rw [he] at hi
      split at hi
      next hc => exact sfencevma_noEffect_iff.mpr (h.fence hf hc).2
      next => cases hi
    · rw [he, if_pos (.inl ht)]
    · rw [hret] at hr
      cases hr
    · rw [he] at hi
      split at hi
      next hc =>
        rcases hc with ht | hu
        · exact (h.fence hf (.inl ht)).1 ht hm
        · rw [hm] at hu
          cases hu
      next => cases hi

/-- The other instructions stop where they trap; in Machine mode `mstatus.TSR` traps, too. -/
theorem other_trapsCleanly_iff (hexc : cpu.excVal = none)
    (hs : d.accessesSatp = false) (hf : d.fences = false) :
    TrapsCleanly cpu (funct3 cpu d) d ↔ TrapsAreVoid cpu d := by
  have hnone : TrapsAreVoid cpu d ↔ (d.returns .supervisor = true →
      cpu.cregs.readBitMstatus .tsr = 1 → cpu.mode ≠ .machine) := by
    refine ⟨fun h => h.sret, fun h => ⟨fun op imm hform hsatp => ?_, fun hf' => ?_, h⟩⟩
    · simp [Decoder.accessesSatp, hform, hsatp] at hs
    · rw [hf] at hf'
      cases hf'
  have hsret : d.returns .supervisor = true → ((funct3 cpu d).excVal = some .illegalInstruction ↔
      cpu.cregs.readBitMstatus .tsr = 1 ∨ cpu.mode = .user) := by
    intro hr
    rw [funct3_of_returns hr]
    exact sret_excVal_iff hexc
  have hnoEffect : (funct3 cpu d).excVal = some .illegalInstruction →
      NoEffect cpu (funct3 cpu d) := by
    intro hi
    rcases funct3_clean hexc hs hf with h | h
    · rw [h]
      exact noEffect_illegal cpu d
    · exact absurd hi h
  rw [hnone]
  constructor
  · intro h hr ht hm
    exact h.machine hm (.inr (.inr hr)) ((hsret hr).mpr (.inl ht))
  · intro h
    refine ⟨hnoEffect, fun _ _ hd' => ?_, fun _ ht hr => (hsret hr).mpr (.inl ht),
      fun hm hd' hi => ?_⟩
    · rw [hs, hf] at hd'
      simp at hd'
    · rw [hs, hf] at hd'
      have hr : d.returns .supervisor = true := by simpa using hd'
      rcases (hsret hr).mp hi with ht | hu
      · exact h hr ht hm
      · rw [hm] at hu
        cases hu

end Handlers

/-- A trapped system instruction has no effect exactly when the two handlers that go on behind
their exception have nothing to do. -/
theorem trapsCleanly_iff {before fetched : Cpu} {d : Decoder} (hf : before.Fetched fetched d)
    (hop : d.opcode = OpcodeType.code .csr) : ∃ after, before._loop = .ok (4, after) ∧
      (TrapsCleanly fetched after d ↔ TrapsAreVoid fetched d) := by
  refine ⟨_, loop_of_csr hf hop, ?_⟩
  cases hs : d.accessesSatp with
  | true =>
    simp only [Decoder.accessesSatp, Bool.and_eq_true, decide_eq_true_eq, Option.isSome_iff_exists]
      at hs
    obtain ⟨⟨⟨op, imm⟩, hform⟩, hcsr⟩ := hs
    rw [funct3_of_form fetched hform, hcsr, csrHandlers_satp]
    exact satp_trapsCleanly_iff hf.exc hform hcsr
  | false =>
    cases hfence : d.fences with
    | true =>
      obtain ⟨h3, h7⟩ : d.funct3 = 0 ∧ d.funct7 = 0x09 := by simpa [Decoder.fences] using hfence
      have he : funct3 fetched d = sfencevma fetched d := by
        unfold funct3
        rw [h3]
        change environment fetched d = _
        rw [environment, if_pos h7]
      rw [he]
      exact fence_trapsCleanly_iff hf.exc hfence
    | false => exact other_trapsCleanly_iff hf.exc hs hfence

/-- `csrrw x0, satp, x5` in Supervisor mode with `mstatus.TVM` set. -/
def satpTrapped : Cpu :=
  (((Cpu.ofImage [0x73, 0x90, 0x02, 0x18] (by decide)).setReg 5 0x80000).setMode
    .supervisor).setCregs (Csr.init.setCell Address.mstatus (1#64 <<< 20))

def writeSatp : Decoder := ⟨0x18029073⟩

theorem satpTrapped_fetched : satpTrapped.Fetched (satpTrapped.setReg 0 0) writeSatp :=
  ⟨rfl, ⟨_, rfl, rfl⟩, rfl⟩

theorem trapsCleanly_iff_satpTrapped : ∃ after, satpTrapped._loop = .ok (4, after) ∧
    (TrapsCleanly (satpTrapped.setReg 0 0) after writeSatp ↔
      TrapsAreVoid (satpTrapped.setReg 0 0) writeSatp) :=
  trapsCleanly_iff satpTrapped_fetched rfl

theorem satpTrapped_written : ¬ ∀ (before fetched after : Cpu) (d : Decoder),
    before.Fetched fetched d → d.opcode = OpcodeType.code .csr →
    before._loop = .ok (4, after) → TrapsCleanly fetched after d := by
  intro h
  have hk := h _ _ _ _ satpTrapped_fetched rfl (loop_of_csr satpTrapped_fetched rfl)
  have hc := congrArg (fun a => a.regs Address.satp) (hk.noEffect rfl).cregs
  exact absurd hc (by decide)

end CsrInsn

end Rv64gcEmu
