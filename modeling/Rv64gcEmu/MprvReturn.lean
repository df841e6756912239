import Rv64gcEmu.SystemStep

namespace Rv64gcEmu

/-- `mstatus.MPRV` does not reach below Machine mode. -/
structure DropsMprv (before after : Cpu) : Prop where
  dropped : after.mode = .supervisor ∨ after.mode = .user → after.cregs.status 17 = false
  /-- Data is accessed with the privilege of the code that accesses it. -/
  access : after.mode = .supervisor ∨ after.mode = .user →
    ∀ accessType, Mmu.accessMode after accessType = after.mode
  kept : after.mode = .machine → after.cregs.status 17 = before.cregs.status 17

theorem Mmu.accessMode_of_dropped {cpu : Cpu} (h : cpu.cregs.status 17 = false)
    (accessType : AccessType) : accessMode cpu accessType = cpu.mode := by
  have hbit : cpu.cregs.readBitMstatus .mprv = 0 := by
    rw [Csr.readBitMstatus_eq]
    change (if cpu.cregs.status 17 then 1 else 0) = (0 : Word)
    rw [h]
    rfl
  unfold accessMode
  rw [hbit]
  exact if_neg fun hn => absurd hn.2 (by decide)

/-- The CSRs as a return has them before it writes the stacked bits back. -/
def Level.returnCsr (level : Level) (csr : Csr) : Csr :=
  match level with
  | .supervisor => if csr.readBitSstatus .spp = 0 then csr.writeBitMstatus .mprv 0 else csr
  | .machine => if csr.readMppMode ≠ .machine then csr.writeBitMstatus .mprv 0 else csr

namespace CsrInsn

variable {cpu : Cpu} {d : Decoder}

theorem sret_cregs (h : ¬(cpu.cregs.readBitMstatus .tsr = 1 ∨ cpu.mode = .user)) :
    (sret cpu d).cregs =
      (Level.returnCsr .supervisor cpu.cregs).unstackStatus .supervisor := by
  unfold sret Level.returnCsr
  rw [if_neg h]
  by_cases hs : cpu.cregs.readBitSstatus .spp = 0
  · have hs' : (cpu.setPc (cpu.cregs.load Address.sepc - 4)).cregs.readBitSstatus .spp = 0 := hs
    simp only [hs', hs, if_true, Cpu.setMode_mode]
    rfl
  · have hs' : (cpu.setPc (cpu.cregs.load Address.sepc - 4)).cregs.readBitSstatus .spp ≠ 0 := hs
    simp only [hs', hs, if_false, Cpu.setMode_mode, reduceCtorEq]
    rfl

theorem mret_cregs (h : cpu.mode = .machine) :
    (mret cpu d).cregs = (Level.returnCsr .machine cpu.cregs).unstackStatus .machine := by
  unfold mret Level.returnCsr
  rw [if_neg (not_not.mpr h)]
  by_cases hr : cpu.cregs.readMppMode = .machine
  · have hr' : (cpu.setPc (cpu.cregs.load Address.mepc - 4)).cregs.readMppMode = .machine := hr
    simp only [hr', hr, Cpu.setMode_mode, ne_eq, not_true_eq_false, if_false]
    rfl
  · have hr' : (cpu.setPc (cpu.cregs.load Address.mepc - 4)).cregs.readMppMode ≠ .machine := hr
    simp only [hr', hr, Cpu.setMode_mode, ne_eq, not_false_eq_true, if_true]
    rfl

end CsrInsn

theorem Csr.status_unstackStatus_mprv (csr : Csr) (level : Level) :
    (csr.unstackStatus level).status 17 = csr.status 17 := by
  cases level with
  | supervisor =>
    simp only [unstackStatus]
    rw [status_writeBitSstatus _ _ _ (by decide), if_neg (by decide),
      status_writeBitSstatus _ _ _ (by decide), if_neg (by decide),
      status_writeBitSstatus _ _ _ (by decide), if_neg (by decide)]
  | machine =>
    simp only [unstackStatus]
    rw [status_writeMppMode _ _ (by decide), status_writeBitMstatus _ _ _ (by decide),
      if_neg (by decide), status_writeBitMstatus _ _ _ (by decide), if_neg (by decide)]
    simp [Mode.code]

theorem Csr.status_mprv_cleared (csr : Csr) : (csr.writeBitMstatus .mprv 0).status 17 = false := by
  rw [status_writeBitMstatus _ _ _ (by decide), if_pos (by decide)]
  rfl

section Returns

variable {cpu after : Cpu} {level : Level}

/-- A supervisor return to Supervisor mode, with `MPRV` set. -/
def KeepsMprv (cpu : Cpu) (level : Level) : Prop :=
  level = .supervisor ∧ cpu.cregs.status 8 = true ∧ cpu.cregs.status 17 = true

theorem dropsMprv_of_dropped (h : after.cregs.status 17 = false) (hm : after.mode ≠ .machine) :
    DropsMprv cpu after :=
  ⟨fun _ => h, fun _ => Mmu.accessMode_of_dropped h, fun hm' => absurd hm' hm⟩

/-- What `sret` makes of `MPRV`: it looks at the mode it goes to, and not at whether that is below
Machine mode. -/
theorem dropsMprv_supervisor_iff (hmode : after.mode = Level.returnMode .supervisor cpu.cregs)
    (hcsr : after.cregs = (Level.returnCsr .supervisor cpu.cregs).unstackStatus .supervisor) :
    DropsMprv cpu after ↔ ¬KeepsMprv cpu .supervisor := by
  have hstatus : after.cregs.status 17 = (Level.returnCsr .supervisor cpu.cregs).status 17 := by
    rw [hcsr, Csr.status_unstackStatus_mprv]
  have hspp : cpu.cregs.readBitSstatus .spp = 0 ↔ cpu.cregs.status 8 = false := by
    rw [Csr.readBitSstatus_eq]
    change (if cpu.cregs.status 8 then 1 else 0) = (0 : Word) ↔ _
    cases cpu.cregs.status 8 <;> decide
  unfold Level.returnMode at hmode
  unfold Level.returnCsr at hstatus
  by_cases hs : cpu.cregs.readBitSstatus .spp = 0
  · simp only [hs, if_true] at hmode hstatus
    rw [Csr.status_mprv_cleared] at hstatus
    refine iff_of_true (dropsMprv_of_dropped hstatus (by simp [hmode])) fun hk => ?_
    have h8 := hk.2.1
    rw [hspp.mp hs] at h8
    cases h8
  · simp only [hs, if_false] at hmode hstatus
    have h8 : cpu.cregs.status 8 = true := by
      rw [← Bool.not_eq_false]
      exact fun h => hs (hspp.mpr h)
    constructor
    · intro h hk
      have hd := h.dropped (.inl hmode)
      rw [hstatus, hk.2.2] at hd
      cases hd
    · intro hk
      refine dropsMprv_of_dropped ?_ (by simp [hmode])
      rw [hstatus, ← Bool.not_eq_true]
      exact fun h => hk ⟨rfl, h8, h⟩

theorem dropsMprv_machine (hmode : after.mode = Level.returnMode .machine cpu.cregs)
    (hcsr : after.cregs = (Level.returnCsr .machine cpu.cregs).unstackStatus .machine) :
    DropsMprv cpu after := by
  have hstatus : after.cregs.status 17 = (Level.returnCsr .machine cpu.cregs).status 17 := by
    rw [hcsr, Csr.status_unstackStatus_mprv]
  unfold Level.returnMode at hmode
  unfold Level.returnCsr at hstatus
  by_cases hm : cpu.cregs.readMppMode = .machine
  · simp only [hm, ne_eq, not_true_eq_false, if_false] at hmode hstatus
    exact ⟨fun h => by simp [hmode] at h, fun h => by simp [hmode] at h, fun _ => hstatus⟩
  · simp only [hm, ne_eq, not_false_eq_true, if_true] at hstatus
    rw [Csr.status_mprv_cleared] at hstatus
    exact dropsMprv_of_dropped hstatus (by rw [hmode]; exact hm)

/-- `MPRV` survives the return to Supervisor mode, and no other. -/
theorem dropsMprv_iff {d : Decoder} {size : Word} (hd : d.returns level)
    (h : cpu.execute d = .ok (size, after)) (he : after.excVal = none) :
    DropsMprv cpu after ↔ ¬KeepsMprv cpu level := by
  have his : d.isCsr = true := by
    simp only [Decoder.returns, Bool.and_eq_true] at hd
    exact hd.1.1.1
  obtain rfl := Cpu.execute_csr his h
  rw [funct3_of_returns hd] at he ⊢
  cases level with
  | supervisor =>
    simp only at he ⊢
    have hlegal : ¬(cpu.cregs.readBitMstatus .tsr = 1 ∨ cpu.mode = .user) := by
      intro hi
      rw [CsrInsn.sret, if_pos hi] at he
      cases he
    rcases CsrInsn.sret_cases cpu d with ⟨hx, _⟩ | ⟨hret, _⟩
    · rw [hx] at he
      cases he
    · exact dropsMprv_supervisor_iff hret.mode (CsrInsn.sret_cregs hlegal)
  | machine =>
    simp only at he ⊢
    rcases CsrInsn.mret_cases cpu d with ⟨hx, _⟩ | ⟨hret, hm⟩
    · rw [hx] at he
      cases he
    · refine iff_of_true (dropsMprv_machine hret.mode (CsrInsn.mret_cregs hm)) fun hk => ?_
      cases hk.1

end Returns

/-- Machine mode about to return to Supervisor mode with `sret`, with `MPRV` set. -/
def mprvCpu : Cpu :=
  let cpu := Cpu.ofImage [0x73, 0x00, 0x20, 0x10] (by decide)
  cpu.setCregs (cpu.cregs.setCell Address.mstatus 0x20100)

theorem dropsMprv_iff_mprvCpu :
    ¬DropsMprv mprvCpu (CsrInsn.sret mprvCpu ⟨0x10200073⟩) := by
  have hiff := @dropsMprv_iff mprvCpu (CsrInsn.sret mprvCpu ⟨0x10200073⟩) .supervisor
    ⟨0x10200073⟩ 4 (by decide) rfl rfl
  exact fun h => hiff.mp h ⟨rfl, by decide, by decide⟩

theorem mprvCpu_keeps : ¬∀ (cpu after : Cpu) (level : Level) (d : Decoder) (size : Word),
    d.returns level → cpu.execute d = .ok (size, after) → after.excVal = none →
      DropsMprv cpu after := by
  intro h
  have hd := h mprvCpu (CsrInsn.sret mprvCpu ⟨0x10200073⟩) .supervisor ⟨0x10200073⟩ 4 (by decide)
    rfl rfl
  have hbit := hd.dropped (.inl (by decide))
  revert hbit
  decide

end Rv64gcEmu
