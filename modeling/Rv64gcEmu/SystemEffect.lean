import Rv64gcEmu.DecoderFields
import Rv64gcEmu.Turn

namespace Rv64gcEmu

/-- The two halves of an atomic update by reservation. -/
inductive LrSc where
  | lr
  | sc
  deriving DecidableEq

namespace Decoder

/-- `LR.W`, `LR.D`, `SC.W` and `SC.D`. -/
def lrSc (d : Decoder) : Option (LrSc × Width) :=
  match d.funct3, d.funct5 with
  | 0x2, 0x02 => some (.lr, .w32)
  | 0x2, 0x03 => some (.sc, .w32)
  | 0x3, 0x02 => some (.lr, .w64)
  | 0x3, 0x03 => some (.sc, .w64)
  | _, _ => none

end Decoder

namespace Atomic

/-- What an atomic leaves as it was; the registers, the memory and the reservations are its own. -/
structure Frame (a b : Cpu) : Prop where
  fregs : b.fregs = a.fregs
  cregs : b.cregs = a.cregs
  pc : b.pc = a.pc
  mode : b.mode = a.mode
  sleep : b.sleep = a.sleep
  fenv : b.fenv = a.fenv
  host : b.host = a.host

namespace Frame

theorem refl (a : Cpu) : Frame a a := ⟨rfl, rfl, rfl, rfl, rfl, rfl, rfl⟩

theorem trans {a b c : Cpu} (h : Frame a b) (h' : Frame b c) : Frame a c where
  fregs := h'.fregs.trans h.fregs
  cregs := h'.cregs.trans h.cregs
  pc := h'.pc.trans h.pc
  mode := h'.mode.trans h.mode
  sleep := h'.sleep.trans h.sleep
  fenv := h'.fenv.trans h.fenv
  host := h'.host.trans h.host

theorem of_coreEq {a b : Cpu} (h : Cpu.CoreEq a b) : Frame a b :=
  ⟨h.fregs, h.cregs, h.pc, h.mode, h.sleep, h.fenv, h.host⟩

theorem setReg (a : Cpu) (r : BitVec 5) (v : Word) : Frame a (a.setReg r v) :=
  ⟨rfl, rfl, rfl, rfl, rfl, rfl, rfl⟩

theorem setReservations (a : Cpu) (r : Finset Word) : Frame a (a.setReservations r) :=
  ⟨rfl, rfl, rfl, rfl, rfl, rfl, rfl⟩

end Frame

/-- The state in which the operation runs: at most an exception has been set. -/
structure Checked (a b : Cpu) : Prop extends Cpu.CoreEq a b where
  mmu : b.mmu = a.mmu
  bus : b.bus = a.bus

theorem Checked.ite (a : Cpu) (p : Prop) [Decidable p] (e : Exception) (x : Word) :
    Checked a (if p then a.setException e x else a) := by
  split
  next => exact ⟨.setException a e x, rfl, rfl⟩
  next => exact ⟨.refl a, rfl, rfl⟩

/-- Everything an atomic can be. -/
inductive Op (cpu : Cpu) (d : Decoder) (after : Cpu) : Option (LrSc × Width) → Prop
  | amo {length : Width} {n : Nat} {result : BitVec n → BitVec n → Word}
      (h : amoOp length n result cpu d = .ok after) : Op cpu d after none
  | lr {length : Width} {n : Nat} (h : lrOp length n cpu d = .ok after) :
      Op cpu d after (some (.lr, length))
  | sc {length : Width} {n : Nat} (h : scOp length n cpu d = .ok after) :
      Op cpu d after (some (.sc, length))
  | illegal (h : after = cpu.illegal d) : Op cpu d after none

/-- The operations of one width that are no reservations. -/
theorem lrSc_none {d : Decoder} (h2 : d.funct5 ≠ 2) (h3 : d.funct5 ≠ 3) : d.lrSc = none := by
  unfold Decoder.lrSc
  split
  next hf => exact absurd hf h2
  next hf => exact absurd hf h3
  next hf => exact absurd hf h2
  next hf => exact absurd hf h3
  next => rfl

theorem amow_cases {cpu after : Cpu} {d : Decoder} (hw : d.funct3 = 2)
    (h : amow cpu d = .ok after) : ∃ c, Checked cpu c ∧ Op c d after d.lrSc := by
  unfold amow at h
  generalize hc : (if cpu.regs d.rs1 % 4 ≠ 0 then
    cpu.setException .instructionAddressMisaligned (d.insn.setWidth 64) else cpu) = c at h
  refine ⟨c, hc ▸ .ite cpu _ _ _, ?_⟩
  simp only at h
  split at h
  case h_3 hf =>
    have hk : d.lrSc = some (.lr, .w32) := by
      rw [Decoder.lrSc, hw, hf]
      rfl
    exact hk ▸ .lr h
  case h_4 hf =>
    have hk : d.lrSc = some (.sc, .w32) := by
      rw [Decoder.lrSc, hw, hf]
      rfl
    exact hk ▸ .sc h
  case h_12 _ _ h2 h3 _ _ _ _ _ _ _ =>
    rw [lrSc_none h2 h3]
    exact .illegal (Except.ok.inj h).symm
  all_goals
    rename d.funct5 = _ => hf
    rw [lrSc_none (by rw [hf]; decide) (by rw [hf]; decide)]
    exact .amo h

theorem amod_cases {cpu after : Cpu} {d : Decoder} (hw : d.funct3 = 3)
    (h : amod cpu d = .ok after) : ∃ c, Checked cpu c ∧ Op c d after d.lrSc := by
  unfold amod at h
  generalize hc : (if cpu.regs d.rs1 % 8 ≠ 0 then cpu.illegal d else cpu) = c at h
  refine ⟨c, hc ▸ .ite cpu _ _ _, ?_⟩
  simp only at h
  split at h
  case h_3 hf =>
    have hk : d.lrSc = some (.lr, .w64) := by
      rw [Decoder.lrSc, hw, hf]
      rfl
    exact hk ▸ .lr h
  case h_4 hf =>
    have hk : d.lrSc = some (.sc, .w64) := by
      rw [Decoder.lrSc, hw, hf]
      rfl
    exact hk ▸ .sc h
  case h_12 _ _ h2 h3 _ _ _ _ _ _ _ =>
    rw [lrSc_none h2 h3]
    exact .illegal (Except.ok.inj h).symm
  all_goals
    rename d.funct5 = _ => hf
    rw [lrSc_none (by rw [hf]; decide) (by rw [hf]; decide)]
    exact .amo h

theorem funct3_cases {cpu after : Cpu} {d : Decoder} (h : funct3 cpu d = .ok after) :
    ∃ c, Checked cpu c ∧ Op c d after d.lrSc := by
  unfold funct3 at h
  split at h
  next hw => exact amow_cases hw h
  next hw => exact amod_cases hw h
  next h2 h3 =>
    have hn : d.lrSc = none := by
      unfold Decoder.lrSc
      split
      next hw _ => exact absurd hw h2
      next hw _ => exact absurd hw h2
      next hw _ => exact absurd hw h3
      next hw _ => exact absurd hw h3
      next => rfl
    rw [hn]
    exact ⟨cpu, ⟨.refl cpu, rfl, rfl⟩, .illegal (Except.ok.inj h).symm⟩

theorem Op.frame {cpu after : Cpu} {d : Decoder} {kind : Option (LrSc × Width)}
    (h : Op cpu d after kind) : Frame cpu after := by
  cases h with
  | amo h =>
    obtain ⟨⟨v, c⟩, hl, h⟩ := Except.bind_eq_ok_iff.mp h
    obtain ⟨c', hs, h⟩ := Except.bind_eq_ok_iff.mp h
    cases Except.ok.inj h
    exact (Frame.of_coreEq (Mmu.load_coreEq hl)).trans
      ((Frame.of_coreEq (Mmu.store_coreEq hs)).trans (.setReg c' _ _))
  | lr h =>
    obtain ⟨⟨v, c⟩, hl, h⟩ := Except.bind_eq_ok_iff.mp h
    cases Except.ok.inj h
    exact (Frame.of_coreEq (Mmu.load_coreEq hl)).trans
      ((Frame.setReg c _ _).trans (.setReservations _ _))
  | sc h =>
    unfold scOp at h
    simp only at h
    split at h
    next =>
      obtain ⟨c, hs, h⟩ := Except.bind_eq_ok_iff.mp h
      cases Except.ok.inj h
      exact (Frame.setReservations cpu _).trans
        ((Frame.of_coreEq (Mmu.store_coreEq hs)).trans (.setReg c _ _))
    next =>
      cases Except.ok.inj h
      exact .setReg cpu _ _
  | illegal h =>
    subst h
    exact .of_coreEq (.setException cpu _ _)

theorem funct3_frame {cpu after : Cpu} {d : Decoder} (h : funct3 cpu d = .ok after) :
    Frame cpu after := by
  obtain ⟨c, hc, hop⟩ := funct3_cases h
  exact (Frame.of_coreEq hc.toCoreEq).trans hop.frame

end Atomic

namespace CsrInsn

/-- What holds of every handler holds of the one in the table. -/
theorem csrHandlers_cases {motive : CsrHandler → Prop} (csr : BitVec 12)
    (fcsr : motive csrFcsrHandler) (fflags : motive csrFflagsHandler) (frm : motive csrFrmHandler)
    (satp : motive csrSatpHandler) (readonly : motive csrDefaultHandlerReadonly)
    (enforced : motive csrEnforcedReadonlyHandler) (privledged : motive csrPrivledgedHandler)
    (default : motive csrDefaultHandler) : motive (csrHandlers csr) := by
  unfold csrHandlers
  split
  next => exact fcsr
  next =>
    split
    next => exact fflags
    next =>
      split
      next => exact frm
      next =>
        split
        next => exact satp
        next =>
          split
          next => exact readonly
          next =>
            split
            next => exact enforced
            next =>
              split
              next => exact privledged
              next => exact default

/-- What no instruction of the system opcode changes. -/
structure Frame (a b : Cpu) : Prop where
  fregs : b.fregs = a.fregs
  sleep : b.sleep = a.sleep
  reservations : b.reservations = a.reservations
  bus : b.bus = a.bus
  fenv : b.fenv = a.fenv
  host : b.host = a.host
  mmu : b.mmu = a.mmu ∨ ∃ c, c.mmu = a.mmu ∧ b.mmu = (Mmu.update c).mmu

namespace Frame

variable {cpu : Cpu} {d : Decoder} {csr : BitVec 12} {rhs : Word} {op : CsrOp}

theorem setException (a : Cpu) (e : Exception) (x : Word) : Frame a (a.setException e x) :=
  ⟨rfl, rfl, rfl, rfl, rfl, rfl, .inl rfl⟩

theorem default : Frame cpu (csrDefaultHandler cpu d csr rhs op) :=
  ⟨rfl, rfl, rfl, rfl, rfl, rfl, .inl rfl⟩

theorem update (a : Cpu) {b : Cpu} (h : Frame a b) (hm : b.mmu = a.mmu) :
    Frame a (Mmu.update b) :=
  ⟨h.fregs, h.sleep, h.reservations, h.bus, h.fenv, h.host, .inr ⟨b, hm, rfl⟩⟩

theorem csrHandlers (csr : BitVec 12) : Frame cpu (csrHandlers csr cpu d csr rhs op) := by
  refine @csrHandlers_cases (fun handler => Frame cpu (handler cpu d csr rhs op)) csr
    ⟨rfl, rfl, rfl, rfl, rfl, rfl, .inl rfl⟩ ⟨rfl, rfl, rfl, rfl, rfl, rfl, .inl rfl⟩
    ⟨rfl, rfl, rfl, rfl, rfl, rfl, .inl rfl⟩ ?_ ⟨rfl, rfl, rfl, rfl, rfl, rfl, .inl rfl⟩
    ?_ ?_ .default
  · unfold csrSatpHandler
    simp only
    split
    next => exact .update cpu ⟨rfl, rfl, rfl, rfl, rfl, rfl, .inl rfl⟩ rfl
    next => exact .update cpu .default rfl
  · unfold csrEnforcedReadonlyHandler
    simp only
    split
    next => exact .setException cpu _ _
    next => exact ⟨rfl, rfl, rfl, rfl, rfl, rfl, .inl rfl⟩
  · unfold csrPrivledgedHandler
    split
    next => exact .setException cpu _ _
    next => exact .default

theorem refl (a : Cpu) : Frame a a := ⟨rfl, rfl, rfl, rfl, rfl, rfl, .inl rfl⟩

theorem setPc {a b : Cpu} (h : Frame a b) (pc : Word) : Frame a (b.setPc pc) :=
  ⟨h.fregs, h.sleep, h.reservations, h.bus, h.fenv, h.host, h.mmu⟩

theorem setMode {a b : Cpu} (h : Frame a b) (mode : Mode) : Frame a (b.setMode mode) :=
  ⟨h.fregs, h.sleep, h.reservations, h.bus, h.fenv, h.host, h.mmu⟩

theorem setCregs {a b : Cpu} (h : Frame a b) (cregs : Csr) : Frame a (b.setCregs cregs) :=
  ⟨h.fregs, h.sleep, h.reservations, h.bus, h.fenv, h.host, h.mmu⟩

/-- The write of `mstatus.MPRV` on the way to a less privileged mode. -/
theorem ite_setCregs {a b : Cpu} (h : Frame a b) (p : Prop) [Decidable p] (cregs : Csr) :
    Frame a (if p then b.setCregs cregs else b) := by
  split
  next => exact h.setCregs cregs
  next => exact h

theorem sret (cpu : Cpu) (d : Decoder) : Frame cpu (sret cpu d) := by
  unfold CsrInsn.sret
  split
  next => exact .setException cpu _ _
  next =>
    have hmode := (((refl cpu).setPc (cpu.cregs.load Address.sepc - 4)).setMode
      (if cpu.cregs.readBitSstatus .spp = 0 then .user else .supervisor))
    exact (((hmode.ite_setCregs _ _).setCregs _).setCregs _).setCregs _

theorem mret (cpu : Cpu) (d : Decoder) : Frame cpu (mret cpu d) := by
  unfold CsrInsn.mret
  split
  next => exact .setException cpu _ _
  next =>
    have hmode := (((refl cpu).setPc (cpu.cregs.load Address.mepc - 4)).setMode
      cpu.cregs.readMppMode)
    exact (((hmode.ite_setCregs _ _).setCregs _).setCregs _).setCregs _

theorem environment (cpu : Cpu) (d : Decoder) : Frame cpu (environment cpu d) := by
  unfold CsrInsn.environment
  split
  next =>
    unfold sfencevma
    simp only
    split
    next => exact .update cpu (.setException cpu _ _) rfl
    next => exact .update cpu (.refl cpu) rfl
  next =>
    split
    next => exact .setException cpu _ _
    next =>
      split
      next => exact .setException cpu _ _
      next =>
        split
        next =>
          unfold ecall
          split <;> exact .setException cpu _ _
        next => exact .setException cpu _ _
        next =>
          split
          next => exact .setException cpu _ _
          next => exact .sret cpu d
          next => exact .mret cpu d
          next => exact .setException cpu _ _
        next =>
          split
          next => exact .refl cpu
          next => exact .setException cpu _ _
        next => exact .setException cpu _ _

end Frame

theorem funct3_frame (cpu : Cpu) (d : Decoder) : Frame cpu (funct3 cpu d) := by
  unfold funct3
  split
  next => exact .environment cpu d
  next => exact .csrHandlers d.csr
  next => exact .csrHandlers d.csr
  next => exact .csrHandlers d.csr
  next => exact .csrHandlers d.csr
  next => exact .csrHandlers d.csr
  next => exact .csrHandlers d.csr
  next => exact .setException cpu _ _

end CsrInsn

end Rv64gcEmu
