import Rv64gcEmu.MmuWriteBack
import Rv64gcEmu.SystemEffect

namespace Rv64gcEmu

theorem Effect.frame {cpu after : Cpu} {access : Option Access} (h : Effect cpu after access) :
    cpu.Frame after := by
  cases h with
  | quiet h => exact h.toFrame
  | refused flags eq =>
    exact flags.toFrame.trans ((Cpu.Frame.of_coreEq (.setException _ _ _)).trans eq.toFrame)
  | @loaded _ _ value _ rd c load eq =>
    have hc := Cpu.Frame.of_coreEq (Mmu.load_coreEq load)
    subst eq
    unfold Load.assignIfNoException
    split
    next => exact hc.trans (Cpu.Quiet.setReg c rd value).toFrame
    next => exact hc
  | @loadedUnchecked _ _ value _ dest c load _ eq =>
    have hc := Cpu.Frame.of_coreEq (Mmu.load_coreEq load)
    cases dest with
    | reg r => exact (hc.trans (Cpu.Quiet.setReg c r value).toFrame).trans eq.toFrame
    | freg r _ => exact (hc.trans (Cpu.Quiet.setFreg c r value).toFrame).trans eq.toFrame
  | stored store eq => exact (Cpu.Frame.of_coreEq (Mmu.store_coreEq store)).trans eq.toFrame

namespace Cpu

/-- An instruction is one of the atomics, one of the system opcode, or has an effect. -/
inductive Ran (cpu : Cpu) (d : Decoder) (size : Word) (after : Cpu) : Prop
  | plain (hd : d.isSystem = false) (hs : size = d.insnSize)
      (h : Effect cpu after (dataAccess cpu d))
  | atomic (hd : d.insnSize = 4 ∧ d.opcodeType = some .atomic) (hs : size = 4)
      (h : Atomic.funct3 cpu d = .ok after)
  | csr (hd : d.insnSize = 4 ∧ d.opcodeType = some .csr) (hs : size = 4)
      (h : after = CsrInsn.funct3 cpu d)

theorem execute_ran {cpu after : Cpu} {d : Decoder} {size : Word}
    (h : execute cpu d = .ok (size, after)) : Ran cpu d size after := by
  cases hsys : d.isSystem with
  | false =>
    obtain ⟨heff, hs⟩ := execute_effect hsys h
    exact .plain hsys hs heff
  | true =>
    simp only [Decoder.isSystem, Bool.and_eq_true, Bool.or_eq_true, decide_eq_true_eq] at hsys
    obtain ⟨h4, hop⟩ := hsys
    rcases execute_cases h with ⟨hs, _, _⟩ | ⟨_, rfl, hx⟩
    · exact absurd (hs.symm.trans h4) (by decide)
    rcases hop with hop | hop
    · unfold execute32 at hx
      rw [hop] at hx
      exact .atomic ⟨h4, hop⟩ rfl hx
    · unfold execute32 at hx
      rw [hop] at hx
      exact .csr ⟨h4, hop⟩ rfl (Except.ok.inj hx).symm

end Cpu

/-- An instruction that was executed, from the state that its fetch left. -/
structure Executed where
  before : Cpu
  d : Decoder
  after : Cpu

/-- The runs of `loop`, each with the instructions it has executed, the last one first. -/
inductive Run (start : Cpu) : List Executed → Cpu → Prop
  | start : Run start [] start
  | idle {trace : List Executed} {before c after : Cpu} {env : Cpu.Env} {i : Option Interrupt}
      {size : Word} (run : Run start trace before) (hp : before.poll env = .ok (i, c))
      (hn : ∀ f d, (c.interrupted i).Fetched f d → d.insn = 0)
      (h : (c.interrupted i)._loop = .ok (size, after)) : Run start trace (after.finish size)
  | insn {trace : List Executed} {before c f after : Cpu} {d : Decoder} {env : Cpu.Env}
      {i : Option Interrupt} {size : Word} (run : Run start trace before)
      (hp : before.poll env = .ok (i, c)) (hf : (c.interrupted i).Fetched f d) (hz : d.insn ≠ 0)
      (h : f.execute d = .ok (size, after)) : Run start (⟨f, d, after⟩ :: trace) (after.finish size)

namespace Run

variable {start : Cpu} {trace : List Executed} {before after : Cpu}

/-- Every turn of `loop` extends a run. -/
theorem loop {env : Cpu.Env} (run : Run start trace before) (h : before.loop env = .ok after) :
    ∃ trace', Run start trace' after := by
  obtain ⟨i, c, size, c', hp, hl, rfl⟩ := Cpu.loop_phases.mp h
  by_cases hn : ∀ f d, (c.interrupted i).Fetched f d → d.insn = 0
  · exact ⟨_, .idle run hp hn hl⟩
  · push Not at hn
    obtain ⟨f, d, hf, hz⟩ := hn
    rw [Cpu.loop_of_fetched hf hz] at hl
    exact ⟨_, .insn run hp hf hz hl⟩

end Run

namespace Mmu

/-- A property of the MMU that no translation takes away. -/
structure Kept (P : Mmu → Prop) : Prop where
  translate : ∀ {cpu c : Cpu} {address p : Word} {accessType : AccessType}, P cpu.mmu →
    Mmu.translate cpu address accessType = .ok (p, c) → P c.mmu

namespace Kept

variable {P : Mmu → Prop} {cpu c : Cpu} {address value v : Word} {length : Width}

theorem load (hP : Kept P) (h : P cpu.mmu) (hl : load cpu address length = .ok (v, c)) :
    P c.mmu := by
  obtain ⟨⟨p, t⟩, ht, hl⟩ := Except.bind_eq_ok_iff.mp hl
  have hc := hP.translate h ht
  simp only at hl
  split at hl
  next =>
    obtain ⟨_, rfl⟩ := Prod.mk.inj (Except.ok.inj hl)
    exact hc
  next => exact (Bus.load_coreEq hl).2.1 ▸ hc

theorem store (hP : Kept P) (h : P cpu.mmu) (hs : store cpu address value length = .ok c) :
    P c.mmu := by
  obtain ⟨⟨p, t⟩, ht, hs⟩ := Except.bind_eq_ok_iff.mp hs
  have hc := hP.translate h ht
  simp only at hs
  split at hs
  next =>
    cases Except.ok.inj hs
    exact hc
  next => exact (Bus.store_coreEq hs).2 ▸ hc

theorem fetch (hP : Kept P) (h : P cpu.mmu) (hf : fetch cpu address = .ok (v, c)) : P c.mmu := by
  obtain ⟨⟨p, t⟩, ht, hf⟩ := Except.bind_eq_ok_iff.mp hf
  have hc := hP.translate h ht
  simp only at hf
  split at hf
  next =>
    obtain ⟨_, rfl⟩ := Prod.mk.inj (Except.ok.inj hf)
    exact hc
  next =>
    obtain ⟨⟨w, b⟩, hl, hf⟩ := Except.bind_eq_ok_iff.mp hf
    have hb : P b.mmu := (Bus.load_coreEq hl).2.1 ▸ hc
    simp only at hf
    split at hf
    next =>
      obtain ⟨_, rfl⟩ := Prod.mk.inj (Except.ok.inj hf)
      exact hb
    next =>
      obtain ⟨_, rfl⟩ := Prod.mk.inj (Except.ok.inj hf)
      exact hb

theorem effect {after : Cpu} {access : Option Access} (hP : Kept P) (h : P cpu.mmu)
    (he : Effect cpu after access) : P after.mmu := by
  cases he with
  | quiet hq => exact hq.mmu ▸ h
  | refused flags eq =>
    rw [eq.mmu]
    exact flags.mmu ▸ h
  | @loaded _ _ value _ rd c load eq =>
    have hc := hP.load h load
    subst eq
    unfold Load.assignIfNoException
    split
    next => exact hc
    next => exact hc
  | @loadedUnchecked _ _ value _ dest c load _ eq =>
    have hc := hP.load h load
    rw [eq.mmu]
    cases dest with
    | reg r => exact hc
    | freg r _ => exact hc
  | stored store eq => exact eq.mmu ▸ hP.store h store

theorem atomicOp {after : Cpu} {d : Decoder} {kind : Option (LrSc × Width)} (hP : Kept P)
    (h : P cpu.mmu) (ha : Atomic.Op cpu d after kind) : P after.mmu := by
  cases ha with
  | amo ha =>
    obtain ⟨⟨v, c⟩, hl, ha⟩ := Except.bind_eq_ok_iff.mp ha
    obtain ⟨c', hst, ha⟩ := Except.bind_eq_ok_iff.mp ha
    cases Except.ok.inj ha
    have hc' := hP.store (hP.load h hl) hst
    exact hc'
  | lr ha =>
    obtain ⟨⟨v, c⟩, hl, ha⟩ := Except.bind_eq_ok_iff.mp ha
    cases Except.ok.inj ha
    have hc := hP.load h hl
    exact hc
  | sc ha =>
    unfold Atomic.scOp at ha
    simp only at ha
    split at ha
    next =>
      obtain ⟨c, hst, ha⟩ := Except.bind_eq_ok_iff.mp ha
      cases Except.ok.inj ha
      have hset : P (cpu.setReservations (cpu.reservations.erase (cpu.regs d.rs1))).mmu := h
      have hc := hP.store hset hst
      exact hc
    next =>
      cases Except.ok.inj ha
      exact h
  | illegal ha =>
    subst ha
    exact h

/-- The system opcode may have the MMU take over another root. -/
theorem execute {after : Cpu} {d : Decoder} {size : Word} (hP : Kept P) (h : P cpu.mmu)
    (hx : cpu.execute d = .ok (size, after))
    (hcsr : after = CsrInsn.funct3 cpu d → P after.mmu) : P after.mmu := by
  cases Cpu.execute_ran hx with
  | plain _ _ he => exact hP.effect h he
  | atomic _ _ ha =>
    obtain ⟨c, hc, hop⟩ := Atomic.funct3_cases ha
    exact hP.atomicOp (hc.mmu ▸ h) hop
  | csr _ _ hc => exact hcsr hc

end Kept

theorem update_settled (cpu : Cpu) : Settled (update cpu).mmu := by
  refine settled_flush ?_ rfl
  unfold update
  simp only [Cpu.setMmu_mmu, flushTlb]
  rw [BitVec.toNat_setWidth, BitVec.toNat_setWidth, BitVec.toNat_shiftLeft, Nat.shiftLeft_eq]
  omega

theorem settled_kept : Kept Settled := ⟨fun hs ht => (translate_writesBack hs ht).settled⟩

end Mmu

open Mmu (Settled settled_kept)

namespace Cpu

theorem execute_settled {cpu after : Cpu} {d : Decoder} {size : Word} (hs : Settled cpu.mmu)
    (h : execute cpu d = .ok (size, after)) : Settled after.mmu := by
  refine settled_kept.execute hs h fun hc => ?_
  subst hc
  rcases (CsrInsn.funct3_frame cpu d).mmu with hm | ⟨c, _, hm⟩
  · exact hm ▸ hs
  · exact hm ▸ Mmu.update_settled c

theorem _loop_settled {cpu after : Cpu} {size : Word} (hs : Settled cpu.mmu)
    (h : cpu._loop = .ok (size, after)) : Settled after.mmu := by
  have hfetch : ∀ {v : Word} {c : Cpu}, Mmu.fetch (cpu.setReg 0 0) cpu.pc = .ok (v, c) →
      Settled c.mmu := fun hf => @Mmu.Kept.fetch _ (cpu.setReg 0 0) _ _ _ settled_kept hs hf
  rcases loop_cases h with ⟨_, _, rfl⟩ | ⟨_, _, _, v, hf⟩ | ⟨c, d, hf, _, _, rfl⟩ | ⟨c, d, hf, _, hx⟩
  · exact hs
  · exact hfetch hf
  · obtain ⟨v, hf, _⟩ := hf.fetch
    have hc := hfetch hf
    exact hc
  · obtain ⟨v, hf, _⟩ := hf.fetch
    exact execute_settled (hfetch hf) hx

end Cpu

/-- The cache is settled whenever an instruction of a run is about to be fetched. -/
theorem Run.settled {start cpu : Cpu} {trace : List Executed} (hs : Settled start.mmu)
    (run : Run start trace cpu) : Settled cpu.mmu := by
  have hpoll : ∀ {before c : Cpu} {env : Cpu.Env} {i : Option Interrupt}, Settled before.mmu →
      before.poll env = .ok (i, c) → Settled (c.interrupted i).mmu := fun hb hp => by
    rw [(Cpu.interrupted_frame _ _).mmu, (Cpu.poll_polled hp).mmu]
    exact hb
  induction run with
  | start => exact hs
  | idle _ hp _ h ih =>
    rw [(Cpu.finish_frame _ _).mmu]
    exact Cpu._loop_settled (hpoll ih hp) h
  | insn _ hp hf hz h ih =>
    rw [(Cpu.finish_frame _ _).mmu]
    rw [← Cpu.loop_of_fetched hf hz] at h
    exact Cpu._loop_settled (hpoll ih hp) h

theorem Cpu.init_settled (ram : RamDevice) (gpu : Option GpuDevice)
    (virtio : Option VirtioBlkDevice) (syscon : Bool) (host : Host) :
    Settled (Cpu.init ram gpu virtio syscon host).mmu := Mmu.settled_flush rfl rfl

end Rv64gcEmu
