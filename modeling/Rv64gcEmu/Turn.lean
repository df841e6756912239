import Rv64gcEmu.ExecuteEffect

namespace Rv64gcEmu

namespace Csr

/-- The cell that a CSR number is kept in. -/
def cellOf (address : BitVec 12) : BitVec 12 :=
  if address = Address.sstatus then Address.mstatus
  else if address = Address.sie then Address.mie
  else if address = Address.sip then Address.mip
  else address

theorem store_of_ne {csr : Csr} {address x : BitVec 12} (h : x ≠ cellOf address) (value : Word) :
    (csr.store address value).regs x = csr.regs x := by
  unfold cellOf at h
  unfold store
  split
  next ha =>
    rw [if_pos ha] at h
    exact Function.update_of_ne h _ _
  next ha =>
    rw [if_neg ha] at h
    split
    next hb =>
      rw [if_pos hb] at h
      exact Function.update_of_ne h _ _
    next hb =>
      rw [if_neg hb] at h
      split
      next hc =>
        rw [if_pos hc] at h
        exact Function.update_of_ne h _ _
      next hc =>
        rw [if_neg hc] at h
        exact Function.update_of_ne h _ _

theorem writeBit_of_ne {csr : Csr} {address x : BitVec 12} (h : x ≠ cellOf address) (offset : Nat)
    (value : Word) : (csr.writeBit address offset value).regs x = csr.regs x := store_of_ne h _

end Csr

namespace Cpu

/-- The devices changed, the hart did not. -/
structure BusOnly (a b : Cpu) : Prop extends CoreEq a b where
  mmu : b.mmu = a.mmu

namespace BusOnly

theorem refl (a : Cpu) : BusOnly a a := ⟨.refl a, rfl⟩

theorem trans {a b c : Cpu} (h : BusOnly a b) (h' : BusOnly b c) : BusOnly a c :=
  ⟨h.toCoreEq.trans h'.toCoreEq, h'.mmu.trans h.mmu⟩

theorem setBus (a : Cpu) (bus : Bus) : BusOnly a (a.setBus bus) := ⟨.setBus a bus, rfl⟩

theorem load {a b : Cpu} {address v : Word} {length : Width}
    (h : Bus.load a address length = .ok (v, b)) : BusOnly a b :=
  ⟨(Bus.load_coreEq h).1, (Bus.load_coreEq h).2.1⟩

theorem store {a b : Cpu} {address v : Word} {length : Width}
    (h : Bus.store a address v length = .ok b) : BusOnly a b :=
  ⟨(Bus.store_coreEq h).1, (Bus.store_coreEq h).2⟩

end BusOnly

end Cpu

open Cpu (BusOnly CoreEq)

namespace VirtioBlkDevice

theorem busOnly_alongRequest : AlongRequest BusOnly where
  refl := .refl
  trans := .trans
  load := .load
  store := .store
  image _ _ := .setBus _ _
  index _ := .setBus _ _

theorem tick_busOnly {a b : Cpu} (h : tick a = .ok b) : BusOnly a b := by
  obtain ⟨v, _, h⟩ := Except.bind_eq_ok_iff.mp h
  have hclock : ∀ c, BusOnly a c →
      (do let v ← ofBus c; .ok (toBus c { v with clock := v.clock + 1 })) = Except.ok b →
      BusOnly a b := by
    intro c hc hb
    obtain ⟨v', _, hb⟩ := Except.bind_eq_ok_iff.mp hb
    cases Except.ok.inj hb
    exact hc.trans (.setBus c _)
  simp only at h
  split at h
  next =>
    obtain ⟨c, ha, h⟩ := Except.bind_eq_ok_iff.mp h
    obtain ⟨v', _, h⟩ := Except.bind_eq_ok_iff.mp h
    obtain ⟨c', hc, h⟩ := Except.bind_eq_ok_iff.mp h
    cases Except.ok.inj hc
    exact hclock _ ((BusOnly.setBus a _).trans ((busOnly_alongRequest.accessDisk ha).trans (.setBus c _))) h
  next => exact hclock a (.refl a) h

end VirtioBlkDevice

namespace Cpu

/-- The devices and the clock: apart from the bus, three CSRs change. -/
structure Polled (a b : Cpu) : Prop where
  regs : b.regs = a.regs
  fregs : b.fregs = a.fregs
  pc : b.pc = a.pc
  mode : b.mode = a.mode
  sleep : b.sleep = a.sleep
  reservations : b.reservations = a.reservations
  mmu : b.mmu = a.mmu
  fenv : b.fenv = a.fenv
  host : b.host = a.host
  csr : ∀ x, x ≠ Address.cycle → x ≠ Address.time → x ≠ Address.mip →
    b.cregs.regs x = a.cregs.regs x

namespace Polled

theorem refl (a : Cpu) : Polled a a := ⟨rfl, rfl, rfl, rfl, rfl, rfl, rfl, rfl, rfl, fun _ _ _ _ => rfl⟩

theorem trans {a b c : Cpu} (h : Polled a b) (h' : Polled b c) : Polled a c where
  regs := h'.regs.trans h.regs
  fregs := h'.fregs.trans h.fregs
  pc := h'.pc.trans h.pc
  mode := h'.mode.trans h.mode
  sleep := h'.sleep.trans h.sleep
  reservations := h'.reservations.trans h.reservations
  mmu := h'.mmu.trans h.mmu
  fenv := h'.fenv.trans h.fenv
  host := h'.host.trans h.host
  csr x hc ht hm := (h'.csr x hc ht hm).trans (h.csr x hc ht hm)

theorem of_busOnly {a b : Cpu} (h : BusOnly a b) : Polled a b :=
  ⟨h.regs, h.fregs, h.pc, h.mode, h.sleep, h.reservations, h.mmu, h.fenv, h.host,
    fun _ _ _ _ => by rw [h.cregs]⟩

theorem setBus (a : Cpu) (bus : Bus) : Polled a (a.setBus bus) := .of_busOnly (.setBus a bus)

theorem setCregs (a : Cpu) {csr : Csr} (h : ∀ x, x ≠ Address.cycle → x ≠ Address.time →
    x ≠ Address.mip → csr.regs x = a.cregs.regs x) : Polled a (a.setCregs csr) :=
  ⟨rfl, rfl, rfl, rfl, rfl, rfl, rfl, rfl, rfl, h⟩

theorem writeMip (a : Cpu) (bit : Nat) (v : Word) :
    Polled a (a.setCregs (a.cregs.writeBit Address.mip bit v)) :=
  .setCregs a fun _ _ _ hm => Csr.writeBit_of_ne hm bit v

end Polled

end Cpu

theorem ClintDevice.tick_regs (c : ClintDevice) (csr : Csr) (ms : Word) {x : BitVec 12}
    (ht : x ≠ Address.time) (hm : x ≠ Address.mip) : (c.tick csr ms).2.regs x = csr.regs x := by
  have htime : (csr.store Address.time (ms * 1000)).regs x = csr.regs x := Csr.store_of_ne ht _
  have hmip : x ≠ Csr.cellOf Address.mip := hm
  unfold tick
  simp only
  split <;> split <;> simp only [Csr.writeBit_of_ne hmip, htime]

namespace Cpu

theorem tickDevices_polled {a b : Cpu} {env : Env} (h : tickDevices a env = .ok b) : Polled a b := by
  unfold tickDevices at h
  split at h
  next =>
    cases Except.ok.inj h
    exact .refl a
  next =>
    split at h
    next => cases h
    next =>
      obtain ⟨g, _, h⟩ := Except.bind_eq_ok_iff.mp h
      have hc : ∀ bus, Polled a ((a.setBus bus).setCregs
          (a.bus.clint.tick a.cregs env.milliseconds).2) := fun bus =>
        (Polled.setBus a bus).trans (.setCregs _ fun x _ ht hm =>
          ClintDevice.tick_regs a.bus.clint a.cregs env.milliseconds ht hm)
      simp only at h
      split at h
      next => exact (hc _).trans (.of_busOnly (VirtioBlkDevice.tick_busOnly h))
      next =>
        cases Except.ok.inj h
        exact hc _

end Cpu

namespace Interrupt

open Cpu (Polled)

theorem deviceIrq_polled {a b : Cpu} {irqn : Option Word} (h : deviceIrq a = .ok (irqn, b)) :
    Polled a b := by
  unfold deviceIrq at h
  split at h
  next =>
    obtain ⟨_, rfl⟩ := Prod.mk.inj (Except.ok.inj h)
    exact .refl a
  next =>
    split at h
    next =>
      obtain ⟨_, rfl⟩ := Prod.mk.inj (Except.ok.inj h)
      exact .setBus a _
    next => cases h

theorem updatePending_polled {a b : Cpu} (h : updatePending a = .ok b) : Polled a b := by
  unfold updatePending at h
  split at h
  next =>
    cases Except.ok.inj h
    exact .refl a
  next =>
    obtain ⟨⟨irqn, c⟩, hd, h⟩ := Except.bind_eq_ok_iff.mp h
    have hp := deviceIrq_polled hd
    simp only at h
    split at h
    next =>
      obtain ⟨plic, _, h⟩ := Except.bind_eq_ok_iff.mp h
      cases Except.ok.inj h
      exact hp.trans ((Polled.setBus c _).trans (.writeMip _ _ _))
    next =>
      cases Except.ok.inj h
      exact hp

theorem getPendingInterrupt_polled {a b : Cpu} {i : Option Interrupt}
    (h : getPendingInterrupt a = .ok (i, b)) : Polled a b := by
  unfold getPendingInterrupt at h
  split at h
  next =>
    obtain ⟨_, rfl⟩ := Prod.mk.inj (Except.ok.inj h)
    exact .refl a
  next =>
    obtain ⟨c, hu, h⟩ := Except.bind_eq_ok_iff.mp h
    have hp := updatePending_polled hu
    simp only at h
    split at h
    next =>
      obtain ⟨_, rfl⟩ := Prod.mk.inj (Except.ok.inj h)
      exact hp.trans (.writeMip c _ _)
    next =>
      obtain ⟨_, rfl⟩ := Prod.mk.inj (Except.ok.inj h)
      exact hp

end Interrupt

namespace Cpu

/-- The first half of `loop`, up to the interrupt that is pending. -/
def poll (cpu : Cpu) (env : Env) : HostM (Option Interrupt × Cpu) := do
  let cpu := cpu.setCregs (cpu.cregs.store Address.cycle (cpu.cregs.load Address.cycle + 1))
  let cpu ← tickDevices cpu env
  Interrupt.getPendingInterrupt cpu

def interrupted (cpu : Cpu) : Option Interrupt → Cpu
  | some i => Interrupt.process cpu i
  | none => cpu

theorem poll_polled {cpu c : Cpu} {env : Env} {i : Option Interrupt}
    (h : poll cpu env = .ok (i, c)) : Polled cpu c := by
  obtain ⟨c', ht, h⟩ := Except.bind_eq_ok_iff.mp h
  have hcycle : Polled cpu
      (cpu.setCregs (cpu.cregs.store Address.cycle (cpu.cregs.load Address.cycle + 1))) :=
    .setCregs cpu fun _ hc _ _ => Csr.store_of_ne hc _
  exact hcycle.trans ((tickDevices_polled ht).trans (Interrupt.getPendingInterrupt_polled h))

/-- A turn of `loop`: poll, interrupt, one instruction, and what follows it. -/
theorem loop_phases {cpu after : Cpu} {env : Env} : loop cpu env = .ok after ↔
    ∃ i c size c', poll cpu env = .ok (i, c) ∧ (c.interrupted i)._loop = .ok (size, c') ∧
      finish c' size = after := by
  have heq : loop cpu env = poll cpu env >>= fun p =>
      _loop (p.2.interrupted p.1) >>= fun q => .ok (finish q.2 q.1) := by
    unfold loop poll
    simp only [bind_assoc]
    congr 1
  rw [heq]
  simp only [Except.bind_eq_ok_iff, Except.ok.injEq, Prod.exists]
  constructor
  · rintro ⟨i, c, hp, size, c', hl, hf⟩
    exact ⟨i, c, size, c', hp, hl, hf⟩
  · rintro ⟨i, c, size, c', hp, hl, hf⟩
    exact ⟨i, c, hp, size, c', hl, hf⟩

/-- What no trap changes. -/
structure TrapFrame (a b : Cpu) : Prop where
  regs : b.regs = a.regs
  fregs : b.fregs = a.fregs
  reservations : b.reservations = a.reservations
  mmu : b.mmu = a.mmu
  bus : b.bus = a.bus
  host : b.host = a.host

namespace TrapFrame

theorem refl (a : Cpu) : TrapFrame a a := ⟨rfl, rfl, rfl, rfl, rfl, rfl⟩

theorem trans {a b c : Cpu} (h : TrapFrame a b) (h' : TrapFrame b c) : TrapFrame a c where
  regs := h'.regs.trans h.regs
  fregs := h'.fregs.trans h.fregs
  reservations := h'.reservations.trans h.reservations
  mmu := h'.mmu.trans h.mmu
  bus := h'.bus.trans h.bus
  host := h'.host.trans h.host

theorem setSleep (a : Cpu) (sleep : Bool) : TrapFrame a (a.setSleep sleep) :=
  ⟨rfl, rfl, rfl, rfl, rfl, rfl⟩

theorem setMode (a : Cpu) (mode : Mode) : TrapFrame a (a.setMode mode) :=
  ⟨rfl, rfl, rfl, rfl, rfl, rfl⟩

theorem setPc (a : Cpu) (pc : Word) : TrapFrame a (a.setPc pc) := ⟨rfl, rfl, rfl, rfl, rfl, rfl⟩

theorem setCregs (a : Cpu) (cregs : Csr) : TrapFrame a (a.setCregs cregs) :=
  ⟨rfl, rfl, rfl, rfl, rfl, rfl⟩

theorem enter (cpu : Cpu) (deleg : Bool) (offset : Word → Word) (cause tval : Word) :
    TrapFrame cpu (Trap.enter cpu deleg offset cause tval) := by
  unfold Trap.enter
  split
  next =>
    unfold Trap.enterSupervisor
    exact (setMode cpu _).trans ((setPc _ _).trans ((setCregs _ _).trans ((setCregs _ _).trans
      ((setCregs _ _).trans ((setCregs _ _).trans ((setCregs _ _).trans (setCregs _ _)))))))
  next =>
    unfold Trap.enterMachine
    exact (setMode cpu _).trans ((setPc _ _).trans ((setCregs _ _).trans ((setCregs _ _).trans
      ((setCregs _ _).trans ((setCregs _ _).trans ((setCregs _ _).trans (setCregs _ _)))))))

end TrapFrame

theorem interrupted_frame (cpu : Cpu) (i : Option Interrupt) : TrapFrame cpu (cpu.interrupted i) := by
  cases i with
  | none => exact .refl cpu
  | some i => exact (TrapFrame.setSleep cpu _).trans (.enter _ _ _ _ _)

theorem process_frame (cpu : Cpu) (e : Exception) : TrapFrame cpu (Exception.process cpu e) :=
  (TrapFrame.setSleep cpu _).trans (.enter _ _ _ _ _)

/-- A pending exception ends the turn with its trap. -/
theorem finish_of_exception {cpu : Cpu} {e : Exception} (he : cpu.excVal = some e) (size : Word) :
    cpu.finish size = Exception.process cpu e ∨
      cpu.finish size = (Exception.process cpu e).clearException := by
  unfold finish
  rw [he]
  simp only
  split
  next => exact .inl rfl
  next => exact .inr rfl

theorem finish_of_none {cpu : Cpu} (he : cpu.excVal = none) (size : Word) :
    cpu.finish size = cpu.setPc (cpu.pc + size) := by
  unfold finish
  rw [he]

theorem finish_frame (cpu : Cpu) (size : Word) : TrapFrame cpu (finish cpu size) := by
  cases he : cpu.excVal with
  | some e =>
    have h := process_frame cpu e
    rcases finish_of_exception he size with hf | hf
    · rw [hf]
      exact h
    · rw [hf]
      exact ⟨h.regs, h.fregs, h.reservations, h.mmu, h.bus, h.host⟩
  | none =>
    rw [finish_of_none he]
    exact ⟨rfl, rfl, rfl, rfl, rfl, rfl⟩

end Cpu

end Rv64gcEmu
