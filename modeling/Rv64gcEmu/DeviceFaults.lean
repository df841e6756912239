import Rv64gcEmu.DiskAccesses
import Rv64gcEmu.Turns

namespace Rv64gcEmu

open Transition (Step)

namespace VirtioBlkDevice

/-- If the disk is due, there is a device at every address that it takes from its queue
registers, the ring, the descriptors and the buffers. -/
def RequestMapped (cpu : Cpu) : Prop :=
  ∀ v r c, cpu.bus.virtio = some v → v.Due →
    readRequest v.raiseIsr (toBus cpu v.raiseIsr) = .ok (r, c) →
    ∀ x ∈ r.accesses v cpu.bus, x.Mapped cpu.bus

theorem tick_excVal {a b : Cpu} {v : VirtioBlkDevice} (hv : a.bus.virtio = some v)
    (h : tick a = .ok b) : b.excVal = none ↔ a.excVal = none ∧ RequestMapped a := by
  by_cases hd : v.Due
  · rw [tick_of_due hv hd] at h
    obtain ⟨c, ha, h⟩ := Except.bind_eq_ok_iff.mp h
    obtain ⟨w, _, h⟩ := Except.bind_eq_ok_iff.mp h
    have hb : b.excVal = c.excVal := (congrArg Cpu.excVal (Except.ok.inj h)).symm
    obtain ⟨u, r, e, hu, hr, haccess⟩ := accessDisk_accessed ha
    cases Option.some.inj hu
    have hlayout : Bus.SameLayout a.bus (toBus a v.raiseIsr).bus := toBus_layout hv
    have hlist : r.accesses v.raiseIsr (toBus a v.raiseIsr).bus = r.accesses v a.bus :=
      accesses_layout hlayout r v
    have hexc : b.excVal = none ↔ a.excVal = none ∧ ∀ x ∈ r.accesses v a.bus, x.Mapped a.bus := by
      rw [hb, ← hlist]
      refine haccess.excVal.trans (and_congr_right fun _ => ?_)
      exact forall₂_congr fun x _ => BusAccess.mapped_layout hlayout x
    rw [hexc]
    refine and_congr_right fun _ => ⟨?_, fun hm => hm v r e hv hd hr⟩
    intro hm w r' e' hw _ hr'
    cases Option.some.inj (hv.symm.trans hw)
    cases Except.ok.inj (hr.symm.trans hr')
    exact hm
  · rw [tick_of_not_due hv hd] at h
    have hb : b.excVal = a.excVal := (congrArg Cpu.excVal (Except.ok.inj h)).symm
    rw [hb]
    refine ⟨fun he => ⟨he, ?_⟩, And.left⟩
    intro w r c hw hdue
    cases Option.some.inj (hv.symm.trans hw)
    exact absurd hdue hd

end VirtioBlkDevice

open VirtioBlkDevice (RequestMapped)

namespace Interrupt

variable {cpu after : Cpu}

theorem deviceIrq_excVal {irqn : Option Word} (h : deviceIrq cpu = .ok (irqn, after)) :
    after.excVal = cpu.excVal := by
  unfold deviceIrq at h
  split at h
  next =>
    obtain ⟨_, rfl⟩ := Prod.mk.inj (Except.ok.inj h)
    rfl
  next =>
    split at h
    next =>
      obtain ⟨_, rfl⟩ := Prod.mk.inj (Except.ok.inj h)
      rfl
    next => cases h

theorem updatePending_excVal (h : updatePending cpu = .ok after) : after.excVal = cpu.excVal := by
  unfold updatePending at h
  split at h
  next =>
    cases Except.ok.inj h
    rfl
  next =>
    obtain ⟨⟨irqn, c⟩, hd, h⟩ := Except.bind_eq_ok_iff.mp h
    have he := deviceIrq_excVal hd
    cases irqn with
    | some v =>
      obtain ⟨plic, _, h⟩ := Except.bind_eq_ok_iff.mp h
      cases Except.ok.inj h
      exact he
    | none =>
      cases Except.ok.inj h
      exact he

/-- Nothing that looks for an interrupt touches the exception. -/
theorem getPendingInterrupt_excVal {pending : Option Interrupt}
    (h : getPendingInterrupt cpu = .ok (pending, after)) : after.excVal = cpu.excVal := by
  unfold getPendingInterrupt at h
  split at h
  next =>
    obtain ⟨_, rfl⟩ := Prod.mk.inj (Except.ok.inj h)
    rfl
  next =>
    obtain ⟨c, hu, h⟩ := Except.bind_eq_ok_iff.mp h
    have he := updatePending_excVal hu
    simp only at h
    split at h
    next =>
      obtain ⟨_, rfl⟩ := Prod.mk.inj (Except.ok.inj h)
      exact he
    next =>
      obtain ⟨_, rfl⟩ := Prod.mk.inj (Except.ok.inj h)
      exact he

end Interrupt

namespace Cpu

theorem enter_excVal (cpu : Cpu) (deleg : Bool) (offset : Word → Word) (cause tval : Word) :
    (Trap.enter cpu deleg offset cause tval).excVal = cpu.excVal := by
  unfold Trap.enter
  split
  next =>
    unfold Trap.enterSupervisor
    simp only [setCregs_excVal, setPc_excVal, setMode_excVal]
  next =>
    unfold Trap.enterMachine
    simp only [setCregs_excVal, setPc_excVal, setMode_excVal]

theorem interrupted_excVal (cpu : Cpu) (i : Option Interrupt) :
    (cpu.interrupted i).excVal = cpu.excVal := by
  cases i with
  | none => rfl
  | some i => exact enter_excVal (cpu.setSleep false) _ _ _ _

/-- `Bus::tick_devices` up to the disk. -/
def tickBeforeDisk (cpu : Cpu) (env : Env) : HostM Cpu :=
  match cpu.bus.gpu with
  | none => .error .undefined
  | some g => do
    let g ← g.tick env.input
    let (clint, cregs) := cpu.bus.clint.tick cpu.cregs env.milliseconds
    .ok ((cpu.setBus { cpu.bus with gpu := some g, clint := clint }).setCregs cregs)

/-- The state of a turn in which the disk moves on. -/
def atDisk (cpu : Cpu) (env : Env) : HostM Cpu :=
  tickBeforeDisk (cpu.setCregs (cpu.cregs.store Address.cycle (cpu.cregs.load Address.cycle + 1))) env

variable {cpu before after : Cpu} {env : Env} {p : Phases}

theorem tickDevices_eq (ht : cpu.host.cpuTest = false) : tickDevices cpu env =
    cpu.tickBeforeDisk env >>= fun c =>
      if c.bus.virtio.isSome then VirtioBlkDevice.tick c else .ok c := by
  unfold tickDevices tickBeforeDisk
  simp only [ht, Bool.false_eq_true, if_false]
  cases cpu.bus.gpu with
  | none => rfl
  | some g => simp only [bind_assoc, Except.ok_bind]

theorem ticked_eq (ht : cpu.host.cpuTest = false) : cpu.ticked env = cpu.atDisk env >>= fun c =>
    if c.bus.virtio.isSome then VirtioBlkDevice.tick c else .ok c := by
  exact tickDevices_eq ht

theorem atDisk_excVal (h : cpu.atDisk env = .ok after) : after.excVal = cpu.excVal := by
  unfold atDisk tickBeforeDisk at h
  split at h
  next => cases h
  next =>
    obtain ⟨g, _, h⟩ := Except.bind_eq_ok_iff.mp h
    cases Except.ok.inj h
    rfl

theorem ticked_excVal (ht : cpu.host.cpuTest = false) (h : cpu.ticked env = .ok after) :
    after.excVal = none ↔
      cpu.excVal = none ∧ ∀ c, cpu.atDisk env = .ok c → RequestMapped c := by
  rw [ticked_eq ht] at h
  obtain ⟨c, hc, h⟩ := Except.bind_eq_ok_iff.mp h
  have honly : (∀ c', cpu.atDisk env = .ok c' → RequestMapped c') ↔ RequestMapped c := by
    rw [hc]
    simp
  rw [honly, ← atDisk_excVal hc]
  split at h
  next hv =>
    obtain ⟨v, hv⟩ := Option.isSome_iff_exists.mp hv
    exact VirtioBlkDevice.tick_excVal hv h
  next hv =>
    cases Except.ok.inj h
    refine (and_iff_left ?_).symm
    intro v r e hvirtio
    rw [hvirtio] at hv
    exact absurd rfl hv

/-- The condition on one turn. -/
def DiskMapped (t : Step Cpu Phases) : Prop :=
  ∀ c, t.before.atDisk t.label.env = .ok c → RequestMapped c

theorem Turn.fetching_excVal (h : Turn before p after) (ht : before.host.cpuTest = false)
    (he : before.excVal = none) :
    p.fetching.excVal = none ↔ DiskMapped ⟨before, p, after⟩ := by
  have hp := h.poll
  rw [poll_eq] at hp
  obtain ⟨c, hc, hp⟩ := Except.bind_eq_ok_iff.mp hp
  unfold Phases.fetching
  rw [interrupted_excVal, Interrupt.getPendingInterrupt_excVal hp, ticked_excVal ht hc]
  exact and_iff_right he

theorem finish_excVal {c : Cpu} (ht : c.host.cpuTest = false) (size : Word) :
    (c.finish size).excVal = none := by
  have hp := fun e => (process_frame c e).host
  unfold finish
  split
  next e he =>
    simp only [hp e, ht, Bool.false_eq_true, if_false]
    rfl
  next he => exact he

theorem masked_of_machine {c : Cpu} (hmode : c.mode = .machine) (hs : c.sleep = false)
    (hm : c.cregs.regs Address.mstatus = 0) : Interrupt.masked c = true := by
  have hmie : c.cregs.readBitMstatus .mie = 0 := by
    unfold Csr.readBitMstatus Csr.readBit Csr.load
    rw [if_neg (by decide), if_neg (by decide), if_neg (by decide), if_pos rfl, hm]
    decide
  unfold Interrupt.masked
  rw [hmode, hs, hmie]
  rfl

/-- A pending exception keeps `_loop` from the decoder. -/
theorem loop_of_excVal {c : Cpu} (hs : c.sleep = false) (hb : c.mmu.mode = Mmu.bare)
    (he : c.excVal.isSome) : c._loop = .ok (4, c.setReg 0 0) := by
  have htranslate : Mmu.translate (c.setReg 0 0) c.pc .instruction = .ok (c.pc, c.setReg 0 0) :=
    if_pos hb
  have hfetch : Mmu.fetch (c.setReg 0 0) c.pc = .ok (0, c.setReg 0 0) := by
    unfold Mmu.fetch
    rw [htranslate, Except.ok_bind]
    exact if_pos he
  have hs' : (c.setReg 0 0).sleep = false := hs
  have he' : (c.setReg 0 0).excVal.isSome := he
  unfold _loop
  simp only [hs', Bool.false_eq_true, if_false, setReg_pc, hfetch, Except.ok_bind, if_pos he']

/-- No instruction is charged with a fault of the disk exactly when, whenever the disk is
due, the bus has a device at every address that the request takes it to. -/
theorem turns_fetching_excVal_iff {start : Cpu} {turns : List (Step Cpu Phases)}
    (ht : start.host.cpuTest = false) (he : start.excVal = none) (run : Turns start turns cpu) :
    (∀ t ∈ turns, t.label.fetching.excVal = none) ↔ ∀ t ∈ turns, DiskMapped t := by
  refine run.forall_iff (I := fun c => c.host.cpuTest = false ∧ c.excVal = none) ?_ ?_ ⟨ht, he⟩
  · rintro before p after h ⟨ht, he⟩
    exact h.fetching_excVal ht he
  · rintro before p after h ⟨ht, _⟩ _
    refine ⟨(congrArg Host.cpuTest h.host).trans ht, ?_⟩
    rw [← h.finish]
    exact finish_excVal ((congrArg Host.cpuTest h.executed_host).trans ht) p.size

/-- The command line build, with a program that notifies the disk of a queue that it has
not placed in memory, and then waits. -/
def unplacedQueue : Cpu :=
  init (RamDevice.ofImage 0x80000000 0x1000 [0xb7, 0x12, 0x00, 0x10, 0x23, 0xac, 0x52, 0x02,
      0x23, 0xa8, 0x02, 0x04, 0x01, 0xa0] (by decide))
    (some (.nativeCli ⟨Uart.init, 0⟩)) (some (VirtioBlkDevice.init (ByteVec.zeros 0))) false
    ⟨true, false, default⟩

def notifiedDisk (clock : Word) : VirtioBlkDevice :=
  { VirtioBlkDevice.init (ByteVec.zeros 0) with
    clock := clock
    notifyClock := 3
    vq := { (VirtioBlkDevice.init (ByteVec.zeros 0)).vq with num := 0x10001000 }
    queueNotify := 0 }

/-- The hart in its loop, and the disk with its delay. -/
def waiting (regs : BitVec 5 → Word) (cregs : Csr) (clint : ClintDevice) (clock : Word) : Cpu :=
  { unplacedQueue with
    regs := regs
    cregs := cregs
    pc := 0x8000000c
    bus := { unplacedQueue.bus with clint := clint, virtio := some (notifiedDisk clock) } }

theorem unplacedQueue_waiting : ∃ turns regs cregs clint,
    Turns unplacedQueue turns (waiting regs cregs clint 3) ∧ cregs.regs Address.mstatus = 0 := by
  have lui := @Turns.insn unplacedQueue unplacedQueue [] ⟨0, .idle⟩ _ _ _ _ ⟨0x100012b7⟩ _ .start rfl
    ⟨rfl, ⟨_, rfl, rfl⟩, rfl⟩ (by decide) rfl
  have num := @Turns.insn _ unplacedQueue _ ⟨0, .idle⟩ _ _ _ _ ⟨0x0252ac23⟩ _ lui rfl
    ⟨rfl, ⟨_, rfl, rfl⟩, rfl⟩ (by decide) rfl
  have notify := @Turns.insn _ unplacedQueue _ ⟨0, .idle⟩ _ _ _ _ ⟨0x0402a823⟩ _ num rfl
    ⟨rfl, ⟨_, rfl, rfl⟩, rfl⟩ (by decide) rfl
  exact ⟨_, _, _, _, notify, rfl⟩

variable {regs : BitVec 5 → Word} {cregs : Csr} {clint : ClintDevice} {clock : Word}

/-- The devices of a turn in the loop, up to the disk. -/
theorem waiting_atDisk (hm : cregs.regs Address.mstatus = 0) : ∃ cregs' clint',
    cregs'.regs Address.mstatus = 0 ∧
      (waiting regs cregs clint clock).atDisk ⟨0, .idle⟩ = .ok (waiting regs cregs' clint' clock) := by
  let counted := cregs.store Address.cycle (cregs.load Address.cycle + 1)
  refine ⟨(clint.tick counted 0).2, (clint.tick counted 0).1, ?_, rfl⟩
  rw [ClintDevice.tick_regs _ _ _ (by decide) (by decide), Csr.store_of_ne (by decide)]
  exact hm

theorem waiting_fetch : Mmu.fetch (waiting regs cregs clint clock) 0x8000000c =
    .ok (0xa001, waiting regs cregs clint clock) := by
  have hin : unplacedQueue.bus.ram.Contains 0x8000000c 4 := by decide
  have hword : LittleEndian.read unplacedQueue.bus.ram.data.get
      (0x8000000c - unplacedQueue.bus.ram.baseAddr).toNat Width.w32.bytes = (0xa001 : Word) := by
    decide
  have hload : Bus.load (waiting regs cregs clint clock) 0x8000000c .w32 =
      .ok (0xa001, waiting regs cregs clint clock) :=
    (Bus.load_ram hin).trans (congrArg (fun x => Except.ok (x, waiting regs cregs clint clock)) hword)
  have htranslate : Mmu.translate (waiting regs cregs clint clock) 0x8000000c .instruction =
      .ok (0x8000000c, waiting regs cregs clint clock) := if_pos rfl
  unfold Mmu.fetch
  rw [htranslate, Except.ok_bind]
  simp only
  rw [if_neg (by exact Bool.false_ne_true), hload, Except.ok_bind]
  exact if_neg (by exact nofun)

theorem waiting_execute : (waiting regs cregs clint clock).execute ⟨0xa001⟩ =
    .ok (2, (waiting regs cregs clint clock).setPc (0x8000000c + (Ctype.immJ ⟨0xa001⟩ - 2))) := by
  rfl

theorem waiting_turn (hm : cregs.regs Address.mstatus = 0) (hd : ¬(notifiedDisk clock).Due) :
    ∃ p cregs' clint', cregs'.regs Address.mstatus = 0 ∧ Turn (waiting regs cregs clint clock) p
      (waiting (Function.update regs 0 0) cregs' clint' (clock + 1)) := by
  obtain ⟨cregs', clint', hm', hdisk⟩ := @waiting_atDisk regs cregs clint clock hm
  have htick : (waiting regs cregs clint clock).ticked ⟨0, .idle⟩ =
      .ok (waiting regs cregs' clint' (clock + 1)) := by
    rw [ticked_eq rfl, hdisk, Except.ok_bind]
    exact VirtioBlkDevice.tick_of_not_due rfl hd
  have hpoll : (waiting regs cregs clint clock).poll ⟨0, .idle⟩ =
      .ok (none, waiting regs cregs' clint' (clock + 1)) := by
    rw [poll_eq, htick, Except.ok_bind]
    exact if_pos (masked_of_machine rfl rfl hm')
  have hf : ((waiting regs cregs' clint' (clock + 1)).interrupted none).Fetched
      (waiting (Function.update regs 0 0) cregs' clint' (clock + 1)) ⟨0xa001⟩ :=
    ⟨rfl, ⟨0xa001, waiting_fetch, rfl⟩, rfl⟩
  refine ⟨⟨⟨0, .idle⟩, none, _, _, _⟩, cregs', clint', hm', hpoll,
    (loop_of_fetched hf (by decide)).trans waiting_execute, ?_⟩
  have hpc : (0x8000000c + (Ctype.immJ ⟨0xa001⟩ - 2) + 2 : Word) = 0x8000000c := by decide
  exact congrArg (fun pc => (waiting (Function.update regs 0 0) cregs' clint' (clock + 1)).setPc pc) hpc

/-- The turn in which the disk takes up the request. -/
theorem waiting_faults (hm : cregs.regs Address.mstatus = 0) :
    ∃ p after, Turn (waiting regs cregs clint 503) p after ∧
      p.fetching.excVal = some .storeAccessFault := by
  obtain ⟨cregs', clint', hm', hdisk⟩ := @waiting_atDisk regs cregs clint 503 hm
  obtain ⟨c, htick, hcregs, hmode, hsleep, hexc, hbare⟩ : ∃ c,
      VirtioBlkDevice.tick (waiting regs cregs' clint' 503) = .ok c ∧ c.cregs = cregs' ∧
        c.mode = .machine ∧ c.sleep = false ∧ c.excVal = some .storeAccessFault ∧
        c.mmu.mode = Mmu.bare := by
    rw [VirtioBlkDevice.tick_of_due rfl (by decide)]
    exact ⟨_, rfl, rfl, rfl, rfl, rfl, rfl⟩
  have hpoll : (waiting regs cregs clint 503).poll ⟨0, .idle⟩ = .ok (none, c) := by
    have hticked : (waiting regs cregs clint 503).ticked ⟨0, .idle⟩ = .ok c := by
      rw [ticked_eq rfl, hdisk, Except.ok_bind]
      exact htick
    rw [poll_eq, hticked, Except.ok_bind]
    exact if_pos (masked_of_machine hmode hsleep (hcregs ▸ hm'))
  have hloop : c._loop = .ok (4, c.setReg 0 0) := by
    refine loop_of_excVal hsleep hbare ?_
    rw [hexc]
    rfl
  exact ⟨⟨⟨0, .idle⟩, none, c, 4, c.setReg 0 0⟩, _, ⟨hpoll, hloop, rfl⟩, hexc⟩

/-- The whole delay. -/
theorem unplacedQueue_delayed (n : Nat) (hn : n ≤ 500) : ∃ turns regs cregs clint,
    Turns unplacedQueue turns (waiting regs cregs clint (BitVec.ofNat 64 (3 + n))) ∧
      cregs.regs Address.mstatus = 0 := by
  induction n with
  | zero => exact unplacedQueue_waiting
  | succ n ih =>
    obtain ⟨turns, regs, cregs, clint, run, hm⟩ := ih (by omega)
    have hd : ¬(notifiedDisk (BitVec.ofNat 64 (3 + n))).Due :=
      VirtioBlkDevice.not_due_of_lt hn (BitVec.ofNat_add 3 n)
    obtain ⟨p, cregs', clint', hm', hturn⟩ := @waiting_turn regs cregs clint _ hm hd
    have hnext : BitVec.ofNat 64 (3 + n) + 1 = BitVec.ofNat 64 (3 + (n + 1)) :=
      (BitVec.ofNat_add (3 + n) 1).symm
    rw [hnext] at hturn
    exact ⟨_, _, _, _, .step run hturn, hm'⟩

theorem unplacedQueue_faults : ∃ turns cpu, Turns unplacedQueue turns cpu ∧
    ∃ t ∈ turns, t.label.fetching.excVal ≠ none := by
  obtain ⟨turns, regs, cregs, clint, run, hm⟩ := unplacedQueue_delayed 500 (le_refl 500)
  obtain ⟨p, after, hturn, he⟩ := @waiting_faults regs cregs clint hm
  refine ⟨_, after, .step run hturn, ⟨_, _, _⟩, List.mem_cons_self, ?_⟩
  change p.fetching.excVal ≠ none
  rw [he]
  exact Option.some_ne_none _

theorem turns_fetching_excVal_iff_unplacedQueue : ∃ turns cpu, Turns unplacedQueue turns cpu ∧
    ((∀ t ∈ turns, t.label.fetching.excVal = none) ↔ ∀ t ∈ turns, DiskMapped t) := by
  obtain ⟨turns, cpu, run, _⟩ := unplacedQueue_faults
  exact ⟨turns, cpu, run, turns_fetching_excVal_iff rfl rfl run⟩

theorem device_faults_charged : ¬ ∀ (start cpu : Cpu) (turns : List (Step Cpu Phases)),
    start.host.cpuTest = false → start.excVal = none → Turns start turns cpu →
    ∀ t ∈ turns, t.label.fetching.excVal = none := by
  intro h
  obtain ⟨turns, cpu, run, t, ht, hne⟩ := unplacedQueue_faults
  exact hne (h unplacedQueue cpu turns rfl rfl run t ht)

end Cpu

end Rv64gcEmu
