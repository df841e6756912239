import Rv64gcEmu.InterruptChoice
import Rv64gcEmu.IsaCompressed

open Transition

namespace Rv64gcEmu

open Rv64 (Hart Sized)

namespace Cpu

/-- The host lets a turn happen: the window is not closed, and there is a UART to poll. -/
def Accepts (cpu : Cpu) (env : Env) : Prop :=
  cpu.host.cpuTest = true ∨ cpu.bus.gpu.isSome ∧ env.input ≠ .quit

/-- The devices and the counters moved on, and the disk had nothing to do. -/
structure Ticked (a b : Cpu) : Prop extends Polled a b where
  excVal : b.excVal = a.excVal
  ram : b.bus.ram = a.bus.ram
  gpu : b.bus.gpu.isSome = a.bus.gpu.isSome
  timer : b.bus.clint.mtimecmp = a.bus.clint.mtimecmp
  disk : ∀ v, b.bus.virtio = some v → ∃ v', a.bus.virtio = some v' ∧ v.queueNotify = v'.queueNotify

variable {cpu c : Cpu} {env : Env}

theorem Ticked.refl (a : Cpu) : Ticked a a :=
  ⟨.refl a, rfl, rfl, rfl, rfl, fun v hv => ⟨v, hv, rfl⟩⟩

theorem Ticked.trans {a b c : Cpu} (h : Ticked a b) (h' : Ticked b c) : Ticked a c where
  toPolled := h.toPolled.trans h'.toPolled
  excVal := h'.excVal.trans h.excVal
  ram := h'.ram.trans h.ram
  gpu := h'.gpu.trans h.gpu
  timer := h'.timer.trans h.timer
  disk v hv := by
    obtain ⟨v', hv', heq⟩ := h'.disk v hv
    obtain ⟨v'', hv'', heq'⟩ := h.disk v' hv'
    exact ⟨v'', hv'', heq.trans heq'⟩

theorem Ticked.memory {a b : Cpu} (h : Ticked a b) : SameMemory a b :=
  ⟨h.ram, h.mmu, h.mode, h.csr _ (by decide) (by decide) (by decide), h.host⟩

theorem Ticked.hart {view : MemoryView} {a b : Cpu} (h : Ticked a b) : view.hart b = view.hart a :=
  MemoryView.hart_congr h.pc (fun r _ => congrFun h.regs r) (view.keep h.memory).1

theorem Ticked.undisturbed {a b : Cpu} (h : Ticked a b) (ha : a.Undisturbed) : b.Undisturbed where
  awake := h.sleep.trans ha.awake
  quiet := h.excVal.trans ha.quiet
  uninterrupted := by
    have hview : b.cregs.load Address.sstatus = a.cregs.load Address.sstatus := by
      change b.cregs.regs Address.mstatus &&& _ = a.cregs.regs Address.mstatus &&& _
      rw [h.memory.status]
    have hmasked : Interrupt.masked b = Interrupt.masked a := by
      unfold Interrupt.masked Csr.readBitMstatus Csr.readBitSstatus Csr.readBit
      rw [h.mode, h.sleep, h.memory.status_load, hview]
    have hmie : b.cregs.load Address.mie = a.cregs.load Address.mie :=
      h.csr _ (by decide) (by decide) (by decide)
    rw [hmasked, hmie]
    exact ha.uninterrupted
  disk v hv := by
    obtain ⟨v', hv', heq⟩ := h.disk v hv
    exact heq.trans (ha.disk v' hv')

/-- A disk that was not notified only counts. -/
theorem tick_idle {v : VirtioBlkDevice} (hv : cpu.bus.virtio = some v)
    (hn : v.queueNotify = VirtioCfg.queueNotifyReset) :
    VirtioBlkDevice.tick cpu = .ok (VirtioBlkDevice.toBus cpu { v with clock := v.clock + 1 }) := by
  have hof : VirtioBlkDevice.ofBus cpu = .ok v := by
    unfold VirtioBlkDevice.ofBus
    rw [hv]
  unfold VirtioBlkDevice.tick
  simp only [hof, Except.ok_bind, hn, ne_eq, not_true_eq_false, false_and, if_false]

theorem gpu_ticks (g : GpuDevice) {input : HostInput} (h : input ≠ .quit) :
    ∃ g', g.tick input = .ok g' := by
  cases g with
  | sdl g =>
    cases input with
    | quit => exact absurd rfl h
    | idle | key | keyUp | stdin => exact ⟨_, rfl⟩
  | nativeCli g =>
    have hite : ∀ (p : Prop) [Decidable p] (x y : GpuDevice),
        ∃ g', (if p then .ok x else .ok y : HostM GpuDevice) = .ok g' := by
      intro p _ x y
      split
      · exact ⟨x, rfl⟩
      · exact ⟨y, rfl⟩
    exact hite _ _ _

theorem tickDevices_ticked
    (hd : ∀ v, cpu.bus.virtio = some v → v.queueNotify = VirtioCfg.queueNotifyReset)
    (h : cpu.tickDevices env = .ok c) : Ticked cpu c := by
  have hp := tickDevices_polled h
  unfold tickDevices at h
  split at h
  next =>
    cases Except.ok.inj h
    exact .refl cpu
  next =>
    split at h
    next => cases h
    next g hg =>
      obtain ⟨g', -, h⟩ := Except.bind_eq_ok_iff.mp h
      have hgpu : (some g').isSome = cpu.bus.gpu.isSome := by rw [hg]; rfl
      simp only at h
      split at h
      next hv =>
        obtain ⟨v, hv⟩ := Option.isSome_iff_exists.mp hv
        rw [tick_idle hv (hd v hv)] at h
        cases Except.ok.inj h
        refine ⟨hp, rfl, rfl, hgpu, rfl, fun w hw => ⟨v, hv, ?_⟩⟩
        cases Option.some.inj hw
        rfl
      next =>
        cases Except.ok.inj h
        exact ⟨hp, rfl, rfl, hgpu, rfl, fun w hw => ⟨w, hw, rfl⟩⟩

/-- The devices move on when the host lets them and the disk has nothing to do. -/
theorem tickDevices_ok
    (hd : ∀ v, cpu.bus.virtio = some v → v.queueNotify = VirtioCfg.queueNotifyReset)
    (ha : cpu.Accepts env) : ∃ c, cpu.tickDevices env = .ok c := by
  unfold tickDevices
  by_cases htest : cpu.host.cpuTest = true
  · exact ⟨cpu, if_pos htest⟩
  · obtain ⟨hg, hquit⟩ := ha.resolve_left htest
    obtain ⟨g, hg⟩ := Option.isSome_iff_exists.mp hg
    obtain ⟨g', htick⟩ := gpu_ticks g hquit
    simp only [if_neg htest, hg, htick, Except.ok_bind]
    split
    next hv =>
      obtain ⟨v, hv⟩ := Option.isSome_iff_exists.mp hv
      exact ⟨_, tick_idle hv (hd v hv)⟩
    next => exact ⟨_, rfl⟩

theorem tickDevices_idle (hu : cpu.Undisturbed) (ha : cpu.Accepts env) :
    ∃ c, cpu.tickDevices env = .ok c ∧ Ticked cpu c := by
  obtain ⟨c, hc⟩ := tickDevices_ok hu.disk ha
  exact ⟨c, hc, tickDevices_ticked hu.disk hc⟩

theorem Ticked.setBus (cpu : Cpu) {bus : Bus} (hram : bus.ram = cpu.bus.ram)
    (hgpu : bus.gpu.isSome = cpu.bus.gpu.isSome) (hclint : bus.clint = cpu.bus.clint)
    (hv : bus.virtio = cpu.bus.virtio) : Ticked cpu (cpu.setBus bus) where
  toPolled := .setBus cpu bus
  excVal := rfl
  ram := hram
  gpu := hgpu
  timer := congrArg ClintDevice.mtimecmp hclint
  disk v h := ⟨v, hv.symm.trans h, rfl⟩

theorem deviceIrq_ticked {irqn : Option Word} (h : Interrupt.deviceIrq cpu = .ok (irqn, c)) :
    Ticked cpu c := by
  unfold Interrupt.deviceIrq at h
  split at h
  next =>
    obtain ⟨_, rfl⟩ := Prod.mk.inj (Except.ok.inj h)
    exact .refl cpu
  next =>
    split at h
    next g hg =>
      obtain ⟨_, rfl⟩ := Prod.mk.inj (Except.ok.inj h)
      exact .setBus cpu rfl (congrArg Option.isSome hg).symm rfl rfl
    next => cases h

/-- Raising the line of a device changes the devices and `mip`. -/
theorem updatePending_ticked (h : Interrupt.updatePending cpu = .ok c) : Ticked cpu c := by
  unfold Interrupt.updatePending at h
  split at h
  next =>
    cases Except.ok.inj h
    exact .refl cpu
  next =>
    obtain ⟨⟨irqn, c'⟩, hd, h⟩ := Except.bind_eq_ok_iff.mp h
    have ht := deviceIrq_ticked hd
    cases irqn with
    | some v =>
      obtain ⟨plic, _, h⟩ := Except.bind_eq_ok_iff.mp h
      cases Except.ok.inj h
      have hplic := @Ticked.setBus c' { c'.bus with plic := plic } rfl rfl rfl rfl
      refine ht.trans (hplic.trans ?_)
      exact ⟨.writeMip _ _ _, rfl, rfl, rfl, rfl, fun v hv => ⟨v, hv, rfl⟩⟩
    | none =>
      cases Except.ok.inj h
      exact ht

/-- The interrupt that is chosen is cleared in `mip`. -/
theorem getPendingInterrupt_ticked {i : Option Interrupt}
    (h : Interrupt.getPendingInterrupt cpu = .ok (i, c)) : Ticked cpu c := by
  have hp := Interrupt.getPendingInterrupt_polled h
  cases hm : Interrupt.masked cpu with
  | true =>
    obtain ⟨_, rfl⟩ :=
      Prod.mk.inj (Except.ok.inj ((Interrupt.getPendingInterrupt_of_masked hm).symm.trans h))
    exact .refl cpu
  | false =>
    rw [Interrupt.getPendingInterrupt_eq hm] at h
    obtain ⟨b, hb, h⟩ := Except.bind_eq_ok_iff.mp h
    have ht := updatePending_ticked hb
    have hselect : (Interrupt.select b).2.excVal = b.excVal ∧
        (Interrupt.select b).2.bus = b.bus := by
      unfold Interrupt.select
      split <;> exact ⟨rfl, rfl⟩
    have hc : (Interrupt.select b).2 = c := (Prod.mk.inj (Except.ok.inj h)).2
    rw [hc] at hselect
    refine ⟨hp, hselect.1.trans ht.excVal, ?_, ?_, ?_, ?_⟩
    · rw [hselect.2, ht.ram]
    · rw [hselect.2, ht.gpu]
    · rw [hselect.2, ht.timer]
    · rw [hselect.2]
      exact ht.disk

/-- No interrupt is taken: those of the level are masked, or none is enabled. -/
theorem getPendingInterrupt_idle (hu : cpu.Undisturbed) (hw : Interrupt.Wired cpu) :
    ∃ c, Interrupt.getPendingInterrupt cpu = .ok (none, c) ∧ Ticked cpu c := by
  cases hm : Interrupt.masked cpu with
  | true => exact ⟨cpu, Interrupt.getPendingInterrupt_of_masked hm, .refl cpu⟩
  | false =>
    obtain ⟨c, hc⟩ := Interrupt.updatePending_ok hw
    have ht := updatePending_ticked hc
    have hmie : c.cregs.load Address.mie = 0 := by
      refine (ht.csr _ (by decide) (by decide) (by decide)).trans ?_
      exact hu.uninterrupted.resolve_left fun h => absurd (hm.symm.trans h) (by decide)
    refine ⟨c, ?_, ht⟩
    rw [Interrupt.getPendingInterrupt_eq hm, hc, Except.ok_bind]
    unfold Interrupt.select
    rw [hmie]
    simp [Interrupt.order]

theorem cycle_ticked (cpu : Cpu) : Ticked cpu
    (cpu.setCregs (cpu.cregs.store Address.cycle (cpu.cregs.load Address.cycle + 1))) :=
  ⟨.setCregs cpu fun _ hc _ _ => Csr.store_of_ne hc _, rfl, rfl, rfl, rfl, fun v hv => ⟨v, hv, rfl⟩⟩

theorem poll_ticked
    (hd : ∀ v, cpu.bus.virtio = some v → v.queueNotify = VirtioCfg.queueNotifyReset)
    {i : Option Interrupt} (h : cpu.poll env = .ok (i, c)) : Ticked cpu c := by
  obtain ⟨b, hb, h⟩ := Except.bind_eq_ok_iff.mp h
  have ht := tickDevices_ticked (by exact hd) hb
  exact (cycle_ticked cpu).trans (ht.trans (getPendingInterrupt_ticked h))

theorem Ticked.wired {a b : Cpu} (h : Ticked a b) (ha : a.Accepts env) : Interrupt.Wired b := by
  unfold Interrupt.Wired
  rw [h.host, h.gpu]
  exact ha.imp id And.left

/-- The first half of a turn is made when the host lets it and the disk has nothing to do. -/
theorem poll_ok (hd : ∀ v, cpu.bus.virtio = some v → v.queueNotify = VirtioCfg.queueNotifyReset)
    (ha : cpu.Accepts env) : ∃ i c, cpu.poll env = .ok (i, c) := by
  obtain ⟨b, hb⟩ := @tickDevices_ok
    (cpu.setCregs (cpu.cregs.store Address.cycle (cpu.cregs.load Address.cycle + 1))) env hd ha
  have hticked : Ticked cpu b := (cycle_ticked cpu).trans (tickDevices_ticked (by exact hd) hb)
  have hpoll := (poll_eq cpu env).trans (congrArg (· >>= Interrupt.getPendingInterrupt) hb)
  rw [hpoll, Except.ok_bind]
  cases hm : Interrupt.masked b with
  | true => exact ⟨none, b, Interrupt.getPendingInterrupt_of_masked hm⟩
  | false => exact Interrupt.getPendingInterrupt_ok (hticked.wired ha) hm

/-- The first half of a turn takes no interrupt, and the hart is as before. -/
theorem poll_idle (hu : cpu.Undisturbed) (ha : cpu.Accepts env) :
    ∃ c, cpu.poll env = .ok (none, c) ∧ Ticked cpu c := by
  obtain ⟨c, hrun, htick⟩ := @tickDevices_idle _ env ((cycle_ticked cpu).undisturbed hu) ha
  have hticked := (cycle_ticked cpu).trans htick
  obtain ⟨c', hpending, hidle⟩ :=
    getPendingInterrupt_idle (hticked.undisturbed hu) (hticked.wired ha)
  refine ⟨c', ?_, hticked.trans hidle⟩
  have hpoll := (poll_eq cpu env).trans (congrArg (· >>= Interrupt.getPendingInterrupt) hrun)
  rw [hpoll, Except.ok_bind]
  exact hpending

/-- The instruction is executed as the instruction set has it, where the hart stands. -/
def StepExact (t : Step Hart Sized) : Prop := InstrExact t.label.size t.before t.label.instr

/-- So it is, with accesses that may be made. -/
structure StepReaches (view : MemoryView) (t : Step Hart Sized) : Prop where
  fetch : view.Reach .instruction t.before.pc 4
  accesses : view.Reaches t.before t.label.instr

/-- A turn of `loop` is a step of the hart. -/
theorem loop_isa {view : MemoryView} {i : Sized} {h' : Hart} (hu : cpu.Undisturbed)
    (hv : view.Holds cpu) (ha : cpu.Accepts env) (hs : Rv64.Step isaDecode (view.hart cpu) i h')
    (hr : StepReaches view ⟨view.hart cpu, i, h'⟩) (he : InstrExact i.size (view.hart cpu) i.instr) :
    ∃ p after, Turn cpu p after ∧ p.env = env ∧ view.hart after = h' ∧ after.Undisturbed ∧
      view.Holds after ∧ ∀ env', cpu.Accepts env' → after.Accepts env' := by
  obtain ⟨c, hpoll, hticked⟩ := poll_idle hu ha
  have huc := hticked.undisturbed hu
  have hvc := (view.keep hticked.memory).2 hv
  obtain ⟨w, hw, hdec⟩ := Option.bind_eq_some_iff.mp hs.decode
  have hfetch := hr.fetch
  rw [← @Ticked.hart view _ _ hticked] at hw hfetch
  obtain ⟨x, hf, hk⟩ := MemoryView.fetched_of_load huc.awake huc.quiet hvc hfetch hw
  have hz : (⟨w⟩ : Decoder).insn ≠ 0 := by
    rintro rfl
    have hnone : isaDecode 0 = none := by decide
    rw [hnone] at hdec
    cases hdec
  have hhart : view.hart x = view.hart cpu :=
    (hk.hart.trans (MemoryView.hart_clear c)).trans hticked.hart
  have hux := (huc.of_same (.setReg c 0 0)).of_same hk.same
  obtain ⟨after, hexec, hb⟩ := @execute_isa view x ⟨w⟩ h' i hux.quiet hk.holds hf.regs_zero hdec
    (hhart.symm ▸ hs.exec) (hhart.symm ▸ hr.accesses) (hhart.symm ▸ he)
  have hq : after.excVal = none := hb.same.excVal.trans hux.quiet
  have hua := hux.of_same hb.same
  refine ⟨⟨env, none, c, i.size, after⟩, after.finish i.size,
    ⟨hpoll, (loop_of_fetched hf hz).trans hexec, rfl⟩, rfl, ?_, ?_, ?_, ?_⟩
  · rw [finish_of_none hq]
    exact hb.hart
  · rw [finish_of_none hq]
    exact hua.of_same (.setPc after _)
  · rw [finish_of_none hq]
    exact (view.keep (.setPc after _)).2 hb.holds
  · rw [finish_of_none hq]
    intro env' ha'
    have hsame := hk.same.trans hb.same
    have hhost : after.host = cpu.host := hsame.host.trans hticked.host
    have hgpu : after.bus.gpu.isSome = cpu.bus.gpu.isSome :=
      (congrArg Option.isSome hsame.gpu).trans hticked.gpu
    unfold Accepts at ha' ⊢
    change after.host.cpuTest = true ∨ after.bus.gpu.isSome ∧ _
    rw [hhost, hgpu]
    exact ha'

/-- A turn is determined by the state before it and by what the host gives. -/
theorem Turn.unique {before after after' : Cpu} {p p' : Phases} (h : Turn before p after)
    (h' : Turn before p' after') (henv : p'.env = p.env) : p' = p ∧ after' = after := by
  obtain ⟨_, _, _, _, _⟩ := p
  obtain ⟨_, _, _, _, _⟩ := p'
  cases henv
  obtain ⟨rfl, rfl⟩ := Prod.mk.inj (Except.ok.inj (h'.poll.symm.trans h.poll))
  obtain ⟨rfl, rfl⟩ := Prod.mk.inj (Except.ok.inj (h'.loop.symm.trans h.loop))
  exact ⟨rfl, h'.finish.symm.trans h.finish⟩

variable {start cpu' : Cpu} {turns turns' : List (Step Cpu Phases)}

theorem Turns.unique (run : Turns start turns cpu) (run' : Turns start turns' cpu')
    (henvs : turns'.map (·.label.env) = turns.map (·.label.env)) : turns' = turns ∧ cpu' = cpu := by
  induction run generalizing turns' cpu' with
  | start =>
    cases run' with
    | start => exact ⟨rfl, rfl⟩
    | step => cases henvs
  | step run h ih =>
    cases run' with
    | start => cases henvs
    | step run' h' =>
      obtain ⟨henv, henvs⟩ := List.cons.inj henvs
      obtain ⟨rfl, rfl⟩ := ih run' henvs
      obtain ⟨rfl, rfl⟩ := h.unique h' henv
      exact ⟨rfl, rfl⟩

section View

variable {view : MemoryView} {steps : List (Step Hart Sized)} {h : Hart}

/-- A run of the hart is a run of the emulator, whatever the host does meanwhile. -/
theorem turns_of_isa (hu : start.Undisturbed) (hv : view.Holds start)
    (run : Steps (Rv64.Step isaDecode) (view.hart start) steps h)
    (hr : ∀ t ∈ steps, StepReaches view t) (he : ∀ t ∈ steps, StepExact t)
    {envs : List Env} (hlen : envs.length = steps.length) (ha : ∀ env ∈ envs, start.Accepts env) :
    ∃ turns cpu, Turns start turns cpu ∧ turns.map (·.label.env) = envs ∧ view.hart cpu = h ∧
      cpu.Undisturbed ∧ view.Holds cpu ∧ (∀ env, start.Accepts env → cpu.Accepts env) ∧
      turns.map (fun t => view.hart t.before) = steps.map (·.before) := by
  induction run generalizing envs with
  | start =>
    obtain rfl := List.length_eq_zero_iff.mp hlen
    exact ⟨[], start, .start, rfl, rfl, hu, hv, fun _ => id, rfl⟩
  | @step steps s s' i run hs ih =>
    obtain ⟨env, envs, rfl⟩ := List.exists_cons_of_length_eq_add_one hlen
    obtain ⟨turns, cpu, hturns, henvs, rfl, hcpu, hholds, hacc, hmap⟩ := ih
      (fun t ht => hr t (List.mem_cons_of_mem _ ht)) (fun t ht => he t (List.mem_cons_of_mem _ ht))
      (Nat.succ.inj hlen) fun env henv => ha env (List.mem_cons_of_mem _ henv)
    have hreaches : StepReaches view ⟨view.hart cpu, i, s'⟩ := hr _ List.mem_cons_self
    have hexact : InstrExact i.size (view.hart cpu) i.instr := he _ List.mem_cons_self
    obtain ⟨p, after, hturn, rfl, hafter, hnext, hnext', hkeep⟩ :=
      loop_isa hcpu hholds (hacc env (ha env List.mem_cons_self)) hs hreaches hexact
    refine ⟨⟨cpu, p, after⟩ :: turns, after, .step hturns hturn, ?_, hafter, hnext, hnext',
      fun env henv => hkeep env (hacc env henv), ?_⟩
    · rw [List.map_cons, henvs]
    · rw [List.map_cons, List.map_cons, hmap]

/-- And the emulator has no other run of that length. -/
theorem refined_of_view (hu : start.Undisturbed) (hv : view.Holds start)
    (run : Steps (Rv64.Step isaDecode) (view.hart start) steps h)
    (hr : ∀ t ∈ steps, StepReaches view t) (he : ∀ t ∈ steps, StepExact t) :
    (∀ envs : List Env, envs.length = steps.length → (∀ env ∈ envs, start.Accepts env) →
      ∃ turns cpu, Turns start turns cpu ∧ turns.map (·.label.env) = envs) ∧
    ∀ turns cpu, Turns start turns cpu → turns.length = steps.length →
      (∀ t ∈ turns, start.Accepts t.label.env) →
        view.hart cpu = h ∧ view.Holds cpu ∧
          turns.map (fun t => view.hart t.before) = steps.map (·.before) := by
  constructor
  · intro envs hlen ha
    obtain ⟨turns, cpu, hturns, henvs, -⟩ := turns_of_isa hu hv run hr he hlen ha
    exact ⟨turns, cpu, hturns, henvs⟩
  · intro turns cpu hturns hlen ha
    have hlen' : (turns.map (·.label.env)).length = steps.length := by rw [List.length_map, hlen]
    obtain ⟨turns', cpu', hturns', henvs, hhart, -, hholds, -, hmap⟩ :=
      turns_of_isa hu hv run hr he hlen' (by simpa using ha)
    obtain ⟨rfl, rfl⟩ := hturns.unique hturns' henvs
    exact ⟨hhart, hholds, hmap⟩

end View

end Cpu

/-- No address is translated: the program sees the RAM. -/
def MemoryView.physical : MemoryView where
  mem cpu := cpu.bus.ram.bytes
  Holds cpu := ∀ t, ¬Mmu.Active cpu t
  Reach _ _ _ := True
  keep h := ⟨congrArg RamDevice.bytes h.ram, fun ha t hb => ha t (h.active.mp hb)⟩
  access {cpu t address n} h _ hn hc := ⟨address, cpu, Mmu.translate_inactive address (h t),
    .refl cpu, rfl, rfl, h, rfl, (RamDevice.covers_iff hn).mp hc, rfl⟩
  put {cpu address length p c} v h _ hc ht := by
    rw [Mmu.translate_inactive address (h .store)] at ht
    obtain ⟨rfl, rfl⟩ := Prod.mk.inj (Except.ok.inj ht)
    obtain ⟨m, hs⟩ := ByteMemory.store_of_covers v hc
    obtain ⟨-, hm⟩ := RamDevice.bytes_put hs fun k _ => rfl
    exact ⟨fun t ha => h t ⟨ha.mode, ha.accessMode⟩, hs.trans (congrArg some hm.symm)⟩

namespace Cpu

variable {start : Cpu}

/-- Nothing is out of reach in physical memory. -/
theorem stepReaches_physical (t : Step Hart Sized) : StepReaches MemoryView.physical t := by
  refine ⟨trivial, ?_⟩
  cases t.label.instr <;> first | exact trivial | exact ⟨trivial, trivial⟩

/-- As long as a hart of the instruction set meets only legal encodings, accesses to the RAM and
operations that the handlers get right, the emulator goes through the same states, one in each turn,
with any input and clock of the host; and so does every run of it of that length. -/
theorem isa_refined {steps : List (Step Hart Sized)} {h : Hart} (hu : start.Undisturbed)
    (hp : ∀ t, ¬Mmu.Active start t)
    (run : Steps (Rv64.Step isaDecode) (MemoryView.physical.hart start) steps h)
    (he : ∀ t ∈ steps, StepExact t) :
    (∀ envs : List Env, envs.length = steps.length → (∀ env ∈ envs, start.Accepts env) →
      ∃ turns cpu, Turns start turns cpu ∧ turns.map (·.label.env) = envs) ∧
    ∀ turns cpu, Turns start turns cpu → turns.length = steps.length →
      (∀ t ∈ turns, start.Accepts t.label.env) →
        MemoryView.physical.hart cpu = h ∧
          turns.map (fun t => MemoryView.physical.hart t.before) = steps.map (·.before) := by
  obtain ⟨hex, hall⟩ := refined_of_view hu hp run (fun t _ => stepReaches_physical t) he
  refine ⟨hex, fun turns cpu hturns hlen ha => ?_⟩
  obtain ⟨hhart, -, hmap⟩ := hall turns cpu hturns hlen ha
  exact ⟨hhart, hmap⟩

/-- `c.li x5, 1` and `addi x6, x5, 2`. -/
def sumProgram : Cpu := Cpu.ofImage [0x85, 0x42, 0x13, 0x83, 0x22, 0x00] (by decide)

theorem sumProgram_undisturbed : sumProgram.Undisturbed where
  awake := rfl
  quiet := rfl
  uninterrupted := .inl rfl
  disk v hv := by cases hv

theorem sumProgram_untranslated (t : AccessType) : ¬Mmu.Active sumProgram t :=
  fun h => h.mode rfl

theorem isa_refined_sum : ∃ turns cpu, Turns sumProgram turns cpu ∧ turns.length = 2 ∧
    cpu.regs 6 = 3 := by
  let hart := MemoryView.physical.hart sumProgram
  have first : Rv64.Step isaDecode hart ⟨2, .opImm .add 5 0 1⟩ (hart.next 5 1 0x80000002) :=
    ⟨by decide, rfl⟩
  have second : Rv64.Step isaDecode (hart.next 5 1 0x80000002) ⟨4, .opImm .add 6 5 2⟩
      ((hart.next 5 1 0x80000002).next 6 3 0x80000006) := ⟨by decide, rfl⟩
  have h := isa_refined sumProgram_undisturbed sumProgram_untranslated
    (.step (.step .start first) second) (by
      simp only [List.mem_cons, List.not_mem_nil, or_false]
      rintro t (rfl | rfl) hf
      all_goals cases hf)
  have haccepts : ∀ env, sumProgram.Accepts env := fun _ => .inl rfl
  obtain ⟨turns, cpu, hturns, henvs⟩ := h.1 [⟨1, .idle⟩, ⟨0, .idle⟩] rfl fun env _ => haccepts env
  have hlen : turns.length = 2 := (List.length_map _).symm.trans (congrArg List.length henvs)
  have hend := (h.2 turns cpu hturns hlen fun t _ => haccepts _).1
  exact ⟨turns, cpu, hturns, hlen, congrArg (fun h : Hart => h.regs.get 6) hend⟩

end Cpu

end Rv64gcEmu
