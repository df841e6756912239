import Rv64gcEmu.InterruptTaken

namespace Rv64gcEmu

namespace Interrupt

open Cpu (Reached Turns)

/-- The source that a poll hands to the PLIC: the disk is asked first. -/
def raisedSource (cpu : Cpu) : Option Word :=
  if masked cpu || cpu.host.cpuTest then none
  else (cpu.bus.virtio.bind (·.isInterrupting)).or (cpu.bus.gpu.bind (·.isInterrupting.1))

/-- Of the bits of `mie` and `mip`, that of the external interrupt of the Supervisor is the
first one. -/
def ExternalFirst (cpu : Cpu) : Prop :=
  (cpu.cregs.load Address.mie &&& cpu.cregs.load Address.mip).getLsbD Mask.seipBit = true ∧
    ∀ k ∈ [Mask.meipBit, Mask.msipBit, Mask.mtipBit],
      (cpu.cregs.load Address.mie &&& cpu.cregs.load Address.mip).getLsbD k = false

/-- The poll sets the bit only for a source that is enabled, and whoever takes the interrupt then
finds a source in the claim register. -/
structure Linked (cpu : Cpu) : Prop where
  set : ∀ c, devicesPolled cpu = .ok c →
    (cpu.cregs.load Address.mip).getLsbD Mask.seipBit = false →
    (c.cregs.load Address.mip).getLsbD Mask.seipBit = true →
    ∃ n : Source, raisedSource cpu = some n.1 ∧ cpu.bus.plic.Enabled n
  claim : ∀ after, (raisedSource cpu).isSome →
    getPendingInterrupt cpu = .ok (some .supervisorExternal, after) →
    ∃ v, (process after .supervisorExternal).bus.plic.load PlicCfg.claimOneAddr = .ok v ∧ v ≠ 0

/-- A device that interrupts is enabled; or its bit was set before, and then it is not the first
one or the claim register still holds a source. -/
def RaisedEnabled (cpu : Cpu) : Prop :=
  ∀ n : Source, raisedSource cpu = some n.1 → cpu.bus.plic.Enabled n ∨
    ((cpu.cregs.load Address.mip).getLsbD Mask.seipBit = true ∧
      (ExternalFirst cpu → cpu.bus.plic.load PlicCfg.claimOneAddr ≠ .ok 0))

variable {cpu c after : Cpu} {v : Word}

theorem deviceIrq_source {irqn : Option Word} (h : deviceIrq cpu = .ok (irqn, c)) :
    irqn = (cpu.bus.virtio.bind (·.isInterrupting)).or (cpu.bus.gpu.bind (·.isInterrupting.1)) ∧
      c.bus.plic = cpu.bus.plic := by
  unfold deviceIrq at h
  split at h
  next x hv =>
    obtain ⟨rfl, rfl⟩ := Prod.mk.inj (Except.ok.inj h)
    exact ⟨by rw [hv]; rfl, rfl⟩
  next hv =>
    split at h
    next g hg =>
      obtain ⟨rfl, rfl⟩ := Prod.mk.inj (Except.ok.inj h)
      exact ⟨by rw [hv, hg]; rfl, rfl⟩
    next => cases h

theorem masked_of_raised (h : raisedSource cpu = some v) :
    masked cpu = false ∧ cpu.host.cpuTest = false := by
  unfold raisedSource at h
  split at h
  next => cases h
  next hn => simpa using hn

theorem deviceIrq_of_raised (h : raisedSource cpu = some v) :
    ∃ c, deviceIrq cpu = .ok (some v, c) := by
  obtain ⟨hm, ht⟩ := masked_of_raised h
  have hsource := h
  unfold raisedSource at hsource
  simp only [hm, ht, Bool.or_self, Bool.false_eq_true, if_false] at hsource
  have hok : ∃ r, deviceIrq cpu = .ok r := by
    unfold deviceIrq
    cases hv : cpu.bus.virtio.bind (·.isInterrupting) with
    | some x => exact ⟨_, rfl⟩
    | none =>
      cases hg : cpu.bus.gpu with
      | some g => exact ⟨_, rfl⟩
      | none =>
        rw [hv, hg] at hsource
        cases hsource
  obtain ⟨⟨irqn, c⟩, hd⟩ := hok
  have hirqn := (deviceIrq_source hd).1.trans hsource
  subst hirqn
  exact ⟨c, hd⟩

theorem line_eq (hm : masked cpu = false) : line cpu = (raisedSource cpu).isSome := by
  unfold line raisedSource
  rw [hm]
  cases cpu.host.cpuTest with
  | true => rfl
  | false =>
    cases cpu.bus.virtio.bind (·.isInterrupting) with
    | some x => simp
    | none =>
      cases cpu.bus.gpu with
      | none => rfl
      | some g => simp

/-- The poll of a device that interrupts: the claim register changes only for a source that is
enabled. -/
theorem updatePending_of_raised (h : raisedSource cpu = some v) : ∃ (n : Source) (c : Cpu),
    n.1 = v ∧ updatePending cpu = .ok c ∧
      c.bus.plic.load PlicCfg.claimOneAddr = if (cpu.bus.plic.enable 32).getLsbD n.1.toNat then
        .ok n.1 else cpu.bus.plic.load PlicCfg.claimOneAddr := by
  obtain ⟨hm, ht⟩ := masked_of_raised h
  obtain ⟨c, hd⟩ := deviceIrq_of_raised h
  obtain ⟨_, hplic⟩ := deviceIrq_source hd
  obtain ⟨n, rfl⟩ := (deviceIrq_spec ht hd).2.2 v rfl
  obtain ⟨plic, hu⟩ : ∃ plic, c.bus.plic.updatePending n = .ok plic := ⟨_, c.bus.plic.updatePending_eq n⟩
  have hclaim := c.bus.plic.updatePending_claimOne n hu
  rw [hplic] at hclaim
  refine ⟨n, (c.setBus { c.bus with plic := plic }).setCregs
    (c.cregs.writeBit Address.mip Mask.seipBit 1), rfl, ?_, hclaim⟩
  unfold updatePending
  simp only [ht, Bool.false_eq_true, if_false, hd, Except.ok_bind, hu]
  rfl

theorem process_plic (cpu : Cpu) (i : Interrupt) : (process cpu i).bus.plic = cpu.bus.plic := by
  unfold process Trap.enter
  simp only
  split <;> rfl

theorem select_plic (c : Cpu) : (select c).2.bus.plic = c.bus.plic := by
  unfold select
  split <;> rfl

theorem select_external_iff (c : Cpu) :
    (select c).1 = some .supervisorExternal ↔ ExternalFirst c := by
  have hbit : ∀ k < 64, decide (c.cregs.load Address.mie &&& c.cregs.load Address.mip &&&
      (1#64 <<< k) ≠ 0) = (c.cregs.load Address.mie &&& c.cregs.load Address.mip).getLsbD k := by
    intro k hk
    rw [Bool.eq_iff_iff, decide_eq_true_eq, and_one_shiftLeft_ne_zero hk]
  unfold select ExternalFirst
  simp only [order, List.find?_cons, List.find?_nil, hbit Mask.meipBit (by decide),
    hbit Mask.msipBit (by decide), hbit Mask.mtipBit (by decide), hbit Mask.seipBit (by decide),
    hbit Mask.ssipBit (by decide), hbit Mask.stipBit (by decide), List.forall_mem_cons]
  generalize c.cregs.load Address.mie &&& c.cregs.load Address.mip = w
  cases w.getLsbD Mask.meipBit <;> cases w.getLsbD Mask.msipBit <;>
    cases w.getLsbD Mask.mtipBit <;> cases w.getLsbD Mask.seipBit <;> simp
  all_goals cases w.getLsbD Mask.ssipBit <;> cases w.getLsbD Mask.stipBit <;> simp

theorem linked_of_none (h : raisedSource cpu = none) : Linked cpu := by
  refine ⟨fun c hc hclear hset => ?_, fun after hsome => ?_⟩
  · have hmip : c.cregs.load Address.mip = cpu.cregs.load Address.mip := by
      unfold devicesPolled at hc
      split at hc
      next =>
        cases Except.ok.inj hc
        rfl
      next hm =>
        rw [updatePending_mip hc, raisedMip, line_eq (Bool.not_eq_true _ ▸ hm), h]
        rfl
    rw [hmip, hclear] at hset
    cases hset
  · rw [h] at hsome
    cases hsome

/-- The poll of a device that interrupts. -/
structure Raised (cpu : Cpu) (n : Source) (c : Cpu) : Prop where
  source : raisedSource cpu = some n.1
  polled : devicesPolled cpu = .ok c
  poll : getPendingInterrupt cpu = .ok (select c)
  set : (c.cregs.load Address.mip).getLsbD Mask.seipBit = true
  claim : ∀ i, (process (select c).2 i).bus.plic.load PlicCfg.claimOneAddr =
    if (cpu.bus.plic.enable 32).getLsbD n.1.toNat then .ok n.1
    else cpu.bus.plic.load PlicCfg.claimOneAddr
  first : (cpu.cregs.load Address.mip).getLsbD Mask.seipBit = true →
    ((select c).1 = some .supervisorExternal ↔ ExternalFirst cpu)

theorem raised (h : raisedSource cpu = some v) : ∃ (n : Source) (c : Cpu), Raised cpu n c := by
  obtain ⟨n, c, rfl, hu, hclaim⟩ := updatePending_of_raised h
  have hm := (masked_of_raised h).1
  have hc : devicesPolled cpu = .ok c := by
    unfold devicesPolled
    rw [hm]
    exact hu
  have hline : line cpu = true := by
    rw [line_eq hm, h]
    rfl
  have hmip := updatePending_mip hu
  refine ⟨n, c, h, hc, ?_, ?_, fun i => ?_, fun hbefore => ?_⟩
  · rw [getPendingInterrupt_eq hm, hu]
    rfl
  · rw [hmip, getLsbD_raisedMip cpu (by decide), hline]
    rfl
  · rw [process_plic, select_plic]
    exact hclaim
  · have hkeep : c.cregs.load Address.mip = cpu.cregs.load Address.mip := by
      apply BitVec.eq_of_getLsbD_eq
      intro k hk
      rw [hmip, getLsbD_raisedMip cpu hk]
      by_cases hs : k = Mask.seipBit
      · rw [hs, hbefore, Bool.or_true]
      · simp [hs]
    have hmie : c.cregs.load Address.mie = cpu.cregs.load Address.mie :=
      (updatePending_polled hu).csr Address.mie (by decide) (by decide) (by decide)
    rw [select_external_iff]
    unfold ExternalFirst
    rw [hkeep, hmie]

namespace Raised

variable {n : Source}

theorem unique {m : Source} (h : Raised cpu n c) (hm : raisedSource cpu = some m.1) : m = n :=
  Subtype.ext (Option.some.inj (hm.symm.trans h.source))

theorem linked_of_enabled (h : Raised cpu n c) (hen : cpu.bus.plic.Enabled n) : Linked cpu := by
  refine ⟨fun _ _ _ _ => ⟨n, h.source, hen⟩, fun after _ hp => ⟨n.1, ?_, n.ne_zero⟩⟩
  have hafter : (select c).2 = after := congrArg Prod.snd (Except.ok.inj (h.poll.symm.trans hp))
  rw [← hafter, h.claim, if_pos (PlicDevice.enabled_iff.mp hen)]

theorem linked_iff_of_disabled (h : Raised cpu n c) (hen : ¬cpu.bus.plic.Enabled n) :
    Linked cpu ↔ ((cpu.cregs.load Address.mip).getLsbD Mask.seipBit = true ∧
      (ExternalFirst cpu → cpu.bus.plic.load PlicCfg.claimOneAddr ≠ .ok 0)) := by
  have hclaim := h.claim .supervisorExternal
  rw [if_neg fun hb => hen (PlicDevice.enabled_iff.mpr hb)] at hclaim
  constructor
  · intro hl
    have hbefore : (cpu.cregs.load Address.mip).getLsbD Mask.seipBit = true := by
      by_contra hb
      obtain ⟨k, hk, hke⟩ := hl.set c h.polled (Bool.eq_false_iff.mpr hb) h.set
      exact hen (h.unique hk ▸ hke)
    refine ⟨hbefore, fun hfirst hzero => ?_⟩
    have hext := (h.first hbefore).mpr hfirst
    have hsome : (raisedSource cpu).isSome := by
      rw [h.source]
      rfl
    obtain ⟨v, hv, hne⟩ := hl.claim (select c).2 hsome (by rw [h.poll, ← hext])
    rw [hclaim, hzero] at hv
    exact hne (Except.ok.inj hv).symm
  · rintro ⟨hbefore, hclaimed⟩
    refine ⟨fun _ _ hclear _ => ?_, fun after _ hp => ?_⟩
    · rw [hbefore] at hclear
      cases hclear
    · have hselect := Except.ok.inj (h.poll.symm.trans hp)
      have hext : (select c).1 = some .supervisorExternal := congrArg Prod.fst hselect
      have hafter : (select c).2 = after := congrArg Prod.snd hselect
      have hne := hclaimed ((h.first hbefore).mp hext)
      rw [← hafter, hclaim, PlicDevice.load_claimOne]
      rw [PlicDevice.load_claimOne] at hne
      exact ⟨_, rfl, fun hz => hne (congrArg Except.ok hz)⟩

end Raised

/-- A poll is linked to the PLIC exactly when what it raises is enabled, or was raised before
and the claim register shows a source to the handler. -/
theorem linked_iff (cpu : Cpu) : Linked cpu ↔ RaisedEnabled cpu := by
  cases hr : raisedSource cpu with
  | none =>
    refine iff_of_true (linked_of_none hr) fun n hn => ?_
    rw [hr] at hn
    cases hn
  | some v =>
    obtain ⟨n, c, h⟩ := raised hr
    have honly : RaisedEnabled cpu ↔ cpu.bus.plic.Enabled n ∨
        ((cpu.cregs.load Address.mip).getLsbD Mask.seipBit = true ∧
          (ExternalFirst cpu → cpu.bus.plic.load PlicCfg.claimOneAddr ≠ .ok 0)) := by
      constructor
      · exact fun hx => hx n h.source
      · intro hx m hm
        rw [h.unique hm]
        exact hx
    rw [honly]
    by_cases hen : cpu.bus.plic.Enabled n
    · exact iff_of_true (h.linked_of_enabled hen) (.inl hen)
    · rw [h.linked_iff_of_disabled hen, or_iff_right hen]

/-- In every state of a run, what the poll needs to be linked to the PLIC. -/
theorem reached_linked_iff (start : Cpu) : ∀ c, Reached start c → (Linked c ↔ RaisedEnabled c) :=
  fun c _ => linked_iff c

/-- The command line build, with a program that turns on the interrupts of the hart and those of
the UART, but not those of the PLIC. -/
def disabledSource : Cpu :=
  Cpu.init (RamDevice.ofImage 0x80000000 0x1000 [0xb7, 0x02, 0x00, 0x10, 0x13, 0x03, 0x20, 0x00,
      0x73, 0x60, 0x04, 0x30, 0xa3, 0x80, 0x62, 0x00] (by decide))
    (some (.nativeCli ⟨Uart.init, 0⟩)) none false ⟨true, false, default⟩

theorem disabledSource_reached : ∃ c, Reached disabledSource c ∧ raisedSource c = some Source.uart.1 ∧
    (c.cregs.load Address.mip).getLsbD Mask.seipBit = false ∧ ¬c.bus.plic.Enabled Source.uart := by
  have lui := @Turns.insn disabledSource disabledSource [] ⟨0, .idle⟩ _ _ _ _ ⟨0x100002b7⟩ _ .start
    rfl ⟨rfl, ⟨_, rfl, rfl⟩, rfl⟩ (by decide) rfl
  have addi := @Turns.insn _ disabledSource _ ⟨0, .idle⟩ _ _ _ _ ⟨0x00200313⟩ _ lui rfl
    ⟨rfl, ⟨_, rfl, rfl⟩, rfl⟩ (by decide) rfl
  have unmask := @Turns.insn _ disabledSource _ ⟨0, .idle⟩ _ _ _ _ ⟨0x30046073⟩ _ addi rfl
    ⟨rfl, ⟨_, rfl, rfl⟩, rfl⟩ (by decide) rfl
  have ier := @Turns.insn _ disabledSource _ ⟨0, .idle⟩ _ _ _ _ ⟨0x006280a3⟩ _ unmask rfl
    ⟨rfl, ⟨_, rfl, rfl⟩, rfl⟩ (by decide) rfl
  have ticked := @Reached.ticked _ _ _ _ ⟨0, .idle⟩ ier rfl
  refine ⟨_, ticked, rfl, rfl, fun h => ?_⟩
  rw [PlicDevice.enabled_iff] at h
  cases h

theorem reached_linked_iff_disabledSource : ∃ c, Reached disabledSource c ∧
    (Linked c ↔ RaisedEnabled c) := by
  obtain ⟨c, hr, _⟩ := disabledSource_reached
  exact ⟨c, hr, reached_linked_iff disabledSource c hr⟩

theorem disabledSource_raised : ¬ ∀ start c : Cpu, Reached start c → Linked c := by
  intro h
  obtain ⟨c, hr, hs, hclear, hen⟩ := disabledSource_reached
  obtain ⟨n, d, hd⟩ := raised hs
  obtain ⟨m, hm, hme⟩ := (h disabledSource c hr).set d hd.polled hclear hd.set
  have huart : m = Source.uart := Subtype.ext (Option.some.inj (hm.symm.trans hs))
  exact hen (huart ▸ hme)

end Interrupt

end Rv64gcEmu
