import Rv64gcEmu.PlicClaims
import Rv64gcEmu.TrapEntry
import Rv64gcEmu.Turns

namespace Rv64gcEmu

open Cpu (Polled)
open Transition (Step)

namespace Interrupt

/-- A device holds its line up. -/
def line (cpu : Cpu) : Bool :=
  !cpu.host.cpuTest && ((cpu.bus.virtio.bind (·.isInterrupting)).isSome ||
    cpu.bus.gpu.any fun g => g.isInterrupting.1.isSome)

/-- `mip` once the devices have been asked. -/
def raisedMip (cpu : Cpu) : Word :=
  if line cpu then Helper.writeBit (cpu.cregs.load Address.mip) Mask.seipBit 1
  else cpu.cregs.load Address.mip

/-- The first interrupt in the order that is enabled and pending. -/
def first (cpu : Cpu) : Option (Interrupt × Nat) :=
  order.find? fun p => cpu.cregs.load Address.mie &&& raisedMip cpu &&& (1#64 <<< p.2) ≠ 0

/-- Outside of the tests the machine has its display or its terminal. -/
def Wired (cpu : Cpu) : Prop := cpu.host.cpuTest = true ∨ cpu.bus.gpu.isSome

variable {cpu after : Cpu}

theorem deviceIrq_spec {irqn : Option Word} (ht : cpu.host.cpuTest = false)
    (h : deviceIrq cpu = .ok (irqn, after)) :
    irqn.isSome = line cpu ∧ after.cregs = cpu.cregs ∧ (∀ v, irqn = some v → ∃ n : Source, n.1 = v) := by
  have hdisk : ∀ {v : VirtioBlkDevice} {x : Word}, v.isInterrupting = some x → x = VirtioCfg.irqn := by
    intro v x hv
    unfold VirtioBlkDevice.isInterrupting at hv
    split at hv
    next => exact (Option.some.inj hv).symm
    next => cases hv
  have huart : ∀ {g : GpuDevice} {x : Word}, g.isInterrupting.1 = some x → x = Cfg.uartIrqn := by
    intro g x hg
    change (g.uart.isInterrupting).1 = some x at hg
    unfold Uart.isInterrupting at hg
    split at hg
    next => exact (Option.some.inj hg).symm
    next => cases hg
  unfold deviceIrq at h
  split at h
  next x hv =>
    obtain ⟨rfl, rfl⟩ := Prod.mk.inj (Except.ok.inj h)
    refine ⟨?_, rfl, ?_⟩
    · simp [line, ht, hv]
    · intro v hx
      obtain ⟨d, _, hd⟩ := Option.bind_eq_some_iff.mp hv
      exact ⟨Source.disk, (hdisk hd).symm.trans (Option.some.inj hx)⟩
  next hv =>
    split at h
    next g hg =>
      obtain ⟨hi, hc⟩ := Prod.mk.inj (Except.ok.inj h)
      change g.isInterrupting.1 = irqn at hi
      refine ⟨?_, by rw [← hc]; rfl, ?_⟩
      · rw [← hi]
        simp [line, ht, hv, hg]
      · intro v hx
        exact ⟨Source.uart, (huart (hi.trans hx)).symm⟩
    next => cases h

theorem updatePending_mip (h : updatePending cpu = .ok after) :
    after.cregs.load Address.mip = raisedMip cpu := by
  unfold updatePending at h
  unfold raisedMip
  split at h
  next ht =>
    cases Except.ok.inj h
    simp [line, ht]
  next ht =>
    obtain ⟨⟨irqn, c⟩, hd, h⟩ := Except.bind_eq_ok_iff.mp h
    obtain ⟨hline, hc, _⟩ := deviceIrq_spec (Bool.not_eq_true _ ▸ ht) hd
    rw [← hline]
    cases irqn with
    | some v =>
      obtain ⟨plic, _, h⟩ := Except.bind_eq_ok_iff.mp h
      cases Except.ok.inj h
      rw [← hc]
      rfl
    | none =>
      cases Except.ok.inj h
      rw [hc]
      rfl

theorem updatePending_ok (hw : Wired cpu) : ∃ after, updatePending cpu = .ok after := by
  unfold updatePending
  split
  next => exact ⟨_, rfl⟩
  next ht =>
    have hdev : ∃ r, deviceIrq cpu = .ok r := by
      unfold deviceIrq
      split
      next => exact ⟨_, rfl⟩
      next =>
        rcases hw with ht' | hg
        · exact absurd ht' ht
        · obtain ⟨g, hg⟩ := Option.isSome_iff_exists.mp hg
          rw [hg]
          exact ⟨_, rfl⟩
    obtain ⟨⟨irqn, c⟩, hd⟩ := hdev
    obtain ⟨_, _, hsource⟩ := deviceIrq_spec (Bool.not_eq_true _ ▸ ht) hd
    simp only [hd, Except.ok_bind]
    cases irqn with
    | some v =>
      obtain ⟨n, rfl⟩ := hsource v rfl
      simp only [PlicDevice.updatePending_eq, Except.ok_bind]
      exact ⟨_, rfl⟩
    | none => exact ⟨_, rfl⟩

theorem mem_order_code {p : Interrupt × Nat} (h : p ∈ order) : p.2 = p.1.code ∧ p.2 < 64 := by
  simp only [order, List.mem_cons, List.not_mem_nil, or_false] at h
  rcases h with rfl | rfl | rfl | rfl | rfl | rfl <;> exact ⟨rfl, by decide⟩

/-- What a poll gives that is not cut short by the mask of the mode. -/
structure Chosen (cpu : Cpu) (pending : Option Interrupt) (after : Cpu) : Prop where
  pending : pending = (first cpu).map Prod.fst
  mip : after.cregs.load Address.mip =
    match first cpu with
    | some p => Helper.writeBit (raisedMip cpu) p.2 0
    | none => raisedMip cpu

/-- The selection at the end of `get_pending_interrupt`. -/
def select (cpu : Cpu) : Option Interrupt × Cpu :=
  match order.find? fun p =>
      cpu.cregs.load Address.mie &&& cpu.cregs.load Address.mip &&& (1#64 <<< p.2) ≠ 0 with
  | some (i, bit) => (some i, cpu.setCregs (cpu.cregs.writeBit Address.mip bit 0))
  | none => (none, cpu)

theorem getPendingInterrupt_eq (hm : masked cpu = false) :
    getPendingInterrupt cpu = updatePending cpu >>= fun c => .ok (select c) := by
  unfold getPendingInterrupt
  simp only [hm, Bool.false_eq_true, if_false]
  congr 1
  funext c
  unfold select
  generalize List.find? _ order = found
  cases found with
  | none => rfl
  | some p => rfl

theorem select_chosen {c : Cpu} (hu : updatePending cpu = .ok c) :
    Chosen cpu (select c).1 (select c).2 := by
  have hmip := updatePending_mip hu
  have hmie : c.cregs.load Address.mie = cpu.cregs.load Address.mie :=
    (updatePending_polled hu).csr Address.mie (by decide) (by decide) (by decide)
  have hfirst : order.find? (fun p =>
      c.cregs.load Address.mie &&& c.cregs.load Address.mip &&& (1#64 <<< p.2) ≠ 0) = first cpu := by
    rw [hmie, hmip]
    rfl
  unfold select
  rw [hfirst]
  cases hf : first cpu with
  | some p =>
    refine ⟨by rw [hf]; rfl, ?_⟩
    rw [hf]
    change Helper.writeBit (c.cregs.load Address.mip) p.2 0 = _
    rw [hmip]
  | none =>
    refine ⟨by rw [hf]; rfl, ?_⟩
    rw [hf]
    exact hmip

theorem getPendingInterrupt_chosen {pending : Option Interrupt} (hm : masked cpu = false)
    (h : getPendingInterrupt cpu = .ok (pending, after)) : Chosen cpu pending after := by
  rw [getPendingInterrupt_eq hm] at h
  obtain ⟨c, hu, h⟩ := Except.bind_eq_ok_iff.mp h
  have hc := select_chosen hu
  rw [Except.ok.inj h] at hc
  exact hc

theorem getPendingInterrupt_ok (hw : Wired cpu) (hm : masked cpu = false) :
    ∃ pending after, getPendingInterrupt cpu = .ok (pending, after) := by
  obtain ⟨c, hu⟩ := updatePending_ok hw
  rw [getPendingInterrupt_eq hm, hu]
  exact ⟨_, _, rfl⟩

/-- An interrupt is enabled and pending that stays at Machine level. -/
def Undelegated (cpu : Cpu) : Prop :=
  ∃ p ∈ order, cpu.cregs.load Address.mie &&& cpu.cregs.load Address.mip &&& (1#64 <<< p.2) ≠ 0 ∧
    delegated cpu p.1 = false

/-- With such an interrupt the poll gives one, and one of Machine level where Supervisor
mode has its own interrupts off. -/
def NotMasked (cpu : Cpu) : Prop :=
  Undelegated cpu → ∃ i after, getPendingInterrupt cpu = .ok (some i, after) ∧
    (cpu.mode = .supervisor → cpu.cregs.readBitSstatus .sie = 0 →
      delegated cpu i = false ∧ (process after i).mode = .machine)

theorem first_isSome (h : Undelegated cpu) : ∃ p, first cpu = some p := by
  obtain ⟨p, hp, hbit, _⟩ := h
  have hsome : (first cpu).isSome := by
    unfold first
    rw [List.find?_isSome]
    refine ⟨p, hp, ?_⟩
    have hlt := (mem_order_code hp).2
    rw [and_one_shiftLeft_ne_zero hlt, BitVec.getLsbD_and, Bool.and_eq_true] at hbit
    rw [decide_eq_true_eq, and_one_shiftLeft_ne_zero hlt, BitVec.getLsbD_and, Bool.and_eq_true]
    refine ⟨hbit.1, ?_⟩
    unfold raisedMip
    split
    next =>
      rw [getLsbD_writeBit _ _ _ _ hlt, hbit.2]
      simp
    next => exact hbit.2
  exact Option.isSome_iff_exists.mp hsome

theorem process_machine {c : Cpu} {i : Interrupt} (h : delegated c i = false) :
    (process c i).mode = .machine := by
  have ht := Trap.process_taken c (.interrupt i)
  have hl : (Trap.Cause.interrupt i).level c = .machine := by
    unfold Trap.Cause.level
    rw [if_neg]
    rintro ⟨hd, _⟩
    have hd' : delegated c i = true := hd
    rw [h] at hd'
    cases hd'
  have hm := ht.mode
  rw [hl] at hm
  exact hm

theorem delegated_of_polled {c : Cpu} (h : Polled cpu c) (i : Interrupt) :
    delegated c i = delegated cpu i := by
  have hd : c.cregs.load Address.mideleg = cpu.cregs.load Address.mideleg :=
    h.csr Address.mideleg (by decide) (by decide) (by decide)
  unfold delegated
  rw [hd]

theorem getPendingInterrupt_of_masked (hm : masked cpu = true) :
    getPendingInterrupt cpu = .ok (none, cpu) := by
  unfold getPendingInterrupt
  rw [hm]
  rfl

theorem supervisor_of_masked (hmode : cpu.mode = .user ∨ cpu.mode = .supervisor)
    (hm : masked cpu = true) :
    cpu.mode = .supervisor ∧ cpu.cregs.readBitSstatus .sie = 0 ∧ cpu.sleep = false := by
  rcases hmode with hmode | hmode
  · simp [masked, hmode] at hm
  · simp only [masked, hmode, Bool.and_eq_true, Bool.not_eq_true', decide_eq_true_eq] at hm
    exact ⟨hmode, hm.1, hm.2⟩

/-- A Supervisor that has its interrupts off and is awake masks all of them; a poll that
is not masked gives the first one, of whatever level. -/
theorem notMasked_iff (hw : Wired cpu) (hmode : cpu.mode = .user ∨ cpu.mode = .supervisor) :
    NotMasked cpu ↔ (Undelegated cpu → cpu.mode = .user ∨ cpu.cregs.readBitSstatus .sie ≠ 0 ∨
      (cpu.sleep = true ∧ ∃ p, first cpu = some p ∧ delegated cpu p.1 = false)) := by
  unfold NotMasked
  refine forall_congr' fun hu => ?_
  obtain ⟨p, hp⟩ := first_isSome hu
  cases hm : masked cpu with
  | true =>
    have hs := supervisor_of_masked hmode hm
    have hnone := getPendingInterrupt_of_masked hm
    constructor
    · rintro ⟨i, after, h, _⟩
      rw [hnone] at h
      cases h
    · rintro (h | h | ⟨h, _⟩)
      · rw [hs.1] at h
        cases h
      · exact absurd hs.2.1 h
      · rw [hs.2.2] at h
        cases h
  | false =>
    obtain ⟨pending, after, h⟩ := getPendingInterrupt_ok hw hm
    have hc := getPendingInterrupt_chosen hm h
    have hpending : pending = some p.1 := by
      rw [hc.pending, hp]
      rfl
    subst hpending
    have hpolled := getPendingInterrupt_polled h
    constructor
    · rintro ⟨i, after', h', hi⟩
      obtain ⟨hip, rfl⟩ := Prod.mk.inj (Except.ok.inj (h'.symm.trans h))
      cases Option.some.inj hip
      by_cases hsie : cpu.cregs.readBitSstatus .sie = 0
      · rcases hmode with hmode | hmode
        · exact .inl hmode
        · refine .inr (.inr ⟨?_, p, hp, (hi hmode hsie).1⟩)
          simpa [masked, hmode, hsie] using hm
      · exact .inr (.inl hsie)
    · intro hcond
      refine ⟨p.1, after, h, fun hsup hsie => ?_⟩
      rcases hcond with hx | hx | ⟨_, q, hq, hd⟩
      · rw [hsup] at hx
        cases hx
      · exact absurd hsie hx
      · cases Option.some.inj (hp.symm.trans hq)
        refine ⟨hd, process_machine ?_⟩
        rw [delegated_of_polled hpolled]
        exact hd

/-- Supervisor mode with its interrupts off, while the timer of Machine mode is pending. -/
def maskedTimer : Cpu :=
  let cpu := (Cpu.ofImage [] (Nat.zero_le _)).setMode .supervisor
  cpu.setCregs ((cpu.cregs.setCell Address.mie 0x80).setCell Address.mip 0x80)

theorem maskedTimer_undelegated : Undelegated maskedTimer :=
  ⟨(.machineTimer, Mask.mtipBit), by simp [order], by decide, rfl⟩

theorem notMasked_iff_maskedTimer : NotMasked maskedTimer ↔ (Undelegated maskedTimer →
    maskedTimer.mode = .user ∨ maskedTimer.cregs.readBitSstatus .sie ≠ 0 ∨
      (maskedTimer.sleep = true ∧
        ∃ p, first maskedTimer = some p ∧ delegated maskedTimer p.1 = false)) :=
  notMasked_iff (.inl rfl) (.inr rfl)

theorem maskedTimer_masked : ¬ ∀ cpu : Cpu, Wired cpu →
    cpu.mode = .user ∨ cpu.mode = .supervisor → NotMasked cpu := by
  intro h
  obtain ⟨i, after, hp, _⟩ := h maskedTimer (.inl rfl) (.inr rfl) maskedTimer_undelegated
  have hnone : getPendingInterrupt maskedTimer = .ok (none, maskedTimer) := rfl
  rw [hnone] at hp
  cases hp

/-- A delegated interrupt, in a mode in which it must not be taken. -/
def Shielded (cpu : Cpu) (i : Interrupt) : Prop :=
  (cpu.cregs.load Address.mideleg).getLsbD i.code = true ∧
    (cpu.mode = .machine ∨ cpu.mode = .supervisor ∧ cpu.cregs.readBitSstatus .sie = 0)

/-- The poll neither gives the interrupt nor touches its bit. -/
def Held (cpu : Cpu) (i : Interrupt) (pending : Option Interrupt) (after : Cpu) : Prop :=
  pending ≠ some i ∧
    (after.cregs.load Address.mip).getLsbD i.code = (cpu.cregs.load Address.mip).getLsbD i.code

/-- Supervisor mode, or Machine mode with its interrupts off, or another interrupt that
comes first and, for the external interrupt, no line of a device that sets its bit. -/
def StaysPending (cpu : Cpu) (i : Interrupt) : Prop :=
  cpu.mode = .supervisor ∨ cpu.cregs.readBitMstatus .mie = 0 ∨
    ((first cpu).map Prod.fst ≠ some i ∧ (i = .supervisorExternal → line cpu = true →
      (cpu.cregs.load Address.mip).getLsbD Mask.seipBit = true))

theorem getLsbD_raisedMip (cpu : Cpu) {k : Nat} (hk : k < 64) : (raisedMip cpu).getLsbD k =
    ((line cpu && decide (k = Mask.seipBit)) || (cpu.cregs.load Address.mip).getLsbD k) := by
  unfold raisedMip
  split
  next hl =>
    rw [getLsbD_writeBit _ _ _ _ hk, hl]
    by_cases h : k = Mask.seipBit
    · simp [h]
    · simp [h]
  next hl => simp [hl]

theorem code_injective {i j : Interrupt} (h : i.code = j.code) : i = j := by
  cases i <;> cases j <;> simp [code] at h ⊢

theorem Chosen.getLsbD_mip {pending : Option Interrupt} (h : Chosen cpu pending after)
    {i : Interrupt} (hi : pending ≠ some i) :
    (after.cregs.load Address.mip).getLsbD i.code = (raisedMip cpu).getLsbD i.code := by
  have hk : i.code < 64 := by cases i <;> decide
  rw [h.mip]
  rw [h.pending] at hi
  cases hf : first cpu with
  | none => rfl
  | some p =>
    have hp := (mem_order_code (List.mem_of_find?_eq_some hf)).1
    have hne : i.code ≠ p.2 := by
      intro hc
      apply hi
      rw [hf, code_injective (hc.trans hp)]
      rfl
    simp only
    rw [getLsbD_writeBit _ _ _ _ hk, if_neg hne]

theorem held_iff {pending : Option Interrupt} {i : Interrupt} (hs : cpu.sleep = false)
    (hshield : Shielded cpu i) (h : getPendingInterrupt cpu = .ok (pending, after)) :
    Held cpu i pending after ↔ StaysPending cpu i := by
  have hk : i.code < 64 := by cases i <;> decide
  cases hm : masked cpu with
  | true =>
    have hnone := getPendingInterrupt_of_masked hm
    obtain ⟨rfl, rfl⟩ := Prod.mk.inj (Except.ok.inj (hnone.symm.trans h))
    refine iff_of_true ⟨by simp, rfl⟩ ?_
    rcases hshield.2 with hmode | ⟨hmode, _⟩
    · simp only [masked, hmode, Bool.and_eq_true, decide_eq_true_eq] at hm
      exact .inr (.inl hm.1)
    · exact .inl hmode
  | false =>
    have hmachine : cpu.mode = .machine := by
      rcases hshield.2 with hmode | ⟨hmode, hsie⟩
      · exact hmode
      · simp [masked, hmode, hsie, hs] at hm
    have hmie : cpu.cregs.readBitMstatus .mie ≠ 0 := by
      intro hz
      simp [masked, hmachine, hz, hs] at hm
    have hc := getPendingInterrupt_chosen hm h
    have hbit : i.code = Mask.seipBit ↔ i = .supervisorExternal :=
      ⟨fun hx => code_injective hx, fun hx => by rw [hx]; rfl⟩
    have hkeep : (raisedMip cpu).getLsbD i.code = (cpu.cregs.load Address.mip).getLsbD i.code ↔
        (i = .supervisorExternal → line cpu = true →
          (cpu.cregs.load Address.mip).getLsbD Mask.seipBit = true) := by
      rw [getLsbD_raisedMip cpu hk, ← hbit]
      by_cases hcode : i.code = Mask.seipBit
      · rw [hcode]
        cases line cpu <;> simp
      · simp [hcode]
    unfold Held StaysPending
    simp only [hmachine, hmie, false_or]
    rw [← hc.pending]
    constructor
    · rintro ⟨hne, hmip⟩
      refine .inr ⟨hne, hkeep.mp ?_⟩
      rw [← hc.getLsbD_mip hne]
      exact hmip
    · rintro (hx | ⟨hne, hline⟩)
      · cases hx
      · refine ⟨hne, ?_⟩
        rw [hc.getLsbD_mip hne]
        exact hkeep.mpr hline

open Cpu (Reached Turns)

/-- In every state of a run, what a delegated interrupt that must not be taken needs to
stay pending. -/
theorem reached_held_iff {start c : Cpu} {pending : Option Interrupt} {i : Interrupt}
    (hs : start.sleep = false) (hr : Reached start c) (hshield : Shielded c i)
    (h : getPendingInterrupt c = .ok (pending, after)) :
    Held c i pending after ↔ StaysPending c i :=
  held_iff (hr.sleep hs) hshield h

/-- Machine mode delegates, enables and raises its software interrupt for the Supervisor,
and then turns its own interrupts on. -/
def openFirmware : Cpu :=
  Cpu.ofImage [0x73, 0x50, 0x31, 0x30, 0x73, 0x50, 0x41, 0x30, 0x73, 0x50, 0x41, 0x34,
    0x73, 0x60, 0x04, 0x30] (by decide)

theorem openFirmware_reached : ∃ c after, Reached openFirmware c ∧ Shielded c .supervisorSoftware ∧
    getPendingInterrupt c = .ok (some .supervisorSoftware, after) := by
  have deleg := @Turns.insn openFirmware openFirmware [] ⟨0, .idle⟩ _ _ _ _ ⟨0x30315073⟩ _ .start rfl
    ⟨rfl, ⟨_, rfl, rfl⟩, rfl⟩ (by decide) rfl
  have enable := @Turns.insn _ openFirmware _ ⟨0, .idle⟩ _ _ _ _ ⟨0x30415073⟩ _ deleg rfl
    ⟨rfl, ⟨_, rfl, rfl⟩, rfl⟩ (by decide) rfl
  have raise := @Turns.insn _ openFirmware _ ⟨0, .idle⟩ _ _ _ _ ⟨0x34415073⟩ _ enable rfl
    ⟨rfl, ⟨_, rfl, rfl⟩, rfl⟩ (by decide) rfl
  have unmask := @Turns.insn _ openFirmware _ ⟨0, .idle⟩ _ _ _ _ ⟨0x30046073⟩ _ raise rfl
    ⟨rfl, ⟨_, rfl, rfl⟩, rfl⟩ (by decide) rfl
  exact ⟨_, _, .between unmask, ⟨rfl, .inl rfl⟩, rfl⟩

theorem reached_held_iff_openFirmware : ∃ c pending after, Reached openFirmware c ∧
    (Held c .supervisorSoftware pending after ↔ StaysPending c .supervisorSoftware) := by
  obtain ⟨c, after, hr, hshield, h⟩ := openFirmware_reached
  exact ⟨c, _, after, hr, reached_held_iff rfl hr hshield h⟩

theorem openFirmware_taken : ¬ ∀ (start c after : Cpu) (pending : Option Interrupt) (i : Interrupt),
    start.sleep = false → Reached start c → Shielded c i →
    getPendingInterrupt c = .ok (pending, after) → Held c i pending after := by
  intro h
  obtain ⟨c, after, hr, hshield, hp⟩ := openFirmware_reached
  exact (h openFirmware c after _ .supervisorSoftware rfl hr hshield hp).1 rfl

end Interrupt

end Rv64gcEmu
