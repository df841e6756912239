import Rv64gcEmu.ClintLines
import Rv64gcEmu.InterruptTaken
import Rv64gcEmu.UserExit

open Transition

namespace Rv64gcEmu

open Trap (Cause)

namespace Cpu

variable {cpu c : Cpu} {env : Env}

/-- The host clock has reached the time that the timer is set for. -/
def Due (cpu : Cpu) (env : Env) : Prop := cpu.bus.clint.mtimecmp ≤ env.milliseconds * 1000

theorem tickClint_timer (cpu : Cpu) (milliseconds : Word) :
    ((cpu.tickClint milliseconds).cregs.load Address.mip).getLsbD Mask.mtipBit =
      decide (cpu.bus.clint.mtimecmp ≤ milliseconds * 1000) :=
  (cpu.bus.clint.getLsbD_tick_mip cpu.cregs milliseconds (by decide)).trans (if_pos rfl)

/-- The line of the timer follows the clock of the host. -/
theorem tickDevices_timer (ht : cpu.host.cpuTest = false) (h : cpu.tickDevices env = .ok c) :
    (c.cregs.load Address.mip).getLsbD Mask.mtipBit = true ↔ cpu.Due env := by
  rw [tickDevices_clint, if_neg (by simp [ht])] at h
  split at h
  next => cases h
  next g _ =>
    obtain ⟨g', _, h⟩ := Except.bind_eq_ok_iff.mp h
    simp only at h
    split at h
    next =>
      rw [(VirtioBlkDevice.tick_busOnly h).cregs, tickClint_timer, decide_eq_true_eq]
      rfl
    next =>
      cases Except.ok.inj h
      rw [tickClint_timer, decide_eq_true_eq]
      rfl

end Cpu

namespace Interrupt

variable {cpu : Cpu}

/-- The timer of Machine level, and what comes before it. -/
def upToTimer : List Interrupt := [.machineExternal, .machineSoftware, .machineTimer]

/-- With the timer enabled and pending, only the two before it can be taken in its place. -/
theorem first_of_timer (he : (cpu.cregs.load Address.mie).getLsbD Mask.mtipBit = true)
    (hp : (cpu.cregs.load Address.mip).getLsbD Mask.mtipBit = true) :
    ∃ p, first cpu = some p ∧ p.1 ∈ upToTimer := by
  have hbit : cpu.cregs.load Address.mie &&& raisedMip cpu &&& (1#64 <<< Mask.mtipBit) ≠ 0 := by
    rw [and_one_shiftLeft_ne_zero (by decide), BitVec.getLsbD_and, he,
      getLsbD_raisedMip cpu (by decide), hp]
    simp
  unfold first order
  simp only [List.find?_cons]
  split
  next => exact ⟨_, rfl, by decide⟩
  next =>
    split
    next => exact ⟨_, rfl, by decide⟩
    next => exact ⟨(.machineTimer, Mask.mtipBit), by simp only [decide_eq_true hbit], by decide⟩

/-- The timer is taken only when it is pending. -/
theorem timer_of_first {p : Interrupt × Nat} (h : first cpu = some p) (hi : p.1 = .machineTimer) :
    (cpu.cregs.load Address.mip).getLsbD Mask.mtipBit = true := by
  have hmem := List.mem_of_find?_eq_some h
  have hbit := List.find?_some h
  obtain ⟨hcode, hlt⟩ := mem_order_code hmem
  have hk : p.2 = Mask.mtipBit := by
    rw [hcode, hi]
    rfl
  rw [decide_eq_true_eq, and_one_shiftLeft_ne_zero hlt, BitVec.getLsbD_and, Bool.and_eq_true,
    getLsbD_raisedMip cpu hlt, hk] at hbit
  have hne : Mask.mtipBit ≠ Mask.seipBit := by decide
  simpa [hne] using hbit.2

end Interrupt

namespace Cpu

/-- The code that ran is left for a handler of the start, from which it can go on. -/
structure HandedOver (start cpu : Cpu) (i : Interrupt) (handler : Cpu) : Prop
    extends AtHandler start cpu (.interrupt i) 0 handler where
  regs : handler.regs = cpu.regs
  fregs : handler.fregs = cpu.fregs
  ram : handler.bus.ram = cpu.bus.ram

theorem HandedOver.of_ticked {start cpu c handler : Cpu} {i : Interrupt}
    (h : HandedOver start c i handler) (hab : Ticked cpu c) : HandedOver start cpu i handler where
  toAtHandler := h.toAtHandler.of_same hab.pc hab.mode
  regs := h.regs.trans hab.regs
  fregs := h.fregs.trans hab.fregs
  ram := h.ram.trans hab.ram

end Cpu

namespace Inside

open Cpu (Env HandedOver)

variable {start cpu c polled : Cpu} {env : Env} {pending : Option Interrupt} {i : Interrupt}

theorem handedOver (h : Inside start cpu) (hu : cpu.mode = .user) (i : Interrupt) :
    HandedOver start cpu i (cpu.interrupted (some i)) := by
  have hframe := Cpu.interrupted_frame cpu (some i)
  exact ⟨h.atHandler hu (.interrupt i), hframe.regs, hframe.fregs, congrArg Bus.ram hframe.bus⟩

/-- A poll of user code gives the timer, or what comes before it, when the timer is due, and it gives
the timer only then. -/
theorem poll_timer (h : Inside start cpu) (hu : cpu.mode = .user) (ht : cpu.host.cpuTest = false)
    (he : (start.cregs.load Address.mie).getLsbD Mask.mtipBit = true)
    (hp : cpu.poll env = .ok (pending, polled)) :
    (start.Due env → ∃ i ∈ Interrupt.upToTimer, pending = some i) ∧
      (pending = some .machineTimer → start.Due env) := by
  obtain ⟨c, hc, hp⟩ := Except.bind_eq_ok_iff.mp hp
  have hline := Cpu.tickDevices_timer (by exact ht) hc
  have hinside : Inside start c :=
    h.of_ticked ((Cpu.cycle_ticked cpu).trans (Cpu.tickDevices_ticked (by exact h.idle) hc))
  have hdue : (c.cregs.load Address.mip).getLsbD Mask.mtipBit = true ↔ start.Due env := by
    rw [hline]
    unfold Cpu.Due
    rw [← h.timer]
    rfl
  have hmasked : Interrupt.masked c = false := by
    unfold Interrupt.masked
    rw [hinside.mode, ← h.mode, hu]
  have hpending := (Interrupt.getPendingInterrupt_chosen hmasked hp).pending
  rw [hpending]
  constructor
  · intro hd
    have hmie : c.cregs.load Address.mie = start.cregs.load Address.mie :=
      hinside.csr Address.mie (by decide) (by decide)
    obtain ⟨q, hq, hi⟩ := Interrupt.first_of_timer (by rw [hmie, he]) (hdue.mpr hd)
    exact ⟨q.1, hi, by rw [hq]; rfl⟩
  · intro hi
    obtain ⟨q, hq, hi⟩ := Option.map_eq_some_iff.mp hi
    exact hdue.mp (Interrupt.timer_of_first hq hi)

end Inside

namespace Cpu

variable {start cpu : Cpu} {turns : List (Step Cpu Phases)}

/-- User code has the processor until the timer is due and no longer: none of its turns begins after
that, and the next turn goes to a handler of the start, whatever the code has done. -/
theorem user_preempted (hs : Sandbox start) (ht : start.host.cpuTest = false)
    (he : (start.cregs.load Address.mie).getLsbD Mask.mtipBit = true)
    (run : Turns start turns cpu) (hu : ∀ t ∈ turns, t.label.InUser) :
    (∀ t ∈ turns, ¬start.Due t.label.env) ∧
    (cpu.mode = .user → ∀ env,
      (start.Accepts env → start.Due env → ∃ i ∈ Interrupt.upToTimer, ∃ polled,
        cpu.poll env = .ok (some i, polled) ∧
          HandedOver start cpu i (polled.interrupted (some i))) ∧
      ∀ polled, cpu.poll env = .ok (some .machineTimer, polled) → start.Due env) := by
  have hhost : ∀ {earlier : List (Step Cpu Phases)} {c : Cpu}, Turns start earlier c →
      c.host.cpuTest = false := fun hrun => by rw [hrun.host, ht]
  constructor
  · intro t hmem hdue
    obtain ⟨later, earlier, rfl⟩ := List.append_of_mem hmem
    obtain ⟨hrun, hturn⟩ := run.of_suffix ⟨later, rfl⟩
    have hmode := hturn.before_user (hu t hmem)
    have hinside := (Turns.inside hs hrun fun t' ht' => hu t' (by simp [ht'])).2 hmode
    obtain ⟨i, _, hi⟩ := (hinside.poll_timer hmode (hhost hrun) he hturn.poll).1 hdue
    rw [(hu t hmem).pending] at hi
    cases hi
  · intro hmode env
    have hinside := (Turns.inside hs run hu).2 hmode
    refine ⟨fun ha hdue => ?_, fun polled hp => (hinside.poll_timer hmode (hhost run) he hp).2 rfl⟩
    have haccepts : cpu.Accepts env := by
      unfold Accepts
      rw [run.host, hinside.console]
      exact ha
    obtain ⟨pending, polled, hp⟩ := poll_ok hinside.idle haccepts
    obtain ⟨i, hi, rfl⟩ := (hinside.poll_timer hmode (hhost run) he hp).1 hdue
    have hticked := poll_ticked hinside.idle hp
    exact ⟨i, hi, polled, hp, ((hinside.of_ticked hticked).handedOver
      (hticked.mode.trans hmode) i).of_ticked hticked⟩

/-- The first instruction of the page is executed, and then the timer is due. -/
theorem user_preempted_timer : ∃ turns cpu i polled, Turns Mmu.userPage turns cpu ∧
    turns.length = 1 ∧ cpu.poll ⟨1, .idle⟩ = .ok (some i, polled) ∧
    HandedOver Mmu.userPage cpu i (polled.interrupted (some i)) := by
  have auipc := @Turns.insn Mmu.userPage Mmu.userPage [] ⟨0, .idle⟩ _ _ _ _ ⟨0x317⟩ _ .start rfl
    ⟨rfl, ⟨_, rfl, rfl⟩, rfl⟩ (by decide) rfl
  have h := (user_preempted Mmu.userPage_sandbox rfl (by decide) auipc fun t ht => ?_).2 rfl
    ⟨1, .idle⟩
  · have hdue : Mmu.userPage.Due ⟨1, .idle⟩ := by
      unfold Due
      decide
    obtain ⟨i, _, polled, hp, hhanded⟩ := h.1 (.inr ⟨rfl, by decide⟩) hdue
    exact ⟨_, _, i, polled, auipc, rfl, hp, hhanded⟩
  · obtain rfl := List.mem_singleton.mp ht
    exact @Phases.InUser.of_fetched _ _ ⟨0x317⟩ rfl ⟨rfl, ⟨_, rfl, rfl⟩, rfl⟩
      fun h => absurd h (by decide)

end Cpu

end Rv64gcEmu
