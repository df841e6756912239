import Rv64gcEmu.InterruptChoice

namespace Rv64gcEmu

open Transition (Step Steps)

namespace ClintDevice

variable (c : ClintDevice) (csr : Csr) (milliseconds : Word)

theorem tick_mip : (c.tick csr milliseconds).2.load Address.mip =
    Helper.writeBit (if c.msip &&& 1 ≠ 0 then
        Helper.writeBit (csr.load Address.mip) Mask.msipBit 1 else csr.load Address.mip)
      Mask.mtipBit (if c.mtimecmp ≤ milliseconds * 1000 then 1 else 0) := by
  unfold tick
  simp only
  by_cases hm : c.msip &&& 1 ≠ 0
  · rw [if_pos hm, if_pos hm]
    split <;> rfl
  · rw [if_neg hm, if_neg hm]
    split <;> rfl

/-- A tick writes the bit of the timer, and sets that of the software interrupt. -/
theorem getLsbD_tick_mip {k : Nat} (hk : k < 64) :
    ((c.tick csr milliseconds).2.load Address.mip).getLsbD k =
      if k = Mask.mtipBit then decide (c.mtimecmp ≤ milliseconds * 1000)
      else if k = Mask.msipBit then c.msip.getLsbD 0 || (csr.load Address.mip).getLsbD k
      else (csr.load Address.mip).getLsbD k := by
  have hm : c.msip &&& 1 ≠ 0 ↔ c.msip.getLsbD 0 = true :=
    @and_one_shiftLeft_ne_zero 32 c.msip 0 (by decide)
  rw [tick_mip, getLsbD_writeBit _ _ _ _ hk]
  by_cases ht : k = Mask.mtipBit
  · rw [if_pos ht, if_pos ht]
    split
    next h => rw [decide_eq_true h]; rfl
    next h => rw [decide_eq_false h]; rfl
  · rw [if_neg ht, if_neg ht]
    split
    next h =>
      rw [getLsbD_writeBit _ _ _ _ hk, hm.mp h, Bool.true_or]
      split <;> simp
    next h =>
      rw [Bool.eq_false_iff.mpr fun hb => h (hm.mpr hb), Bool.false_or, ite_self]

/-- The lines behind a tick: each bit of `mip` is what its register says, the others are as
they were. -/
structure Mirrored (c : ClintDevice) (before after : Word) : Prop where
  software : after.getLsbD Mask.msipBit = c.msip.getLsbD 0
  timer : after.getLsbD Mask.mtipBit = decide (c.mtimecmp ≤ c.mtime)
  rest : ∀ k < 64, k ≠ Mask.msipBit → k ≠ Mask.mtipBit → after.getLsbD k = before.getLsbD k

/-- The software interrupt is asked for, or not pending. -/
def NotWithdrawn (mip : Word) : Prop :=
  c.msip.getLsbD 0 = true ∨ mip.getLsbD Mask.msipBit = false

theorem mirrored_iff : (c.tick csr milliseconds).1.Mirrored (csr.load Address.mip)
      ((c.tick csr milliseconds).2.load Address.mip) ↔
    c.NotWithdrawn (csr.load Address.mip) := by
  have hsoft : ((c.tick csr milliseconds).2.load Address.mip).getLsbD Mask.msipBit =
      (c.msip.getLsbD 0 || (csr.load Address.mip).getLsbD Mask.msipBit) :=
    c.getLsbD_tick_mip csr milliseconds (by decide)
  constructor
  · intro h
    have hs := hsoft.symm.trans h.software
    change (c.msip.getLsbD 0 || _) = c.msip.getLsbD 0 at hs
    unfold NotWithdrawn
    cases hm : c.msip.getLsbD 0 with
    | true => exact .inl rfl
    | false =>
      rw [hm, Bool.false_or] at hs
      exact .inr hs
  · intro h
    refine ⟨?_, c.getLsbD_tick_mip csr milliseconds (by decide), fun k hk hm ht => ?_⟩
    · rw [hsoft]
      rcases h with h | h
      · rw [h]
        exact h.symm
      · rw [h, Bool.or_false]
        rfl
    · rw [c.getLsbD_tick_mip csr milliseconds hk, if_neg ht, if_neg hm]

end ClintDevice

namespace Cpu

/-- The part of `Bus::tick_devices` that is about the CLINT. -/
def tickClint (cpu : Cpu) (milliseconds : Word) : Cpu :=
  let (clint, cregs) := cpu.bus.clint.tick cpu.cregs milliseconds
  (cpu.setBus { cpu.bus with clint := clint }).setCregs cregs

theorem tickDevices_clint (cpu : Cpu) (env : Env) : cpu.tickDevices env =
    if cpu.host.cpuTest then .ok cpu
    else match cpu.bus.gpu with
      | none => .error .undefined
      | some g => g.tick env.input >>= fun g =>
        let c := (cpu.setBus { cpu.bus with gpu := some g }).tickClint env.milliseconds
        if c.bus.virtio.isSome then VirtioBlkDevice.tick c else .ok c := rfl

end Cpu

/-- What may happen between the ticks, and the ticks with the time they read. -/
inductive LineEvent where
  | store (address value : Word) (length : Width)
  | csr (address : BitVec 12) (value : Word)
  | interrupt (pending : Option Interrupt)
  | tick (milliseconds : Word)

/-- The machine, and the time of the last tick. -/
structure LineRun where
  cpu : Cpu
  now : Word

namespace LineRun

def Next (s : LineRun) (e : LineEvent) (s' : LineRun) : Prop :=
  match e with
  | .store address value length =>
      Bus.store s.cpu address value length = .ok s'.cpu ∧ s'.now = s.now
  | .csr address value =>
      s'.cpu = s.cpu.setCregs (s.cpu.cregs.store address value) ∧ s'.now = s.now
  | .interrupt pending => ∃ polled, Interrupt.getPendingInterrupt s.cpu = .ok (pending, polled) ∧
      s'.cpu = polled.interrupted pending ∧ s'.now = s.now
  | .tick milliseconds =>
      s.now ≤ milliseconds ∧ s'.cpu = s.cpu.tickClint milliseconds ∧ s'.now = milliseconds

def mip (s : LineRun) : Word := s.cpu.cregs.load Address.mip

/-- Right after a tick the lines follow their registers. -/
def Follows (t : Step LineRun LineEvent) : Prop :=
  ∀ milliseconds, t.label = .tick milliseconds →
    t.after.cpu.bus.clint.Mirrored t.before.mip t.after.mip

/-- No tick meets a software interrupt that is pending and has been withdrawn. -/
def Kept (t : Step LineRun LineEvent) : Prop :=
  ∀ milliseconds, t.label = .tick milliseconds →
    t.before.cpu.bus.clint.NotWithdrawn t.before.mip

theorem Next.follows_iff {s s' : LineRun} {e : LineEvent} (h : Next s e s') :
    Follows ⟨s, e, s'⟩ ↔ Kept ⟨s, e, s'⟩ := by
  refine forall_congr' fun milliseconds => forall_congr' fun he => ?_
  change e = .tick milliseconds at he
  subst he
  obtain ⟨_, hc, _⟩ := h
  have hmip : s'.mip =
      (s.cpu.bus.clint.tick s.cpu.cregs milliseconds).2.load Address.mip := by
    unfold mip
    rw [hc]
    rfl
  have hclint : s'.cpu.bus.clint = (s.cpu.bus.clint.tick s.cpu.cregs milliseconds).1 := by
    rw [hc]
    rfl
  simp only
  rw [hmip, hclint]
  exact s.cpu.bus.clint.mirrored_iff s.cpu.cregs milliseconds

/-- Along a run all ticks leave the lines as their registers are, exactly when none meets a
software interrupt that is still pending though its register is clear. -/
theorem lines_iff (start s : LineRun) (steps : List (Step LineRun LineEvent))
    (run : Steps Next start steps s) :
    (∀ t ∈ steps, Follows t) ↔ ∀ t ∈ steps, Kept t :=
  run.forall_iff (I := fun _ => True) (fun _ _ _ h _ => h.follows_iff) (fun _ _ _ _ _ _ => trivial)
    trivial

/-- The guest asks for a software interrupt, and withdraws it after a tick. -/
theorem withdrawn_run : ∃ steps s, Steps Next ⟨Interrupt.openFirmware, 0⟩ steps s ∧
    ∃ t ∈ steps, t.label = .tick 0 ∧ t.after.cpu.bus.clint.msip = 0 ∧
      t.after.mip.getLsbD Mask.msipBit = true := by
  have ask := @Steps.step _ _ Next ⟨Interrupt.openFirmware, 0⟩ _ _ ⟨_, _⟩
    (.store ClintCfg.msipAddr 1 .w32) .start ⟨rfl, rfl⟩
  have raise := @Steps.step _ _ Next _ _ _ ⟨_, _⟩ (.tick 0) ask ⟨by decide, rfl, rfl⟩
  have withdraw := @Steps.step _ _ Next _ _ _ ⟨_, _⟩
    (.store ClintCfg.msipAddr 0 .w32) raise ⟨rfl, rfl⟩
  have again := @Steps.step _ _ Next _ _ _ ⟨_, _⟩ (.tick 0) withdraw ⟨by decide, rfl, rfl⟩
  exact ⟨_, _, again, _, List.mem_cons_self, rfl, rfl, rfl⟩

theorem lines_iff_withdrawn : ∃ steps s, Steps Next ⟨Interrupt.openFirmware, 0⟩ steps s ∧
    ((∀ t ∈ steps, Follows t) ↔ ∀ t ∈ steps, Kept t) := by
  obtain ⟨steps, s, run, _⟩ := withdrawn_run
  exact ⟨steps, s, run, lines_iff _ _ _ run⟩

theorem withdrawn_delivered : ¬ ∀ (start s : LineRun) (steps : List (Step LineRun LineEvent)),
    Steps Next start steps s → ∀ t ∈ steps, Follows t := by
  intro h
  obtain ⟨steps, s, run, t, ht, htick, hmsip, hmip⟩ := withdrawn_run
  have hf := (h _ s steps run t ht 0 htick).software
  rw [hmip, hmsip] at hf
  exact absurd hf (by decide)

end LineRun

end Rv64gcEmu
