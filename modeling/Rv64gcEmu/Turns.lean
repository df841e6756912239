import Rv64gcEmu.Run
import Rv64gcEmu.Transition

namespace Rv64gcEmu

open Transition (Step Steps)

namespace Cpu

/-- What happens in one turn of `loop`: what the poll gives, and what `_loop` leaves. -/
structure Phases where
  env : Env
  pending : Option Interrupt
  polled : Cpu
  size : Word
  executed : Cpu

/-- The state in which `_loop` starts to fetch. -/
def Phases.fetching (p : Phases) : Cpu := p.polled.interrupted p.pending

/-- The instruction that the turn executes, from the state that its fetch left. -/
def Phases.Executes (p : Phases) (c : Cpu) (d : Decoder) : Prop := p.fetching.Fetched c d ∧ d.insn ≠ 0

/-- The beginning of a turn: the cycle counter and the devices move on. -/
def ticked (cpu : Cpu) (env : Env) : HostM Cpu :=
  tickDevices (cpu.setCregs (cpu.cregs.store Address.cycle (cpu.cregs.load Address.cycle + 1))) env

/-- One turn of `loop`. -/
structure Turn (before : Cpu) (p : Phases) (after : Cpu) : Prop where
  poll : before.poll p.env = .ok (p.pending, p.polled)
  loop : p.fetching._loop = .ok (p.size, p.executed)
  finish : p.executed.finish p.size = after

theorem loop_iff_turn {before after : Cpu} {env : Env} :
    before.loop env = .ok after ↔ ∃ p, p.env = env ∧ Turn before p after := by
  rw [loop_phases]
  constructor
  · rintro ⟨i, c, size, c', hp, hl, hf⟩
    exact ⟨⟨env, i, c, size, c'⟩, rfl, hp, hl, hf⟩
  · rintro ⟨p, rfl, h⟩
    exact ⟨p.pending, p.polled, p.size, p.executed, h.poll, h.loop, h.finish⟩

/-- The runs of `loop`, each with its turns, the last one first. -/
abbrev Turns (start : Cpu) : List (Step Cpu Phases) → Cpu → Prop := Steps Turn start

variable {before after : Cpu} {p : Phases}

/-- Everything one turn can do once the devices and the interrupts have been looked at. -/
inductive Turn.Outcome (p : Phases) : Prop
  | asleep (hs : p.fetching.sleep = true) (hz : p.size = 0) (h : p.executed = p.fetching.setReg 0 0)
  | noInsn (hz : p.size = 4) (he : p.executed.excVal.isSome)
      (h : CoreEq (p.fetching.setReg 0 0) p.executed) (hx : ∀ c d, ¬p.Executes c d)
  | insn {c : Cpu} {d : Decoder} (hx : p.Executes c d) (h : c.execute d = .ok (p.size, p.executed))

theorem Turn.outcome (h : Turn before p after) : Turn.Outcome p := by
  obtain ⟨hs, hz, he⟩ | ⟨_, hz, he, v, hf⟩ | ⟨c, d, hf, hd, hz, he⟩ | ⟨c, d, hf, hd, he⟩ :=
    loop_cases h.loop
  · exact .asleep hs hz he
  · refine .noInsn hz he (Mmu.fetch_coreEq hf) ?_
    rintro c d ⟨hx, _⟩
    obtain ⟨v', hf', _⟩ := hx.fetch
    obtain ⟨_, rfl⟩ := Prod.mk.inj (Except.ok.inj (hf'.symm.trans hf))
    rw [hx.exc] at he
    cases he
  · refine .noInsn hz (by rw [he]; rfl) (he ▸ hf.coreEq.trans (.setException c _ _)) ?_
    rintro c' d' ⟨hx, hd'⟩
    obtain ⟨rfl, rfl⟩ := hf.unique hx
    exact hd' hd
  · exact .insn ⟨hf, hd⟩ he

/-- One more turn, which executes an instruction. -/
theorem Turns.insn {start : Cpu} {turns : List (Step Cpu Phases)} {env : Env} {i : Option Interrupt}
    {polled c executed : Cpu} {d : Decoder} {size : Word} (run : Turns start turns before)
    (hp : before.poll env = .ok (i, polled)) (hf : (polled.interrupted i).Fetched c d)
    (hd : d.insn ≠ 0) (h : c.execute d = .ok (size, executed)) :
    Turns start (⟨before, ⟨env, i, polled, size, executed⟩, executed.finish size⟩ :: turns)
      (executed.finish size) :=
  .step run ⟨hp, (loop_of_fetched hf hd).trans h, rfl⟩

theorem poll_eq (cpu : Cpu) (env : Env) :
    cpu.poll env = cpu.ticked env >>= Interrupt.getPendingInterrupt := rfl

theorem ticked_polled {cpu c : Cpu} {env : Env} (h : cpu.ticked env = .ok c) : Polled cpu c :=
  (Polled.setCregs cpu fun _ hc _ _ => Csr.store_of_ne hc _).trans (tickDevices_polled h)

theorem Phases.Executes.unique {c c' : Cpu} {d d' : Decoder} (h : p.Executes c d)
    (h' : p.Executes c' d') : c' = c ∧ d' = d := h.1.unique h'.1

theorem Phases.Executes.forall_iff {c : Cpu} {d : Decoder} {P : Cpu → Decoder → Prop}
    (h : p.Executes c d) : (∀ c d, p.Executes c d → P c d) ↔ P c d := by
  refine ⟨fun hp => hp c d h, fun hp c' d' h' => ?_⟩
  obtain ⟨rfl, rfl⟩ := h.unique h'
  exact hp

theorem Phases.not_executes_of_asleep (hs : p.fetching.sleep = true) (c : Cpu) (d : Decoder) :
    ¬p.Executes c d := by
  intro h
  have hawake := h.1.awake
  rw [hs] at hawake
  cases hawake

theorem execute_host {c c' : Cpu} {d : Decoder} {size : Word} (h : c.execute d = .ok (size, c')) :
    c'.host = c.host := by
  cases execute_ran h with
  | plain _ _ h => exact h.frame.host
  | atomic _ _ h => exact (Atomic.funct3_frame h).host
  | csr _ _ h => exact h ▸ (CsrInsn.funct3_frame c d).host

theorem execute_sleep {c c' : Cpu} {d : Decoder} {size : Word} (h : c.execute d = .ok (size, c')) :
    c'.sleep = c.sleep := by
  cases execute_ran h with
  | plain _ _ h => exact h.frame.sleep
  | atomic _ _ h => exact (Atomic.funct3_frame h).sleep
  | csr _ _ h => exact h ▸ (CsrInsn.funct3_frame c d).sleep

theorem finish_sleep {cpu : Cpu} (hs : cpu.sleep = false) (size : Word) :
    (cpu.finish size).sleep = false := by
  cases he : cpu.excVal with
  | some e =>
    have hp : (Exception.process cpu e).sleep = false := by
      unfold Exception.process Trap.enter
      simp only
      split
      next => rfl
      next => rfl
    rcases finish_of_exception he size with hf | hf
    · rw [hf]
      exact hp
    · rw [hf]
      exact hp
  | none =>
    rw [finish_of_none he]
    exact hs

theorem interrupted_sleep {cpu : Cpu} (hs : cpu.sleep = false) (i : Option Interrupt) :
    (cpu.interrupted i).sleep = false := by
  cases i with
  | none => exact hs
  | some i =>
    unfold interrupted Interrupt.process Trap.enter
    simp only
    split
    next => rfl
    next => rfl

/-- Nothing puts the hart to sleep. -/
theorem Turn.sleep (h : Turn before p after) (hs : before.sleep = false) : after.sleep = false := by
  have hf : p.fetching.sleep = false :=
    interrupted_sleep ((poll_polled h.poll).sleep.trans hs) p.pending
  rw [← h.finish]
  refine finish_sleep ?_ p.size
  cases h.outcome with
  | asleep _ _ he => rw [he]; exact hf
  | noInsn _ _ hc _ => exact hc.sleep.trans hf
  | insn hx he => exact (execute_sleep he).trans (hx.1.coreEq.sleep.trans hf)

theorem Turn.fetching_host (h : Turn before p after) : p.fetching.host = before.host :=
  (interrupted_frame _ _).host.trans (poll_polled h.poll).host

theorem Turn.executed_host (h : Turn before p after) : p.executed.host = before.host := by
  rw [← h.fetching_host]
  cases h.outcome with
  | asleep _ _ he => rw [he]; rfl
  | noInsn _ _ hc _ => exact hc.host
  | insn hx he => exact (execute_host he).trans hx.1.coreEq.host

theorem Turn.host (h : Turn before p after) : after.host = before.host :=
  (congrArg Cpu.host h.finish.symm).trans ((finish_frame _ _).host.trans h.executed_host)

theorem Turns.host {start cpu : Cpu} {turns : List (Step Cpu Phases)} (run : Turns start turns cpu) :
    cpu.host = start.host :=
  run.always (I := fun c => c.host = start.host) (fun _ _ _ h hs => h.host.trans hs) rfl

/-- A state of a run, between two turns or where a turn asks for an interrupt. -/
inductive Reached (start : Cpu) : Cpu → Prop
  | between {turns : List (Step Cpu Phases)} {cpu : Cpu} (run : Turns start turns cpu) :
      Reached start cpu
  | ticked {turns : List (Step Cpu Phases)} {cpu c : Cpu} {env : Env} (run : Turns start turns cpu)
      (h : cpu.ticked env = .ok c) : Reached start c

theorem Reached.sleep {start c : Cpu} (hs : start.sleep = false) (h : Reached start c) :
    c.sleep = false := by
  have hrun : ∀ {turns : List (Step Cpu Phases)} {cpu : Cpu}, Turns start turns cpu →
      cpu.sleep = false := fun run =>
      run.always (I := fun c => c.sleep = false) (fun _ _ _ h hs => h.sleep hs) hs
  cases h with
  | between run => exact hrun run
  | ticked run h => exact (ticked_polled h).sleep.trans (hrun run)

end Cpu

end Rv64gcEmu
