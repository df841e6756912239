import Rv64gcEmu.FloatEffect
import Rv64gcEmu.SystemStep
import Rv64gcEmu.Turns

namespace Rv64gcEmu

open BitField (getLsbD_zero_add getLsbD_zero_sub)
open Transition (Step Steps)

theorem Trap.Cause.target_even (cause : Cause) (tvec : Word) :
    (cause.target tvec).getLsbD 0 = false := by
  have hbase : (tvec &&& ~~~3).getLsbD 0 = false := by
    rw [BitVec.getLsbD_and, BitVec.getLsbD_not]
    simp
  cases cause with
  | exception e => exact hbase
  | interrupt i =>
    have hoff : (if tvec.getLsbD 0 then 4 * BitVec.ofNat 64 i.code else (0 : Word)).getLsbD 0 = false := by
      split
      next => cases i <;> rfl
      next => rfl
    unfold target
    simp only
    rw [getLsbD_zero_add, hbase, hoff]
    rfl

theorem process_even (before : Cpu) (cause : Trap.Cause) :
    (cause.process before).pc.getLsbD 0 = false := by
  rw [(Trap.process_taken before cause).pc]
  exact cause.target_even _

/-- The instruction goes to an address that it takes as it is: `C.JR` and `C.JALR` from a
register, a legal return from the `epc` of its level. -/
def Decoder.Target (d : Decoder) (cpu : Cpu) (target : Word) : Prop :=
  (∃ r, d.jumpReg = some r ∧ target = cpu.regs r) ∨
    ∃ level : Level, d.returns level ∧ level.MayReturn cpu ∧ target = (level.regs cpu.cregs).epc

def Decoder.OddTarget (d : Decoder) (cpu : Cpu) : Prop :=
  ∃ target, d.Target cpu target ∧ target.getLsbD 0 = true

namespace Decoder

variable {d : Decoder} {cpu : Cpu}

theorem insnSize_of_jumpReg {r : BitVec 5} (h : d.jumpReg = some r) : d.insnSize = 2 := by
  unfold jumpReg at h
  split at h
  next hd => exact hd.1
  next => cases h

theorem insnSize_of_returns {level : Level} (h : d.returns level = true) : d.insnSize = 4 := by
  simp only [returns, isCsr, Bool.and_eq_true, decide_eq_true_eq] at h
  exact h.1.1.1.1

theorem Target.unique {a b : Word} (h : d.Target cpu a) (h' : d.Target cpu b) : b = a := by
  rcases h with ⟨r, hr, rfl⟩ | ⟨level, hl, _, rfl⟩
  · rcases h' with ⟨r', hr', rfl⟩ | ⟨level, hl, _, _⟩
    · cases Option.some.inj (hr.symm.trans hr')
      rfl
    · have h2 := (insnSize_of_jumpReg hr).symm.trans (insnSize_of_returns hl)
      simp at h2
  · rcases h' with ⟨r', hr', _⟩ | ⟨other, ho, _, rfl⟩
    · have h2 := (insnSize_of_jumpReg hr').symm.trans (insnSize_of_returns hl)
      simp at h2
    · rw [returns_unique hl ho]

theorem Target.not_odd {target : Word} (h : d.Target cpu target) :
    target.getLsbD 0 = false ↔ ¬d.OddTarget cpu := by
  constructor
  · rintro he ⟨target', h', ho⟩
    obtain rfl := h.unique h'
    rw [he] at ho
    cases ho
  · intro hn
    by_contra ho
    rw [Bool.not_eq_false] at ho
    exact hn ⟨target, h, ho⟩

end Decoder

namespace Cpu

/-- Where an instruction goes: to its target, or by an even distance or to an even
address. -/
inductive Goes (cpu : Cpu) (d : Decoder) (size : Word) (after : Cpu) : Prop
  | target {target : Word} (ht : d.Target cpu target) (hpc : after.pc + size = target)
      (he : after.excVal = cpu.excVal)
  | even (ht : ∀ target, ¬d.Target cpu target) (hpc : cpu.pc.getLsbD 0 = false → after.pc.getLsbD 0 = false)

variable {cpu after : Cpu} {d : Decoder}

theorem execute16_goes (hs : d.insnSize = 2) (h : cpu.execute16 d = .ok after) :
    Goes cpu d 2 after := by
  cases hj : d.jumpReg with
  | some r =>
    obtain ⟨hpc, _, _, he⟩ := execute16_jump hj h
    refine .target (.inl ⟨r, hj, rfl⟩) ?_ he
    rw [hpc, BitVec.sub_add_cancel]
  | none =>
    have hno : ∀ target, ¬d.Target cpu target := by
      rintro target (⟨r, hr, _⟩ | ⟨level, hl, _⟩)
      · rw [hj] at hr
        cases hr
      · have h4 := hs.symm.trans (Decoder.insnSize_of_returns hl)
        simp at h4
    refine .even hno fun hpc => ?_
    cases hl : d.isFloatLoad16 with
    | true =>
      obtain ⟨_, rd, v, c, hload, rfl⟩ := execute16_floatLoad hl h
      rw [setFreg_pc, (Mmu.load_coreEq hload).pc]
      exact hpc
    | false =>
      rw [(execute16_integral hs hl hj h).pc]
      exact hpc

theorem execute32_goes (hs : d.insnSize = 4) (h : cpu.execute32 d = .ok after) :
    Goes cpu d 4 after := by
  have hjump : d.jumpReg = none := by
    cases hj : d.jumpReg with
    | none => rfl
    | some r =>
      have h2 := hs.symm.trans (Decoder.insnSize_of_jumpReg hj)
      simp at h2
  by_cases hcsr : d.opcodeType = some .csr
  · have hd : d.isCsr = true := by simp [Decoder.isCsr, hs, hcsr]
    have hx : after = CsrInsn.funct3 cpu d := by
      unfold execute32 at h
      rw [hcsr] at h
      exact (Except.ok.inj h).symm
    subst hx
    rcases CsrInsn.funct3_cases hd with ⟨level, hl, hok, hret⟩ | ⟨hno, hin⟩
    · refine .target (.inr ⟨level, hl, hok, rfl⟩) ?_ hret.excVal
      rw [hret.pc, BitVec.sub_add_cancel]
    · refine .even ?_ fun hpc => ?_
      · rintro target (⟨r, hr, _⟩ | ⟨level, hl, hok, _⟩)
        · rw [hjump] at hr
          cases hr
        · exact hno level hl hok
      · rw [hin.pc]
        exact hpc
  · have hno : ∀ target, ¬d.Target cpu target := by
      rintro target (⟨r, hr, _⟩ | ⟨level, hl, _⟩)
      · rw [hjump] at hr
        cases hr
      · simp only [Decoder.returns, Decoder.isCsr, Bool.and_eq_true, decide_eq_true_eq] at hl
        exact hcsr hl.1.1.1.2
    refine .even hno fun hpc => ?_
    by_cases hjalr : d.opcodeType = some .jalr
    · unfold execute32 at h
      rw [hjalr] at h
      exact (Jalr.jalr_pc h).2.2
    · cases hf : d.opcodeType.any OpcodeType.isFloat with
      | true =>
        rw [(execute32_floatOnly hf h).pc]
        exact hpc
      | false =>
        rw [(execute32_integral hf hcsr hjalr h).pc]
        exact hpc

theorem execute_goes {size : Word} (h : cpu.execute d = .ok (size, after)) :
    Goes cpu d size after ∧ size.getLsbD 0 = false := by
  rcases execute_cases h with ⟨hs, rfl, hx⟩ | ⟨hs, rfl, hx⟩
  · exact ⟨execute16_goes hs hx, rfl⟩
  · exact ⟨execute32_goes hs hx, rfl⟩

theorem finish_even_of_exception {size : Word} (h : cpu.excVal.isSome) :
    (cpu.finish size).pc.getLsbD 0 = false := by
  obtain ⟨e, he⟩ := Option.isSome_iff_exists.mp h
  have hp := process_even cpu (.exception e)
  rcases finish_of_exception he size with hf | hf
  · rw [hf]
    exact hp
  · rw [hf]
    exact hp

theorem finish_even {size : Word} (hpc : cpu.pc.getLsbD 0 = false) (hs : size.getLsbD 0 = false) :
    (cpu.finish size).pc.getLsbD 0 = false := by
  cases he : cpu.excVal with
  | some e => exact finish_even_of_exception (by rw [he]; rfl)
  | none =>
    rw [finish_of_none he, setPc_pc, getLsbD_zero_add, hpc, hs]
    rfl

theorem execute_even_iff {size : Word} (hpc : cpu.pc.getLsbD 0 = false) (he : cpu.excVal = none)
    (h : cpu.execute d = .ok (size, after)) :
    (after.finish size).pc.getLsbD 0 = false ↔ ¬d.OddTarget cpu := by
  obtain ⟨hgoes, hs⟩ := execute_goes h
  cases hgoes with
  | @target target ht hp hx =>
    rw [finish_of_none (hx.trans he), setPc_pc, hp]
    exact ht.not_odd
  | even ht hp =>
    refine ⟨fun _ => ?_, fun _ => finish_even (hp hpc) hs⟩
    rintro ⟨target, h', _⟩
    exact ht target h'

/-- The turn starts, fetches and ends at even addresses. -/
structure Aligned (t : Step Cpu Phases) : Prop where
  before : t.before.pc.getLsbD 0 = false
  fetching : t.label.fetching.pc.getLsbD 0 = false
  after : t.after.pc.getLsbD 0 = false

theorem fetching_even_iff {before after : Cpu} {p : Phases} (h : Turn before p after) :
    p.fetching.pc.getLsbD 0 = false ↔ (p.pending = none → before.pc.getLsbD 0 = false) := by
  unfold Phases.fetching
  cases p.pending with
  | none =>
    change p.polled.pc.getLsbD 0 = false ↔ _
    rw [(poll_polled h.poll).pc]
    exact ⟨fun he _ => he, fun he => he rfl⟩
  | some i => exact iff_of_true (process_even p.polled (.interrupt i)) (fun hnone => by cases hnone)

theorem after_even_iff {before after : Cpu} {p : Phases} (h : Turn before p after)
    (hfetching : p.fetching.pc.getLsbD 0 = false) :
    after.pc.getLsbD 0 = false ↔ ∀ c d, p.Executes c d → ¬d.OddTarget c := by
  rw [← h.finish]
  cases h.outcome with
  | asleep hs hz he =>
    refine ⟨fun _ c d hx => absurd hx (p.not_executes_of_asleep hs c d), fun _ => ?_⟩
    refine finish_even ?_ (by rw [hz]; rfl)
    rw [he]
    exact hfetching
  | noInsn _ he _ hno =>
    exact ⟨fun _ c d hx => absurd hx (hno c d), fun _ => finish_even_of_exception he⟩
  | @insn c d hx he =>
    have hcpc : c.pc.getLsbD 0 = false := by
      rw [hx.1.coreEq.pc]
      exact hfetching
    rw [hx.forall_iff]
    exact execute_even_iff hcpc hx.1.exc he

theorem turn_aligned {before after : Cpu} {p : Phases} (h : Turn before p after)
    (hpc : before.pc.getLsbD 0 = false) :
    Aligned ⟨before, p, after⟩ ↔ ∀ c d, p.Executes c d → ¬d.OddTarget c := by
  have hfetching := (fetching_even_iff h).mpr fun _ => hpc
  rw [← after_even_iff h hfetching]
  exact ⟨fun ha => ha.after, fun ha => ⟨hpc, hfetching, ha⟩⟩

/-- `pc` is even at every fetch of a run, exactly when no odd target is taken but in the last turn or
right before an interrupt, whose handler is at an even address. -/
theorem fetches_even_iff {start cpu : Cpu} {turns : List (Step Cpu Phases)}
    (hpc : start.pc.getLsbD 0 = false) (run : Turns start turns cpu) :
    (∀ t earlier, t :: earlier <:+ turns → t.label.fetching.pc.getLsbD 0 = false) ↔
      ∀ t earlier, t :: earlier <:+ turns → t.label.pending = none →
        ∀ t₀ ∈ earlier.head?, ∀ c d, t₀.label.Executes c d → ¬d.OddTarget c := by
  refine Steps.forall_past_iff (I := fun earlier s => s.pc.getLsbD 0 = false ↔
    ∀ t₀ ∈ earlier.head?, ∀ c d, t₀.label.Executes c d → ¬d.OddTarget c) ?_ ?_ ?_ run
  · intro earlier s p s' h hs
    rw [fetching_even_iff h, hs]
  · intro earlier s p s' h _ hf
    rw [after_even_iff h hf]
    simp
  · exact iff_of_true hpc (by simp)

/-- `pc` is even in every state of a run and at every fetch, exactly when no instruction of
the run takes an odd target from a register of `C.JR` or `C.JALR`, or from `mepc` or `sepc`. -/
theorem turns_aligned_iff {start cpu : Cpu} {turns : List (Step Cpu Phases)}
    (hpc : start.pc.getLsbD 0 = false) (run : Turns start turns cpu) :
    (∀ t ∈ turns, Aligned t) ↔ ∀ t ∈ turns, ∀ c d, t.label.Executes c d → ¬d.OddTarget c :=
  run.forall_iff (I := fun c => c.pc.getLsbD 0 = false) (fun _ _ _ h hs => turn_aligned h hs)
    (fun _ _ _ _ _ ha => ha.after) hpc

/-- `c.li x5, 7` and `c.jr x5`, from a reset. -/
def oddRegister : Cpu := ofImage [0x9d, 0x42, 0x82, 0x82] (by decide)

theorem oddRegister_run : ∃ turns cpu, Turns oddRegister turns cpu ∧
    ∃ t ∈ turns, t.after.pc = 7 := by
  have li := @Turns.insn oddRegister oddRegister [] ⟨0, .idle⟩ _ _ _ _ ⟨0x8282429d⟩ _ .start rfl
    ⟨rfl, ⟨_, rfl, rfl⟩, rfl⟩ (by decide) rfl
  have jr := @Turns.insn _ oddRegister _ ⟨0, .idle⟩ _ _ _ _ ⟨0x8282⟩ _ li rfl
    ⟨rfl, ⟨_, rfl, rfl⟩, rfl⟩ (by decide) rfl
  exact ⟨_, _, jr, _, List.mem_cons_self, rfl⟩

theorem turns_aligned_iff_oddRegister : ∃ turns cpu, Turns oddRegister turns cpu ∧
    ((∀ t ∈ turns, Aligned t) ↔
      ∀ t ∈ turns, ∀ c d, t.label.Executes c d → ¬d.OddTarget c) := by
  obtain ⟨turns, cpu, run, _⟩ := oddRegister_run
  exact ⟨turns, cpu, run, turns_aligned_iff rfl run⟩

theorem oddRegister_not_aligned : ¬ ∀ (start cpu : Cpu) (turns : List (Step Cpu Phases)),
    start.pc.getLsbD 0 = false → Turns start turns cpu → ∀ t ∈ turns, Aligned t := by
  intro h
  obtain ⟨turns, cpu, run, t, ht, hpc⟩ := oddRegister_run
  have hodd := (h oddRegister cpu turns rfl run t ht).after
  rw [hpc] at hodd
  cases hodd

end Cpu

end Rv64gcEmu
