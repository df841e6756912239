import Rv64gcEmu.UserIsolation

open Transition

namespace Rv64gcEmu

open Cpu (CoreEq Ticked)
open Trap (Cause)

section Faults

variable {cpu after : Cpu} {d : Decoder} {size : Word}

theorem Effect.faulted_pc {access : Option Access} (he : Effect cpu after access)
    (hq : cpu.excVal = none) (hf : after.excVal ≠ none) : after.pc = cpu.pc := by
  cases he with
  | quiet hquiet => exact absurd (hquiet.excVal.trans hq) hf
  | refused flags eq => exact eq.pc.trans flags.pc
  | loaded load eq =>
    rw [eq, ← (Mmu.load_coreEq load).pc]
    unfold Load.assignIfNoException
    split <;> rfl
  | @loadedUnchecked _ _ _ _ dest c load _ eq =>
    rw [eq.pc, ← (Mmu.load_coreEq load).pc]
    cases dest <;> rfl
  | stored store eq => exact eq.pc.trans (Mmu.store_coreEq store).pc

/-- An instruction that ends with an exception has not moved `pc`. -/
theorem Cpu.execute_faulted_pc (hx : cpu.execute d = .ok (size, after)) (hq : cpu.excVal = none)
    (hf : after.excVal ≠ none) : after.pc = cpu.pc := by
  cases execute_ran hx with
  | plain _ _ he => exact he.faulted_pc hq hf
  | atomic _ _ ha => exact (Atomic.funct3_frame ha).pc
  | csr ht _ hc =>
    subst hc
    have hcsr : d.isCsr = true := by simp [Decoder.isCsr, ht.1, ht.2]
    rcases CsrInsn.funct3_cases hcsr with ⟨_, _, _, hret⟩ | ⟨_, hplace⟩
    · exact absurd (hret.excVal.trans hq) hf
    · exact hplace.pc

theorem Cpu.loop_faulted_pc (hl : cpu._loop = .ok (size, after)) (hf : after.excVal ≠ none) :
    after.pc = cpu.pc := by
  obtain ⟨_, _, rfl⟩ | ⟨_, _, _, v, hfetch⟩ | ⟨c, d, hfetch, _, _, rfl⟩ | ⟨c, d, hfetch, _, hx⟩ :=
    loop_cases hl
  · rfl
  · exact (Mmu.fetch_coreEq hfetch).pc
  · exact hfetch.coreEq.pc
  · exact (execute_faulted_pc hx hfetch.exc hf).trans hfetch.coreEq.pc

end Faults

/-- The code that ran at `cpu` is left for the handler that the start has for the cause. -/
structure Cpu.AtHandler (start cpu : Cpu) (cause : Cause) (tval : Word) (handler : Cpu) : Prop where
  mode : handler.mode = (cause.level start).mode
  pc : handler.pc = cause.target (start.cregs.regs (cause.level start).tvec)
  saved : (cause.level start).regs handler.cregs =
    ⟨cpu.pc &&& ~~~1, cause.value, tval, false, ((cause.level start).regs start.cregs).ie,
      cpu.mode.code⟩

theorem Cpu.AtHandler.of_same {start cpu c handler : Cpu} {cause : Cause} {tval : Word}
    (h : AtHandler start c cause tval handler) (hpc : c.pc = cpu.pc) (hmode : c.mode = cpu.mode) :
    AtHandler start cpu cause tval handler := by
  refine ⟨h.mode, h.pc, ?_⟩
  rw [← hpc, ← hmode]
  exact h.saved

namespace Inside

variable {start cpu : Cpu}

theorem level_eq (h : Inside start cpu) (cause : Cause) : cause.level cpu = cause.level start := by
  have hdelegated : cause.delegated cpu = cause.delegated start := by
    unfold Cause.delegated
    rw [h.csr Address.mideleg (by decide) (by decide), h.csr Address.medeleg (by decide) (by decide)]
  unfold Cause.level
  rw [hdelegated, h.mode]

theorem ie_eq (h : Inside start cpu) (level : Level) :
    (level.regs cpu.cregs).ie = (level.regs start.cregs).ie := by
  have hstatus : ∀ k, cpu.cregs.status k = start.cregs.status k := fun k => by
    unfold Csr.status
    rw [h.csr Address.mstatus (by decide) (by decide)]
  cases level with
  | supervisor => exact hstatus 1
  | machine => exact hstatus 3

theorem tvec_eq (h : Inside start cpu) (level : Level) :
    cpu.cregs.regs level.tvec = start.cregs.regs level.tvec := by
  cases level with
  | supervisor => exact h.csr Address.stvec (by decide) (by decide)
  | machine => exact h.csr Address.mtvec (by decide) (by decide)

/-- A trap from where user code is leads to a handler of the start. -/
theorem atHandler (h : Inside start cpu) (hu : cpu.mode = .user) (cause : Cause) :
    Cpu.AtHandler start cpu cause (cause.tval cpu) (cause.process cpu) := by
  have htaken := Trap.process_taken cpu cause
  rw [h.level_eq] at htaken
  refine ⟨htaken.mode, htaken.pc.trans (by rw [h.tvec_eq]), ?_⟩
  rw [← h.ie_eq]
  exact (congrArg _ htaken.cregs).trans (Level.regs_taken _ _ _ _ _ (by rw [hu]; decide)
    fun _ => by rw [hu]; decide)

theorem finish_atHandler (h : Inside start cpu) (hu : cpu.mode = .user) {e : Exception}
    (he : cpu.excVal = some e) (size : Word) :
    Cpu.AtHandler start cpu (.exception e) cpu.excData (cpu.finish size) := by
  have hprocess := h.atHandler hu (.exception e)
  rcases Cpu.finish_of_exception he size with hf | hf
  · rw [hf]
    exact hprocess
  · rw [hf]
    exact ⟨hprocess.mode, hprocess.pc, hprocess.saved⟩

end Inside

/-- `ECALL`, as `csr::funct3` and `csr::environment` decode it. -/
structure Decoder.IsEcall (d : Decoder) : Prop where
  type : d.opcodeType = some .csr
  funct3 : d.funct3 = 0
  funct7 : d.funct7 = 0
  rs2 : d.rs2 = 0

variable {start cpu c after : Cpu} {d : Decoder}

theorem Decoder.IsEcall.unprivileged (hd : d.IsEcall) : d.Unprivileged := fun _ =>
  .inl ⟨hd.funct3, hd.funct7, .inl hd.rs2⟩

theorem Decoder.IsEcall.execute (hd : d.IsEcall) (hm : c.mode = .user) :
    c.execute d = .ok (4, c.setException .ecallUMode c.pc) := by
  rw [Cpu.execute_of_type hd.type]
  unfold Cpu.execute32
  rw [hd.type]
  change Except.ok (4, CsrInsn.funct3 c d) = _
  unfold CsrInsn.funct3
  rw [hd.funct3]
  change Except.ok (4, CsrInsn.environment c d) = _
  unfold CsrInsn.environment
  rw [hd.funct7, hd.rs2]
  change Except.ok (4, CsrInsn.ecall c d) = _
  unfold CsrInsn.ecall
  rw [hm]

namespace Cpu

variable {p : Phases} {turns : List (Step Cpu Phases)}

/-- A turn of user code ends in User mode, or at the handler of the exception that the instruction
at `pc` has caused. -/
theorem Turn.user_ends (hs : Sandbox start) (h : Inside start cpu) (turn : Turn cpu p after)
    (hu : p.InUser) : p.executed.excVal = none ∧ after.mode = .user ∨
      ∃ e, p.executed.excVal = some e ∧
        AtHandler start cpu (.exception e) p.executed.excData after := by
  have hexecuted := turn.executed_inside hs h hu
  have hmode : p.executed.mode = .user := hexecuted.mode.trans hs.user
  have hpolled := poll_polled turn.poll
  rw [← turn.finish]
  cases he : p.executed.excVal with
  | none =>
    rw [finish_of_none he]
    exact .inl ⟨rfl, hmode⟩
  | some e =>
    have hpc := loop_faulted_pc turn.loop (by simp [he])
    rw [hu.fetching, hpolled.pc] at hpc
    exact .inr ⟨e, rfl, (hexecuted.finish_atHandler hmode he p.size).of_same hpc
      (hmode.trans (turn.before_user hu).symm)⟩

/-- Wherever user code has got to, it is left for a handler of the start or not at all: an interrupt
finds it between two instructions, an exception at the instruction that has caused it, and what it
asks for by `ECALL` is in the registers. -/
theorem user_left (hs : Sandbox start) (run : Turns start turns cpu)
    (hu : ∀ t ∈ turns, t.label.InUser) (hm : cpu.mode = .user) (turn : Turn cpu p after) :
    (∀ i, p.pending = some i → AtHandler start cpu (.interrupt i) 0 p.fetching) ∧
    (p.InUser → p.executed.excVal = none ∧ after.mode = .user ∨ ∃ e, p.executed.excVal = some e ∧
      AtHandler start cpu (.exception e) p.executed.excData after) ∧
    ∀ c d, p.pending = none → p.Executes c d → d.IsEcall →
      AtHandler start cpu (.exception .ecallUMode) cpu.pc after ∧
        ∀ r, r ≠ 0 → after.regs r = cpu.regs r := by
  have hinside := (Turns.inside hs run hu).2 hm
  have hticked := poll_ticked hinside.idle turn.poll
  have hmode : p.polled.mode = .user := hticked.mode.trans hm
  refine ⟨fun i hi => ?_, turn.user_ends hs hinside, fun c d hnone hx hd => ?_⟩
  · unfold Phases.fetching
    rw [hi]
    exact ((hinside.of_ticked hticked).atHandler hmode (.interrupt i)).of_same hticked.pc hticked.mode
  · obtain ⟨hf, hz⟩ := hx
    have hfetching : p.fetching = p.polled := by
      unfold Phases.fetching
      rw [hnone]
      rfl
    have hcore := hf.coreEq
    have hcmode : c.mode = .user := by
      rw [hcore.mode, setReg_mode, hfetching, hmode]
    have hpc : c.pc = cpu.pc := by
      rw [hcore.pc, setReg_pc, hfetching, hticked.pc]
    have hexecuted : p.executed = c.setException .ecallUMode c.pc := by
      have h := turn.loop
      rw [loop_of_fetched hf hz, hd.execute hcmode] at h
      exact (Prod.mk.inj (Except.ok.inj h)).2.symm
    have hends := turn.user_ends hs hinside
      (.of_fetched (hfetching ▸ hmode) hf hd.unprivileged)
    rw [hexecuted] at hends
    obtain ⟨hnone, _⟩ | ⟨e, he, hat⟩ := hends
    · cases hnone
    · cases he
      refine ⟨hpc ▸ hat, fun r hr => ?_⟩
      rw [← turn.finish, (finish_frame _ _).regs, hexecuted]
      change c.regs r = _
      rw [hf.regs hr, hfetching, hticked.regs]

/-- The third instruction of the page. -/
theorem user_left_ecall : ∃ turns cpu p after, Turns Mmu.userPage turns cpu ∧ turns.length = 2 ∧
    Turn cpu p after ∧ AtHandler Mmu.userPage cpu (.exception .ecallUMode) 0x1008 after := by
  have auipc := @Turns.insn Mmu.userPage Mmu.userPage [] ⟨0, .idle⟩ _ _ _ _ ⟨0x317⟩ _ .start rfl
    ⟨rfl, ⟨_, rfl, rfl⟩, rfl⟩ (by decide) rfl
  have sw := @Turns.insn _ Mmu.userPage _ ⟨0, .idle⟩ _ _ _ _ ⟨0x632823⟩ _ auipc rfl
    ⟨rfl, ⟨_, rfl, rfl⟩, rfl⟩ (by decide) rfl
  have ecall := @Turns.insn _ Mmu.userPage _ ⟨0, .idle⟩ none _ _ _ ⟨0x73⟩ _ sw rfl
    ⟨rfl, ⟨_, rfl, rfl⟩, rfl⟩ (by decide) rfl
  cases ecall with
  | step run turn =>
    refine ⟨_, _, _, _, sw, rfl, turn, ?_⟩
    refine ((user_left Mmu.userPage_sandbox sw ?_ rfl turn).2.2 _ ⟨0x73⟩ rfl
      ⟨⟨rfl, ⟨_, rfl, rfl⟩, rfl⟩, by decide⟩ ⟨rfl, rfl, rfl, rfl⟩).1
    simp only [List.mem_cons, List.not_mem_nil, or_false]
    rintro t (rfl | rfl)
    · exact @Phases.InUser.of_fetched _ _ ⟨0x632823⟩ rfl ⟨rfl, ⟨_, rfl, rfl⟩, rfl⟩
        fun h => absurd h (by decide)
    · exact @Phases.InUser.of_fetched _ _ ⟨0x317⟩ rfl ⟨rfl, ⟨_, rfl, rfl⟩, rfl⟩
        fun h => absurd h (by decide)

end Cpu

end Rv64gcEmu
