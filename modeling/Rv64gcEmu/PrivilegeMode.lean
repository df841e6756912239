import Rv64gcEmu.SystemStep
import Rv64gcEmu.Turns

namespace Rv64gcEmu

open BitField (getLsbD_lowMask getLsbD_one_shiftLeft)
open Transition (Step)

namespace Csr

theorem getLsbD_load_mstatus_or (csr : Csr) (i : Nat) :
    (csr.load Address.mstatus).getLsbD i = (csr.status i || decide (i = 33)) := by
  change (csr.regs Address.mstatus ||| 1#64 <<< 33).getLsbD i = _
  rw [BitVec.getLsbD_or, getLsbD_one_shiftLeft]
  by_cases h : i = 33
  · subst h
    simp
  · simp [h, status]

theorem status_writeBitMstatus_of_ne (csr : Csr) {bit : Mask.MstatusBit} (v : Word) {i : Nat}
    (hi : i < 64) (hb : i ≠ bit.offset) (hu : i ≠ 33) :
    (csr.writeBitMstatus bit v).status i = csr.status i := by
  change (Helper.writeBit (csr.load Address.mstatus) bit.offset v).getLsbD i = _
  rw [getLsbD_writeBit _ _ _ _ hi, if_neg hb, getLsbD_load_mstatus_or]
  simp [hu]

theorem code_high {mode : Mode} (hm : mode ≠ .invalid) {i : Nat} (hi : 2 ≤ i) :
    mode.code.getLsbD i = false := by
  have hle : mode.code.toNat < 2 ^ 2 := by
    cases mode with
    | invalid => exact absurd rfl hm
    | _ => decide
  rw [← BitVec.testBit_toNat]
  exact Nat.testBit_lt_two_pow (lt_of_lt_of_le hle (Nat.pow_le_pow_right (by decide) hi))

/-- The bits of `MPP` are the only ones written, as long as the mode has two bits. -/
theorem status_writeMppMode_of_ne (csr : Csr) {mode : Mode} (hm : mode ≠ .invalid) {i : Nat}
    (hi : i < 64) (h11 : i ≠ 11) (h12 : i ≠ 12) (hu : i ≠ 33) :
    (csr.writeMppMode mode).status i = csr.status i := by
  change ((csr.load Address.mstatus &&& ~~~((BitVec.ofNat 64 (2 ^ 2 - 1)) <<< 11)) |||
    (mode.code <<< 11)).getLsbD i = _
  rw [BitVec.getLsbD_or, BitVec.getLsbD_and, BitVec.getLsbD_not, BitVec.getLsbD_shiftLeft,
    BitVec.getLsbD_shiftLeft, getLsbD_lowMask, getLsbD_load_mstatus_or]
  by_cases hlt : i < 11
  · simp [hi, hlt, hu]
  · have h13 : 2 ≤ i - 11 := by omega
    have hnot : ¬i - 11 < 2 := by omega
    simp [hi, hu, hnot, code_high hm h13]

/-- A trap changes the bits of its level only. -/
theorem stackStatus_of_not_mem (csr : Csr) {level : Level} {mode : Mode} (hm : mode ≠ .invalid)
    {i : Nat} (hi : i < 64) (hb : i ∉ level.bits) (hu : i ≠ 33) :
    (csr.stackStatus level mode).status i = csr.status i := by
  cases level with
  | supervisor =>
    simp only [Level.bits, List.mem_cons, List.not_mem_nil, or_false, not_or] at hb
    obtain ⟨h1, h5, h8⟩ := hb
    rw [stackStatus_supervisor _ _ hi, if_neg h8, if_neg h1, if_neg h5]
  | machine =>
    simp only [Level.bits, List.mem_cons, List.not_mem_nil, or_false, not_or] at hb
    obtain ⟨h3, h7, h11, h12⟩ := hb
    have hie : i ≠ Mask.MstatusBit.mie.offset := h3
    have hpie : i ≠ Mask.MstatusBit.mpie.offset := h7
    simp only [stackStatus]
    rw [status_writeMppMode_of_ne _ hm hi h11 h12 hu, status_writeBitMstatus_of_ne _ _ hi hie hu,
      status_writeBitMstatus_of_ne _ _ hi hpie hu]

end Csr

open Trap (Cause)

/-- A trap that saves exactly the mode it was taken from. Bit 33 is the one of `UXL` that
every read of `mstatus` reports, and every write stores. -/
structure SavesMode (before : Cpu) (cause : Cause) (after : Cpu) : Prop where
  pp : ((cause.level before).regs after.cregs).pp = before.mode.code
  status : ∀ i, i < 64 → i ∉ (cause.level before).bits → i ≠ 33 →
    after.cregs.status i = before.cregs.status i

theorem process_savesMode {before : Cpu} {cause : Cause} (hm : before.mode ≠ .invalid) :
    SavesMode before cause (cause.process before) := by
  have ht := Trap.process_taken before cause
  constructor
  · rw [ht.cregs]
    exact congrArg TrapRegs.pp (Level.regs_taken _ _ _ _ _ hm not_machine_of_supervisor)
  · intro i hi hb hu
    rw [ht.cregs, Csr.stackStatus_of_not_mem _ hm hi hb hu, Csr.saveTrap_status]

theorem process_mode (before : Cpu) (cause : Cause) : (cause.process before).mode ≠ .invalid := by
  rw [(Trap.process_taken before cause).mode]
  cases cause.level before <;> simp [Level.mode]

namespace Level

theorem returnMode_supervisor (csr : Csr) : supervisor.returnMode csr ≠ .invalid := by
  unfold returnMode
  simp only
  split <;> simp

/-- `MPP` has one value that stands for no mode. -/
theorem returnMode_machine {csr : Csr} :
    machine.returnMode csr = .invalid ↔ csr.readBits Address.mstatus 12 11 = 2 := by
  have hlt : (csr.readBits Address.mstatus 12 11).toNat < 4 := by
    change (csr.load Address.mstatus >>> 11 &&& BitVec.ofNat 64 (2 ^ 2 - 1)).toNat < 4
    rw [BitVec.toNat_and]
    exact Nat.lt_succ_of_le Nat.and_le_right
  change csr.readMppMode = .invalid ↔ _
  unfold Csr.readMppMode
  simp only
  generalize csr.readBits Address.mstatus 12 11 = mpp at hlt ⊢
  have hcases : mpp = 0 ∨ mpp = 1 ∨ mpp = 2 ∨ mpp = 3 := by
    simp only [← BitVec.toNat_inj]
    have h0 : (0 : Word).toNat = 0 := rfl
    have h1 : (1 : Word).toNat = 1 := rfl
    have h2 : (2 : Word).toNat = 2 := rfl
    have h3 : (3 : Word).toNat = 3 := rfl
    omega
  rcases hcases with rfl | rfl | rfl | rfl
  · simp [Mode.code]
  · simp [Mode.code]
  · simp [Mode.code]
  · simp [Mode.code]

end Level

/-- `MRET`, with the value 2 in `mstatus.MPP`. -/
def ReservedReturn (cpu : Cpu) (d : Decoder) : Prop :=
  d.returns .machine ∧ cpu.mode = .machine ∧ cpu.cregs.readBits Address.mstatus 12 11 = 2

namespace Cpu

theorem execute_mode {cpu after : Cpu} {d : Decoder} {size : Word} (hm : cpu.mode ≠ .invalid)
    (h : cpu.execute d = .ok (size, after)) : after.mode ≠ .invalid ↔ ¬ReservedReturn cpu d := by
  have hplain : after.mode = cpu.mode → d.isCsr = false →
      (after.mode ≠ .invalid ↔ ¬ReservedReturn cpu d) := by
    intro hmode hd
    rw [hmode]
    refine ⟨fun _ hr => ?_, fun _ => hm⟩
    have hret := hr.1
    simp [Decoder.returns, hd] at hret
  cases execute_ran h with
  | plain hd _ heff =>
    refine hplain heff.frame.mode ?_
    unfold Decoder.isCsr
    simp only [Decoder.isSystem, Bool.and_eq_false_iff, Bool.or_eq_false_iff] at hd
    simp only [Bool.and_eq_false_iff]
    exact hd.imp_right And.right
  | atomic hd _ ha =>
    refine hplain (Atomic.funct3_frame ha).mode ?_
    simp [Decoder.isCsr, hd.2]
  | csr hd _ hc =>
    subst hc
    have hcsr : d.isCsr = true := by simp [Decoder.isCsr, hd.1, hd.2]
    rcases CsrInsn.funct3_cases hcsr with ⟨level, hl, hok, hret⟩ | ⟨hno, hin⟩
    · rw [hret.mode]
      cases level with
      | supervisor =>
        refine ⟨fun _ hr => ?_, fun _ => Level.returnMode_supervisor _⟩
        cases Decoder.returns_unique hl hr.1
      | machine =>
        rw [not_iff_not, Level.returnMode_machine]
        exact ⟨fun h2 => ⟨hl, hok, h2⟩, fun hr => hr.2.2⟩
    · rw [hin.mode]
      exact ⟨fun _ hr => hno .machine hr.1 hr.2.1, fun _ => hm⟩

theorem finish_mode {cpu : Cpu} (hm : cpu.mode ≠ .invalid) (size : Word) :
    (cpu.finish size).mode ≠ .invalid := by
  cases he : cpu.excVal with
  | some e =>
    have hp := process_mode cpu (.exception e)
    rcases finish_of_exception he size with hf | hf
    · rw [hf]
      exact hp
    · rw [hf]
      exact hp
  | none =>
    rw [finish_of_none he]
    exact hm

/-- One turn as the privileged architecture has it: the mode is one of the three
throughout, and every trap saves it. -/
structure Architectural (t : Step Cpu Phases) : Prop where
  before : t.before.mode ≠ .invalid
  fetching : t.label.fetching.mode ≠ .invalid
  executed : t.label.executed.mode ≠ .invalid
  after : t.after.mode ≠ .invalid
  interrupt : ∀ i, t.label.pending = some i → SavesMode t.label.polled (.interrupt i) t.label.fetching
  exception : ∀ e, t.label.executed.excVal = some e → SavesMode t.label.executed (.exception e) t.after

theorem turn_architectural {before after : Cpu} {p : Phases} (h : Turn before p after)
    (hm : before.mode ≠ .invalid) :
    Architectural ⟨before, p, after⟩ ↔ ∀ c d, p.Executes c d → ¬ReservedReturn c d := by
  have hpolled : p.polled.mode ≠ .invalid := by
    rw [(poll_polled h.poll).mode]
    exact hm
  have hfetching : p.fetching.mode ≠ .invalid := by
    unfold Phases.fetching
    cases p.pending with
    | none => exact hpolled
    | some i => exact process_mode p.polled (.interrupt i)
  have hexecuted : p.executed.mode ≠ .invalid ↔ ∀ c d, p.Executes c d → ¬ReservedReturn c d := by
    cases h.outcome with
    | asleep hs _ he =>
      rw [he]
      exact ⟨fun _ c d hx => absurd hx (p.not_executes_of_asleep hs c d), fun _ => hfetching⟩
    | noInsn _ _ hc hno =>
      rw [hc.mode]
      exact ⟨fun _ c d hx => absurd hx (hno c d), fun _ => hfetching⟩
    | @insn c d hx he =>
      have hcm : c.mode ≠ .invalid := by
        rw [hx.1.coreEq.mode]
        exact hfetching
      rw [hx.forall_iff]
      exact execute_mode hcm he
  constructor
  · intro ha
    exact hexecuted.mp ha.executed
  · intro hr
    have hx := hexecuted.mpr hr
    refine ⟨hm, hfetching, hx, ?_, ?_, ?_⟩
    · simp only
      rw [← h.finish]
      exact finish_mode hx p.size
    · intro i hi
      simp only at hi ⊢
      unfold Phases.fetching
      rw [hi]
      exact process_savesMode hpolled
    · intro e he
      simp only at he ⊢
      have hs := @process_savesMode p.executed (.exception e) hx
      rw [← h.finish]
      rcases finish_of_exception he p.size with hf | hf
      · rw [hf]
        exact hs
      · rw [hf]
        exact ⟨hs.pp, hs.status⟩

/-- The mode is one of the three in every state of a run, and every trap of the run saves
it, exactly when no `MRET` of the run finds the reserved value in `MPP`. -/
theorem turns_architectural_iff {start cpu : Cpu} {turns : List (Step Cpu Phases)}
    (hm : start.mode ≠ .invalid) (run : Turns start turns cpu) :
    (∀ t ∈ turns, Architectural t) ↔
      ∀ t ∈ turns, ∀ c d, t.label.Executes c d → ¬ReservedReturn c d :=
  run.forall_iff (I := fun c => c.mode ≠ .invalid) (fun _ _ _ h hs => turn_architectural h hs)
    (fun _ _ _ _ _ ha => ha.after) hm

/-- `lui x5, 1`, `csrrw x0, mstatus, x5` and `mret`, from a reset. -/
def reservedReturn : Cpu :=
  ofImage [0xb7, 0x12, 0x00, 0x00, 0x73, 0x90, 0x02, 0x30, 0x73, 0x00, 0x20, 0x30] (by decide)

theorem reservedReturn_run : ∃ turns cpu, Turns reservedReturn turns cpu ∧
    ∃ t ∈ turns, t.after.mode = .invalid := by
  have lui := @Turns.insn reservedReturn reservedReturn [] ⟨0, .idle⟩ _ _ _ _ ⟨0x12b7⟩ _ .start rfl
    ⟨rfl, ⟨_, rfl, rfl⟩, rfl⟩ (by decide) rfl
  have csrrw := @Turns.insn _ reservedReturn _ ⟨0, .idle⟩ _ _ _ _ ⟨0x30029073⟩ _ lui rfl
    ⟨rfl, ⟨_, rfl, rfl⟩, rfl⟩ (by decide) rfl
  have mret := @Turns.insn _ reservedReturn _ ⟨0, .idle⟩ _ _ _ _ ⟨0x30200073⟩ _ csrrw rfl
    ⟨rfl, ⟨_, rfl, rfl⟩, rfl⟩ (by decide) rfl
  exact ⟨_, _, mret, _, List.mem_cons_self, rfl⟩

theorem turns_architectural_iff_reservedReturn : ∃ turns cpu, Turns reservedReturn turns cpu ∧
    ((∀ t ∈ turns, Architectural t) ↔
      ∀ t ∈ turns, ∀ c d, t.label.Executes c d → ¬ReservedReturn c d) := by
  obtain ⟨turns, cpu, run, _⟩ := reservedReturn_run
  exact ⟨turns, cpu, run, turns_architectural_iff (by decide) run⟩

theorem reservedReturn_invalid : ¬ ∀ (ram : RamDevice) (gpu : Option GpuDevice)
    (virtio : Option VirtioBlkDevice) (syscon : Bool) (host : Host) (cpu : Cpu)
    (turns : List (Step Cpu Phases)), Turns (init ram gpu virtio syscon host) turns cpu →
    ∀ t ∈ turns, Architectural t := by
  intro h
  obtain ⟨turns, cpu, run, t, ht, hmode⟩ := reservedReturn_run
  exact (h _ _ _ _ _ cpu turns run t ht).after hmode

end Cpu

end Rv64gcEmu
