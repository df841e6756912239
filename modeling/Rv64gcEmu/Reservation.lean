import Rv64gcEmu.Run
import Rv64gcEmu.Since

namespace Rv64gcEmu

/-- The opcode of the atomics. -/
def Decoder.isAtomic (d : Decoder) : Bool := d.insnSize = 4 && d.opcodeType = some .atomic

namespace Executed

/-- The half of an atomic update that was executed, with its width. -/
def lrSc (e : Executed) : Option (LrSc × Width) := if e.d.isAtomic then e.d.lrSc else none

def address (e : Executed) : Word := e.before.regs e.d.rs1

/-- An `LR` or `SC` to an address, of either width. -/
def At (kind : LrSc) (address : Word) (e : Executed) : Prop :=
  ∃ width, e.lrSc = some (kind, width) ∧ e.address = address

/-- An `LR` of a width to an address, that ended without an exception. -/
def Reserves (width : Width) (address : Word) (e : Executed) : Prop :=
  e.lrSc = some (.lr, width) ∧ e.address = address ∧ e.after.excVal = none

/-- Neither stores nor reports success. -/
def Fails (e : Executed) : Prop := e.after.bus = e.before.bus ∧ e.after.regs e.d.rd = 1

/-- What the history of an `SC` has to be for it to store: an `LR` of the same width to the
same address, and neither an `LR` nor an `SC` after it. -/
def Reserved (width : Width) (address : Word) (history : List Executed) : Prop :=
  Since (Reserves width address) (fun e => e.lrSc ≠ none) history

/-- An `LR` to the address is not followed by an `SC` to the address. -/
def LeftOver (address : Word) (history : List Executed) : Prop :=
  Since (At .lr address) (At .sc address) history

/-- Every `SC` of the history stores under a reservation of its own, or fails. -/
def AllAtomic (history : List Executed) : Prop :=
  ∀ e earlier width, (e :: earlier) <:+ history → e.lrSc = some (.sc, width) →
    Reserved width e.address earlier ∨ e.Fails

/-- No `SC` finds an `LR` to its address left over while its own reservation is gone. -/
def NoneLeftOver (history : List Executed) : Prop :=
  ∀ e earlier width, (e :: earlier) <:+ history → e.lrSc = some (.sc, width) →
    LeftOver e.address earlier → Reserved width e.address earlier

end Executed

open Executed

/-- The set of reservations behind an atomic. -/
def track (kind : Option (LrSc × Width)) (address : Word) (s : Finset Word) : Finset Word :=
  match kind with
  | some (.lr, _) => insert address s
  | some (.sc, _) => s.erase address
  | none => s

section Step

variable {c after : Cpu} {d : Decoder} {size : Word}

theorem lrSc_atomic (hd : d.insnSize = 4 ∧ d.opcodeType = some .atomic) :
    (⟨c, d, after⟩ : Executed).lrSc = d.lrSc := by
  simp [Executed.lrSc, Decoder.isAtomic, hd.1, hd.2]

theorem lrSc_not_atomic (hd : ¬(d.insnSize = 4 ∧ d.opcodeType = some .atomic)) :
    (⟨c, d, after⟩ : Executed).lrSc = none := by
  unfold Executed.lrSc Decoder.isAtomic
  exact if_neg (by simpa using hd)

theorem not_at {e : Executed} (h : e.lrSc = none) (kind : LrSc) (a : Word) : ¬At kind a e := by
  rintro ⟨width, hk, _⟩
  exact absurd (h.symm.trans hk) (by simp)

/-- What one operation does to the reservations. -/
theorem Atomic.Op.reservations {kind : Option (LrSc × Width)} (h : Op c d after kind) :
    after.reservations = track kind (c.regs d.rs1) c.reservations := by
  cases h with
  | amo h =>
    obtain ⟨⟨v, c₁⟩, hl, h⟩ := Except.bind_eq_ok_iff.mp h
    obtain ⟨c₂, hs, h⟩ := Except.bind_eq_ok_iff.mp h
    cases Except.ok.inj h
    exact (Mmu.store_coreEq hs).reservations.trans (Mmu.load_coreEq hl).reservations
  | lr h =>
    obtain ⟨⟨v, c₁⟩, hl, h⟩ := Except.bind_eq_ok_iff.mp h
    cases Except.ok.inj h
    change insert (c.regs d.rs1) c₁.reservations = _
    rw [(Mmu.load_coreEq hl).reservations]
    rfl
  | sc h =>
    unfold scOp at h
    simp only at h
    split at h
    next =>
      obtain ⟨c₁, hs, h⟩ := Except.bind_eq_ok_iff.mp h
      cases Except.ok.inj h
      exact (Mmu.store_coreEq hs).reservations
    next hn =>
      cases Except.ok.inj h
      exact (Finset.erase_eq_of_notMem hn).symm
  | illegal h =>
    subst h
    rfl

/-- One instruction and the reservations: an `LR` adds its address, an `SC` takes its
address away, and nothing else touches them. -/
theorem mem_reservations_step (h : c.execute d = .ok (size, after)) (a : Word) :
    a ∈ after.reservations ↔
      At .lr a ⟨c, d, after⟩ ∨ ¬At .sc a ⟨c, d, after⟩ ∧ a ∈ c.reservations := by
  have hnone : (⟨c, d, after⟩ : Executed).lrSc = none → after.reservations = c.reservations →
      (a ∈ after.reservations ↔
        At .lr a ⟨c, d, after⟩ ∨ ¬At .sc a ⟨c, d, after⟩ ∧ a ∈ c.reservations) := by
    intro hk hr
    simp [not_at hk, hr]
  cases Cpu.execute_ran h with
  | plain hd _ heff =>
    refine hnone (lrSc_not_atomic ?_) heff.frame.reservations
    rintro ⟨h4, hop⟩
    simp [Decoder.isSystem, h4, hop] at hd
  | csr hd _ hc =>
    have hr := (CsrInsn.funct3_frame c d).reservations
    rw [← hc] at hr
    refine hnone (lrSc_not_atomic ?_) hr
    rintro ⟨_, hop⟩
    exact absurd (hd.2.symm.trans hop) (by simp)
  | atomic hd _ hx =>
    obtain ⟨c', hc, hop⟩ := Atomic.funct3_cases hx
    have hk := @lrSc_atomic c after d hd
    have hr := hop.reservations
    rw [hc.regs, hc.reservations] at hr
    generalize hkind : d.lrSc = kind at hr hk
    rcases kind with _ | ⟨_ | _, width⟩
    · exact hnone hk hr
    · simp [At, hk, hr, track, Executed.address, eq_comm]
    · simp [At, hk, hr, track, Executed.address, eq_comm]

/-- An `SC` fails exactly when its address is not in the set. -/
theorem fails_iff {width : Width} (h : c.execute d = .ok (size, after))
    (hsc : (⟨c, d, after⟩ : Executed).lrSc = some (.sc, width)) :
    Fails ⟨c, d, after⟩ ↔ c.regs d.rs1 ∉ c.reservations := by
  have hat : d.insnSize = 4 ∧ d.opcodeType = some .atomic := by
    by_contra hn
    exact absurd ((lrSc_not_atomic hn).symm.trans hsc) (by simp)
  cases Cpu.execute_ran h with
  | plain hd _ _ => simp [Decoder.isSystem, hat.1, hat.2] at hd
  | csr hd _ _ => exact absurd (hd.2.symm.trans hat.2) (by simp)
  | atomic _ _ hx =>
    obtain ⟨c', hc, hop⟩ := Atomic.funct3_cases hx
    rw [← lrSc_atomic hat, hsc] at hop
    cases hop with
    | sc h =>
      unfold Atomic.scOp at h
      simp only at h
      rw [← hc.regs, ← hc.reservations]
      split at h
      next hm =>
        obtain ⟨c₁, hs, h⟩ := Except.bind_eq_ok_iff.mp h
        cases Except.ok.inj h
        refine iff_of_false (fun hf => ?_) (not_not.mpr hm)
        have hrd := hf.2
        simp at hrd
      next hm =>
        cases Except.ok.inj h
        refine iff_of_true ⟨hc.bus, ?_⟩ hm
        simp

end Step

namespace Run

variable {start cpu : Cpu} {trace : List Executed}

theorem interrupted_reservations {before c : Cpu} {env : Cpu.Env} {i : Option Interrupt}
    (hp : before.poll env = .ok (i, c)) : (c.interrupted i).reservations = before.reservations :=
  (Cpu.interrupted_frame c i).reservations.trans (Cpu.poll_polled hp).reservations

/-- The set holds the addresses whose last `LR` was not followed by an `SC`. -/
theorem mem_reservations (hr : start.reservations = ∅) (run : Run start trace cpu) (a : Word) :
    a ∈ cpu.reservations ↔ LeftOver a trace := by
  induction run with
  | start =>
    rw [hr]
    exact iff_of_false (Finset.notMem_empty a) Since.not_nil
  | @idle trace before c after env i size run hp hn h ih =>
    have hloop : after.reservations = (c.interrupted i).reservations := by
      obtain ⟨_, _, rfl⟩ | ⟨_, _, _, v, hf⟩ | ⟨f, d, hf, _, _, rfl⟩ | ⟨f, d, hf, hz, _⟩ :=
        Cpu.loop_cases h
      · rfl
      · exact (Mmu.fetch_coreEq hf).reservations
      · exact hf.coreEq.reservations
      · exact absurd (hn f d hf) hz
    rw [(Cpu.finish_frame after size).reservations, hloop, interrupted_reservations hp]
    exact ih
  | @insn trace before c f after d env i size run hp hf hz h ih =>
    have hfetch : f.reservations = before.reservations :=
      hf.coreEq.reservations.trans (interrupted_reservations hp)
    rw [(Cpu.finish_frame after size).reservations, mem_reservations_step h, hfetch, ih]
    exact Since.cons_iff.symm

/-- Every instruction of the trace was executed in a run with the trace before it. -/
theorem executed {e : Executed} {earlier : List Executed} (run : Run start trace cpu)
    (h : (e :: earlier) <:+ trace) : ∃ before size, Run start earlier before ∧
      e.before.reservations = before.reservations ∧ e.before.execute e.d = .ok (size, e.after) := by
  induction run with
  | start => simp at h
  | idle _ _ _ _ ih => exact ih h
  | @insn trace before c f after d env i size run hp hf hz hx ih =>
    rcases List.suffix_cons_iff.mp h with heq | h
    · obtain ⟨rfl, rfl⟩ := List.cons.inj heq
      exact ⟨before, size, run, hf.coreEq.reservations.trans (interrupted_reservations hp), hx⟩
    · exact ih h

/-- The `SC`s of a run are atomic exactly when none of them finds a left-over `LR`. -/
theorem allAtomic_iff_noneLeftOver (hr : start.reservations = ∅) (run : Run start trace cpu) :
    AllAtomic trace ↔ NoneLeftOver trace := by
  have hfail : ∀ e earlier width, (e :: earlier) <:+ trace → e.lrSc = some (.sc, width) →
      (e.Fails ↔ ¬LeftOver e.address earlier) := by
    intro e earlier width hs hsc
    obtain ⟨before, size, hrun, hres, hx⟩ := run.executed hs
    rw [fails_iff hx hsc, hres, hrun.mem_reservations hr]
    rfl
  constructor
  · intro h e earlier width hs hsc hleft
    exact (h e earlier width hs hsc).resolve_right fun hf => (hfail e earlier width hs hsc).mp hf hleft
  · intro h e earlier width hs hsc
    by_cases hleft : LeftOver e.address earlier
    · exact .inl (h e earlier width hs hsc hleft)
    · exact .inr ((hfail e earlier width hs hsc).mpr hleft)

end Run

/-- `lr.w x7, (x5)`, a dummy `sc.w x7, x0, (x6)`, and `sc.w x8, x0, (x5)`. -/
def dummySc : Cpu :=
  ((Cpu.ofImage [0xaf, 0xa3, 0x02, 0x10, 0xaf, 0x23, 0x03, 0x18, 0x2f, 0xa4, 0x02, 0x18]
    (by decide)).setReg 5 0x80000100).setReg 6 0x80000200

theorem dummySc_run : ∃ sc dummy lr cpu, Run dummySc [sc, dummy, lr] cpu ∧
    sc.lrSc = some (.sc, .w32) ∧ dummy.lrSc = some (.sc, .w32) ∧ sc.after.regs sc.d.rd = 0 := by
  have run := @Run.insn dummySc [] _ _ _ _ ⟨0x1002a3af⟩ ⟨0, .idle⟩ _ _ .start rfl
    ⟨rfl, ⟨_, rfl, rfl⟩, rfl⟩ (by decide) rfl
  have run' := @Run.insn dummySc _ _ _ _ _ ⟨0x180323af⟩ ⟨0, .idle⟩ _ _ run rfl
    ⟨rfl, ⟨_, rfl, rfl⟩, rfl⟩ (by decide) rfl
  have run'' := @Run.insn dummySc _ _ _ _ _ ⟨0x1802a42f⟩ ⟨0, .idle⟩ _ _ run' rfl
    ⟨rfl, ⟨_, rfl, rfl⟩, rfl⟩ (by decide) rfl
  exact ⟨_, _, _, _, run'', rfl, rfl, rfl⟩

theorem allAtomic_iff_dummySc : ∃ sc dummy lr cpu, Run dummySc [sc, dummy, lr] cpu ∧
    (AllAtomic [sc, dummy, lr] ↔ NoneLeftOver [sc, dummy, lr]) := by
  obtain ⟨sc, dummy, lr, cpu, run, _⟩ := dummySc_run
  exact ⟨sc, dummy, lr, cpu, run, Run.allAtomic_iff_noneLeftOver rfl run⟩

theorem dummySc_not_atomic : ¬ ∀ (start cpu : Cpu) (trace : List Executed),
    start.reservations = ∅ → Run start trace cpu → AllAtomic trace := by
  intro h
  obtain ⟨sc, dummy, lr, cpu, run, hsc, hdummy, hrd⟩ := dummySc_run
  rcases h dummySc cpu _ rfl run sc [dummy, lr] .w32 (List.suffix_refl _) hsc with hres | hf
  · rcases Since.cons_iff.mp hres with ⟨hd, _⟩ | ⟨hd, _⟩
    · exact absurd (hd.symm.trans hdummy) (by simp)
    · exact hd (by simp [hdummy])
  · exact absurd (hrd.symm.trans hf.2) (by decide)

end Rv64gcEmu
