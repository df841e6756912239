import Rv64gcEmu.Run

namespace Rv64gcEmu

open RamDevice (MarksOnly SameRange)

/-- The page table entries that the fetch and the access of an instruction have used. -/
def IsPte (before after : Cpu) (x : Word) : Prop :=
  (∃ v c, Mmu.fetch (before.setReg 0 0) before.pc = .ok (v, c) ∧ Mmu.Holds c.mmu x) ∨
    Mmu.Holds after.mmu x

/-- An instruction that ended with an exception has left no trace. -/
structure Precise (before after : Cpu) : Prop where
  regs : ∀ r, r ≠ 0 → after.regs r = before.regs r
  fregs : after.fregs = before.fregs
  pc : after.pc = before.pc
  ram : MarksOnly (IsPte before after) before.bus.ram after.bus.ram

/-- The register already holds what a failed load puts there. -/
def Dest.Kept (dest : Dest) (cpu : Cpu) : Prop :=
  match dest with
  | reg r => r = 0 ∨ cpu.regs r = 0
  | freg r fault => cpu.fregs r = fault

/-- A load that does not look at the exception has nothing to overwrite; the entry that a
store marks is what the page table holds. -/
def LeavesNoTrace (cpu : Cpu) (d : Decoder) : Prop :=
  match dataAccess cpu d with
  | some (.load _ _ dest false) => dest.Kept cpu
  | some (.store address _ _) => ¬Mmu.StaleHit cpu address
  | _ => True

section Instruction

variable {before c after : Cpu} {d : Decoder}

theorem Cpu.Fetched.writesBack (hf : before.Fetched c d) (hs : Mmu.Settled before.mmu) :
    Mmu.WritesBack (before.setReg 0 0) before.pc .instruction c := by
  obtain ⟨v, hfetch, _⟩ := hf.fetch
  exact @Mmu.fetch_writesBack (before.setReg 0 0) _ _ _ hs hfetch

theorem Cpu.Fetched.marks (hf : before.Fetched c d) (hs : Mmu.Settled before.mmu) :
    MarksOnly (IsPte before after) before.bus.ram c.bus.ram := by
  obtain ⟨v, hfetch, _⟩ := hf.fetch
  exact ((hf.writesBack hs).marks (by simp)).mono fun x hx => .inl ⟨v, c, hfetch, hx⟩

/-- An instruction that kept the registers and whose access wrote marks only. -/
theorem precise_of_marks (hf : before.Fetched c d) (hs : Mmu.Settled before.mmu)
    (hregs : ∀ r, r ≠ 0 → after.regs r = c.regs r) (hfregs : after.fregs = c.fregs)
    (hpc : after.pc = c.pc) (hram : MarksOnly (Mmu.Holds after.mmu) c.bus.ram after.bus.ram) :
    Precise before after where
  regs r hr := (hregs r hr).trans (hf.regs hr)
  fregs := hfregs.trans hf.coreEq.fregs
  pc := hpc.trans hf.coreEq.pc
  ram := (hf.marks hs).trans (hram.mono fun _ hx => .inr hx)

theorem isPte_aligned (hs : Mmu.Settled before.mmu)
    (hafter : Mmu.Settled after.mmu) {x : Word} (hx : IsPte before after x) : x.toNat % 8 = 0 := by
  rcases hx with ⟨v, c', hfetch, hx⟩ | hx
  · exact (@Mmu.fetch_writesBack (before.setReg 0 0) _ _ _ hs hfetch).settled.holds_aligned hx
  · exact hafter.holds_aligned hx

/-- A stale entry that was written back shows. -/
theorem not_precise_of_stale (hf : before.Fetched c d) (hs : Mmu.Settled before.mmu)
    {address : Word} (hw : Mmu.WritesBack c address .store after)
    (hstale : Mmu.StaleHit c address) : ¬Precise before after := by
  intro hp
  have hpte : ∀ y, IsPte before after y → y.toNat % 8 = 0 :=
    fun y hy => isPte_aligned hs hw.settled hy
  exact hw.not_marksOnly hstale hpte (hf.writesBack hs).range (hf.marks hs) hp.ram

theorem Dest.write_kept {dest : Dest} {cpu cpu' : Cpu} (hregs : cpu'.regs = cpu.regs)
    (hfregs : cpu'.fregs = cpu.fregs) :
    ((∀ r, r ≠ 0 → (dest.write cpu' dest.faultValue).regs r = cpu.regs r) ∧
      (dest.write cpu' dest.faultValue).fregs = cpu.fregs) ↔ dest.Kept cpu := by
  cases dest with
  | reg r =>
    simp only [write, faultValue, Kept, Cpu.setReg_regs, Cpu.setReg_fregs, hregs, hfregs, and_true]
    exact Cpu.update_regs_iff r 0
  | freg r fault =>
    simp only [write, faultValue, Kept, Cpu.setFreg_regs, Cpu.setFreg_fregs, hregs, hfregs,
      implies_true, true_and]
    constructor
    · intro h
      rw [← h, Function.update_self]
    · intro h
      rw [← h, Function.update_eq_self]

/-- A failed load that does not look at the exception overwrites its register. -/
theorem precise_iff_of_loadedUnchecked (hf : before.Fetched c d) (hs : Mmu.Settled before.mmu)
    {address v value : Word} {length : Width} {dest : Dest} {c' : Cpu}
    (load : Mmu.load c address length = .ok (v, c')) (fault : v = 0 → value = dest.faultValue)
    (eq : (dest.write c' value).FlagsOnly after) (hexc : after.excVal ≠ none) :
    Precise before after ↔ dest.Kept c := by
  have hcs := (hf.writesBack hs).settled
  have hcore := Mmu.load_coreEq load
  have hc' : c'.excVal ≠ none := by
    rw [eq.excVal] at hexc
    cases dest <;> exact hexc
  have hvalue := fault (Mmu.load_fault load hc')
  subst hvalue
  have hram : MarksOnly (Mmu.Holds after.mmu) c.bus.ram after.bus.ram := by
    have hw := (Mmu.load_writesBack hcs load).marks (by simp)
    rw [eq.mmu, eq.bus]
    cases dest <;> exact hw
  have hpc : after.pc = c.pc := by
    rw [eq.pc, ← hcore.pc]
    cases dest <;> rfl
  rw [← Dest.write_kept hcore.regs hcore.fregs, ← eq.regs, ← eq.fregs]
  constructor
  · intro hp
    exact ⟨fun r hr => (hp.regs r hr).trans (hf.regs hr).symm, hp.fregs.trans hf.coreEq.fregs.symm⟩
  · rintro ⟨hregs, hfregs⟩
    exact precise_of_marks hf hs hregs hfregs hpc hram

/-- A failed store shows by the stale entry that it has written back. -/
theorem precise_iff_of_stored (hf : before.Fetched c d) (hs : Mmu.Settled before.mmu)
    {address value : Word} {length : Width} {c' : Cpu}
    (store : Mmu.store c address value length = .ok c') (eq : c'.FlagsOnly after)
    (hexc : after.excVal ≠ none) : Precise before after ↔ ¬Mmu.StaleHit c address := by
  have hcs := (hf.writesBack hs).settled
  have hcore := Mmu.store_coreEq store
  have hc' : c'.excVal ≠ none := by rwa [eq.excVal] at hexc
  have hw : Mmu.WritesBack c address .store after := by
    have hw' := Mmu.store_fault hcs store hc'
    exact ⟨eq.mmu ▸ hw'.settled, eq.bus ▸ hw'.range, by rw [eq.mmu, eq.bus]; exact hw'.marks,
      by rw [eq.mmu, eq.bus]; exact hw'.stale⟩
  constructor
  · exact fun hp hstale => not_precise_of_stale hf hs hw hstale hp
  · intro hfresh
    exact precise_of_marks hf hs (fun r _ => by rw [eq.regs, hcore.regs])
      (eq.fregs.trans hcore.fregs) (eq.pc.trans hcore.pc) (hw.marks fun h => hfresh h.2)

/-- One instruction, by what it does to memory. -/
theorem precise_iff_of_effect (hf : before.Fetched c d) (hs : Mmu.Settled before.mmu)
    (heffect : Effect c after (dataAccess c d)) (hexc : after.excVal ≠ none) :
    Precise before after ↔ LeavesNoTrace c d := by
  unfold LeavesNoTrace
  generalize hacc : dataAccess c d = access at heffect
  cases heffect with
  | quiet h => exact absurd (h.excVal.trans hf.exc) hexc
  | @refused c' x flags eq =>
    simp only [iff_true]
    refine precise_of_marks hf hs (fun r _ => ?_) ?_ ?_ (.of_eq ?_)
    · rw [eq.regs]
      exact congrFun flags.regs r
    · exact eq.fregs.trans flags.fregs
    · exact eq.pc.trans flags.pc
    · rw [eq.bus]
      exact congrArg Bus.ram flags.bus
  | @loaded address v value length rd c' load eq =>
    have hload : after = c' := by
      rw [eq, Load.assignIfNoException]
      split
      next hn =>
        rw [eq, Load.assignIfNoException, if_pos hn] at hexc
        exact absurd hn hexc
      next => rfl
    subst hload
    have hcore := Mmu.load_coreEq load
    simp only [iff_true]
    exact precise_of_marks hf hs (fun r _ => by rw [hcore.regs]) hcore.fregs hcore.pc
      ((Mmu.load_writesBack (hf.writesBack hs).settled load).marks (by simp))
  | loadedUnchecked load fault eq => exact precise_iff_of_loadedUnchecked hf hs load fault eq hexc
  | stored store eq => exact precise_iff_of_stored hf hs store eq hexc

end Instruction

/-- An instruction that ends with an exception is precise exactly when the load that does
not check for one had nothing to overwrite, and no stale entry was written back. -/
theorem precise_iff {before after : Cpu} {size : Word} (hs : Mmu.Settled before.mmu)
    (h : before._loop = .ok (size, after)) (hexc : after.excVal ≠ none)
    (hsys : ∀ c d, before.Fetched c d → d.isSystem = false) :
    Precise before after ↔ ∀ c d, before.Fetched c d → d.insn ≠ 0 → LeavesNoTrace c d := by
  obtain ⟨hsleep, _, rfl⟩ | ⟨_, _, hfault, v, hfetch⟩ | ⟨c, d, hf, hz, _, rfl⟩ | ⟨c, d, hf, hz, hx⟩ :=
    Cpu.loop_cases h
  · refine ⟨fun _ c d hf => absurd (hf.awake.symm.trans hsleep) (by simp), fun _ => ?_⟩
    exact ⟨fun r hr => Function.update_of_ne hr _ _, rfl, rfl, .of_eq rfl⟩
  · have hcore := Mmu.fetch_coreEq hfetch
    have hw := @Mmu.fetch_writesBack (before.setReg 0 0) _ _ _ hs hfetch
    refine ⟨fun _ c d hf => ?_, fun _ => ⟨fun r hr => ?_, hcore.fregs, hcore.pc, ?_⟩⟩
    · obtain ⟨v', hfetch', _⟩ := hf.fetch
      obtain ⟨_, rfl⟩ := Prod.mk.inj (Except.ok.inj (hfetch'.symm.trans hfetch))
      rw [hf.exc] at hfault
      cases hfault
    · rw [hcore.regs]
      exact Function.update_of_ne hr _ _
    · exact (hw.marks (by simp)).mono fun _ hx => .inr hx
  · refine ⟨fun _ c' d' hf' hz' => ?_, fun _ => ?_⟩
    · obtain ⟨_, rfl⟩ := hf.unique hf'
      exact absurd hz hz'
    · exact precise_of_marks hf hs (fun _ _ => rfl) rfl rfl (.of_eq rfl)
  · have heffect := (execute_effect (hsys c d hf) hx).1
    rw [precise_iff_of_effect hf hs heffect hexc]
    constructor
    · intro ht c' d' hf' _
      obtain ⟨rfl, rfl⟩ := hf.unique hf'
      exact ht
    · exact fun ht => ht c d hf hz

/-- `c.lwsp x2, 0(x2)` after a reset, with the stack pointer behind the end of the RAM. -/
def stackLoad : Cpu := Cpu.ofImage [0x02, 0x41, 0x00, 0x00] (by decide)

theorem stackLoad_fetched : stackLoad.Fetched (stackLoad.setReg 0 0) ⟨0x4102⟩ :=
  ⟨rfl, ⟨_, rfl, rfl⟩, rfl⟩

theorem stackLoad_settled : Mmu.Settled stackLoad.mmu := Mmu.settled_flush rfl rfl

theorem stackLoad_loop : ∃ after, stackLoad._loop = .ok (2, after) ∧
    after.excVal = some .loadAccessFault ∧ after.regs 2 = 0 := by
  rw [Cpu.loop_of_fetched stackLoad_fetched (by decide)]
  exact ⟨_, rfl, rfl, rfl⟩

theorem precise_iff_stackLoad : ∃ after, stackLoad._loop = .ok (2, after) ∧
    (Precise stackLoad after ↔ ∀ c d, stackLoad.Fetched c d → d.insn ≠ 0 → LeavesNoTrace c d) := by
  obtain ⟨after, h, hexc, _⟩ := stackLoad_loop
  refine ⟨after, h, precise_iff stackLoad_settled h (by simp [hexc]) fun c d hf => ?_⟩
  obtain ⟨_, rfl⟩ := stackLoad_fetched.unique hf
  decide

theorem stackLoad_not_precise : ¬ ∀ (before after : Cpu) (size : Word),
    Mmu.Settled before.mmu → before._loop = .ok (size, after) → after.excVal ≠ none →
    (∀ c d, before.Fetched c d → d.isSystem = false) → Precise before after := by
  intro h
  obtain ⟨after, hl, hexc, hr⟩ := stackLoad_loop
  have hp := h stackLoad after 2 stackLoad_settled hl (by simp [hexc]) fun c d hf => by
    obtain ⟨_, rfl⟩ := stackLoad_fetched.unique hf
    decide
  exact absurd (hr.symm.trans (hp.regs 2 (by decide))) (by decide)

end Rv64gcEmu
