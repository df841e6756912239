import Rv64gcEmu.RamField
import Rv64gcEmu.Run
import Rv64gcEmu.Since
import Rv64gcEmu.Transition
import Rv64gcEmu.WalkSpec

namespace Rv64gcEmu

namespace Mmu

open Paging (SameButMarks)
open Transition (Step Steps)

inductive PteEvent where
  | store (address value : Word) (length : Width)
  | translate (address : Word) (accessType : AccessType)
  | flush
  | update
  | other

/-- A guest store to any address of the RAM, a translation, a flush, a write of `satp`, or
anything that leaves the RAM and the MMU alone. -/
inductive PteStep : Cpu → PteEvent → Cpu → Prop
  | store {a b : Cpu} {address value : Word} {length : Width}
      (hin : a.bus.ram.Contains address length.bytes)
      (h : Bus.store a address value length = .ok b) : PteStep a (.store address value length) b
  | translate {a b : Cpu} {address p : Word} {accessType : AccessType}
      (h : translate a address accessType = .ok (p, b)) : PteStep a (.translate address accessType) b
  | flush (a : Cpu) : PteStep a .flush (a.setMmu a.mmu.flushTlb)
  | update (a : Cpu) : PteStep a .update (update a)
  | other {a b : Cpu} (hram : b.bus.ram = a.bus.ram) (hmmu : b.mmu = a.mmu) : PteStep a .other b

/-- Every store of a translation changes marks of page table entries only. -/
def OnlyMarks (steps : List (Step Cpu PteEvent)) : Prop :=
  ∀ t ∈ steps, ∀ address accessType, t.label = .translate address accessType →
    RamDevice.MarksOnly (Holds t.after.mmu) t.before.bus.ram t.after.bus.ram

/-- The step puts a page table entry in a slot of the cache that was the word `w` of the RAM. -/
def Caches (i : Fin 4) (w : Word) (t : Step Cpu PteEvent) : Prop :=
  ∃ address accessType c, t.label = .translate address accessType ∧
    Active t.before accessType ∧ Misses t.before address ∧
    getTlbEntry t.before address accessType = .ok (some i, c) ∧
    t.before.bus.ram.word (c.mmu.tlbCache i).pteAddr = w

/-- The word that the RAM had for the entry in a slot when it was cached. -/
def CachedAs (i : Fin 4) (w : Word) (history : List (Step Cpu PteEvent)) : Prop :=
  Since (Caches i w) (fun t => ∃ w', Caches i w' t) history

/-- The step is a store through a cached entry that permits it and is not dirty yet. -/
def FirstStore (i : Fin 4) (t : Step Cpu PteEvent) : Prop :=
  ∃ address, t.label = .translate address .store ∧ Active t.before .store ∧
    t.before.host.useTlb = true ∧
    (tlbScan t.before.mmu.tlbCache (pageOf address)).hit = some i ∧
    permissionFault (t.before.mmu.tlbCache i) .store (accessMode t.before .store)
      (t.before.cregs.readBitMstatus .mxr ≠ 0) (t.before.cregs.readBitMstatus .sum ≠ 0) = false ∧
    (t.before.mmu.tlbCache i).dirty = false ∧
    t.before.bus.ram.InRange (t.before.mmu.tlbCache i).pteAddr

/-- At the first store through a cached entry, the RAM has the entry as it was cached. -/
def EntriesKept (steps : List (Step Cpu PteEvent)) : Prop :=
  ∀ t earlier i w, (t :: earlier) <:+ steps → FirstStore i t → CachedAs i w earlier →
    SameButMarks (t.before.bus.ram.word (t.before.mmu.tlbCache i).pteAddr) w

theorem Caches.unique {i : Fin 4} {w w' : Word} {t : Step Cpu PteEvent} (h : Caches i w t)
    (h' : Caches i w' t) : w = w' := by
  obtain ⟨address, accessType, c, hl, _, _, hg, rfl⟩ := h
  obtain ⟨address', accessType', c', hl', _, _, hg', rfl⟩ := h'
  obtain ⟨rfl, rfl⟩ := PteEvent.translate.inj (hl.symm.trans hl')
  obtain ⟨_, rfl⟩ := Prod.mk.inj (Except.ok.inj (hg.symm.trans hg'))
  rfl

theorem CachedAs.unique {i : Fin 4} {w w' : Word} {history : List (Step Cpu PteEvent)}
    (h : CachedAs i w history) (h' : CachedAs i w' history) : w = w' := by
  obtain ⟨t, ht, ht'⟩ := Since.common (fun t ht => ⟨w, ht⟩) (fun t ht => ⟨w', ht⟩) h h'
  exact ht.unique ht'

theorem CachedAs.cons {i : Fin 4} {w : Word} {t : Step Cpu PteEvent}
    {history : List (Step Cpu PteEvent)} (h : CachedAs i w history) (hn : ∀ w', ¬Caches i w' t) :
    CachedAs i w (t :: history) :=
  Since.cons_iff.mpr (.inr ⟨fun ⟨w', hw⟩ => hn w' hw, h⟩)

/-- A slot is empty, or its entry is the word that was cached, but for the marks. -/
def SlotTracked (cpu : Cpu) (history : List (Step Cpu PteEvent)) (i : Fin 4) : Prop :=
  Denies (cpu.mmu.tlbCache i) ∨ (cpu.bus.ram.InRange (cpu.mmu.tlbCache i).pteAddr →
    ∃ w, CachedAs i w history ∧ SameButMarks (cpu.mmu.tlbCache i).pte w)

structure Tracked (cpu : Cpu) (history : List (Step Cpu PteEvent)) : Prop where
  settled : Settled cpu.mmu
  slot : ∀ i, SlotTracked cpu history i

theorem tracked_flushed {cpu : Cpu} {history : List (Step Cpu PteEvent)}
    (hs : Settled cpu.mmu) (h : cpu.mmu.tlbCache = fun _ => emptyEntry) : Tracked cpu history := by
  refine ⟨hs, fun i => .inl ?_⟩
  rw [h]
  exact ⟨rfl, rfl, rfl⟩

/-- An entry after its marks, or its age, have changed. -/
structure Alike (e e' : TlbEntry) : Prop where
  pteAddr : e'.pteAddr = e.pteAddr
  pte : SameButMarks e'.pte e.pte
  denies : Denies e → Denies e'

theorem Alike.refl (e : TlbEntry) : Alike e e := ⟨rfl, .refl _, id⟩

theorem Alike.trans {a b c : TlbEntry} (h : Alike a b) (h' : Alike b c) : Alike a c :=
  ⟨h'.pteAddr.trans h.pteAddr, h'.pte.trans h.pte, fun hd => h'.denies (h.denies hd)⟩

theorem SameButAge.alike {e e' : TlbEntry} (h : SameButAge e e') : Alike e e' := by
  obtain ⟨age, rfl⟩ := h
  exact ⟨rfl, .refl _, id⟩

theorem markEntry_alike (e : TlbEntry) (accessType : AccessType) :
    Alike e (markEntry e accessType) := by
  refine ⟨?_, ?_, ?_⟩
  · cases accessType <;> rfl
  · rw [markEntry_pte]
    exact Paging.sameButMarks_mark _ _
  · cases accessType <;> exact id

section Tracking

variable {a b : Cpu} {history : List (Step Cpu PteEvent)} {t : Step Cpu PteEvent}

theorem SlotTracked.carry {i : Fin 4} (h : SlotTracked a history i)
    (he : Alike (a.mmu.tlbCache i) (b.mmu.tlbCache i))
    (hr : RamDevice.SameRange a.bus.ram b.bus.ram) (hn : ∀ w, ¬Caches i w t) :
    SlotTracked b (t :: history) i := by
  rcases h with hd | hw
  · exact .inl (he.denies hd)
  · refine .inr fun hin => ?_
    have hin' : a.bus.ram.InRange (a.mmu.tlbCache i).pteAddr := by
      unfold RamDevice.InRange at hin ⊢
      rwa [he.pteAddr, hr.1, hr.2] at hin
    obtain ⟨w, hc, hs⟩ := hw hin'
    exact ⟨w, hc.cons hn, he.pte.trans hs⟩

/-- What is no translation caches nothing. -/
theorem Tracked.keep (h : Tracked a history) (hmmu : b.mmu = a.mmu)
    (hr : RamDevice.SameRange a.bus.ram b.bus.ram)
    (hl : ∀ address accessType, t.label ≠ .translate address accessType) :
    Tracked b (t :: history) := by
  refine ⟨hmmu ▸ h.settled, fun i => (h.slot i).carry ?_ hr ?_⟩
  · rw [hmmu]
    exact .refl _
  · rintro w ⟨address, accessType, _, ht, _⟩
    exact hl address accessType ht

theorem Tracked.translate {address p : Word} {accessType : AccessType} (h : Tracked a history)
    (ht : translate a address accessType = .ok (p, b)) :
    Tracked b (⟨a, .translate address accessType, b⟩ :: history) := by
  have hback := translate_writesBack h.settled ht
  rcases translate_cases ht with ⟨hact, rfl⟩ | ⟨c, hg, rfl⟩ | ⟨hact, i, c, hg, hcheck⟩
  · refine ⟨h.settled, fun i => (h.slot i).carry (.refl _) ⟨rfl, rfl⟩ ?_⟩
    rintro w ⟨address', accessType', c, hl, hact', _⟩
    obtain ⟨rfl, rfl⟩ := PteEvent.translate.inj hl
    exact hact hact'
  · exact tracked_flushed hback.settled ((getTlbEntry_frame hg).fault rfl).tlb
  · have hcached : ∀ {j w}, Caches j w ⟨a, .translate address accessType, b⟩ →
        Misses a address ∧ j = i := by
      rintro j w ⟨address', accessType', c', hl, _, hmiss, hg', _⟩
      obtain ⟨rfl, rfl⟩ := PteEvent.translate.inj hl
      obtain ⟨hj, _⟩ := Prod.mk.inj (Except.ok.inj (hg'.symm.trans hg))
      exact ⟨hmiss, Option.some.inj hj⟩
    have hchecked : b.mmu.tlbCache = (fun _ => emptyEntry) ∨
        ∀ j, Alike (c.mmu.tlbCache j) (b.mmu.tlbCache j) := by
      rcases checkEntry_cases hcheck with ⟨_, rfl⟩ | ⟨_, ⟨_, rfl⟩ | ⟨_, hst⟩⟩
      · exact .inl rfl
      · exact .inr fun j => .refl _
      · refine .inr fun j => ?_
        rw [(store_word_cases hst).1]
        by_cases hj : j = i
        · subst hj
          simp only [Cpu.setMmu_mmu, setEntry, Function.update_self]
          exact markEntry_alike _ _
        · simp only [Cpu.setMmu_mmu, setEntry, Function.update_of_ne hj]
          exact .refl _
    rcases hchecked with hflush | halike
    · exact tracked_flushed hback.settled hflush
    · refine ⟨hback.settled, fun j => ?_⟩
      rcases getTlbEntry_cases hg h.settled.root with ⟨huse, hit, rfl⟩ | ⟨hmiss, hfresh, hsame⟩
      · have hscan := (tlbScan_scanned a.mmu.tlbCache (pageOf address)).same j
        refine (h.slot j).carry (hscan.alike.trans (halike j)) hback.range fun w hw => ?_
        exact absurd (hit.symm.trans ((hcached hw).1 huse)) (by simp)
      · by_cases hj : j = i
        · subst hj
          refine .inr fun hin => ?_
          have hin' : a.bus.ram.InRange (c.mmu.tlbCache j).pteAddr := by
            unfold RamDevice.InRange at hin ⊢
            rwa [(halike j).pteAddr, hback.range.1, hback.range.2] at hin
          refine ⟨a.bus.ram.word (c.mmu.tlbCache j).pteAddr, ?_, ?_⟩
          · exact Since.cons_iff.mpr (.inl ⟨address, accessType, c, rfl, hact, hmiss, hg, rfl⟩)
          · rw [← (hfresh.word hin').2]
            exact (halike j).pte
        · refine (h.slot j).carry ((hsame j hj).alike.trans (halike j)) hback.range fun w hw => ?_
          exact hj (hcached hw).2

theorem Tracked.step {e : PteEvent} (h : Tracked a history) (hs : PteStep a e b) :
    Tracked b (⟨a, e, b⟩ :: history) := by
  cases hs with
  | store hin hst =>
    have hb := Except.ok.inj (hst.symm.trans (Bus.store_ram _ hin))
    subst hb
    exact h.keep rfl ⟨rfl, rfl⟩ (by simp)
  | translate ht => exact h.translate ht
  | flush => exact tracked_flushed (settled_flush h.settled.root rfl) rfl
  | update => exact tracked_flushed (update_settled a) rfl
  | other hram hmmu => exact h.keep hmmu (hram ▸ ⟨rfl, rfl⟩) (by simp)

end Tracking

theorem tracked_of_steps {start cpu : Cpu} {steps : List (Step Cpu PteEvent)}
    (hs : Settled start.mmu) (h0 : start.mmu.tlbCache = fun _ => emptyEntry)
    (run : Steps PteStep start steps cpu) : Tracked cpu steps := by
  induction run with
  | start => exact tracked_flushed hs h0
  | step _ h ih => exact ih.step h

/-- A translation writes marks only, unless it is a first store through a stale entry. -/
theorem marksOnly_translate_iff {cpu after : Cpu} {address p : Word} {accessType : AccessType}
    (hs : Settled cpu.mmu) (h : translate cpu address accessType = .ok (p, after)) :
    RamDevice.MarksOnly (Holds after.mmu) cpu.bus.ram after.bus.ram ↔
      ¬(accessType = .store ∧ StaleHit cpu address) := by
  have hw := translate_writesBack hs h
  refine ⟨?_, hw.marks⟩
  rintro hm ⟨rfl, hst⟩
  exact hw.not_marksOnly hst (fun _ hx => hw.settled.holds_aligned hx) ⟨rfl, rfl⟩ (.of_eq rfl) hm

/-- A stale entry is one that the RAM has not got any more as it was cached. -/
theorem Tracked.staleHit_iff {t : Step Cpu PteEvent} {earlier : List (Step Cpu PteEvent)}
    {address : Word} (h : Tracked t.before earlier) (hl : t.label = .translate address .store) :
    StaleHit t.before address ↔ ∃ i w, FirstStore i t ∧ CachedAs i w earlier ∧
      ¬SameButMarks (t.before.bus.ram.word (t.before.mmu.tlbCache i).pteAddr) w := by
  have hcached : ∀ {i}, FirstStore i t → ∃ w, CachedAs i w earlier ∧
      SameButMarks (t.before.mmu.tlbCache i).pte w := by
    rintro i ⟨_, _, _, _, _, hperm, _, hin⟩
    refine (h.slot i).resolve_left (fun hd => ?_) hin
    rw [hd.permissionFault] at hperm
    cases hperm
  constructor
  · rintro ⟨hact, huse, i, hit, hperm, hdirty, hin, hne⟩
    have hfirst : FirstStore i t := ⟨address, hl, hact, huse, hit, hperm, hdirty, hin⟩
    obtain ⟨w, hc, hs⟩ := hcached hfirst
    exact ⟨i, w, hfirst, hc, fun hsame => hne (hs.trans hsame.symm)⟩
  · rintro ⟨i, w, hfirst, hc, hne⟩
    obtain ⟨w', hc', hs⟩ := hcached hfirst
    obtain rfl := hc.unique hc'
    obtain ⟨address', hl', hact, huse, hit, hperm, hdirty, hin⟩ := hfirst
    obtain ⟨rfl, _⟩ := PteEvent.translate.inj (hl.symm.trans hl')
    exact ⟨hact, huse, i, hit, hperm, hdirty, hin, fun hsame => hne (hsame.symm.trans hs)⟩

/-- In a run from an empty cache, hardware updates change the Accessed and Dirty bits only,
exactly when no first store meets an entry that the guest has changed since it was cached. -/
theorem onlyMarks_iff {start cpu : Cpu} {steps : List (Step Cpu PteEvent)}
    (hs : Settled start.mmu) (h0 : start.mmu.tlbCache = fun _ => emptyEntry)
    (run : Steps PteStep start steps cpu) : OnlyMarks steps ↔ EntriesKept steps := by
  constructor
  · intro hm t earlier i w hsuf hfirst hc
    obtain ⟨hrun, hstep⟩ := run.of_suffix hsuf
    have htracked := tracked_of_steps hs h0 hrun
    have hlabel := hfirst
    obtain ⟨address, hl, _⟩ := hlabel
    rw [hl] at hstep
    cases hstep with
    | translate ht =>
      have hmarks := hm t (hsuf.subset List.mem_cons_self) address .store hl
      by_contra hne
      have hstale := (htracked.staleHit_iff hl).mpr ⟨i, w, hfirst, hc, hne⟩
      exact (marksOnly_translate_iff htracked.settled ht).mp hmarks ⟨rfl, hstale⟩
  · intro hk t ht address accessType hl
    obtain ⟨later, earlier, heq⟩ := List.append_of_mem ht
    have hsuf : (t :: earlier) <:+ steps := ⟨later, heq.symm⟩
    obtain ⟨hrun, hstep⟩ := run.of_suffix hsuf
    have htracked := tracked_of_steps hs h0 hrun
    rw [hl] at hstep
    cases hstep with
    | translate htr =>
      refine (marksOnly_translate_iff htracked.settled htr).mpr ?_
      rintro ⟨rfl, hstale⟩
      obtain ⟨i, w, hfirst, hc, hne⟩ := (htracked.staleHit_iff hl).mp hstale
      exact hne (hk t earlier i w hsuf hfirst hc)

/-- A load from a page, a guest store that clears its page table entry, and a store to the page. -/
theorem clearedEntry_run : ∃ translated cleared loaded cpu,
    Steps PteStep gigapage [translated, cleared, loaded] cpu ∧
      translated.label = .translate 0x1234 .store ∧
      (translated.before.bus.ram.byteAt 0x80000000).getLsbD 0 = false ∧
      (translated.after.bus.ram.byteAt 0x80000000).getLsbD 0 = true := by
  have run := Steps.step .start
    (@PteStep.translate gigapage _ 0x1234 _ .load rfl)
  have run' := run.step (@PteStep.store _ _ 0x80000000 0 .w64 (by decide) rfl)
  have run'' := run'.step (@PteStep.translate _ _ 0x1234 _ .store rfl)
  exact ⟨_, _, _, _, run'', rfl, by decide +kernel, by decide +kernel⟩

theorem gigapage_settled : Settled gigapage.mmu := update_settled _

theorem onlyMarks_iff_clearedEntry : ∃ translated cleared loaded cpu,
    Steps PteStep gigapage [translated, cleared, loaded] cpu ∧
      (OnlyMarks [translated, cleared, loaded] ↔ EntriesKept [translated, cleared, loaded]) := by
  obtain ⟨translated, cleared, loaded, cpu, run, _⟩ := clearedEntry_run
  exact ⟨translated, cleared, loaded, cpu, run, onlyMarks_iff gigapage_settled rfl run⟩

/-- The Valid bit that the guest has cleared comes back. -/
theorem clearedEntry_restored : ¬ ∀ (start cpu : Cpu) (steps : List (Step Cpu PteEvent)),
    Settled start.mmu → start.mmu.tlbCache = (fun _ => emptyEntry) →
    Steps PteStep start steps cpu → OnlyMarks steps := by
  intro h
  obtain ⟨translated, cleared, loaded, cpu, run, hl, hbefore, hafter⟩ := clearedEntry_run
  have hm := h gigapage cpu _ gigapage_settled rfl run translated List.mem_cons_self 0x1234 .store hl
  rcases hm 0x80000000 with heq | ⟨_, hbits⟩
  · rw [heq, hbefore] at hafter
    cases hafter
  · rw [hbits 0 (by omega) (by omega), hbefore] at hafter
    cases hafter

end Mmu

end Rv64gcEmu
