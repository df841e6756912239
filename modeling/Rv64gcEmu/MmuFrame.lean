import Rv64gcEmu.Mmu

namespace Rv64gcEmu

/-- An access changes the bus, the MMU and the pending exception, nothing else. -/
structure Cpu.CoreEq (a b : Cpu) : Prop where
  regs : b.regs = a.regs
  fregs : b.fregs = a.fregs
  cregs : b.cregs = a.cregs
  pc : b.pc = a.pc
  mode : b.mode = a.mode
  sleep : b.sleep = a.sleep
  reservations : b.reservations = a.reservations
  fenv : b.fenv = a.fenv
  host : b.host = a.host

namespace Cpu.CoreEq

theorem refl (a : Cpu) : CoreEq a a := ⟨rfl, rfl, rfl, rfl, rfl, rfl, rfl, rfl, rfl⟩

theorem trans {a b c : Cpu} (h : CoreEq a b) (h' : CoreEq b c) : CoreEq a c where
  regs := h'.regs.trans h.regs
  fregs := h'.fregs.trans h.fregs
  cregs := h'.cregs.trans h.cregs
  pc := h'.pc.trans h.pc
  mode := h'.mode.trans h.mode
  sleep := h'.sleep.trans h.sleep
  reservations := h'.reservations.trans h.reservations
  fenv := h'.fenv.trans h.fenv
  host := h'.host.trans h.host

theorem setBus (a : Cpu) (bus : Bus) : CoreEq a (a.setBus bus) :=
  ⟨rfl, rfl, rfl, rfl, rfl, rfl, rfl, rfl, rfl⟩

theorem setMmu (a : Cpu) (mmu : Mmu) : CoreEq a (a.setMmu mmu) :=
  ⟨rfl, rfl, rfl, rfl, rfl, rfl, rfl, rfl, rfl⟩

theorem setException (a : Cpu) (e : Exception) (x : Word) : CoreEq a (a.setException e x) :=
  ⟨rfl, rfl, rfl, rfl, rfl, rfl, rfl, rfl, rfl⟩

end Cpu.CoreEq

open Cpu (CoreEq)

namespace Bus

theorem load_coreEq {cpu cpu' : Cpu} {address v : Word} {length : Width}
    (h : load cpu address length = .ok (v, cpu')) :
    CoreEq cpu cpu' ∧ cpu'.mmu = cpu.mmu ∧ cpu'.bus.ram = cpu.bus.ram := by
  rcases load_cases h with ⟨d, bus, _, hl, rfl⟩ | ⟨_, _, rfl⟩
  · exact ⟨.setBus cpu bus, rfl, deviceLoad_ram hl⟩
  · exact ⟨.setException cpu _ _, rfl, rfl⟩

/-- A load that found a device leaves the pending exception alone; a failed one gives 0. -/
theorem load_exc {cpu cpu' : Cpu} {address v : Word} {length : Width}
    (h : load cpu address length = .ok (v, cpu')) (hv : v ≠ 0) :
    cpu'.excVal = cpu.excVal ∧ cpu'.excData = cpu.excData := by
  rcases load_cases h with ⟨d, bus, _, _, rfl⟩ | ⟨_, hz, _⟩
  · exact ⟨rfl, rfl⟩
  · exact absurd hz hv

theorem store_coreEq {cpu cpu' : Cpu} {address value : Word} {length : Width}
    (h : store cpu address value length = .ok cpu') : CoreEq cpu cpu' ∧ cpu'.mmu = cpu.mmu := by
  rcases store_cases h with ⟨d, bus, _, hl, rfl⟩ | ⟨_, rfl⟩
  · exact ⟨.setBus cpu bus, rfl⟩
  · exact ⟨.setException cpu _ _, rfl⟩

/-- A store that leaves no exception behind was served by a device. -/
theorem store_exc {cpu cpu' : Cpu} {address value : Word} {length : Width}
    (h : store cpu address value length = .ok cpu') :
    cpu'.excVal = cpu.excVal ∨ cpu'.excVal = some .storeAccessFault ∧ cpu'.bus = cpu.bus := by
  rcases store_cases h with ⟨d, bus, _, hl, rfl⟩ | ⟨_, rfl⟩
  · exact .inl rfl
  · exact .inr ⟨rfl, rfl⟩

end Bus

namespace Mmu

/-- What a failed translation leaves behind. -/
structure Faulted (cpu : Cpu) (address : Word) (accessType : AccessType) : Prop where
  excVal : cpu.excVal = some (pageFault accessType)
  excData : cpu.excData = address
  tlb : cpu.mmu.tlbCache = fun _ => emptyEntry

theorem setCpuError_faulted (cpu : Cpu) (address : Word) (accessType : AccessType) :
    Faulted (setCpuError cpu address accessType) address accessType := ⟨rfl, rfl, rfl⟩

theorem setCpuError_coreEq (cpu : Cpu) (address : Word) (accessType : AccessType) :
    CoreEq cpu (setCpuError cpu address accessType) :=
  ⟨rfl, rfl, rfl, rfl, rfl, rfl, rfl, rfl, rfl⟩

/-- The registers of the MMU that `satp` determines. -/
def SameRoot (a b : Mmu) : Prop := b.mode = a.mode ∧ b.mppn = a.mppn

theorem SameRoot.refl (a : Mmu) : SameRoot a a := ⟨rfl, rfl⟩

theorem SameRoot.trans {a b c : Mmu} (h : SameRoot a b) (h' : SameRoot b c) : SameRoot a c :=
  ⟨h'.1.trans h.1, h'.2.trans h.2⟩

/-- A walk: RAM is only read, and either the access faults or nothing but the other
devices has changed. -/
structure WalkFrame (cpu cpu' : Cpu) (address : Word) (accessType : AccessType) (found : Bool) :
    Prop where
  core : CoreEq cpu cpu'
  ram : cpu'.bus.ram = cpu.bus.ram
  root : SameRoot cpu.mmu cpu'.mmu
  fault : found = false → Faulted cpu' address accessType
  quiet : found = true → cpu'.excVal = cpu.excVal ∧ cpu'.excData = cpu.excData ∧
    cpu'.mmu = cpu.mmu

theorem WalkFrame.refl (cpu : Cpu) (address : Word) (accessType : AccessType) :
    WalkFrame cpu cpu address accessType true :=
  ⟨.refl cpu, rfl, .refl _, by simp, fun _ => ⟨rfl, rfl, rfl⟩⟩

theorem fetchPteLoop_frame {cpu cpu' : Cpu} {address : Word} {accessType : AccessType}
    {vpn : Nat → Word} {a : Word} {entry : TlbEntry} {i : Nat} {found : Option (Nat × TlbEntry)}
    (h : fetchPteLoop cpu address accessType vpn a entry i = .ok (found, cpu')) :
    WalkFrame cpu cpu' address accessType found.isSome := by
  induction i generalizing cpu a entry with
  | zero =>
    obtain ⟨rfl, rfl⟩ := Prod.mk.inj (Except.ok.inj h)
    exact ⟨setCpuError_coreEq cpu _ _, rfl, ⟨rfl, rfl⟩, fun _ => setCpuError_faulted cpu _ _,
      by simp⟩
  | succ i ih =>
    obtain ⟨⟨pte, c⟩, hl, h⟩ := Except.bind_eq_ok_iff.mp h
    obtain ⟨hc, hm, hr⟩ := Bus.load_coreEq hl
    simp only at h
    split at h
    next hbad =>
      obtain ⟨rfl, rfl⟩ := Prod.mk.inj (Except.ok.inj h)
      exact ⟨hc.trans (setCpuError_coreEq c _ _), hr, by rw [← hm]; exact ⟨rfl, rfl⟩,
        fun _ => setCpuError_faulted c _ _, by simp⟩
    next hgood =>
      have hv : pte ≠ 0 := by
        rintro rfl
        simp at hgood
      obtain ⟨he, hd⟩ := Bus.load_exc hl hv
      split at h
      next =>
        obtain ⟨rfl, rfl⟩ := Prod.mk.inj (Except.ok.inj h)
        exact ⟨hc, hr, by rw [hm]; exact .refl _, by simp, fun _ => ⟨he, hd, hm⟩⟩
      next =>
        have w := ih h
        refine ⟨hc.trans w.core, w.ram.trans hr, by rw [← hm]; exact w.root, w.fault, fun hf => ?_⟩
        obtain ⟨he', hd', hm'⟩ := w.quiet hf
        exact ⟨he'.trans he, hd'.trans hd, hm'.trans hm⟩

/-- Induction on a walk that ends in a leaf: the entry is the last one that was loaded, and what
holds there holds from each table above it. -/
theorem fetchPteLoop_induction {address : Word} {accessType : AccessType} {vpn : Nat → Word}
    {P : Cpu → Word → TlbEntry → Cpu → Prop}
    (leaf : ∀ {cpu c a pte i} (entry : TlbEntry), Bus.load cpu (a + vpn i * 8) .w64 = .ok (pte, c) →
      pte ≠ 0 → P cpu a (fillEntry entry (a + vpn i * 8) pte) c)
    (next : ∀ {cpu c after a pte i e}, Bus.load cpu (a + vpn i * 8) .w64 = .ok (pte, c) →
      P c (((pte >>> 10) &&& 0xfffffffffff) * pageSize) e after → P cpu a e after)
    {cpu after : Cpu} {a : Word} {entry e : TlbEntry} {i l : Nat}
    (h : fetchPteLoop cpu address accessType vpn a entry i = .ok (some (l, e), after)) :
    P cpu a e after := by
  induction i generalizing cpu a entry with
  | zero =>
    obtain ⟨hn, _⟩ := Prod.mk.inj (Except.ok.inj h)
    cases hn
  | succ i ih =>
    obtain ⟨⟨pte, c⟩, hl, h⟩ := Except.bind_eq_ok_iff.mp h
    simp only at h
    split at h
    next =>
      obtain ⟨hn, _⟩ := Prod.mk.inj (Except.ok.inj h)
      cases hn
    next hgood =>
      split at h
      next =>
        obtain ⟨hs, rfl⟩ := Prod.mk.inj (Except.ok.inj h)
        obtain ⟨_, rfl⟩ := Prod.mk.inj (Option.some.inj hs)
        refine leaf entry hl ?_
        rintro rfl
        simp at hgood
      next => exact next hl (ih h)

theorem fetchPte_frame {cpu cpu' : Cpu} {address : Word} {accessType : AccessType}
    {entry : TlbEntry} {found : Option TlbEntry}
    (h : fetchPte cpu address accessType entry = .ok (found, cpu')) :
    WalkFrame cpu cpu' address accessType found.isSome := by
  obtain ⟨⟨leaf, c⟩, hl, h⟩ := Except.bind_eq_ok_iff.mp h
  have w := fetchPteLoop_frame hl
  cases leaf with
  | none =>
    obtain ⟨rfl, rfl⟩ := Prod.mk.inj (Except.ok.inj h)
    exact w
  | some p =>
    simp only at h
    split at h
    next =>
      obtain ⟨rfl, rfl⟩ := Prod.mk.inj (Except.ok.inj h)
      exact ⟨w.core.trans (setCpuError_coreEq c _ _), w.ram, w.root,
        fun _ => setCpuError_faulted c _ _, by simp⟩
    next =>
      obtain ⟨rfl, rfl⟩ := Prod.mk.inj (Except.ok.inj h)
      exact w

/-- A walk that succeeds has found a leaf, and gives its entry. -/
theorem fetchPte_some {cpu c : Cpu} {address : Word} {accessType : AccessType} {entry e : TlbEntry}
    (h : fetchPte cpu address accessType entry = .ok (some e, c)) :
    ∃ l leaf, fetchPteLoop cpu address accessType (cpu.mmu.getVpn address)
      (cpu.mmu.mppn.setWidth 64) entry cpu.mmu.getLevels = .ok (some (l, leaf), c) ∧
      e = leafEntry c.mmu address l leaf := by
  obtain ⟨⟨found, c'⟩, hl, h⟩ := Except.bind_eq_ok_iff.mp h
  cases found with
  | none =>
    obtain ⟨hn, _⟩ := Prod.mk.inj (Except.ok.inj h)
    cases hn
  | some p =>
    simp only at h
    split at h
    next =>
      obtain ⟨hn, _⟩ := Prod.mk.inj (Except.ok.inj h)
      cases hn
    next =>
      obtain ⟨he, rfl⟩ := Prod.mk.inj (Except.ok.inj h)
      exact ⟨p.1, p.2, hl, (Option.some.inj he).symm⟩

/-- A lookup may rewrite the cache, but reads RAM only. -/
structure LookupFrame (cpu cpu' : Cpu) (address : Word) (accessType : AccessType) (found : Bool) :
    Prop where
  core : CoreEq cpu cpu'
  ram : cpu'.bus.ram = cpu.bus.ram
  root : SameRoot cpu.mmu cpu'.mmu
  fault : found = false → Faulted cpu' address accessType
  quiet : found = true → cpu'.excVal = cpu.excVal ∧ cpu'.excData = cpu.excData

theorem WalkFrame.lookup {cpu cpu' : Cpu} {address : Word} {accessType : AccessType} {found : Bool}
    (w : WalkFrame cpu cpu' address accessType found) :
    LookupFrame cpu cpu' address accessType found :=
  ⟨w.core, w.ram, w.root, w.fault, fun hf => ⟨(w.quiet hf).1, (w.quiet hf).2.1⟩⟩

theorem LookupFrame.setTlb {cpu cpu' : Cpu} {address : Word} {accessType : AccessType}
    (w : LookupFrame cpu cpu' address accessType true) (tlb : Fin 4 → TlbEntry) :
    LookupFrame cpu (cpu'.setMmu { cpu'.mmu with tlbCache := tlb }) address accessType true :=
  ⟨w.core.trans (.setMmu cpu' _), w.ram, w.root, by simp, w.quiet⟩

theorem getTlbEntry_frame {cpu cpu' : Cpu} {address : Word} {accessType : AccessType}
    {found : Option (Fin 4)} (h : getTlbEntry cpu address accessType = .ok (found, cpu')) :
    LookupFrame cpu cpu' address accessType found.isSome := by
  unfold getTlbEntry at h
  split at h
  next =>
    simp only at h
    have hset := (WalkFrame.refl cpu address accessType).lookup.setTlb
      (tlbScan cpu.mmu.tlbCache (pageOf address)).tlb
    split at h
    next =>
      obtain ⟨rfl, rfl⟩ := Prod.mk.inj (Except.ok.inj h)
      exact hset
    next =>
      obtain ⟨⟨entry, c⟩, hf, h⟩ := Except.bind_eq_ok_iff.mp h
      have w := fetchPte_frame hf
      have w' : LookupFrame cpu c address accessType entry.isSome :=
        ⟨hset.core.trans w.core, w.ram.trans hset.ram, hset.root.trans w.root, w.fault,
          fun hs => ⟨(w.quiet hs).1, (w.quiet hs).2.1⟩⟩
      cases entry with
      | some e =>
        obtain ⟨rfl, rfl⟩ := Prod.mk.inj (Except.ok.inj h)
        exact w'.setTlb _
      | none =>
        obtain ⟨rfl, rfl⟩ := Prod.mk.inj (Except.ok.inj h)
        exact w'
  next =>
    obtain ⟨⟨entry, c⟩, hf, h⟩ := Except.bind_eq_ok_iff.mp h
    have w := (fetchPte_frame hf).lookup
    cases entry with
    | some e =>
      obtain ⟨rfl, rfl⟩ := Prod.mk.inj (Except.ok.inj h)
      exact w.setTlb _
    | none =>
      obtain ⟨rfl, rfl⟩ := Prod.mk.inj (Except.ok.inj h)
      exact w

theorem translate_coreEq {cpu cpu' : Cpu} {address p : Word} {accessType : AccessType}
    (h : translate cpu address accessType = .ok (p, cpu')) :
    CoreEq cpu cpu' ∧ SameRoot cpu.mmu cpu'.mmu := by
  unfold translate at h
  split at h
  next =>
    obtain ⟨_, rfl⟩ := Prod.mk.inj (Except.ok.inj h)
    exact ⟨.refl cpu, .refl _⟩
  next =>
    split at h
    next =>
      obtain ⟨_, rfl⟩ := Prod.mk.inj (Except.ok.inj h)
      exact ⟨.refl cpu, .refl _⟩
    next =>
      obtain ⟨⟨found, c⟩, hg, h⟩ := Except.bind_eq_ok_iff.mp h
      have w := getTlbEntry_frame hg
      cases found with
      | none =>
        obtain ⟨_, rfl⟩ := Prod.mk.inj (Except.ok.inj h)
        exact ⟨w.core, w.root⟩
      | some i =>
        simp only at h
        split at h
        next =>
          obtain ⟨_, rfl⟩ := Prod.mk.inj (Except.ok.inj h)
          exact ⟨w.core.trans (setCpuError_coreEq c _ _), w.root⟩
        next =>
          split at h
          next =>
            obtain ⟨c', hs, h⟩ := Except.bind_eq_ok_iff.mp h
            obtain ⟨_, rfl⟩ := Prod.mk.inj (Except.ok.inj h)
            obtain ⟨hc, hm⟩ := Bus.store_coreEq hs
            exact ⟨w.core.trans ((CoreEq.setMmu c _).trans hc), by rw [hm]; exact w.root⟩
          next =>
            obtain ⟨_, rfl⟩ := Prod.mk.inj (Except.ok.inj h)
            exact ⟨w.core, w.root⟩

/-- A load is its translation, or is made from where that leads. -/
theorem load_cases {cpu after : Cpu} {address v : Word} {length : Width}
    (h : load cpu address length = .ok (v, after)) :
    ∃ p c, translate cpu address .load = .ok (p, c) ∧
      (c.excVal ≠ none ∧ v = 0 ∧ after = c ∨
        c.excVal = none ∧ Bus.load c p length = .ok (v, after)) := by
  obtain ⟨⟨p, c⟩, ht, h⟩ := Except.bind_eq_ok_iff.mp h
  refine ⟨p, c, ht, ?_⟩
  simp only at h
  split at h
  next hc =>
    obtain ⟨rfl, rfl⟩ := Prod.mk.inj (Except.ok.inj h)
    exact .inl ⟨by simpa [Option.isSome_iff_ne_none] using hc, rfl, rfl⟩
  next hc => exact .inr ⟨by simpa using hc, h⟩

theorem store_cases {cpu after : Cpu} {address value : Word} {length : Width}
    (h : store cpu address value length = .ok after) :
    ∃ p c, translate cpu address .store = .ok (p, c) ∧
      (c.excVal ≠ none ∧ after = c ∨
        c.excVal = none ∧ Bus.store c p value length = .ok after) := by
  obtain ⟨⟨p, c⟩, ht, h⟩ := Except.bind_eq_ok_iff.mp h
  refine ⟨p, c, ht, ?_⟩
  simp only at h
  split at h
  next hc => exact .inl ⟨by simpa [Option.isSome_iff_ne_none] using hc, (Except.ok.inj h).symm⟩
  next hc => exact .inr ⟨by simpa using hc, h⟩

/-- A fetch is its translation, or a load whose access fault gets another name. -/
theorem fetch_cases {cpu after : Cpu} {address v : Word} (h : fetch cpu address = .ok (v, after)) :
    ∃ p c, translate cpu address .instruction = .ok (p, c) ∧
      (c.excVal ≠ none ∧ v = 0 ∧ after = c ∨
        c.excVal = none ∧ ∃ c', Bus.load c p .w32 = .ok (v, c') ∧
          (after = c' ∨ after = { c' with excVal := some .instructionAccessFault })) := by
  obtain ⟨⟨p, c⟩, ht, h⟩ := Except.bind_eq_ok_iff.mp h
  refine ⟨p, c, ht, ?_⟩
  simp only at h
  split at h
  next hc =>
    obtain ⟨rfl, rfl⟩ := Prod.mk.inj (Except.ok.inj h)
    exact .inl ⟨by simpa [Option.isSome_iff_ne_none] using hc, rfl, rfl⟩
  next hc =>
    obtain ⟨⟨w, c'⟩, hl, h⟩ := Except.bind_eq_ok_iff.mp h
    simp only at h
    split at h
    next =>
      obtain ⟨rfl, rfl⟩ := Prod.mk.inj (Except.ok.inj h)
      exact .inr ⟨by simpa using hc, c', hl, .inr rfl⟩
    next =>
      obtain ⟨rfl, rfl⟩ := Prod.mk.inj (Except.ok.inj h)
      exact .inr ⟨by simpa using hc, c', hl, .inl rfl⟩

theorem load_coreEq {cpu cpu' : Cpu} {address v : Word} {length : Width}
    (h : load cpu address length = .ok (v, cpu')) : CoreEq cpu cpu' := by
  obtain ⟨p, c, ht, ⟨_, _, rfl⟩ | ⟨_, hl⟩⟩ := load_cases h
  · exact (translate_coreEq ht).1
  · exact (translate_coreEq ht).1.trans (Bus.load_coreEq hl).1

theorem store_coreEq {cpu cpu' : Cpu} {address value : Word} {length : Width}
    (h : store cpu address value length = .ok cpu') : CoreEq cpu cpu' := by
  obtain ⟨p, c, ht, ⟨_, rfl⟩ | ⟨_, hst⟩⟩ := store_cases h
  · exact (translate_coreEq ht).1
  · exact (translate_coreEq ht).1.trans (Bus.store_coreEq hst).1

theorem fetch_coreEq {cpu cpu' : Cpu} {address v : Word}
    (h : fetch cpu address = .ok (v, cpu')) : CoreEq cpu cpu' := by
  obtain ⟨p, c, ht, ⟨_, _, rfl⟩ | ⟨_, c', hl, rfl | rfl⟩⟩ := fetch_cases h
  · exact (translate_coreEq ht).1
  · exact (translate_coreEq ht).1.trans (Bus.load_coreEq hl).1
  · have hc' := (translate_coreEq ht).1.trans (Bus.load_coreEq hl).1
    exact ⟨hc'.regs, hc'.fregs, hc'.cregs, hc'.pc, hc'.mode, hc'.sleep, hc'.reservations,
      hc'.fenv, hc'.host⟩

end Mmu

end Rv64gcEmu
