import Rv64gcEmu.AmoSpec

namespace Rv64gcEmu

namespace Bus

/-- A load leaves every device where it is. -/
theorem deviceLoad_findBusDevice {bus bus' : Bus} {d : DeviceId} {address v : Word}
    {length : Width} (h : bus.deviceLoad d address length = .ok (v, bus')) (x : Word) :
    bus'.findBusDevice x = bus.findBusDevice x := by
  rcases deviceLoad_cases h with rfl | ⟨g, g', hg, hl, rfl⟩
  · rfl
  · unfold findBusDevice busDevices
    rw [hg]
    cases g with
    | sdl s =>
      obtain ⟨_, _, hl⟩ := Except.bind_eq_ok_iff.mp hl
      obtain ⟨_, rfl⟩ := Prod.mk.inj (Except.ok.inj hl)
      rfl
    | nativeCli c =>
      obtain ⟨_, rfl⟩ := Prod.mk.inj (Except.ok.inj hl)
      rfl

/-- What gave something else than 0 is still there. -/
theorem load_found {cpu after : Cpu} {address v : Word} {length : Width}
    (h : load cpu address length = .ok (v, after)) (hv : v ≠ 0) :
    after.bus.findBusDevice address ≠ none := by
  rcases load_cases h with ⟨d, bus, hd, hl, rfl⟩ | ⟨_, hz, _⟩
  · rw [Cpu.setBus_bus, deviceLoad_findBusDevice hl, hd]
    simp
  · exact absurd hz hv

end Bus

namespace Mmu

theorem fetchPteLoop_found {cpu after : Cpu} {address : Word} {accessType : AccessType}
    {vpn : Nat → Word} {a : Word} {entry e : TlbEntry} {i l : Nat}
    (h : fetchPteLoop cpu address accessType vpn a entry i = .ok (some (l, e), after)) :
    after.bus.findBusDevice e.pteAddr ≠ none :=
  fetchPteLoop_induction (P := fun _ _ e after => after.bus.findBusDevice e.pteAddr ≠ none)
    (fun _ hl hv => Bus.load_found hl hv) (fun _ ih => ih) h

theorem fetchPte_found {cpu after : Cpu} {address : Word} {accessType : AccessType}
    {entry e : TlbEntry} (h : fetchPte cpu address accessType entry = .ok (some e, after)) :
    after.bus.findBusDevice e.pteAddr ≠ none := by
  obtain ⟨l, leaf, hl, rfl⟩ := fetchPte_some h
  have hf := fetchPteLoop_found hl
  exact hf

/-- An entry that was not in the cache can be written back. -/
theorem getTlbEntry_found {cpu after : Cpu} {address : Word} {accessType : AccessType} {i : Fin 4}
    (h : getTlbEntry cpu address accessType = .ok (some i, after)) :
    SameButAge (cpu.mmu.tlbCache i) (after.mmu.tlbCache i) ∨
      after.bus.findBusDevice (after.mmu.tlbCache i).pteAddr ≠ none := by
  rcases getTlbEntry_some h with ⟨_, _, rfl⟩ | ⟨_, _, walked, c, hf, rfl⟩
  · exact .inl (searched_same cpu address i)
  · obtain ⟨virtBase, age, htag⟩ := tagged_same cpu address walked
    simp only [Cpu.setMmu_mmu, Cpu.setMmu_bus, setEntry, Function.update_self, htag]
    exact .inr (fetchPte_found hf)

section Exceptions

variable {cpu after : Cpu} {address p : Word}

/-- A translation leaves the exceptions alone, ends with a page fault, or cannot write the
marked entry back. -/
theorem translate_exc {accessType : AccessType}
    (h : translate cpu address accessType = .ok (p, after)) :
    (after.excVal = cpu.excVal ∧ after.excData = cpu.excData) ∨
      (after.excVal = some (pageFault accessType) ∧ after.excData = address) ∨
      (after.excVal = some .storeAccessFault ∧ (Settled cpu.mmu → accessType = .store)) := by
  rcases translate_cases h with ⟨_, rfl⟩ | ⟨c, hg, rfl⟩ | ⟨_, i, c, hg, hcheck⟩
  · exact .inl ⟨rfl, rfl⟩
  · have hf := (getTlbEntry_frame hg).fault rfl
    exact .inr (.inl ⟨hf.excVal, hf.excData⟩)
  · have hquiet := (getTlbEntry_frame hg).quiet rfl
    rcases checkEntry_cases hcheck with ⟨_, rfl⟩ | ⟨hperm, ⟨_, rfl⟩ | ⟨hneed, hst⟩⟩
    · exact .inr (.inl ⟨rfl, rfl⟩)
    · exact .inl hquiet
    · rcases Bus.store_cases hst with ⟨_, bus, _, _, rfl⟩ | ⟨hnone, rfl⟩
      · exact .inl hquiet
      · refine .inr (.inr ⟨rfl, fun hs => ?_⟩)
        by_contra ht
        rcases getTlbEntry_found hg with ⟨age, hage⟩ | hfound
        · rw [hage] at hperm hneed
          have hacc : (cpu.mmu.tlbCache i).accessed = false := by
            simpa [needsUpdate, ht] using hneed
          have hdeny : Denies (cpu.mmu.tlbCache i) := (hs.accessed i).resolve_left (by simp [hacc])
          have hdeny' : Denies { cpu.mmu.tlbCache i with age := age } := hdeny
          rw [hdeny'.permissionFault] at hperm
          cases hperm
        · exact hfound hnone

/-- The translation of an access or the bus rejects it. -/
def Rejects (cpu : Cpu) (address : Word) (accessType : AccessType) : Prop :=
  ∃ p c, translate cpu address accessType = .ok (p, c) ∧
    (c.excVal ≠ none ∨ c.bus.findBusDevice p = none)

def addressMisaligned : AccessType → Exception
  | .load => .loadAddressMisaligned
  | .store => .storeAddressMisaligned
  | .instruction => .instructionAddressMisaligned

def accessFault : AccessType → Exception
  | .load => .loadAccessFault
  | .store => .storeAccessFault
  | .instruction => .instructionAccessFault

/-- The pending exception is one of the access. -/
def HasFault (cpu : Cpu) (address : Word) (accessType : AccessType) : Prop :=
  cpu.excVal = some (addressMisaligned accessType) ∧ cpu.excData = address ∨
    cpu.excVal = some (pageFault accessType) ∧ cpu.excData = address ∨
    cpu.excVal = some (accessFault accessType)

/-- The translation itself ends with an exception of the access. -/
def Faulting (cpu : Cpu) (address : Word) (accessType : AccessType) : Prop :=
  ∃ p c, translate cpu address accessType = .ok (p, c) ∧
    (c.excVal = some (pageFault accessType) ∨ c.excVal = some (accessFault accessType))

/-- No translation clears an exception. -/
theorem translate_pending {accessType : AccessType}
    (h : translate cpu address accessType = .ok (p, after)) (he : cpu.excVal ≠ none) :
    after.excVal ≠ none := by
  rcases translate_exc h with ⟨hx, _⟩ | ⟨hx, _⟩ | ⟨hx, _⟩
  · rwa [hx]
  · simp [hx]
  · simp [hx]

/-- Behind a pending exception of another kind only the translation can raise the right one. -/
theorem hasFault_iff_faulting {accessType : AccessType}
    (h : translate cpu address accessType = .ok (p, after))
    (hm : cpu.excVal ≠ some (addressMisaligned accessType))
    (hp : cpu.excVal ≠ some (pageFault accessType)) :
    HasFault after address accessType ↔ Faulting cpu address accessType := by
  have hmis : ∀ t, (.storeAccessFault : Exception) ≠ addressMisaligned t := by
    intro t
    cases t <;> simp [addressMisaligned]
  have hpage : ∀ t, pageFault t ≠ addressMisaligned t := by
    intro t
    cases t <;> simp [pageFault, addressMisaligned]
  constructor
  · rintro (⟨hf, _⟩ | ⟨hf, _⟩ | hf)
    · rcases translate_exc h with ⟨hx, _⟩ | ⟨hx, _⟩ | ⟨hx, _⟩
      · exact absurd (hx.symm.trans hf) hm
      · exact absurd (Option.some.inj (hx.symm.trans hf)) (hpage _)
      · exact absurd (Option.some.inj (hx.symm.trans hf)) (hmis _)
    · exact ⟨p, after, h, .inl hf⟩
    · exact ⟨p, after, h, .inr hf⟩
  · rintro ⟨p', c, ht, hf⟩
    obtain ⟨_, rfl⟩ := Prod.mk.inj (Except.ok.inj (ht.symm.trans h))
    refine .inr (hf.imp (fun hf => ⟨hf, ?_⟩) id)
    rcases translate_exc h with ⟨hx, _⟩ | ⟨_, hd⟩ | ⟨hx, _⟩
    · exact absurd (hx.symm.trans hf) hp
    · exact hd
    · exact absurd (hx.symm.trans hf) (by cases accessType <;> simp [pageFault])

theorem load_rejected {v : Word} {length : Width} (h : load cpu address length = .ok (v, after))
    (hr : cpu.excVal ≠ none ∨ Rejects cpu address .load) : after.excVal ≠ none := by
  obtain ⟨p, c, ht, ⟨hc, _, rfl⟩ | ⟨hc, hl⟩⟩ := load_cases h
  · exact hc
  · rcases hr with he | ⟨p', c', ht', hr⟩
    · exact absurd hc (translate_pending ht he)
    · obtain ⟨rfl, rfl⟩ := Prod.mk.inj (Except.ok.inj (ht'.symm.trans ht))
      have hnone := hr.resolve_left (not_not.mpr hc)
      rcases Bus.load_cases hl with ⟨_, _, hd, _⟩ | ⟨_, _, rfl⟩
      · rw [hnone] at hd
        cases hd
      · simp

theorem store_rejected {value : Word} {length : Width}
    (h : store cpu address value length = .ok after)
    (hr : cpu.excVal ≠ none ∨ Rejects cpu address .store) : after.excVal ≠ none := by
  obtain ⟨p, c, ht, ⟨hc, rfl⟩ | ⟨hc, hst⟩⟩ := store_cases h
  · exact hc
  · rcases hr with he | ⟨p', c', ht', hr⟩
    · exact absurd hc (translate_pending ht he)
    · obtain ⟨rfl, rfl⟩ := Prod.mk.inj (Except.ok.inj (ht'.symm.trans ht))
      have hnone := hr.resolve_left (not_not.mpr hc)
      rcases Bus.store_cases hst with ⟨_, _, hd, _⟩ | ⟨_, rfl⟩
      · rw [hnone] at hd
        cases hd
      · simp

/-- With nothing pending, what a translation raises is an exception of the access. -/
theorem faulting_of_raised {accessType : AccessType} (hs : Settled cpu.mmu)
    (h : translate cpu address accessType = .ok (p, after)) (he : cpu.excVal = none)
    (hne : after.excVal ≠ none) : Faulting cpu address accessType := by
  refine ⟨p, after, h, ?_⟩
  rcases translate_exc h with ⟨hx, _⟩ | ⟨hx, _⟩ | ⟨hx, ht⟩
  · exact absurd (hx.trans he) hne
  · exact .inl hx
  · rw [ht hs]
    exact .inr hx

/-- A load raises nothing that belongs to a store but the fault of a write-back. -/
theorem load_raised {v : Word} {length : Width} (h : load cpu address length = .ok (v, after)) :
    after.excVal = cpu.excVal ∨ after.excVal = some .loadPageFault ∨
      after.excVal = some .loadAccessFault ∨ after.excVal = some .storeAccessFault := by
  obtain ⟨p, c, ht, ⟨_, _, rfl⟩ | ⟨hc, hl⟩⟩ := load_cases h
  · rcases translate_exc ht with ⟨hx, _⟩ | ⟨hx, _⟩ | ⟨hx, _⟩
    · exact .inl hx
    · exact .inr (.inl hx)
    · exact .inr (.inr (.inr hx))
  · have he : cpu.excVal = none := by
      by_contra he
      exact translate_pending ht he hc
    rcases Bus.load_cases hl with ⟨_, _, _, _, rfl⟩ | ⟨_, _, rfl⟩
    · exact .inl (hc.trans he.symm)
    · exact .inr (.inr (.inl rfl))

/-- The exception of a load half, by what was pending before it. -/
theorem load_hasFault_iff {v : Word} {length : Width} (hs : Settled cpu.mmu)
    (h : load cpu address length = .ok (v, after)) (hne : after.excVal ≠ none)
    (hm : cpu.excVal ≠ some .loadAddressMisaligned) (hp : cpu.excVal ≠ some .loadPageFault) :
    HasFault after address .load ↔ cpu.excVal = none ∨ Faulting cpu address .load := by
  obtain ⟨p, c, ht, ⟨hc, _, rfl⟩ | ⟨hc, hl⟩⟩ := load_cases h
  · rw [hasFault_iff_faulting ht hm hp]
    exact ⟨.inr, fun hf => hf.elim (fun he => faulting_of_raised hs ht he hc) id⟩
  · have he : cpu.excVal = none := by
      by_contra he
      exact translate_pending ht he hc
    refine iff_of_true (.inr (.inr ?_)) (.inl he)
    rcases Bus.load_cases hl with ⟨_, _, _, _, rfl⟩ | ⟨_, _, rfl⟩
    · exact absurd hc hne
    · rfl

theorem store_hasFault_iff {value : Word} {length : Width} (hs : Settled cpu.mmu)
    (h : store cpu address value length = .ok after) (hne : after.excVal ≠ none)
    (hm : cpu.excVal ≠ some .storeAddressMisaligned) (hp : cpu.excVal ≠ some .storePageFault) :
    HasFault after address .store ↔ cpu.excVal = none ∨ Faulting cpu address .store := by
  obtain ⟨p, c, ht, ⟨hc, rfl⟩ | ⟨hc, hst⟩⟩ := store_cases h
  · rw [hasFault_iff_faulting ht hm hp]
    exact ⟨.inr, fun hf => hf.elim (fun he => faulting_of_raised hs ht he hc) id⟩
  · have he : cpu.excVal = none := by
      by_contra he
      exact translate_pending ht he hc
    refine iff_of_true (.inr (.inr ?_)) (.inl he)
    rcases Bus.store_cases hst with ⟨_, _, _, _, rfl⟩ | ⟨_, rfl⟩
    · exact absurd hc hne
    · rfl

end Exceptions

end Mmu

/-- The access that an atomic reports its exceptions for. -/
def AtomicOp.accessType : AtomicOp → AccessType
  | .lr => .load
  | _ => .store

namespace Atomic

def Aligned (cpu : Cpu) (d : Decoder) (length : Width) : Prop :=
  (cpu.regs d.rs1).toNat % length.bytes = 0

/-- The address is not aligned, or a half of the access is rejected. -/
def Refused (cpu : Cpu) (d : Decoder) (op : AtomicOp) (length : Width) : Prop :=
  ¬Aligned cpu d length ∨
    match op with
    | .lr => Mmu.Rejects cpu (cpu.regs d.rs1) .load
    | .sc => Mmu.Rejects cpu (cpu.regs d.rs1) .store
    | .amo _ => Mmu.Rejects cpu (cpu.regs d.rs1) .load ∨
        ∃ v c, Mmu.load cpu (cpu.regs d.rs1) length = .ok (v, c) ∧
          Mmu.Rejects c (cpu.regs d.rs1) .store

/-- The page table entries that the halves have used. -/
def IsPte (cpu after : Cpu) (d : Decoder) (length : Width) (x : Word) : Prop :=
  (∃ v c, Mmu.load (checkAlign cpu d length) (cpu.regs d.rs1) length = .ok (v, c) ∧
    Mmu.Holds c.mmu x) ∨ Mmu.Holds after.mmu x

/-- The atomic ended with an exception of its kind, and nothing else shows. -/
structure ChangedNothing (cpu after : Cpu) (d : Decoder) (op : AtomicOp) (length : Width) :
    Prop where
  fault : Mmu.HasFault after (cpu.regs d.rs1) op.accessType
  regs : ∀ r, r ≠ 0 → after.regs r = cpu.regs r
  ram : RamDevice.MarksOnly (IsPte cpu after d length) cpu.bus.ram after.bus.ram
  reservations : after.reservations = cpu.reservations

/-- `rd` is `x0`, or holds what the atomic writes to it. -/
def AlreadyHolds (cpu : Cpu) (rd : BitVec 5) (v : Word) : Prop := rd = 0 ∨ cpu.regs rd = v

/-- An `LR` of a reserved address into a register that is 0, whose address is aligned or not
translated; an AMO whose `rd` holds what the load half gives, and whose store half finds no
stale entry and either has no exception before it or raises one in its translation. -/
def FailsCleanly (cpu : Cpu) (d : Decoder) (op : AtomicOp) (length : Width) : Prop :=
  match op with
  | .lr => cpu.regs d.rs1 ∈ cpu.reservations ∧ AlreadyHolds cpu d.rd 0 ∧
      (Aligned cpu d length ∨
        Mmu.Faulting (checkAlign cpu d length) (cpu.regs d.rs1) .load)
  | .sc => False
  | .amo _ => ∃ v c, Mmu.load (checkAlign cpu d length) (cpu.regs d.rs1) length = .ok (v, c) ∧
      AlreadyHolds cpu d.rd ((v.setWidth length.bits).signExtend 64) ∧
      ¬Mmu.StaleHit c (cpu.regs d.rs1) ∧
      (c.excVal = none ∨ Mmu.Faulting c (cpu.regs d.rs1) .store)

section Failing

variable {cpu after : Cpu} {d : Decoder} {op : AtomicOp} {length : Width} {size : Word}

/-- What the check of the address leaves behind. -/
theorem checkAlign_spec (hd : d.IsAtomicOp op length) (he : cpu.excVal = none) :
    Checked cpu (checkAlign cpu d length) ∧
      (Aligned cpu d length ∧ (checkAlign cpu d length).excVal = none ∨
        ¬Aligned cpu d length ∧
          ((checkAlign cpu d length).excVal = some .instructionAddressMisaligned ∨
            (checkAlign cpu d length).excVal = some .illegalInstruction)) := by
  by_cases ha : Aligned cpu d length
  · rw [checkAlign_of_aligned hd ha]
    exact ⟨⟨.refl cpu, rfl, rfl⟩, .inl ⟨ha, he⟩⟩
  · rcases hd.length with ⟨_, rfl⟩ | ⟨_, rfl⟩
    · have hz : ¬cpu.regs d.rs1 % 4 = 0 := fun hz => ha (congrArg BitVec.toNat hz)
      refine ⟨.ite cpu _ _ _, .inr ⟨ha, .inl ?_⟩⟩
      exact congrArg Cpu.excVal (if_pos hz)
    · have hz : ¬cpu.regs d.rs1 % 8 = 0 := fun hz => ha (congrArg BitVec.toNat hz)
      refine ⟨.ite cpu _ _ _, .inr ⟨ha, .inr ?_⟩⟩
      exact congrArg Cpu.excVal (if_pos hz)

theorem funct3_lr (cpu : Cpu) (hd : d.IsAtomicOp .lr length) :
    funct3 cpu d = lrOp length length.bits (checkAlign cpu d length) d := by
  have h5 : d.funct5 = 2 := hd.funct5
  rcases hd.length with ⟨hf, rfl⟩ | ⟨hf, rfl⟩
  · rw [funct3, hf]
    simp only [amow, h5]
    rfl
  · rw [funct3, hf]
    simp only [amod, h5]
    rfl

theorem funct3_sc (cpu : Cpu) (hd : d.IsAtomicOp .sc length) :
    funct3 cpu d = scOp length length.bits (checkAlign cpu d length) d := by
  have h5 : d.funct5 = 3 := hd.funct5
  rcases hd.length with ⟨hf, rfl⟩ | ⟨hf, rfl⟩
  · rw [funct3, hf]
    simp only [amow, h5]
    rfl
  · rw [funct3, hf]
    simp only [amod, h5]
    rfl

/-- The load half of an access that is refused before it or by it. -/
theorem load_raises (hd : d.IsAtomicOp op length) (he : cpu.excVal = none) {v : Word} {c : Cpu}
    (h : Mmu.load (checkAlign cpu d length) (cpu.regs d.rs1) length = .ok (v, c))
    (hr : ¬Aligned cpu d length ∨ Mmu.Rejects cpu (cpu.regs d.rs1) .load) : c.excVal ≠ none := by
  refine Mmu.load_rejected h ?_
  obtain ⟨_, ⟨ha, _⟩ | ⟨_, hx⟩⟩ := checkAlign_spec hd he
  · rw [checkAlign_of_aligned hd ha]
    exact .inr (hr.resolve_left (not_not.mpr ha))
  · rcases hx with hx | hx
    · simp [hx]
    · simp [hx]

theorem lr_iff (hs : Mmu.Settled cpu.mmu) (he : cpu.excVal = none)
    (hd : d.IsAtomicOp .lr length) (hr : Refused cpu d .lr length)
    (h : lrOp length length.bits (checkAlign cpu d length) d = .ok after) :
    ChangedNothing cpu after d .lr length ↔ FailsCleanly cpu d .lr length := by
  obtain ⟨hc, hcheck⟩ := checkAlign_spec hd he
  obtain ⟨⟨v, c⟩, hl, h⟩ := Except.bind_eq_ok_iff.mp h
  rw [hc.regs] at hl
  have hne := load_raises hd he hl hr
  obtain rfl := Mmu.load_fault hl hne
  cases Except.ok.inj h
  have hcore := Mmu.load_coreEq hl
  have hsc : Mmu.Settled (checkAlign cpu d length).mmu := by rwa [hc.mmu]
  have hzero : ((0 : Word).setWidth length.bits).signExtend 64 = (0 : Word) := by
    cases length <;> rfl
  have hregs : (∀ r, r ≠ 0 → Function.update c.regs d.rd
      (((0 : Word).setWidth length.bits).signExtend 64) r = cpu.regs r) ↔
        AlreadyHolds cpu d.rd 0 := by
    rw [hcore.regs, hc.regs, hzero]
    exact Cpu.update_regs_iff d.rd 0
  have hres : insert ((checkAlign cpu d length).regs d.rs1) c.reservations = cpu.reservations ↔
      cpu.regs d.rs1 ∈ cpu.reservations := by
    rw [hcore.reservations, hc.reservations, hc.regs]
    exact Finset.insert_eq_self
  have hfault : Mmu.HasFault c (cpu.regs d.rs1) .load ↔
      Aligned cpu d length ∨ Mmu.Faulting (checkAlign cpu d length) (cpu.regs d.rs1) .load := by
    rcases hcheck with ⟨ha, hx⟩ | ⟨ha, hx⟩
    · rw [Mmu.load_hasFault_iff hsc hl hne (by simp [hx]) (by simp [hx])]
      exact or_congr (iff_of_true hx ha) Iff.rfl
    · rcases hx with hx | hx
      · rw [Mmu.load_hasFault_iff hsc hl hne (by simp [hx]) (by simp [hx])]
        exact or_congr (iff_of_false (by simp [hx]) ha) Iff.rfl
      · rw [Mmu.load_hasFault_iff hsc hl hne (by simp [hx]) (by simp [hx])]
        exact or_congr (iff_of_false (by simp [hx]) ha) Iff.rfl
  have hram : RamDevice.MarksOnly (Mmu.Holds c.mmu) cpu.bus.ram c.bus.ram := by
    have hm := (Mmu.load_writesBack hsc hl).marks (by simp)
    rwa [hc.bus] at hm
  constructor
  · intro hn
    exact ⟨hres.mp hn.reservations, hregs.mp hn.regs, hfault.mp hn.fault⟩
  · rintro ⟨hmem, hrd, hf⟩
    exact ⟨hfault.mpr hf, hregs.mpr hrd, hram.mono fun x hx => .inr hx, hres.mpr hmem⟩

theorem sc_iff (hd : d.IsAtomicOp .sc length) (hm : cpu.regs d.rs1 ∈ cpu.reservations)
    (he : cpu.excVal = none)
    (h : scOp length length.bits (checkAlign cpu d length) d = .ok after) :
    ChangedNothing cpu after d .sc length ↔ FailsCleanly cpu d .sc length := by
  obtain ⟨hc, _⟩ := checkAlign_spec hd he
  refine iff_of_false (fun hn => ?_) (fun hf => hf)
  unfold scOp at h
  simp only at h
  rw [hc.regs, hc.reservations, if_pos hm] at h
  obtain ⟨c, hst, h⟩ := Except.bind_eq_ok_iff.mp h
  cases Except.ok.inj h
  have hres := hn.reservations
  have herase : c.reservations = cpu.reservations.erase (cpu.regs d.rs1) :=
    (Mmu.store_coreEq hst).reservations
  rw [Cpu.setReg_reservations, herase] at hres
  exact Finset.notMem_erase _ _ (hres ▸ hm)

theorem amo_iff {kind : AmoKind} {result : BitVec length.bits → BitVec length.bits → Word}
    (hs : Mmu.Settled cpu.mmu) (he : cpu.excVal = none) (hd : d.IsAtomicOp (.amo kind) length)
    (hr : Refused cpu d (.amo kind) length)
    (h : amoOp length length.bits result (checkAlign cpu d length) d = .ok after) :
    ChangedNothing cpu after d (.amo kind) length ↔ FailsCleanly cpu d (.amo kind) length := by
  obtain ⟨hc, hcheck⟩ := checkAlign_spec hd he
  obtain ⟨⟨v, c⟩, hl, h⟩ := Except.bind_eq_ok_iff.mp h
  obtain ⟨c', hst, h⟩ := Except.bind_eq_ok_iff.mp h
  rw [hc.regs] at hl hst
  cases Except.ok.inj h
  have hcore := (Mmu.load_coreEq hl).trans (Mmu.store_coreEq hst)
  have hsc : Mmu.Settled (checkAlign cpu d length).mmu := by rwa [hc.mmu]
  have hwl := Mmu.load_writesBack hsc hl
  have hne : c'.excVal ≠ none := by
    refine Mmu.store_rejected hst ?_
    by_cases hn : ¬Aligned cpu d length ∨ Mmu.Rejects cpu (cpu.regs d.rs1) .load
    · exact .inl (load_raises hd he hl hn)
    · obtain ⟨ha, hnl⟩ := not_or.mp hn
      obtain ⟨v', c₁, hl', hrej⟩ := (hr.resolve_left ha).resolve_left hnl
      rw [checkAlign_of_aligned hd (not_not.mp ha)] at hl
      obtain ⟨_, rfl⟩ := Prod.mk.inj (Except.ok.inj (hl'.symm.trans hl))
      exact .inr hrej
  have hws := Mmu.store_fault hwl.settled hst hne
  have hregs : (∀ r, r ≠ 0 → Function.update c'.regs d.rd
      ((v.setWidth length.bits).signExtend 64) r = cpu.regs r) ↔
        AlreadyHolds cpu d.rd ((v.setWidth length.bits).signExtend 64) := by
    rw [hcore.regs, hc.regs]
    exact Cpu.update_regs_iff d.rd _
  have hfault : Mmu.HasFault c' (cpu.regs d.rs1) .store ↔
      c.excVal = none ∨ Mmu.Faulting c (cpu.regs d.rs1) .store := by
    have hkind : c.excVal ≠ some .storeAddressMisaligned ∧ c.excVal ≠ some .storePageFault := by
      rcases Mmu.load_raised hl with hx | hx | hx | hx
      · rcases hcheck with ⟨_, hn⟩ | ⟨_, hn | hn⟩
        · simp [hx, hn]
        · simp [hx, hn]
        · simp [hx, hn]
      · simp [hx]
      · simp [hx]
      · simp [hx]
    exact Mmu.store_hasFault_iff hwl.settled hst hne hkind.1 hkind.2
  have hloads : RamDevice.MarksOnly (IsPte cpu c' d length) cpu.bus.ram c.bus.ram := by
    have hm := hwl.marks (by simp)
    rw [hc.bus] at hm
    exact hm.mono fun x hx => .inl ⟨v, c, hl, hx⟩
  have hrange : RamDevice.SameRange cpu.bus.ram c.bus.ram := hc.bus ▸ hwl.range
  have hpte : ∀ x, IsPte cpu c' d length x → x.toNat % 8 = 0 := by
    rintro x (⟨v', c₁, hl', hx⟩ | hx)
    · exact (Mmu.load_writesBack hsc hl').settled.holds_aligned hx
    · exact hws.settled.holds_aligned hx
  constructor
  · intro hn
    refine ⟨v, c, hl, hregs.mp hn.regs, fun hstale => ?_, hfault.mp hn.fault⟩
    exact hws.not_marksOnly hstale hpte hrange hloads hn.ram
  · rintro ⟨v', c₁, hl', hrd, hfresh, hf⟩
    obtain ⟨rfl, rfl⟩ := Prod.mk.inj (Except.ok.inj (hl'.symm.trans hl))
    refine ⟨hfault.mpr hf, hregs.mpr hrd, ?_, ?_⟩
    · exact hloads.trans ((hws.marks fun h => hfresh h.2).mono fun x hx => .inr hx)
    · exact hcore.reservations.trans hc.reservations

end Failing

/-- A failing atomic leaves everything as it was exactly when `FailsCleanly` says so. -/
theorem changedNothing_iff {cpu after : Cpu} {d : Decoder} {op : AtomicOp} {length : Width}
    {size : Word} (hs : Mmu.Settled cpu.mmu) (he : cpu.excVal = none) (hd : d.IsAtomicOp op length)
    (hm : op = .sc → cpu.regs d.rs1 ∈ cpu.reservations) (hr : Refused cpu d op length)
    (h : cpu.execute d = .ok (size, after)) :
    ChangedNothing cpu after d op length ↔ FailsCleanly cpu d op length := by
  have hf : funct3 cpu d = .ok after := by
    simp only [Cpu.execute, hd.size, Cpu.execute32, hd.opcode] at h
    obtain ⟨c, hx, h⟩ := Except.bind_eq_ok_iff.mp h
    cases Except.ok.inj h
    exact hx
  cases op with
  | lr => exact lr_iff hs he hd hr (funct3_lr cpu hd ▸ hf)
  | sc => exact sc_iff hd (hm rfl) he (funct3_sc cpu hd ▸ hf)
  | amo kind =>
    obtain ⟨result, _, heq⟩ := funct3_amo cpu hd
    exact amo_iff hs he hd hr (heq ▸ hf)

end Atomic

/-- `amoswap.w x6, x6, (x5)` of an address without a device. -/
def swapCpu : Cpu :=
  ((Cpu.ofImage [0x2f, 0xa3, 0x62, 0x08] (by decide)).setReg 5 0).setReg 6 7

theorem swapCpu_settled : Mmu.Settled swapCpu.mmu := Mmu.settled_flush rfl rfl

theorem swapCpu_isAmo : (⟨0x0862a32f⟩ : Decoder).IsAtomicOp (.amo .swap) .w32 :=
  ⟨by decide, by decide, by decide, .inl ⟨by decide, rfl⟩⟩

theorem swapCpu_refused : Atomic.Refused swapCpu ⟨0x0862a32f⟩ (.amo .swap) .w32 :=
  .inr (.inl ⟨0, swapCpu, rfl, .inr rfl⟩)

theorem swapCpu_execute : ∃ after, swapCpu.execute ⟨0x0862a32f⟩ = .ok (4, after) ∧
    after.regs 6 = 0 := ⟨_, rfl, rfl⟩

theorem changedNothing_iff_swapCpu : ∃ after, swapCpu.execute ⟨0x0862a32f⟩ = .ok (4, after) ∧
    (Atomic.ChangedNothing swapCpu after ⟨0x0862a32f⟩ (.amo .swap) .w32 ↔
      Atomic.FailsCleanly swapCpu ⟨0x0862a32f⟩ (.amo .swap) .w32) := by
  obtain ⟨after, h, _⟩ := swapCpu_execute
  exact ⟨after, h, Atomic.changedNothing_iff swapCpu_settled rfl swapCpu_isAmo (by simp)
    swapCpu_refused h⟩

/-- The operand is lost, and the exception is that of a load. -/
theorem swapCpu_loses_operand : ¬ ∀ (cpu after : Cpu) (d : Decoder) (op : AtomicOp)
    (length : Width) (size : Word), Mmu.Settled cpu.mmu → cpu.excVal = none →
    d.IsAtomicOp op length → (op = .sc → cpu.regs d.rs1 ∈ cpu.reservations) →
    Atomic.Refused cpu d op length → cpu.execute d = .ok (size, after) →
    Atomic.ChangedNothing cpu after d op length := by
  intro hall
  obtain ⟨after, h, hr⟩ := swapCpu_execute
  have hn := hall swapCpu after _ _ _ 4 swapCpu_settled rfl swapCpu_isAmo (by simp)
    swapCpu_refused h
  exact absurd (hr.symm.trans (hn.regs 6 (by decide))) (by decide)

end Rv64gcEmu
