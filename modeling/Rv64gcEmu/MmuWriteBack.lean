import Rv64gcEmu.Translate

namespace Rv64gcEmu

namespace RamDevice

/-- The first byte of an access that the bus gives to the RAM. -/
def InRange (ram : RamDevice) (address : Word) : Prop := ram.baseAddr ≤ address ∧ address < ram.endAddr

/-- The two memories have the same addresses. -/
def SameRange (a b : RamDevice) : Prop := b.baseAddr = a.baseAddr ∧ b.endAddr = a.endAddr

theorem SameRange.contains {a b : RamDevice} (h : SameRange a b) {address : Word} {n : Nat} :
    b.Contains address n ↔ a.Contains address n := by
  unfold Contains
  rw [h.1, h.2]

/-- The two memories agree, but for the Accessed and Dirty bits of page table entries. -/
def MarksOnly (isPte : Word → Prop) (a b : RamDevice) : Prop :=
  ∀ x, b.byteAt x = a.byteAt x ∨
    isPte x ∧ ∀ i, i ≠ 6 → i ≠ 7 → (b.byteAt x).getLsbD i = (a.byteAt x).getLsbD i

namespace MarksOnly

variable {P Q : Word → Prop} {a b c : RamDevice}

theorem of_eq (h : b = a) : MarksOnly P a b := fun _ => .inl (by rw [h])

theorem mono (h : MarksOnly P a b) (hpq : ∀ x, P x → Q x) : MarksOnly Q a b :=
  fun x => (h x).imp id (And.imp_left (hpq x))

theorem trans (h : MarksOnly P a b) (h' : MarksOnly P b c) : MarksOnly P a c := by
  intro x
  rcases h x with hb | ⟨hp, hb⟩
  · rw [← hb]
    exact h' x
  · rcases h' x with hc | ⟨_, hc⟩
    · rw [hc]
      exact .inr ⟨hp, hb⟩
    · exact .inr ⟨hp, fun i h6 h7 => (hc i h6 h7).trans (hb i h6 h7)⟩

end MarksOnly

theorem Contains.inRange {ram : RamDevice} {address : Word} (h : ram.Contains address 8) :
    ram.InRange address := by
  refine ⟨h.1, ?_⟩
  have he := h.2
  rw [BitVec.lt_def]
  omega

theorem getLsbD_word {ram : RamDevice} {p : Word} (h : ram.Contains p 8) {i : Nat} (hi : i < 64) :
    (ram.word p).getLsbD i = (ram.byteAt (p + BitVec.ofNat 64 (i / 8))).getLsbD (i % 8) := by
  rw [byteAt, byteAt_add h.offset_le (by omega : i / 8 < 8), word, LittleEndian.getLsbD_read]
  simp [hi]

/-- Seen as words, only the entries themselves may differ. -/
theorem MarksOnly.word {P : Word → Prop} {a b : RamDevice} (h : MarksOnly P a b)
    (hP : ∀ x, P x → x.toNat % 8 = 0) {p : Word} (hp : p.toNat % 8 = 0) (ha : a.Contains p 8)
    (hb : b.Contains p 8) : Paging.SameButMarks (b.word p) (a.word p) := by
  intro i h6 h7
  by_cases hi : i < 64
  · rw [getLsbD_word ha hi, getLsbD_word hb hi]
    rcases h (p + BitVec.ofNat 64 (i / 8)) with he | ⟨hpte, he⟩
    · rw [he]
    · have hal := hP _ hpte
      rw [BitVec.toNat_add, BitVec.toNat_ofNat] at hal
      have hz : i / 8 = 0 := by
        have hlt : i / 8 < 8 := by omega
        omega
      exact he _ (by omega) (by omega)
  · rw [BitVec.getLsbD_of_ge _ _ (by omega), BitVec.getLsbD_of_ge _ _ (by omega)]

/-- Writing an entry back with other marks. -/
theorem marksOnly_setWord {ram : RamDevice} {p v : Word} (h : ram.Contains p 8)
    (hs : Paging.SameButMarks v (ram.word p)) : MarksOnly (· = p) ram (ram.setWord p v) := by
  intro x
  have hc : (ram.setWord p v).Contains p 8 := h
  by_cases hin : (p - ram.baseAddr).toNat ≤ (x - ram.baseAddr).toNat ∧
      (x - ram.baseAddr).toNat < (p - ram.baseAddr).toNat + 8
  · obtain ⟨k, hk, rfl⟩ : ∃ k, k < 8 ∧ x = p + BitVec.ofNat 64 k := by
      refine ⟨(x - ram.baseAddr).toNat - (p - ram.baseAddr).toNat, by omega, ?_⟩
      have ho := byteAt_add h.offset_le
        (by omega : (x - ram.baseAddr).toNat - (p - ram.baseAddr).toNat < 8)
      have he : (x - ram.baseAddr).toNat = (p + BitVec.ofNat 64
          ((x - ram.baseAddr).toNat - (p - ram.baseAddr).toNat) - ram.baseAddr).toNat := by omega
      simpa using BitVec.eq_of_toNat_eq he
    have hbit : ∀ i, i < 8 → 8 * k + i ≠ 6 → 8 * k + i ≠ 7 →
        ((ram.setWord p v).byteAt (p + BitVec.ofNat 64 k)).getLsbD i =
          (ram.byteAt (p + BitVec.ofNat 64 k)).getLsbD i := by
      intro i hi h6 h7
      have hb := hs (8 * k + i) h6 h7
      rw [← word_setWord_self ram p v, getLsbD_word hc (by omega), getLsbD_word h (by omega)] at hb
      have hd : (8 * k + i) / 8 = k := by omega
      have hm : (8 * k + i) % 8 = i := by omega
      rwa [hd, hm] at hb
    by_cases hz : k = 0
    · subst hz
      have h0 : p + BitVec.ofNat 64 0 = p := BitVec.add_zero p
      refine .inr ⟨h0, fun i h6 h7 => ?_⟩
      by_cases hi : i < 8
      · exact hbit i hi (by omega) (by omega)
      · rw [BitVec.getLsbD_of_ge _ _ (by omega), BitVec.getLsbD_of_ge _ _ (by omega)]
    · refine .inl (BitVec.eq_of_getLsbD_eq fun i hi => hbit i hi ?_ ?_)
      · omega
      · omega
  · exact .inl (LittleEndian.write_of_not_mem _ _ hin)

end RamDevice

namespace Mmu

open Paging (SameButMarks)

/-- The entry holds the word that the RAM has at its address. -/
structure FromRam (ram : RamDevice) (e : TlbEntry) : Prop where
  aligned : e.pteAddr.toNat % 8 = 0
  word : ram.InRange e.pteAddr → ram.Contains e.pteAddr 8 ∧ e.pte = ram.word e.pteAddr

theorem load_inRange {cpu cpu' : Cpu} {address v : Word}
    (h : Bus.load cpu address .w64 = .ok (v, cpu')) (hr : cpu.bus.ram.InRange address) :
    cpu.bus.ram.Contains address 8 ∧ v = cpu.bus.ram.word address := by
  have hd : cpu.bus.findBusDevice address = some .ram := Bus.findBusDevice_eq_ram_iff.mpr hr
  unfold Bus.load at h
  rw [hd] at h
  obtain ⟨⟨w, bus⟩, hl, h⟩ := Except.bind_eq_ok_iff.mp h
  obtain ⟨rfl, _⟩ := Prod.mk.inj (Except.ok.inj h)
  obtain ⟨w', hw, hl⟩ := Except.bind_eq_ok_iff.mp hl
  obtain ⟨rfl, _⟩ := Prod.mk.inj (Except.ok.inj hl)
  obtain ⟨hle, rfl⟩ := RamDevice.load_eq_ok_iff.mp hw
  exact ⟨(RamDevice.contains_iff_offset hr.1 hr.2).mpr hle, rfl⟩

theorem entryAddr_aligned {table vpn : Word} (h : table.toNat % 8 = 0) :
    (table + vpn * 8).toNat % 8 = 0 := by
  have h8 : (8 : Word).toNat = 8 := rfl
  rw [BitVec.toNat_add, BitVec.toNat_mul, h8]
  omega

theorem pageSize_aligned (x : Word) : (x * pageSize).toNat % 8 = 0 := by
  have h : pageSize.toNat = 4096 := rfl
  rw [BitVec.toNat_mul, h]
  omega

theorem fetchPteLoop_fromRam {cpu cpu' : Cpu} {address : Word} {accessType : AccessType}
    {vpn : Nat → Word} {a : Word} {entry e : TlbEntry} {i l : Nat} (ha : a.toNat % 8 = 0)
    (h : fetchPteLoop cpu address accessType vpn a entry i = .ok (some (l, e), cpu')) :
    FromRam cpu.bus.ram e := by
  revert ha
  refine fetchPteLoop_induction (P := fun c table e _ => table.toNat % 8 = 0 → FromRam c.bus.ram e)
    ?_ ?_ h
  · intro cpu c a pte i entry hl _ ha
    exact ⟨entryAddr_aligned ha, fun hr => load_inRange hl hr⟩
  · intro cpu c after a pte i e hl ih _
    have hf := ih (pageSize_aligned _)
    rwa [(Bus.load_coreEq hl).2.2] at hf

theorem fetchPte_fromRam {cpu cpu' : Cpu} {address : Word} {accessType : AccessType}
    {entry e : TlbEntry} (ha : (cpu.mmu.mppn.setWidth 64 : Word).toNat % 8 = 0)
    (h : fetchPte cpu address accessType entry = .ok (some e, cpu')) : FromRam cpu.bus.ram e := by
  obtain ⟨l, leaf, hl, rfl⟩ := fetchPte_some h
  have hf := fetchPteLoop_fromRam ha hl
  exact ⟨hf.aligned, hf.word⟩

/-- An entry that permits nothing, as an empty one. -/
def Denies (e : TlbEntry) : Prop := e.read = false ∧ e.write = false ∧ e.execute = false

/-- What every translation leaves in the cache: entries whose Accessed bit has been set,
and empty ones. -/
structure Settled (mmu : Mmu) : Prop where
  root : (mmu.mppn.setWidth 64 : Word).toNat % 8 = 0
  aligned : ∀ i, (mmu.tlbCache i).pteAddr.toNat % 8 = 0
  accessed : ∀ i, (mmu.tlbCache i).accessed = true ∨ Denies (mmu.tlbCache i)

theorem settled_flush {mmu : Mmu} (hroot : (mmu.mppn.setWidth 64 : Word).toNat % 8 = 0)
    (h : mmu.tlbCache = fun _ => emptyEntry) : Settled mmu := by
  refine ⟨hroot, fun i => ?_, fun i => ?_⟩
  · rw [h]
    rfl
  · rw [h]
    exact .inr ⟨rfl, rfl, rfl⟩

theorem Denies.permissionFault {e : TlbEntry} (h : Denies e) (accessType : AccessType)
    (cpuMode : Mode) (mxr sum : Bool) : permissionFault e accessType cpuMode mxr sum = true := by
  obtain ⟨hr, hw, hx⟩ := h
  cases accessType <;> simp [Mmu.permissionFault, hr, hw, hx]

/-- The addresses of the entries that the cache holds. -/
def Holds (mmu : Mmu) (x : Word) : Prop :=
  ∃ i, (mmu.tlbCache i).accessed = true ∧ (mmu.tlbCache i).pteAddr = x

theorem Settled.holds_aligned {mmu : Mmu} (h : Settled mmu) {x : Word} (hx : Holds mmu x) :
    x.toNat % 8 = 0 := by
  obtain ⟨i, _, rfl⟩ := hx
  exact h.aligned i

/-- What the lookup can return: an entry of the cache, or one that was read just now. -/
theorem getTlbEntry_cases {cpu cpu' : Cpu} {address : Word} {accessType : AccessType} {i : Fin 4}
    (h : getTlbEntry cpu address accessType = .ok (some i, cpu'))
    (ha : (cpu.mmu.mppn.setWidth 64 : Word).toNat % 8 = 0) :
    (cpu.host.useTlb = true ∧ (tlbScan cpu.mmu.tlbCache (pageOf address)).hit = some i ∧
      cpu' = cpu.setMmu { cpu.mmu with
        tlbCache := (tlbScan cpu.mmu.tlbCache (pageOf address)).tlb }) ∨
    (Misses cpu address ∧ FromRam cpu.bus.ram (cpu'.mmu.tlbCache i) ∧
      ∀ j, j ≠ i → SameButAge (cpu.mmu.tlbCache j) (cpu'.mmu.tlbCache j)) := by
  rcases getTlbEntry_some h with ⟨huse, hi, rfl⟩ | ⟨hmiss, _, walked, c, hf, rfl⟩
  · exact .inl ⟨huse, hi, if_pos huse⟩
  · obtain ⟨hbus, hmppn⟩ := searched_frame cpu address
    have hmmu := ((fetchPte_frame hf).quiet rfl).2.2
    have hram := fetchPte_fromRam (by rw [hmppn]; exact ha) hf
    rw [hbus] at hram
    obtain ⟨virtBase, age, htag⟩ := tagged_same cpu address walked
    refine .inr ⟨hmiss, ?_, fun j hj => ?_⟩
    · simp only [Cpu.setMmu_mmu, setEntry, Function.update_self, htag]
      exact ⟨hram.aligned, hram.word⟩
    · simp only [Cpu.setMmu_mmu, setEntry, Function.update_of_ne hj, hmmu]
      exact searched_same cpu address j

theorem translate_cases {cpu after : Cpu} {address p : Word} {accessType : AccessType}
    (h : translate cpu address accessType = .ok (p, after)) :
    (¬Active cpu accessType ∧ after = cpu) ∨
    (∃ c, getTlbEntry cpu address accessType = .ok (none, c) ∧ after = c) ∨
    (Active cpu accessType ∧ ∃ i c, getTlbEntry cpu address accessType = .ok (some i, c) ∧
      checkEntry c i address accessType (accessMode cpu accessType) = .ok (p, after)) := by
  by_cases hact : Active cpu accessType
  · rw [translate_active address hact] at h
    obtain ⟨⟨found, c⟩, hg, h⟩ := Except.bind_eq_ok_iff.mp h
    cases found with
    | none =>
      obtain ⟨_, rfl⟩ := Prod.mk.inj (Except.ok.inj h)
      exact .inr (.inl ⟨c, hg, rfl⟩)
    | some i => exact .inr (.inr ⟨hact, i, c, hg, h⟩)
  · rw [translate_inactive address hact] at h
    obtain ⟨_, rfl⟩ := Prod.mk.inj (Except.ok.inj h)
    exact .inl ⟨hact, rfl⟩

theorem store_word_cases {cpu after : Cpu} {address v : Word}
    (h : Bus.store cpu address v .w64 = .ok after) : after.mmu = cpu.mmu ∧
      ((cpu.bus.ram.Contains address 8 ∧ after.bus.ram = cpu.bus.ram.setWord address v) ∨
        (¬cpu.bus.ram.InRange address ∧ after.bus.ram = cpu.bus.ram)) := by
  refine ⟨(Bus.store_coreEq h).2, ?_⟩
  rcases Bus.store_cases h with ⟨d, bus, hd, hst, rfl⟩ | ⟨hd, rfl⟩
  · by_cases hram : d = .ram
    · subst hram
      have hr := Bus.findBusDevice_eq_ram_iff.mp hd
      obtain ⟨ram, hs, hst⟩ := Except.bind_eq_ok_iff.mp hst
      cases Except.ok.inj hst
      obtain ⟨hle, rfl⟩ := RamDevice.store_eq_ok_iff.mp hs
      exact .inl ⟨(RamDevice.contains_iff_offset hr.1 hr.2).mpr hle, rfl⟩
    · refine .inr ⟨fun hr => hram ?_, Bus.deviceStore_ram hst hram⟩
      exact Option.some.inj (hd.symm.trans (Bus.findBusDevice_eq_ram_iff.mpr hr))
  · refine .inr ⟨fun hr => ?_, rfl⟩
    rw [Bus.findBusDevice_eq_ram_iff.mpr hr] at hd
    cases hd

/-- The check of an entry faults, finds the marks set, or writes the marked entry back. -/
theorem checkEntry_cases {cpu after : Cpu} {i : Fin 4} {address p : Word} {accessType : AccessType}
    {cpuMode : Mode} (h : checkEntry cpu i address accessType cpuMode = .ok (p, after)) :
    (permissionFault (cpu.mmu.tlbCache i) accessType cpuMode
        (cpu.cregs.readBitMstatus .mxr ≠ 0) (cpu.cregs.readBitMstatus .sum ≠ 0) = true ∧
      after = setCpuError cpu address accessType) ∨
    (permissionFault (cpu.mmu.tlbCache i) accessType cpuMode
        (cpu.cregs.readBitMstatus .mxr ≠ 0) (cpu.cregs.readBitMstatus .sum ≠ 0) = false ∧
      ((needsUpdate (cpu.mmu.tlbCache i) accessType = false ∧ after = cpu) ∨
      (needsUpdate (cpu.mmu.tlbCache i) accessType = true ∧
        Bus.store (cpu.setMmu (cpu.mmu.setEntry i (markEntry (cpu.mmu.tlbCache i) accessType)))
          (cpu.mmu.tlbCache i).pteAddr (Paging.mark (cpu.mmu.tlbCache i).pte accessType.kind) .w64 =
          .ok after))) := by
  have haddr : (markEntry (cpu.mmu.tlbCache i) accessType).pteAddr =
      (cpu.mmu.tlbCache i).pteAddr := by cases accessType <;> rfl
  unfold checkEntry at h
  simp only at h
  split at h
  next hperm =>
    obtain ⟨_, rfl⟩ := Prod.mk.inj (Except.ok.inj h)
    exact .inl ⟨hperm, rfl⟩
  next hperm =>
    refine .inr ⟨by simpa using hperm, ?_⟩
    split at h
    next hneed =>
      obtain ⟨c, hs, h⟩ := Except.bind_eq_ok_iff.mp h
      obtain ⟨_, rfl⟩ := Prod.mk.inj (Except.ok.inj h)
      rw [haddr, markEntry_pte] at hs
      exact .inr ⟨hneed, hs⟩
    next hneed =>
      obtain ⟨_, rfl⟩ := Prod.mk.inj (Except.ok.inj h)
      exact .inl ⟨by simpa using hneed, rfl⟩

/-- The cached entry that a store marks is not what the RAM holds any more. -/
def StaleHit (cpu : Cpu) (address : Word) : Prop :=
  Active cpu .store ∧ cpu.host.useTlb = true ∧
    ∃ i, (tlbScan cpu.mmu.tlbCache (pageOf address)).hit = some i ∧
      permissionFault (cpu.mmu.tlbCache i) .store (accessMode cpu .store)
        (cpu.cregs.readBitMstatus .mxr ≠ 0) (cpu.cregs.readBitMstatus .sum ≠ 0) = false ∧
      (cpu.mmu.tlbCache i).dirty = false ∧ cpu.bus.ram.InRange (cpu.mmu.tlbCache i).pteAddr ∧
      ¬SameButMarks (cpu.mmu.tlbCache i).pte (cpu.bus.ram.word (cpu.mmu.tlbCache i).pteAddr)

/-- What one translation does to the RAM and to the cache. -/
structure WritesBack (cpu : Cpu) (address : Word) (accessType : AccessType) (after : Cpu) : Prop where
  settled : Settled after.mmu
  range : RamDevice.SameRange cpu.bus.ram after.bus.ram
  marks : ¬(accessType = .store ∧ StaleHit cpu address) →
    RamDevice.MarksOnly (Holds after.mmu) cpu.bus.ram after.bus.ram
  stale : accessType = .store → StaleHit cpu address → ∃ x v, Holds after.mmu x ∧
    cpu.bus.ram.Contains x 8 ∧ after.bus.ram = cpu.bus.ram.setWord x v ∧
    ¬SameButMarks v (cpu.bus.ram.word x)

/-- The write-back of one check, for a cache that is settled but for the entry checked. -/
structure CheckedBack (cpu : Cpu) (i : Fin 4) (accessType : AccessType) (cpuMode : Mode)
    (after : Cpu) : Prop where
  settled : Settled after.mmu
  ram : (after.bus.ram = cpu.bus.ram ∧
      (permissionFault (cpu.mmu.tlbCache i) accessType cpuMode
        (cpu.cregs.readBitMstatus .mxr ≠ 0) (cpu.cregs.readBitMstatus .sum ≠ 0) = true ∨
      needsUpdate (cpu.mmu.tlbCache i) accessType = false ∨
      ¬cpu.bus.ram.InRange (cpu.mmu.tlbCache i).pteAddr)) ∨
    (permissionFault (cpu.mmu.tlbCache i) accessType cpuMode
        (cpu.cregs.readBitMstatus .mxr ≠ 0) (cpu.cregs.readBitMstatus .sum ≠ 0) = false ∧
      needsUpdate (cpu.mmu.tlbCache i) accessType = true ∧
      cpu.bus.ram.Contains (cpu.mmu.tlbCache i).pteAddr 8 ∧
      Holds after.mmu (cpu.mmu.tlbCache i).pteAddr ∧
      after.bus.ram = cpu.bus.ram.setWord (cpu.mmu.tlbCache i).pteAddr
        (Paging.mark (cpu.mmu.tlbCache i).pte accessType.kind))

theorem CheckedBack.range {cpu after : Cpu} {i : Fin 4} {accessType : AccessType} {cpuMode : Mode}
    (h : CheckedBack cpu i accessType cpuMode after) :
    RamDevice.SameRange cpu.bus.ram after.bus.ram := by
  rcases h.ram with ⟨heq, _⟩ | ⟨_, _, _, _, heq⟩
  · rw [heq]
    exact ⟨rfl, rfl⟩
  · rw [heq]
    exact ⟨rfl, rfl⟩

theorem checkEntry_back {cpu after : Cpu} {i : Fin 4} {address p : Word} {accessType : AccessType}
    {cpuMode : Mode} (hroot : (cpu.mmu.mppn.setWidth 64 : Word).toNat % 8 = 0)
    (hal : ∀ j, (cpu.mmu.tlbCache j).pteAddr.toNat % 8 = 0)
    (hacc : ∀ j, j ≠ i → (cpu.mmu.tlbCache j).accessed = true ∨ Denies (cpu.mmu.tlbCache j))
    (h : checkEntry cpu i address accessType cpuMode = .ok (p, after)) :
    CheckedBack cpu i accessType cpuMode after := by
  rcases checkEntry_cases h with ⟨hp, rfl⟩ | ⟨hp, ⟨hneed, rfl⟩ | ⟨hneed, hst⟩⟩
  · exact ⟨settled_flush hroot rfl, .inl ⟨rfl, .inl hp⟩⟩
  · have ha : (after.mmu.tlbCache i).accessed = true := by
      simp only [needsUpdate, Bool.or_eq_false_iff, Bool.not_eq_false'] at hneed
      exact hneed.1
    refine ⟨⟨hroot, hal, fun j => ?_⟩, .inl ⟨rfl, .inr (.inl hneed)⟩⟩
    by_cases hj : j = i
    · exact .inl (hj ▸ ha)
    · exact hacc j hj
  · obtain ⟨hmmu, hram⟩ := store_word_cases hst
    have hent : ∀ j, (after.mmu.tlbCache j).pteAddr = (cpu.mmu.tlbCache j).pteAddr ∧
        ((after.mmu.tlbCache j).accessed = true ∨ Denies (after.mmu.tlbCache j)) ∧
        (after.mmu.tlbCache i).accessed = true := by
      intro j
      rw [hmmu]
      simp only [Cpu.setMmu_mmu, setEntry, Function.update_self]
      have hmark : (markEntry (cpu.mmu.tlbCache i) accessType).accessed = true := by
        cases accessType <;> rfl
      by_cases hj : j = i
      · subst hj
        rw [Function.update_self]
        refine ⟨?_, .inl hmark, hmark⟩
        cases accessType <;> rfl
      · rw [Function.update_of_ne hj]
        exact ⟨rfl, hacc j hj, hmark⟩
    refine ⟨⟨by rw [hmmu]; exact hroot, fun j => by rw [(hent j).1]; exact hal j,
      fun j => (hent j).2.1⟩, ?_⟩
    rcases hram with ⟨hin, hset⟩ | ⟨hout, hsame⟩
    · exact .inr ⟨hp, hneed, hin, ⟨i, (hent i).2.2, (hent i).1⟩, hset⟩
    · exact .inl ⟨hsame, .inr (.inr hout)⟩

/-- An entry that only aged is still settled. -/
theorem Settled.of_sameButAge {mmu : Mmu} (hs : Settled mmu) {j : Fin 4} {e : TlbEntry}
    (h : SameButAge (mmu.tlbCache j) e) :
    e.pteAddr.toNat % 8 = 0 ∧ (e.accessed = true ∨ Denies e) := by
  obtain ⟨age, rfl⟩ := h
  exact ⟨hs.aligned j, hs.accessed j⟩

/-- A cached entry is written back as the RAM has it, unless it is stale. -/
theorem hit_writesBack {cpu after : Cpu} {address p : Word} {accessType : AccessType} {i : Fin 4}
    (hs : Settled cpu.mmu) (hact : Active cpu accessType) (huse : cpu.host.useTlb = true)
    (hit : (tlbScan cpu.mmu.tlbCache (pageOf address)).hit = some i)
    (hcheck : checkEntry (cpu.setMmu { cpu.mmu with
      tlbCache := (tlbScan cpu.mmu.tlbCache (pageOf address)).tlb }) i address accessType
      (accessMode cpu accessType) = .ok (p, after)) : WritesBack cpu address accessType after := by
  have hscan := tlbScan_scanned cpu.mmu.tlbCache (pageOf address)
  have hback := checkEntry_back (by exact hs.root) (fun j => (hs.of_sameButAge (hscan.same j)).1)
    (fun j _ => (hs.of_sameButAge (hscan.same j)).2) hcheck
  obtain ⟨age, he⟩ := hscan.same i
  have hram := hback.ram
  simp only [Cpu.setMmu_mmu, Cpu.setMmu_cregs, Cpu.setMmu_bus, he] at hram
  refine ⟨hback.settled, hback.range, fun hfresh => ?_, ?_⟩
  · rcases hram with ⟨heq, _⟩ | ⟨hp, hneed, hin, hholds, heq⟩
    · exact .of_eq heq
    · have hacc : (cpu.mmu.tlbCache i).accessed = true := by
        refine (hs.accessed i).resolve_right fun hd => ?_
        have hd' : Denies { cpu.mmu.tlbCache i with age := age } := hd
        rw [hd'.permissionFault] at hp
        cases hp
      simp only [needsUpdate, hacc, Bool.not_true, Bool.false_or, Bool.and_eq_true,
        decide_eq_true_eq, Bool.not_eq_true'] at hneed
      obtain ⟨rfl, hdirty⟩ := hneed
      have hsame : SameButMarks (cpu.mmu.tlbCache i).pte
          (cpu.bus.ram.word (cpu.mmu.tlbCache i).pteAddr) := by
        by_contra hne
        exact hfresh ⟨rfl, hact, huse, i, hit, hp, hdirty, hin.inRange, hne⟩
      rw [heq]
      refine (RamDevice.marksOnly_setWord hin
        ((Paging.sameButMarks_mark _ _).trans hsame)).mono ?_
      rintro x rfl
      exact hholds
  · rintro rfl ⟨_, _, j, hj, hp, hdirty, hin, hne⟩
    obtain rfl := Option.some.inj (hit.symm.trans hj)
    have hneed : needsUpdate (cpu.mmu.tlbCache i) .store = true := by
      simp [needsUpdate, hdirty]
    rcases hram with ⟨_, hno⟩ | ⟨_, _, hcon, hholds, heq⟩
    · exfalso
      rcases hno with hno | hno | hno
      · exact absurd (hno.symm.trans hp) (by simp)
      · exact absurd (hno.symm.trans hneed) (by simp)
      · exact hno hin
    · refine ⟨_, _, hholds, hcon, heq, fun hsame => hne ?_⟩
      exact (Paging.sameButMarks_mark _ _).symm.trans hsame

/-- An entry that was read just now is written back as it is in the RAM. -/
theorem miss_writesBack {cpu c after : Cpu} {address p : Word} {accessType : AccessType} {i : Fin 4}
    (hs : Settled cpu.mmu) (w : LookupFrame cpu c address accessType true)
    (hmiss : Misses cpu address) (hfresh : FromRam cpu.bus.ram (c.mmu.tlbCache i))
    (hsame : ∀ j, j ≠ i → SameButAge (cpu.mmu.tlbCache j) (c.mmu.tlbCache j))
    (hcheck : checkEntry c i address accessType (accessMode cpu accessType) = .ok (p, after)) :
    WritesBack cpu address accessType after := by
  have hroot : (c.mmu.mppn.setWidth 64 : Word).toNat % 8 = 0 := by
    rw [w.root.2]
    exact hs.root
  have haligned : ∀ j, (c.mmu.tlbCache j).pteAddr.toNat % 8 = 0 := by
    intro j
    by_cases hj : j = i
    · exact hj ▸ hfresh.aligned
    · exact (hs.of_sameButAge (hsame j hj)).1
  have hback := checkEntry_back hroot haligned (fun j hj => (hs.of_sameButAge (hsame j hj)).2) hcheck
  refine ⟨hback.settled, w.ram ▸ hback.range, fun _ => ?_, ?_⟩
  · rw [← w.ram]
    rcases hback.ram with ⟨heq, _⟩ | ⟨_, _, hin, hholds, heq⟩
    · exact .of_eq heq
    · have hword := (hfresh.word (w.ram ▸ hin.inRange)).2
      rw [heq]
      refine (RamDevice.marksOnly_setWord hin ?_).mono ?_
      · rw [w.ram, ← hword]
        exact Paging.sameButMarks_mark _ _
      · rintro x rfl
        exact hholds
  · rintro rfl ⟨_, huse, j, hj, _⟩
    rw [hmiss huse] at hj
    cases hj

theorem translate_writesBack {cpu after : Cpu} {address p : Word} {accessType : AccessType}
    (hs : Settled cpu.mmu) (h : translate cpu address accessType = .ok (p, after)) :
    WritesBack cpu address accessType after := by
  rcases translate_cases h with ⟨hact, rfl⟩ | ⟨c, hg, rfl⟩ | ⟨hact, i, c, hg, hcheck⟩
  · refine ⟨hs, ⟨rfl, rfl⟩, fun _ => .of_eq rfl, ?_⟩
    rintro rfl hst
    exact absurd hst.1 hact
  · have w := getTlbEntry_frame hg
    have hroot : (after.mmu.mppn.setWidth 64 : Word).toNat % 8 = 0 := by
      rw [w.root.2]
      exact hs.root
    refine ⟨settled_flush hroot (w.fault rfl).tlb, by rw [w.ram]; exact ⟨rfl, rfl⟩,
      fun _ => .of_eq w.ram, ?_⟩
    rintro rfl ⟨_, huse, j, hj, _⟩
    rw [getTlbEntry_hit _ huse hj] at hg
    obtain ⟨hn, _⟩ := Prod.mk.inj (Except.ok.inj hg)
    cases hn
  · have w := getTlbEntry_frame hg
    rcases getTlbEntry_cases hg hs.root with ⟨huse, hit, rfl⟩ | ⟨hmiss, hfresh, hsame⟩
    · exact hit_writesBack hs hact huse hit hcheck
    · exact miss_writesBack hs w hmiss hfresh hsame hcheck

/-- A stale entry that was written back shows. -/
theorem WritesBack.not_marksOnly {cpu after : Cpu} {address : Word} {P : Word → Prop}
    {ram : RamDevice} (h : WritesBack cpu address .store after) (hst : StaleHit cpu address)
    (hP : ∀ x, P x → x.toNat % 8 = 0) (hr : RamDevice.SameRange ram cpu.bus.ram)
    (hm : RamDevice.MarksOnly P ram cpu.bus.ram) : ¬RamDevice.MarksOnly P ram after.bus.ram := by
  intro hnet
  obtain ⟨x, v, hx, hin, hset, hne⟩ := h.stale rfl hst
  have hal := h.settled.holds_aligned hx
  have hinr : ram.Contains x 8 := hr.contains.mp hin
  have hina : after.bus.ram.Contains x 8 := h.range.contains.mpr hin
  have hword := hnet.word hP hal hinr hina
  rw [hset, RamDevice.word_setWord_self] at hword
  exact hne (hword.trans (hm.word hP hal hinr hin).symm)

theorem load_writesBack {cpu after : Cpu} {address v : Word} {length : Width}
    (hs : Settled cpu.mmu) (h : load cpu address length = .ok (v, after)) :
    WritesBack cpu address .load after := by
  obtain ⟨p, c, ht, ⟨_, _, rfl⟩ | ⟨_, hl⟩⟩ := load_cases h
  · exact translate_writesBack hs ht
  · have hw := translate_writesBack hs ht
    obtain ⟨_, hm, hr⟩ := Bus.load_coreEq hl
    exact ⟨hm ▸ hw.settled, hr ▸ hw.range, by rw [hm, hr]; exact hw.marks, by simp⟩

theorem fetch_writesBack {cpu after : Cpu} {address v : Word}
    (hs : Settled cpu.mmu) (h : fetch cpu address = .ok (v, after)) :
    WritesBack cpu address .instruction after := by
  obtain ⟨p, c, ht, ⟨_, _, rfl⟩ | ⟨_, c', hl, ha⟩⟩ := fetch_cases h
  · exact translate_writesBack hs ht
  · have hw := translate_writesBack hs ht
    obtain ⟨_, hm, hr⟩ := Bus.load_coreEq hl
    have hw' : WritesBack cpu address .instruction c' :=
      ⟨hm ▸ hw.settled, hr ▸ hw.range, by rw [hm, hr]; exact hw.marks, by simp⟩
    rcases ha with rfl | rfl
    · exact hw'
    · exact ⟨hw'.settled, hw'.range, hw'.marks, by simp⟩

/-- A store that fails writes back what its translation does. -/
theorem store_fault {cpu after : Cpu} {address value : Word} {length : Width}
    (hs : Settled cpu.mmu) (h : store cpu address value length = .ok after)
    (hf : after.excVal ≠ none) : WritesBack cpu address .store after := by
  obtain ⟨p, c, ht, ⟨_, rfl⟩ | ⟨hc, hst⟩⟩ := store_cases h
  · exact translate_writesBack hs ht
  · have hw := translate_writesBack hs ht
    have hm := (Bus.store_coreEq hst).2
    rcases Bus.store_exc hst with he | ⟨_, hb⟩
    · exact absurd (he.trans hc) hf
    · exact ⟨hm ▸ hw.settled, hb ▸ hw.range, by rw [hm, hb]; exact hw.marks,
        by rw [hm, hb]; exact hw.stale⟩

/-- A load that fails gives 0. -/
theorem load_fault {cpu after : Cpu} {address v : Word} {length : Width}
    (h : load cpu address length = .ok (v, after)) (hf : after.excVal ≠ none) : v = 0 := by
  obtain ⟨p, c, _, ⟨_, hv, _⟩ | ⟨hc, hl⟩⟩ := load_cases h
  · exact hv
  · by_contra hv
    exact hf ((Bus.load_exc hl hv).1.trans hc)

end Mmu

end Rv64gcEmu
