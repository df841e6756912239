import Rv64gcEmu.TlbReuse
import Rv64gcEmu.WalkSpec

namespace Rv64gcEmu

namespace Mmu

/-- The width of the virtual addresses: the offset in the page and nine bits a level. -/
def vaBits (mmu : Mmu) : Nat := 12 + 9 * mmu.getLevels

/-- The bits above the translated width repeat the top translated bit. -/
def Canonical (mmu : Mmu) (address : Word) : Prop :=
  ∀ i, mmu.vaBits ≤ i → i < 64 → address.getLsbD i = address.getLsbD (mmu.vaBits - 1)

/-- Two addresses that differ above the translated width at most. -/
def SameVaBits (mmu : Mmu) (a b : Word) : Prop :=
  ∀ i, i < mmu.vaBits → a.getLsbD i = b.getLsbD i

/-- The canonical address with the same translated bits. -/
def canonicalAddress (mmu : Mmu) (address : Word) : Word :=
  (address.setWidth mmu.vaBits).signExtend 64

theorem vaBits_cases (mmu : Mmu) :
    mmu.vaBits = 12 ∨ mmu.vaBits = 39 ∨ mmu.vaBits = 48 ∨ mmu.vaBits = 57 := by
  rcases getLevels_cases mmu with h | h | h | h <;> simp [vaBits, h]

theorem getLsbD_canonicalAddress (mmu : Mmu) (address : Word) {i : Nat} (hi : i < 64) :
    (canonicalAddress mmu address).getLsbD i =
      if i < mmu.vaBits then address.getLsbD i else address.getLsbD (mmu.vaBits - 1) := by
  have hpos : 0 < mmu.vaBits := by
    unfold vaBits
    omega
  have htop : (address.setWidth mmu.vaBits).msb = address.getLsbD (mmu.vaBits - 1) := by
    rw [BitVec.msb_eq_getLsbD_last, BitVec.getLsbD_setWidth]
    have hlt : mmu.vaBits - 1 < mmu.vaBits := by omega
    simp [hlt]
  rw [canonicalAddress, BitVec.getLsbD_signExtend, htop, BitVec.getLsbD_setWidth]
  by_cases hlt : i < mmu.vaBits
  · simp [hi, hlt]
  · simp [hi, hlt]

theorem canonicalAddress_canonical (mmu : Mmu) (address : Word) :
    Canonical mmu (canonicalAddress mmu address) := by
  have hpos : mmu.vaBits - 1 < mmu.vaBits := by
    unfold vaBits
    omega
  intro i hle hi
  rw [getLsbD_canonicalAddress mmu address hi, getLsbD_canonicalAddress mmu address (by omega),
    if_neg (by omega), if_pos hpos]

theorem canonicalAddress_sameVaBits (mmu : Mmu) (address : Word) :
    SameVaBits mmu address (canonicalAddress mmu address) := by
  intro i hi
  have h64 : i < 64 := by
    rcases vaBits_cases mmu with h | h | h | h <;> omega
  rw [getLsbD_canonicalAddress mmu address h64, if_pos hi]

theorem SameVaBits.getVpn {mmu : Mmu} {a b : Word} (h : SameVaBits mmu a b) :
    mmu.getVpn a = mmu.getVpn b := by
  funext i
  by_cases hi : i < mmu.getLevels
  · rw [getVpn_eq a hi, getVpn_eq b hi]
    refine congrArg (BitVec.setWidth 64) (BitVec.eq_of_getLsbD_eq fun k hk => ?_)
    have hlt : 12 + i * 9 + k < mmu.vaBits := by
      unfold vaBits
      omega
    rw [Paging.vpn, Paging.vpn, BitVec.getLsbD_extractLsb', BitVec.getLsbD_extractLsb',
      h _ hlt]
  · unfold Mmu.getVpn
    rw [if_neg hi, if_neg hi]

theorem SameVaBits.offset {mmu : Mmu} {a b : Word} (h : SameVaBits mmu a b) :
    a &&& 0xfff = b &&& 0xfff := by
  have h12 : (0xfff : Word) = BitVec.ofNat 64 (2 ^ 12 - 1) := rfl
  apply BitVec.eq_of_getLsbD_eq
  intro i hi
  rw [BitVec.getLsbD_and, BitVec.getLsbD_and, h12, BitField.getLsbD_lowMask]
  by_cases hlt : i < 12
  · rw [h i (by unfold vaBits; omega)]
  · simp [hlt]

theorem fetchPte_alias {cpu : Cpu} {address other : Word} (accessType : AccessType)
    (entry : TlbEntry) (h : SameVaBits cpu.mmu address other) :
    fetchPte cpu other accessType entry =
      (fetchPte cpu address accessType entry).map (readdress other) :=
  fetchPte_sameVpn accessType entry h.getVpn

/-- Two scans that find nothing age the cache alike. -/
theorem tlbScan_miss {tlb : Fin 4 → TlbEntry} {a b : Word} (ha : (tlbScan tlb a).hit = none)
    (hb : (tlbScan tlb b).hit = none) : tlbScan tlb b = tlbScan tlb a := by
  rw [tlbScan_hit, List.find?_eq_none] at ha hb
  have hrun : ∀ (l : List (Fin 4)) (s : TlbScan), s.hit = none →
      (∀ j, (s.tlb j).virtBase = (tlb j).virtBase) →
      l.foldl (tlbScanStep b) s = l.foldl (tlbScanStep a) s := by
    intro l
    induction l with
    | nil => exact fun _ _ _ => rfl
    | cons i l ih =>
      intro s hs hbase
      have hna : a ≠ (s.tlb i).virtBase := by
        rw [hbase i]
        exact fun he => ha i (List.mem_finRange i) (decide_eq_true he)
      have hnb : b ≠ (s.tlb i).virtBase := by
        rw [hbase i]
        exact fun he => hb i (List.mem_finRange i) (decide_eq_true he)
      have hstep : tlbScanStep b s i = tlbScanStep a s i := by
        unfold tlbScanStep
        simp only [hs, if_neg hna, if_neg hnb]
      rw [List.foldl_cons, List.foldl_cons, hstep]
      refine ih _ ?_ fun j => (tlbScanStep_virtBase a s i j).trans (hbase j)
      rw [tlbScanStep_hit, hs, if_neg hna]
      rfl
  exact hrun _ _ rfl fun _ => rfl

/-- A lookup for one address, beside the lookup for another that misses too: the same entry,
kept under another page. -/
inductive LookupAlike (other : Word) :
    HostM (Option (Fin 4) × Cpu) → HostM (Option (Fin 4) × Cpu) → Prop
  | halt (e : Halt) : LookupAlike other (.error e) (.error e)
  | fault (c : Cpu) : LookupAlike other (.ok (none, c)) (.ok (none, { c with excData := other }))
  | entry (i : Fin 4) (c : Cpu) (page : Word) : LookupAlike other (.ok (some i, c))
      (.ok (some i, c.setMmu (c.mmu.setEntry i { c.mmu.tlbCache i with virtBase := page })))

/-- An entry that has just been put in the cache, under another page. -/
theorem LookupAlike.put (other : Word) (c : Cpu) (i : Fin 4) (entry : TlbEntry) (page : Word) :
    LookupAlike other (.ok (some i, c.setMmu (c.mmu.setEntry i entry)))
      (.ok (some i, c.setMmu (c.mmu.setEntry i { entry with virtBase := page }))) := by
  have h := @LookupAlike.entry other i (c.setMmu (c.mmu.setEntry i entry)) page
  simp only [Cpu.setMmu_mmu, setEntry, Function.update_idem, Function.update_self] at h
  exact h

theorem getTlbEntry_alias {cpu : Cpu} {address other : Word} (accessType : AccessType)
    (h : SameVaBits cpu.mmu address other) (ha : Misses cpu address) (hb : Misses cpu other) :
    LookupAlike other (getTlbEntry cpu address accessType) (getTlbEntry cpu other accessType) := by
  unfold getTlbEntry
  split
  next huse =>
    simp only [tlbScan_miss (ha huse) (hb huse), ha huse]
    rw [@fetchPte_alias _ address other accessType _ (by exact h)]
    generalize fetchPte _ address accessType _ = walked
    rcases walked with e | ⟨_ | entry, c⟩
    · exact .halt e
    · exact .fault c
    · exact .put other c _ { entry with virtBase := pageOf address, age := 0 } (pageOf other)
  next =>
    rw [fetchPte_alias accessType _ h]
    generalize fetchPte _ address accessType _ = walked
    rcases walked with e | ⟨_ | entry, c⟩
    · exact .halt e
    · exact .fault c
    · exact .put other c _ entry entry.virtBase

theorem store_setMmu (cpu : Cpu) (mmu : Mmu) (address value : Word) (length : Width) :
    Bus.store (cpu.setMmu mmu) address value length =
      (Bus.store cpu address value length).map fun c => c.setMmu mmu := by
  have hfind : (cpu.setMmu mmu).bus = cpu.bus := rfl
  unfold Bus.store
  rw [hfind]
  cases cpu.bus.findBusDevice address with
  | none => rfl
  | some d =>
    simp only
    cases cpu.bus.deviceStore d address value length with
    | error e => rfl
    | ok bus => rfl

/-- A translation for one address, beside that for another: the same physical address with
the same effects but for the cache, or the same fault for the other address. -/
inductive TranslatedAlike (address other : Word) (accessType : AccessType) :
    HostM (Word × Cpu) → HostM (Word × Cpu) → Prop
  | halt (e : Halt) : TranslatedAlike address other accessType (.error e) (.error e)
  | fault (c : Cpu) : c.excVal = some (pageFault accessType) → c.excData = address →
      TranslatedAlike address other accessType (.ok (0, c)) (.ok (0, { c with excData := other }))
  | physical (p : Word) (c : Cpu) (tlb : Fin 4 → TlbEntry) :
      TranslatedAlike address other accessType (.ok (p, c))
        (.ok (p, c.setMmu { c.mmu with tlbCache := tlb }))

/-- The checks of an entry do not look at its page. -/
theorem permissionFault_page (entry : TlbEntry) (page : Word) (accessType : AccessType)
    (cpuMode : Mode) (mxr sum : Bool) :
    permissionFault { entry with virtBase := page } accessType cpuMode mxr sum =
      permissionFault entry accessType cpuMode mxr sum := rfl

theorem needsUpdate_page (entry : TlbEntry) (page : Word) (accessType : AccessType) :
    needsUpdate { entry with virtBase := page } accessType = needsUpdate entry accessType := rfl

theorem markEntry_page (entry : TlbEntry) (page : Word) (accessType : AccessType) :
    markEntry { entry with virtBase := page } accessType =
      { markEntry entry accessType with virtBase := page } := by
  cases accessType <;> rfl

theorem checkEntry_alias {mmu : Mmu} {cpu : Cpu} {address other : Word} (accessType : AccessType)
    (cpuMode : Mode) (h : SameVaBits mmu address other) (i : Fin 4) (page : Word) :
    TranslatedAlike address other accessType (checkEntry cpu i address accessType cpuMode)
      (checkEntry (cpu.setMmu (cpu.mmu.setEntry i { cpu.mmu.tlbCache i with virtBase := page }))
        i other accessType cpuMode) := by
  unfold checkEntry
  simp only [Cpu.setMmu_mmu, Cpu.setMmu_cregs, setEntry, Function.update_self,
    permissionFault_page, needsUpdate_page, markEntry_page, h.offset]
  split
  next => exact .fault _ rfl rfl
  next =>
    split
    next =>
      rw [store_setMmu, store_setMmu, store_setMmu]
      generalize Bus.store cpu _ _ _ = stored
      rcases stored with e | c
      · exact .halt e
      · exact .physical _ (c.setMmu _) _
    next => exact .physical _ cpu _

theorem translate_alias {cpu : Cpu} {address other : Word} {accessType : AccessType}
    (hact : Active cpu accessType) (h : SameVaBits cpu.mmu address other)
    (ha : Misses cpu address) (hb : Misses cpu other) :
    TranslatedAlike address other accessType (translate cpu address accessType)
      (translate cpu other accessType) := by
  rw [translate_active address hact, translate_active other hact]
  have hlookup := getTlbEntry_alias accessType h ha hb
  generalize hg : getTlbEntry cpu address accessType = found at hlookup
  generalize getTlbEntry cpu other accessType = found' at hlookup
  cases hlookup with
  | halt e => exact .halt e
  | fault c =>
    have hf := (getTlbEntry_frame hg).fault rfl
    exact .fault c hf.excVal hf.excData
  | entry i c page => exact checkEntry_alias accessType _ h i page

theorem translate_answers {cpu after : Cpu} {address p : Word} {accessType : AccessType}
    (hact : Active cpu accessType) (h : translate cpu address accessType = .ok (p, after)) :
    ∃ found c, getTlbEntry cpu address accessType = .ok (found, c) ∧
      Answers cpu address accessType
        (granting c found accessType (accessMode cpu accessType)) p after := by
  rw [translate_active address hact] at h
  obtain ⟨⟨found, c⟩, hg, h⟩ := Except.bind_eq_ok_iff.mp h
  refine ⟨found, c, hg, ?_⟩
  have hframe := getTlbEntry_frame hg
  cases found with
  | none =>
    obtain ⟨rfl, rfl⟩ := Prod.mk.inj (Except.ok.inj h)
    have hf := hframe.fault rfl
    exact ⟨fun _ => ⟨rfl, hf.excVal, hf.excData⟩, fun e he => by cases he⟩
  | some i =>
    have hcheck := checkEntry_answers h
    refine ⟨hcheck.refused, fun e he => ?_⟩
    rw [← (hframe.quiet rfl).1]
    exact hcheck.granted e he

/-- The bits above the translated width take no part but in the comparison with the pages of
the cache: an address that is not cached is translated as the canonical one is. -/
theorem translate_upper_bits {cpu : Cpu} {accessType : AccessType} (hact : Active cpu accessType)
    (address : Word) :
    (∀ p after, translate cpu address accessType = .ok (p, after) →
      ∃ found c, getTlbEntry cpu address accessType = .ok (found, c) ∧
        Answers cpu address accessType
          (granting c found accessType (accessMode cpu accessType)) p after) ∧
    (∀ i, (tlbScan cpu.mmu.tlbCache (pageOf address)).hit = some i →
      (cpu.mmu.tlbCache i).virtBase = pageOf address) ∧
    (∀ other, SameVaBits cpu.mmu address other → Misses cpu address → Misses cpu other →
      TranslatedAlike address other accessType (translate cpu address accessType)
        (translate cpu other accessType)) ∧
    SameVaBits cpu.mmu address (canonicalAddress cpu.mmu address) ∧
    Canonical cpu.mmu (canonicalAddress cpu.mmu address) :=
  ⟨fun _ _ h => translate_answers hact h,
    (tlbScan_scanned cpu.mmu.tlbCache (pageOf address)).hit,
    fun _ hsame ha hb => translate_alias hact hsame ha hb,
    canonicalAddress_sameVaBits cpu.mmu address, canonicalAddress_canonical cpu.mmu address⟩

theorem gigapage_active (accessType : AccessType) : Active gigapage accessType := by
  cases accessType <;> exact ⟨by decide, by decide⟩

theorem gigapage_high_not_canonical : ¬Canonical gigapage.mmu 0x8000000000001234 := by
  intro h
  have htop := h 63 (by decide) (by decide)
  revert htop
  decide

theorem translate_upper_bits_gigapage :
    (∀ p after, translate gigapage 0x8000000000001234 .load = .ok (p, after) →
      ∃ found c, getTlbEntry gigapage 0x8000000000001234 .load = .ok (found, c) ∧
        Answers gigapage 0x8000000000001234 .load
          (granting c found .load (accessMode gigapage .load)) p after) ∧
    (∀ i, (tlbScan gigapage.mmu.tlbCache (pageOf 0x8000000000001234)).hit = some i →
      (gigapage.mmu.tlbCache i).virtBase = pageOf 0x8000000000001234) ∧
    (∀ other, SameVaBits gigapage.mmu 0x8000000000001234 other →
      Misses gigapage 0x8000000000001234 → Misses gigapage other →
      TranslatedAlike 0x8000000000001234 other .load
        (translate gigapage 0x8000000000001234 .load) (translate gigapage other .load)) ∧
    SameVaBits gigapage.mmu 0x8000000000001234
      (canonicalAddress gigapage.mmu 0x8000000000001234) ∧
    Canonical gigapage.mmu (canonicalAddress gigapage.mmu 0x8000000000001234) :=
  translate_upper_bits (gigapage_active .load) 0x8000000000001234

/-- An address that is not canonical is translated without a fault. -/
theorem gigapage_high_translated : ¬∀ (cpu : Cpu) (sv : SvMode) (accessType : AccessType)
    (address : Word), cpu.mmu.mode = sv.code → Active cpu accessType →
    ¬Canonical cpu.mmu address → ∃ p after, translate cpu address accessType = .ok (p, after) ∧
      after.excVal = some (pageFault accessType) ∧ after.excData = address := by
  intro hall
  obtain ⟨p, after, ht, hexc, _⟩ := hall gigapage .sv39 .load 0x8000000000001234 rfl
    (gigapage_active .load) gigapage_high_not_canonical
  have hquiet : (translate gigapage 0x8000000000001234 .load).toOption.map
      (fun r => r.2.excVal) = some none := by decide +kernel
  rw [ht] at hquiet
  have hnone : after.excVal = none := Option.some.inj hquiet
  rw [hexc] at hnone
  cases hnone

end Mmu

end Rv64gcEmu
