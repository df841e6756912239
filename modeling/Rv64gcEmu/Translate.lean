import Rv64gcEmu.PageTable

namespace Rv64gcEmu

def AccessType.kind : AccessType → Paging.Kind
  | .load => .load
  | .store => .store
  | .instruction => .fetch

namespace Mmu

open Paging (Leaf SameButMarks)

theorem pageOf_eq_iff {a b : Word} :
    pageOf a = pageOf b ↔ ∀ i, 12 ≤ i → a.getLsbD i = b.getLsbD i := by
  have h12 : (0xfff : Word) = BitVec.ofNat 64 (2 ^ 12 - 1) := rfl
  have hbit : ∀ (x : Word) (i : Nat), (pageOf x).getLsbD i = (decide (12 ≤ i) && x.getLsbD i) := by
    intro x i
    rw [pageOf, BitVec.getLsbD_and, BitVec.getLsbD_not, h12, BitField.getLsbD_lowMask]
    by_cases hi : i < 64
    · by_cases hlt : i < 12
      · have hle : ¬12 ≤ i := by omega
        simp [hlt, hle]
      · have hle : 12 ≤ i := by omega
        simp [hi, hlt, hle]
    · simp [hi, BitVec.getLsbD_of_ge x i (by omega)]
  constructor
  · intro h i hi
    have hb := congrArg (fun x => x.getLsbD i) h
    simpa [hbit, hi] using hb
  · intro h
    apply BitVec.eq_of_getLsbD_eq
    intro i _
    rw [hbit, hbit]
    by_cases hi : 12 ≤ i
    · rw [h i hi]
    · simp [hi]

theorem pageOf_pageOf (a : Word) : pageOf (pageOf a) = pageOf a := by
  rw [pageOf, pageOf, BitVec.and_assoc, BitVec.and_self]

theorem vpn_samePage {a b : Word} (h : pageOf a = pageOf b) (i : Nat) :
    Paging.vpn a i = Paging.vpn b i := by
  apply BitVec.eq_of_getLsbD_eq
  intro k hk
  rw [Paging.vpn, Paging.vpn, BitVec.getLsbD_extractLsb', BitVec.getLsbD_extractLsb',
    pageOf_eq_iff.mp h _ (by omega)]

theorem getVpn_samePage (mmu : Mmu) {a b : Word} (h : pageOf a = pageOf b) :
    mmu.getVpn a = mmu.getVpn b := by
  funext i
  by_cases hi : i < mmu.getLevels
  · rw [getVpn_eq a hi, getVpn_eq b hi, vpn_samePage h]
  · rw [getVpn, getVpn, if_neg hi, if_neg hi]

theorem leafEntry_sameVpn {mmu : Mmu} {address other : Word}
    (h : mmu.getVpn address = mmu.getVpn other) (i : Nat) (entry : TlbEntry) :
    leafEntry mmu other i entry = leafEntry mmu address i entry := by
  unfold leafEntry
  rw [h]

theorem leafEntry_samePage (mmu : Mmu) {a b : Word} (h : pageOf a = pageOf b) (i : Nat)
    (entry : TlbEntry) : leafEntry mmu a i entry = leafEntry mmu b i entry :=
  (leafEntry_sameVpn (getVpn_samePage mmu h) i entry).symm

/-- What a walk for another address gives: the fault names that address. -/
def readdress {α : Type} (other : Word) (r : Option α × Cpu) : Option α × Cpu :=
  match r.1 with
  | some _ => r
  | none => (none, { r.2 with excData := other })

theorem fetchPteLoop_alias (cpu : Cpu) (address other : Word) (accessType : AccessType)
    (vpn : Nat → Word) (a : Word) (entry : TlbEntry) (i : Nat) :
    fetchPteLoop cpu other accessType vpn a entry i =
      (fetchPteLoop cpu address accessType vpn a entry i).map (readdress other) := by
  induction i generalizing cpu a entry with
  | zero => rfl
  | succ i ih =>
    unfold fetchPteLoop
    simp only
    cases Bus.load cpu (a + vpn i * 8) .w64 with
    | error e => rfl
    | ok r =>
      simp only [Except.ok_bind]
      split
      next => rfl
      next =>
        split
        next => rfl
        next => exact ih _ _ _

theorem fetchPte_sameVpn {cpu : Cpu} {address other : Word} (accessType : AccessType)
    (entry : TlbEntry) (h : cpu.mmu.getVpn address = cpu.mmu.getVpn other) :
    fetchPte cpu other accessType entry =
      (fetchPte cpu address accessType entry).map (readdress other) := by
  unfold fetchPte
  rw [fetchPteLoop_alias cpu address other, h]
  cases hl : fetchPteLoop cpu address accessType (cpu.mmu.getVpn other)
    (cpu.mmu.mppn.setWidth 64) entry cpu.mmu.getLevels with
  | error e => rfl
  | ok r =>
    obtain ⟨found, c⟩ := r
    cases found with
    | none => rfl
    | some p =>
      have hmmu := ((fetchPteLoop_frame hl).quiet rfl).2.2
      have hleaf := leafEntry_sameVpn h p.1 p.2
      rw [← hmmu] at hleaf
      simp only [Except.map, readdress, Except.ok_bind, hleaf]
      split
      next => rfl
      next => rfl

theorem findLeaf_samePage (cpu : Cpu) {a b : Word} (h : pageOf a = pageOf b) :
    findLeaf cpu a = findLeaf cpu b := by
  unfold findLeaf
  rw [Paging.walk_samePage (vpn_samePage h)]

/-- An entry for a leaf of the page tables; the marks of the leaf may have been set since. -/
structure EntryOf (leaf : Leaf) (e : TlbEntry) : Prop where
  pteAddr : e.pteAddr = leaf.addr
  same : SameButMarks e.pte leaf.pte
  read : e.read = Paging.readable leaf.pte
  write : e.write = Paging.writable leaf.pte
  execute : e.execute = Paging.executable leaf.pte
  user : e.user = Paging.user leaf.pte
  accessed : e.accessed = Paging.accessed e.pte
  dirty : e.dirty = Paging.dirty e.pte
  wasAccessed : Paging.accessed e.pte = true → Paging.accessed leaf.pte = true
  wasDirty : Paging.dirty e.pte = true → Paging.dirty leaf.pte = true
  fresh : e.accessed = true ∨ e.pte = leaf.pte

/-- The entry gives the physical addresses of its page. -/
def GivesPage (leaf : Leaf) (page : Word) (e : TlbEntry) : Prop :=
  ∀ a, pageOf a = page → e.physBase ||| (a &&& 0xfff) = leaf.physical a

/-- The entry that a walk makes. -/
def walkEntry (mmu : Mmu) (address : Word) (leaf : Leaf) (e : TlbEntry) : TlbEntry :=
  leafEntry mmu address leaf.level (fillEntry e leaf.addr leaf.pte)

theorem walkEntry_entryOf (mmu : Mmu) (address : Word) (leaf : Leaf) (e : TlbEntry) :
    EntryOf leaf (walkEntry mmu address leaf e) :=
  ⟨rfl, .refl _, rfl, rfl, rfl, rfl, rfl, rfl, fun h => h, fun h => h, .inr rfl⟩

theorem walkEntry_givesPage {mmu : Mmu} (address : Word) {leaf : Leaf} (e : TlbEntry)
    (h : leaf.level < mmu.getLevels) :
    GivesPage leaf (pageOf address) (walkEntry mmu address leaf e) := by
  intro a ha
  unfold walkEntry
  rw [← leafEntry_samePage mmu ha]
  exact leafEntry_physBase a leaf.addr h

/-- The permission check, as far as the bits of the leaf decide it. -/
def refuses (cpu : Cpu) (pte : Word) (accessType : AccessType) : Bool :=
  permissionFault
    { emptyEntry with
      read := Paging.readable pte
      write := Paging.writable pte
      execute := Paging.executable pte
      user := Paging.user pte }
    accessType (accessMode cpu accessType) (cpu.cregs.readBitMstatus .mxr ≠ 0)
    (cpu.cregs.readBitMstatus .sum ≠ 0)

/-- The leaf that an access is let through by. -/
def lookup (cpu : Cpu) (address : Word) (accessType : AccessType) : Option Leaf :=
  (findLeaf cpu address).filter fun leaf => !refuses cpu leaf.pte accessType

/-- Two entries that differ in their age at most. -/
def SameButAge (a b : TlbEntry) : Prop := ∃ age, b = { a with age := age }

theorem SameButAge.trans {a b c : TlbEntry} (h : SameButAge a b) (h' : SameButAge b c) :
    SameButAge a c := by
  obtain ⟨_, rfl⟩ := h
  obtain ⟨age, rfl⟩ := h'
  exact ⟨age, rfl⟩

theorem SameButAge.accessed {a b : TlbEntry} (h : SameButAge a b) : b.accessed = a.accessed := by
  obtain ⟨_, rfl⟩ := h
  rfl

theorem SameButAge.pteAddr {a b : TlbEntry} (h : SameButAge a b) : b.pteAddr = a.pteAddr := by
  obtain ⟨_, rfl⟩ := h
  rfl

theorem SameButAge.entryOf {leaf : Leaf} {a b : TlbEntry} (h : SameButAge a b)
    (he : EntryOf leaf a) : EntryOf leaf b := by
  obtain ⟨_, rfl⟩ := h
  exact ⟨he.pteAddr, he.same, he.read, he.write, he.execute, he.user, he.accessed, he.dirty,
    he.wasAccessed, he.wasDirty, he.fresh⟩

/-- What one turn of the scan keeps: the entries but for their ages, and a hit on the page. -/
structure Scanned (tlb : Fin 4 → TlbEntry) (page : Word) (s : TlbScan) : Prop where
  same : ∀ j, SameButAge (tlb j) (s.tlb j)
  hit : ∀ i, s.hit = some i → (tlb i).virtBase = page

theorem Scanned.update {tlb : Fin 4 → TlbEntry} {page : Word} {s : TlbScan}
    (h : Scanned tlb page s) (i : Fin 4) (age : Word) (j : Fin 4) :
    SameButAge (tlb j) (Function.update s.tlb i { s.tlb i with age := age } j) := by
  by_cases hj : j = i
  · subst hj
    rw [Function.update_self]
    exact (h.same j).trans ⟨age, rfl⟩
  · rw [Function.update_of_ne hj]
    exact h.same j

theorem tlbScanStep_scanned {tlb : Fin 4 → TlbEntry} {page : Word} {s : TlbScan} (i : Fin 4)
    (h : Scanned tlb page s) : Scanned tlb page (tlbScanStep page s i) := by
  unfold tlbScanStep
  simp only
  split
  next k hk => exact ⟨h.update i _, fun j hj => h.hit j hj⟩
  next hk =>
    split
    next hp =>
      refine ⟨h.update i _, fun j hj => ?_⟩
      cases Option.some.inj hj
      obtain ⟨_, he⟩ := h.same i
      rw [hp, he]
    next =>
      split
      next => exact ⟨h.update i _, fun j hj => h.hit j hj⟩
      next => exact ⟨h.update i _, fun j hj => h.hit j hj⟩

theorem tlbScan_scanned (tlb : Fin 4 → TlbEntry) (page : Word) :
    Scanned tlb page (tlbScan tlb page) := by
  have hrun : ∀ (l : List (Fin 4)) (s : TlbScan), Scanned tlb page s →
      Scanned tlb page (l.foldl (tlbScanStep page) s) := by
    intro l
    induction l with
    | nil => exact fun _ h => h
    | cons i l ih => exact fun s h => ih _ (tlbScanStep_scanned i h)
  exact hrun _ _ ⟨fun j => ⟨(tlb j).age, rfl⟩, by simp⟩

/-- The cache after a lookup that missed and found a leaf. -/
def filled (cpu : Cpu) (address : Word) (leaf : Leaf) : Fin 4 × (Fin 4 → TlbEntry) :=
  if cpu.host.useTlb then
    let s := tlbScan cpu.mmu.tlbCache (pageOf address)
    (s.oldestIndex, Function.update s.tlb s.oldestIndex
      { walkEntry cpu.mmu address leaf (s.tlb s.oldestIndex) with
        virtBase := pageOf address
        age := 0 })
  else
    (soleEntry, Function.update cpu.mmu.tlbCache soleEntry
      (walkEntry cpu.mmu address leaf (cpu.mmu.tlbCache soleEntry)))

/-- No entry of the cache is for the page. An entry that was never filled counts as one for
page 0. -/
def Misses (cpu : Cpu) (address : Word) : Prop :=
  cpu.host.useTlb = true → (tlbScan cpu.mmu.tlbCache (pageOf address)).hit = none

theorem getTlbEntry_miss {cpu : Cpu} {address : Word} {accessType : AccessType}
    (hram : TablesInRam cpu address) (hmiss : Misses cpu address) :
    getTlbEntry cpu address accessType =
      .ok (match findLeaf cpu address with
        | some leaf => (some (filled cpu address leaf).1,
            cpu.setMmu { cpu.mmu with tlbCache := (filled cpu address leaf).2 })
        | none => (none, setCpuError cpu address accessType)) := by
  unfold getTlbEntry filled
  split
  next huse =>
    simp only [hmiss huse]
    have hleaf : ∀ tlb, findLeaf (cpu.setMmu { cpu.mmu with tlbCache := tlb }) address =
        findLeaf cpu address := fun _ => rfl
    rw [fetchPte_eq _ (by exact hram), Except.ok_bind, hleaf]
    cases findLeaf cpu address <;> rfl
  next =>
    rw [fetchPte_eq _ hram, Except.ok_bind]
    cases findLeaf cpu address <;> rfl

/-- The machine with which a miss goes on to the walk. -/
def searched (cpu : Cpu) (address : Word) : Cpu :=
  if cpu.host.useTlb then
    cpu.setMmu { cpu.mmu with tlbCache := (tlbScan cpu.mmu.tlbCache (pageOf address)).tlb }
  else cpu

/-- The entry that a miss fills. -/
def slot (cpu : Cpu) (address : Word) : Fin 4 :=
  if cpu.host.useTlb then (tlbScan cpu.mmu.tlbCache (pageOf address)).oldestIndex else soleEntry

/-- What is kept of a walk. -/
def tagged (cpu : Cpu) (address : Word) (walked : TlbEntry) : TlbEntry :=
  if cpu.host.useTlb then { walked with virtBase := pageOf address, age := 0 } else walked

theorem searched_same (cpu : Cpu) (address : Word) (j : Fin 4) :
    SameButAge (cpu.mmu.tlbCache j) ((searched cpu address).mmu.tlbCache j) := by
  unfold searched
  split
  next => exact (tlbScan_scanned cpu.mmu.tlbCache (pageOf address)).same j
  next => exact ⟨_, rfl⟩

theorem searched_frame (cpu : Cpu) (address : Word) :
    (searched cpu address).bus = cpu.bus ∧ (searched cpu address).mmu.mppn = cpu.mmu.mppn := by
  unfold searched
  split
  next => exact ⟨rfl, rfl⟩
  next => exact ⟨rfl, rfl⟩

theorem tagged_same (cpu : Cpu) (address : Word) (walked : TlbEntry) :
    ∃ virtBase age, tagged cpu address walked = { walked with virtBase := virtBase, age := age } := by
  unfold tagged
  split
  next => exact ⟨_, _, rfl⟩
  next => exact ⟨walked.virtBase, walked.age, rfl⟩

/-- A lookup that gives an entry has found it in the cache, or has filled it from a walk. -/
theorem getTlbEntry_some {cpu after : Cpu} {address : Word} {accessType : AccessType} {i : Fin 4}
    (h : getTlbEntry cpu address accessType = .ok (some i, after)) :
    (cpu.host.useTlb = true ∧ (tlbScan cpu.mmu.tlbCache (pageOf address)).hit = some i ∧
      after = searched cpu address) ∨
    (Misses cpu address ∧ i = slot cpu address ∧ ∃ walked c,
      fetchPte (searched cpu address) address accessType ((searched cpu address).mmu.tlbCache i) =
        .ok (some walked, c) ∧
      after = c.setMmu (c.mmu.setEntry i (tagged cpu address walked))) := by
  unfold getTlbEntry at h
  unfold searched slot tagged
  by_cases huse : cpu.host.useTlb = true
  · simp only [if_pos huse] at h ⊢
    split at h
    next k hk =>
      obtain ⟨hi, rfl⟩ := Prod.mk.inj (Except.ok.inj h)
      exact .inl ⟨huse, hk.trans hi, rfl⟩
    next hk =>
      refine .inr ⟨fun _ => hk, ?_⟩
      obtain ⟨⟨found, c⟩, hf, h⟩ := Except.bind_eq_ok_iff.mp h
      cases found with
      | none =>
        obtain ⟨hn, _⟩ := Prod.mk.inj (Except.ok.inj h)
        cases hn
      | some walked =>
        obtain ⟨hi, rfl⟩ := Prod.mk.inj (Except.ok.inj h)
        cases Option.some.inj hi
        exact ⟨rfl, walked, c, hf, rfl⟩
  · simp only [if_neg huse] at h ⊢
    refine .inr ⟨fun hu => absurd hu huse, ?_⟩
    obtain ⟨⟨found, c⟩, hf, h⟩ := Except.bind_eq_ok_iff.mp h
    cases found with
    | none =>
      obtain ⟨hn, _⟩ := Prod.mk.inj (Except.ok.inj h)
      cases hn
    | some walked =>
      obtain ⟨hi, rfl⟩ := Prod.mk.inj (Except.ok.inj h)
      cases Option.some.inj hi
      exact ⟨rfl, walked, c, hf, rfl⟩

theorem getTlbEntry_hit {cpu : Cpu} {address : Word} {i : Fin 4} (accessType : AccessType)
    (huse : cpu.host.useTlb = true)
    (hit : (tlbScan cpu.mmu.tlbCache (pageOf address)).hit = some i) :
    getTlbEntry cpu address accessType = .ok (some i, cpu.setMmu { cpu.mmu with
      tlbCache := (tlbScan cpu.mmu.tlbCache (pageOf address)).tlb }) := by
  unfold getTlbEntry
  rw [if_pos huse]
  simp only [hit]

/-- The part of `translate` that follows the lookup. -/
def checkEntry (cpu : Cpu) (i : Fin 4) (address : Word) (accessType : AccessType) (cpuMode : Mode) :
    HostM (Word × Cpu) :=
  let entry := cpu.mmu.tlbCache i
  if permissionFault entry accessType cpuMode (cpu.cregs.readBitMstatus .mxr ≠ 0)
      (cpu.cregs.readBitMstatus .sum ≠ 0) then
    .ok (0, setCpuError cpu address accessType)
  else if needsUpdate entry accessType then do
    let entry := markEntry entry accessType
    let cpu ← Bus.store (cpu.setMmu (cpu.mmu.setEntry i entry)) entry.pteAddr entry.pte .w64
    .ok (entry.physBase ||| (address &&& 0xfff), cpu)
  else .ok (entry.physBase ||| (address &&& 0xfff), cpu)

theorem checkEntry_refused {cpu : Cpu} {i : Fin 4} (address : Word) {accessType : AccessType}
    {cpuMode : Mode} (h : permissionFault (cpu.mmu.tlbCache i) accessType cpuMode
      (cpu.cregs.readBitMstatus .mxr ≠ 0) (cpu.cregs.readBitMstatus .sum ≠ 0) = true) :
    checkEntry cpu i address accessType cpuMode = .ok (0, setCpuError cpu address accessType) := by
  unfold checkEntry
  simp only
  rw [if_pos h]

theorem permissionFault_entryOf {leaf : Leaf} {e : TlbEntry} (he : EntryOf leaf e)
    (accessType : AccessType) (cpuMode : Mode) (mxr sum : Bool) :
    permissionFault e accessType cpuMode mxr sum = permissionFault
      { emptyEntry with
        read := Paging.readable leaf.pte
        write := Paging.writable leaf.pte
        execute := Paging.executable leaf.pte
        user := Paging.user leaf.pte }
      accessType cpuMode mxr sum := by
  simp only [permissionFault, he.read, he.write, he.execute, he.user]

/-- The leaf after an access. -/
def marked (leaf : Leaf) (accessType : AccessType) : Leaf :=
  { leaf with pte := Paging.mark leaf.pte accessType.kind }

theorem markEntry_pte (e : TlbEntry) (accessType : AccessType) :
    (markEntry e accessType).pte = Paging.mark e.pte accessType.kind := by
  cases accessType <;> rfl

theorem markEntry_entryOf {leaf : Leaf} {e : TlbEntry} (he : EntryOf leaf e)
    (accessType : AccessType) : EntryOf (marked leaf accessType) (markEntry e accessType) := by
  have hs := Paging.sameButMarks_mark leaf.pte accessType.kind
  have hdirty : (markEntry e accessType).dirty = (e.dirty || decide (accessType.kind = .store)) := by
    cases accessType <;> simp [markEntry, AccessType.kind]
  refine ⟨?_, ?_, ?_, ?_, ?_, ?_, ?_, ?_, fun _ => Paging.accessed_mark _ _, ?_, .inl ?_⟩
  · cases accessType <;> exact he.pteAddr
  · rw [markEntry_pte]
    exact he.same.mark _
  · have h1 : Paging.readable (marked leaf accessType).pte = Paging.readable leaf.pte :=
      hs 1 (by omega) (by omega)
    rw [h1]
    cases accessType <;> exact he.read
  · have h2 : Paging.writable (marked leaf accessType).pte = Paging.writable leaf.pte :=
      hs 2 (by omega) (by omega)
    rw [h2]
    cases accessType <;> exact he.write
  · have h3 : Paging.executable (marked leaf accessType).pte = Paging.executable leaf.pte :=
      hs 3 (by omega) (by omega)
    rw [h3]
    cases accessType <;> exact he.execute
  · have h4 : Paging.user (marked leaf accessType).pte = Paging.user leaf.pte :=
      hs 4 (by omega) (by omega)
    rw [h4]
    cases accessType <;> exact he.user
  · rw [markEntry_pte, Paging.accessed_mark]
    cases accessType <;> rfl
  · rw [markEntry_pte, Paging.dirty_mark, hdirty, he.dirty]
  · rw [markEntry_pte]
    simp only [marked, Paging.dirty_mark, Bool.or_eq_true]
    exact fun h => h.imp he.wasDirty id
  · cases accessType <;> rfl

/-- What the check of an entry leaves behind when the access is let through. -/
def Checked (cpu : Cpu) (i : Fin 4) (leaf : Leaf) (accessType : AccessType) (e : TlbEntry) : Cpu :=
  (cpu.setMmu (cpu.mmu.setEntry i e)).setBus
    (cpu.bus.setRam (cpu.bus.ram.setWord leaf.addr (marked leaf accessType).pte))

theorem checkEntry_eq {cpu : Cpu} {i : Fin 4} {address : Word} {leaf : Leaf}
    {accessType : AccessType} (cpuMode : Mode) (he : EntryOf leaf (cpu.mmu.tlbCache i))
    (hp : GivesPage leaf (pageOf address) (cpu.mmu.tlbCache i))
    (hram : cpu.bus.ram.Contains leaf.addr 8) (hword : leaf.pte = cpu.bus.ram.word leaf.addr) :
    ∃ e, EntryOf (marked leaf accessType) e ∧ e.accessed = true ∧
      e.physBase = (cpu.mmu.tlbCache i).physBase ∧ e.virtBase = (cpu.mmu.tlbCache i).virtBase ∧
      checkEntry cpu i address accessType cpuMode =
        .ok (if permissionFault (cpu.mmu.tlbCache i) accessType cpuMode
            (cpu.cregs.readBitMstatus .mxr ≠ 0) (cpu.cregs.readBitMstatus .sum ≠ 0) then
          (0, setCpuError cpu address accessType)
        else (leaf.physical address, Checked cpu i leaf accessType e)) := by
  generalize hent : cpu.mmu.tlbCache i = entry at *
  have hphys := hp address rfl
  unfold checkEntry
  rw [hent]
  by_cases hu : needsUpdate entry accessType = true
  · refine ⟨markEntry entry accessType, markEntry_entryOf he accessType, ?_, ?_, ?_, ?_⟩
    · cases accessType <;> rfl
    · cases accessType <;> rfl
    · cases accessType <;> rfl
    · have hpte : (markEntry entry accessType).pte = (marked leaf accessType).pte := by
        rw [markEntry_pte]
        rcases he.fresh with hacc | hfresh
        · have hstore : accessType = .store := by
            simp only [needsUpdate, hacc] at hu
            simpa using (Bool.and_eq_true_iff.mp hu).1
          subst hstore
          exact Paging.mark_store_eq he.same
        · rw [hfresh]
          rfl
      have haddr : (markEntry entry accessType).pteAddr = leaf.addr := by
        rw [← he.pteAddr]
        cases accessType <;> rfl
      have hbase : (markEntry entry accessType).physBase = entry.physBase := by
        cases accessType <;> rfl
      simp only [hu, if_true, haddr, hpte, hbase, hphys]
      rw [Bus.store_word _ (by exact hram)]
      split <;> rfl
  · simp only [needsUpdate, Bool.or_eq_true, Bool.not_eq_true', not_or, Bool.not_eq_false,
      Bool.and_eq_true, decide_eq_true_eq, not_and] at hu
    obtain ⟨hacc, hdir⟩ := hu
    have hkind : accessType.kind = .store → accessType = .store := by cases accessType <;> simp [AccessType.kind]
    have hmark : marked leaf accessType = leaf := by
      unfold marked
      rw [Paging.mark_eq_self (he.wasAccessed (he.accessed ▸ hacc))
        fun hs => he.wasDirty (he.dirty ▸ hdir (hkind hs))]
    refine ⟨entry, hmark.symm ▸ he, hacc, rfl, rfl, ?_⟩
    have hset : cpu.mmu.setEntry i entry = cpu.mmu := by
      unfold setEntry
      rw [← hent, Function.update_eq_self]
    have hsame : Checked cpu i leaf accessType entry = cpu := by
      unfold Checked
      rw [hset, hmark, hword, RamDevice.setWord_word_self]
      rfl
    have hneed : needsUpdate entry accessType = false := by
      simp only [needsUpdate, hacc, Bool.not_true, Bool.false_or, Bool.and_eq_false_iff,
        decide_eq_false_iff_not, Bool.not_eq_false']
      by_cases hs : accessType = .store
      · exact .inr (hdir hs)
      · exact .inl hs
    simp only [hneed, Bool.false_eq_true, if_false, hphys, hsame]
    split <;> rfl

/-- Translation is on for the access. -/
structure Active (cpu : Cpu) (accessType : AccessType) : Prop where
  mode : cpu.mmu.mode ≠ bare
  accessMode : accessMode cpu accessType ≠ .machine

theorem translate_inactive {cpu : Cpu} {accessType : AccessType} (address : Word)
    (h : ¬Active cpu accessType) : translate cpu address accessType = .ok (address, cpu) := by
  unfold translate
  by_cases hm : cpu.mmu.mode = bare
  · rw [if_pos hm]
  · by_cases ha : accessMode cpu accessType = .machine
    · rw [if_neg hm, if_pos ha]
    · exact absurd ⟨hm, ha⟩ h

theorem translate_active {cpu : Cpu} {accessType : AccessType} (address : Word)
    (h : Active cpu accessType) : translate cpu address accessType =
      (getTlbEntry cpu address accessType >>= fun p =>
        match p.1 with
        | none => .ok (0, p.2)
        | some i => checkEntry p.2 i address accessType (accessMode cpu accessType)) := by
  unfold translate
  rw [if_neg h.mode, if_neg h.accessMode]
  rfl

theorem findLeaf_walk {cpu : Cpu} {address : Word} {leaf : Leaf}
    (h : findLeaf cpu address = some leaf) :
    Paging.walk cpu.memory address (cpu.mmu.mppn.setWidth 64) cpu.mmu.getLevels = some leaf ∧
      leaf.aligned = true := Option.filter_eq_some_iff.mp h

theorem findLeaf_contains {cpu : Cpu} {address : Word} {leaf : Leaf}
    (hram : TablesInRam cpu address) (h : findLeaf cpu address = some leaf) :
    cpu.bus.ram.Contains leaf.addr 8 := hram _ (Paging.walk_mem_reads (findLeaf_walk h).1)

/-- The state after an access that went through: a mark in RAM, and a cache. -/
def resolved (cpu : Cpu) (tlb : Fin 4 → TlbEntry) (leaf : Leaf) (accessType : AccessType) : Cpu :=
  (cpu.setMmu { cpu.mmu with tlbCache := tlb }).setBus
    (cpu.bus.setRam (cpu.bus.ram.setWord leaf.addr (marked leaf accessType).pte))

/-- The physical address, or the page fault of the access. -/
def answer (cpu : Cpu) (address : Word) (accessType : AccessType) (tlb : Fin 4 → TlbEntry) :
    Word × Cpu :=
  match lookup cpu address accessType with
  | some leaf => (leaf.physical address, resolved cpu tlb leaf accessType)
  | none => (0, setCpuError cpu address accessType)

theorem answer_none {cpu : Cpu} {address : Word} {accessType : AccessType}
    (h : findLeaf cpu address = none) (tlb : Fin 4 → TlbEntry) :
    answer cpu address accessType tlb = (0, setCpuError cpu address accessType) := by
  unfold answer lookup
  rw [h]
  rfl

theorem checkEntry_answer {cpu : Cpu} {tlb : Fin 4 → TlbEntry} {i : Fin 4} {address : Word}
    {leaf : Leaf} (accessType : AccessType) (hl : findLeaf cpu address = some leaf)
    (hram : TablesInRam cpu address) (he : EntryOf leaf (tlb i))
    (hp : GivesPage leaf (pageOf address) (tlb i)) :
    ∃ e, EntryOf (marked leaf accessType) e ∧ e.accessed = true ∧
      e.physBase = (tlb i).physBase ∧ e.virtBase = (tlb i).virtBase ∧
      checkEntry (cpu.setMmu { cpu.mmu with tlbCache := tlb }) i address accessType
        (accessMode cpu accessType) =
        .ok (answer cpu address accessType (Function.update tlb i e)) := by
  obtain ⟨e, hent, hacc, hphys, hvirt, heq⟩ := @checkEntry_eq
    (cpu.setMmu { cpu.mmu with tlbCache := tlb }) i address leaf accessType
    (accessMode cpu accessType) he hp
    (findLeaf_contains hram hl) (Paging.walk_pte (findLeaf_walk hl).1)
  have href : permissionFault (tlb i) accessType (accessMode cpu accessType)
      (cpu.cregs.readBitMstatus .mxr ≠ 0) (cpu.cregs.readBitMstatus .sum ≠ 0) =
      refuses cpu leaf.pte accessType := permissionFault_entryOf he _ _ _ _
  have hans : answer cpu address accessType (Function.update tlb i e) =
      if permissionFault (tlb i) accessType (accessMode cpu accessType)
        (cpu.cregs.readBitMstatus .mxr ≠ 0) (cpu.cregs.readBitMstatus .sum ≠ 0) then
        (0, setCpuError cpu address accessType)
      else (leaf.physical address, resolved cpu (Function.update tlb i e) leaf accessType) := by
    unfold answer lookup
    rw [hl, href, Option.filter]
    cases refuses cpu leaf.pte accessType <;> rfl
  refine ⟨e, hent, hacc, hphys, hvirt, ?_⟩
  rw [hans]
  exact heq

/-- A lookup that missed has put the leaf in the cache. -/
theorem filled_entry {cpu : Cpu} {address : Word} {leaf : Leaf}
    (h : findLeaf cpu address = some leaf) :
    EntryOf leaf ((filled cpu address leaf).2 (filled cpu address leaf).1) ∧
      GivesPage leaf (pageOf address) ((filled cpu address leaf).2 (filled cpu address leaf).1) := by
  have hlevel := Paging.walk_level (findLeaf_walk h).1
  unfold filled
  split
  next =>
    simp only [Function.update_self]
    exact ⟨⟨rfl, .refl _, rfl, rfl, rfl, rfl, rfl, rfl, id, id, .inr rfl⟩,
      walkEntry_givesPage address _ hlevel⟩
  next =>
    simp only [Function.update_self]
    exact ⟨walkEntry_entryOf cpu.mmu address leaf _, walkEntry_givesPage address _ hlevel⟩

/-- A translation that misses the cache gives the answer of the page tables. -/
theorem translate_of_miss {cpu : Cpu} {address : Word} {accessType : AccessType}
    (hact : Active cpu accessType) (hram : TablesInRam cpu address) (hmiss : Misses cpu address) :
    ∃ tlb, translate cpu address accessType = .ok (answer cpu address accessType tlb) := by
  rw [translate_active address hact, getTlbEntry_miss hram hmiss, Except.ok_bind]
  cases hl : findLeaf cpu address with
  | none => exact ⟨cpu.mmu.tlbCache, by rw [answer_none hl]⟩
  | some leaf =>
    obtain ⟨he, hp⟩ := filled_entry hl
    obtain ⟨e, _, _, _, _, heq⟩ := checkEntry_answer accessType hl hram he hp
    exact ⟨_, heq⟩

end Mmu

end Rv64gcEmu
