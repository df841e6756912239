import Rv64gcEmu.Translate

namespace Rv64gcEmu

namespace Mmu

open Paging (Leaf SameButMarks)

/-- An entry that has not been filled since the cache was flushed. -/
def Empty (e : TlbEntry) : Prop := SameButAge emptyEntry e

/-- An entry that agrees with the page tables, but for marks it has not seen. -/
structure Cached (cpu : Cpu) (e : TlbEntry) : Prop where
  accessed : e.accessed = true
  page : pageOf e.virtBase = e.virtBase
  leaf : ∃ leaf, findLeaf cpu e.virtBase = some leaf ∧ EntryOf leaf e ∧ GivesPage leaf e.virtBase e

def RootAligned (cpu : Cpu) : Prop := (cpu.mmu.mppn.setWidth 64 : Word).toNat % 8 = 0

/-- The cache agrees with the page tables. -/
structure Coherent (cpu : Cpu) : Prop where
  root : RootAligned cpu
  entries : ∀ i, Empty (cpu.mmu.tlbCache i) ∨ Cached cpu (cpu.mmu.tlbCache i)

theorem Empty.trans {a b : TlbEntry} (h : Empty a) (hs : SameButAge a b) : Empty b :=
  SameButAge.trans h hs

theorem Empty.virtBase {e : TlbEntry} (h : Empty e) : e.virtBase = 0 := by
  obtain ⟨_, rfl⟩ := h
  rfl

theorem Empty.accessed {e : TlbEntry} (h : Empty e) : e.accessed = false := by
  obtain ⟨_, rfl⟩ := h
  rfl

/-- An empty entry lets no access through. -/
theorem Empty.permissionFault {e : TlbEntry} (h : Empty e) (accessType : AccessType)
    (cpuMode : Mode) (mxr sum : Bool) : permissionFault e accessType cpuMode mxr sum = true := by
  obtain ⟨_, rfl⟩ := h
  cases accessType <;> simp [Mmu.permissionFault, emptyEntry]

theorem Cached.trans {cpu : Cpu} {a b : TlbEntry} (h : Cached cpu a) (hs : SameButAge a b) :
    Cached cpu b := by
  obtain ⟨leaf, hl, he, hp⟩ := h.leaf
  have he' := hs.entryOf he
  obtain ⟨_, rfl⟩ := hs
  exact ⟨h.accessed, h.page, leaf, hl, he', hp⟩

theorem coherent_flush {cpu : Cpu} (hroot : RootAligned cpu)
    (h : cpu.mmu.tlbCache = fun _ => emptyEntry) : Coherent cpu :=
  ⟨hroot, fun i => .inl (by rw [h]; exact ⟨_, rfl⟩)⟩

section Marks

variable {cpu : Cpu} {address : Word} {leaf : Leaf} (accessType : AccessType)

theorem findLeaf_aligned (hroot : RootAligned cpu) (h : findLeaf cpu address = some leaf) :
    leaf.addr.toNat % 8 = 0 := Paging.walk_aligned hroot (findLeaf_walk h).1

/-- The mark is all that an access changes in the page tables. -/
theorem resolved_memory (hroot : RootAligned cpu) (h : findLeaf cpu address = some leaf)
    (tlb : Fin 4 → TlbEntry) {x : Word} (hx : x.toNat % 8 = 0) :
    (resolved cpu tlb leaf accessType).memory x =
      if x = leaf.addr then Paging.mark (cpu.memory x) accessType.kind else cpu.memory x := by
  have hpte : leaf.pte = cpu.memory leaf.addr := Paging.walk_pte (findLeaf_walk h).1
  split
  next hxe =>
    subst hxe
    rw [← hpte]
    exact RamDevice.word_setWord_self _ _ _
  next hne => exact RamDevice.word_setWord_of_ne _ _ (findLeaf_aligned hroot h) hx hne

theorem resolved_sameButMarks (hroot : RootAligned cpu) (h : findLeaf cpu address = some leaf)
    (tlb : Fin 4 → TlbEntry) (x : Word) (hx : x.toNat % 8 = 0) :
    SameButMarks ((resolved cpu tlb leaf accessType).memory x) (cpu.memory x) := by
  rw [resolved_memory accessType hroot h tlb hx]
  split
  next => exact Paging.sameButMarks_mark _ _
  next => exact .refl _

theorem findLeaf_resolved (hroot : RootAligned cpu) (h : findLeaf cpu address = some leaf)
    (tlb : Fin 4 → TlbEntry) (a : Word) :
    findLeaf (resolved cpu tlb leaf accessType) a = (findLeaf cpu a).map fun l =>
      { l with pte := (resolved cpu tlb leaf accessType).memory l.addr } := by
  have hs := resolved_sameButMarks accessType hroot h tlb
  have hw := @Paging.walk_congr _ _ a _ cpu.mmu.getLevels hroot hs
  unfold findLeaf
  change Option.filter _ (Paging.walk _ a (cpu.mmu.mppn.setWidth 64) cpu.mmu.getLevels) = _
  rw [hw]
  cases hf : Paging.walk cpu.memory a (cpu.mmu.mppn.setWidth 64) cpu.mmu.getLevels with
  | none => rfl
  | some l =>
    have hl := hs l.addr (Paging.walk_aligned hroot hf)
    rw [← Paging.walk_pte hf] at hl
    rw [Option.map_some, Option.filter_some, Option.filter_some,
      hl.aligned_eq l.level l.addr l.addr]
    split <;> rfl

theorem tablesInRam_resolved (hroot : RootAligned cpu) (h : findLeaf cpu address = some leaf)
    (tlb : Fin 4 → TlbEntry) {a : Word} (ha : TablesInRam cpu a) :
    TablesInRam (resolved cpu tlb leaf accessType) a := by
  unfold TablesInRam
  change ∀ x ∈ Paging.walkReads _ a (cpu.mmu.mppn.setWidth 64) cpu.mmu.getLevels, _
  rw [Paging.walkReads_congr hroot (resolved_sameButMarks accessType hroot h tlb)]
  exact ha

theorem EntryOf.mono {l : Leaf} {e : TlbEntry} {pte : Word} (he : EntryOf l e)
    (hs : SameButMarks pte l.pte) (ha : Paging.accessed l.pte = true → Paging.accessed pte = true)
    (hd : Paging.dirty l.pte = true → Paging.dirty pte = true) (hacc : e.accessed = true) :
    EntryOf { l with pte := pte } e where
  pteAddr := he.pteAddr
  same := he.same.trans hs.symm
  read := he.read.trans (hs 1 (by omega) (by omega)).symm
  write := he.write.trans (hs 2 (by omega) (by omega)).symm
  execute := he.execute.trans (hs 3 (by omega) (by omega)).symm
  user := he.user.trans (hs 4 (by omega) (by omega)).symm
  accessed := he.accessed
  dirty := he.dirty
  wasAccessed h := ha (he.wasAccessed h)
  wasDirty h := hd (he.wasDirty h)
  fresh := .inl hacc

theorem GivesPage.mono {l : Leaf} {page : Word} {e : TlbEntry} {pte : Word}
    (hp : GivesPage l page e) (hs : SameButMarks pte l.pte) :
    GivesPage { l with pte := pte } page e := by
  intro a ha
  rw [hp a ha]
  unfold Leaf.physical
  rw [hs.ppn_eq]

/-- A cached entry stays good when a mark is set. -/
theorem Cached.resolved (hroot : RootAligned cpu) (h : findLeaf cpu address = some leaf)
    (tlb : Fin 4 → TlbEntry) {e : TlbEntry} (he : Cached cpu e) :
    Cached (resolved cpu tlb leaf accessType) e := by
  obtain ⟨l, hl, hent, hp⟩ := he.leaf
  have hal := findLeaf_aligned hroot hl
  have hpte : l.pte = cpu.memory l.addr := Paging.walk_pte (findLeaf_walk hl).1
  have hs := resolved_sameButMarks accessType hroot h tlb l.addr hal
  have hm := resolved_memory accessType hroot h tlb hal
  rw [← hpte] at hs hm
  refine ⟨he.accessed, he.page, _, by rw [findLeaf_resolved accessType hroot h, hl]; rfl,
    hent.mono hs ?_ ?_ he.accessed, hp.mono hs⟩
  · rw [hm]
    split
    next => exact fun _ => Paging.accessed_mark _ _
    next => exact id
  · rw [hm]
    split
    next =>
      rw [Paging.dirty_mark]
      simp +contextual
    next => exact id

end Marks

/-- The lookup stops at an entry that has not been filled. -/
def HitsEmpty (cpu : Cpu) (address : Word) : Prop :=
  ∃ i, (tlbScan cpu.mmu.tlbCache (pageOf address)).hit = some i ∧ Empty (cpu.mmu.tlbCache i)

theorem translate_of_hitsEmpty {cpu : Cpu} {address : Word} {accessType : AccessType}
    (huse : cpu.host.useTlb = true) (hact : Active cpu accessType) (hit : HitsEmpty cpu address) :
    translate cpu address accessType = .ok (0, setCpuError cpu address accessType) := by
  obtain ⟨i, hi, he⟩ := hit
  have hs := (tlbScan_scanned cpu.mmu.tlbCache (pageOf address)).same i
  rw [translate_active address hact, getTlbEntry_hit accessType huse hi, Except.ok_bind]
  exact checkEntry_refused address ((he.trans hs).permissionFault _ _ _ _)

/-- The cache after an access that went through. -/
theorem coherent_resolved {cpu : Cpu} {tlb : Fin 4 → TlbEntry} {address : Word} {leaf : Leaf}
    {accessType : AccessType} {i : Fin 4} {e : TlbEntry} (hc : Coherent cpu)
    (hl : findLeaf cpu address = some leaf)
    (hsame : ∀ j, j ≠ i → SameButAge (cpu.mmu.tlbCache j) (tlb j))
    (he : EntryOf (marked leaf accessType) e) (hacc : e.accessed = true)
    (hvirt : e.virtBase = pageOf address) (hp : GivesPage leaf (pageOf address) e) :
    Coherent (resolved cpu (Function.update tlb i e) leaf accessType) := by
  refine ⟨hc.root, fun j => ?_⟩
  change Empty (Function.update tlb i e j) ∨ Cached _ (Function.update tlb i e j)
  by_cases hj : j = i
  · subst hj
    rw [Function.update_self]
    have hpte : (resolved cpu (Function.update tlb j e) leaf accessType).memory leaf.addr =
        (marked leaf accessType).pte := RamDevice.word_setWord_self _ _ _
    have hpage : pageOf (pageOf address) = pageOf address := pageOf_pageOf address
    refine .inr ⟨hacc, by rw [hvirt, hpage], marked leaf accessType, ?_, he, ?_⟩
    · rw [hvirt, findLeaf_samePage _ hpage, findLeaf_resolved accessType hc.root hl, hl]
      simp only [Option.map_some, hpte]
      rfl
    · rw [hvirt]
      exact hp.mono (Paging.sameButMarks_mark _ _)
  · rw [Function.update_of_ne hj]
    rcases hc.entries j with hempty | hcached
    · exact .inl (hempty.trans (hsame j hj))
    · exact .inr ((hcached.resolved accessType hc.root hl _).trans (hsame j hj))

theorem checkEntry_coherent {cpu : Cpu} {tlb : Fin 4 → TlbEntry} {i : Fin 4} {address : Word}
    {leaf : Leaf} (accessType : AccessType) (hc : Coherent cpu)
    (hl : findLeaf cpu address = some leaf) (hram : TablesInRam cpu address)
    (hsame : ∀ j, j ≠ i → SameButAge (cpu.mmu.tlbCache j) (tlb j)) (he : EntryOf leaf (tlb i))
    (hp : GivesPage leaf (pageOf address) (tlb i)) (hvirt : (tlb i).virtBase = pageOf address) :
    ∃ tlb', checkEntry (cpu.setMmu { cpu.mmu with tlbCache := tlb }) i address accessType
        (accessMode cpu accessType) = .ok (answer cpu address accessType tlb') ∧
      Coherent (answer cpu address accessType tlb').2 := by
  obtain ⟨e, hent, hacc, hphys, hvirt', heq⟩ := checkEntry_answer accessType hl hram he hp
  refine ⟨_, heq, ?_⟩
  unfold answer
  split
  next l hlook =>
    obtain rfl : l = leaf := by
      have hf := (Option.filter_eq_some_iff.mp hlook).1
      exact Option.some.inj (hf.symm.trans hl)
    have hp' : GivesPage l (pageOf address) e := by
      intro a ha
      rw [hphys]
      exact hp a ha
    exact coherent_resolved hc hl hsame hent hacc (hvirt'.trans hvirt) hp'
  next => exact coherent_flush hc.root rfl

/-- A lookup that missed replaces one entry. -/
theorem filled_coherent {cpu : Cpu} (address : Word) (leaf : Leaf) (huse : cpu.host.useTlb = true) :
    ((filled cpu address leaf).2 (filled cpu address leaf).1).virtBase = pageOf address ∧
      ∀ j, j ≠ (filled cpu address leaf).1 →
        SameButAge (cpu.mmu.tlbCache j) ((filled cpu address leaf).2 j) := by
  unfold filled
  rw [if_pos huse]
  simp only [Function.update_self, true_and]
  intro j hj
  rw [Function.update_of_ne hj]
  exact (tlbScan_scanned cpu.mmu.tlbCache (pageOf address)).same j

/-- A translation with a coherent cache gives the answer of the page tables. -/
theorem translate_of_coherent {cpu : Cpu} {address : Word} {accessType : AccessType}
    (huse : cpu.host.useTlb = true) (hact : Active cpu accessType) (hc : Coherent cpu)
    (hram : TablesInRam cpu address) (hit : ¬HitsEmpty cpu address) :
    ∃ tlb, translate cpu address accessType = .ok (answer cpu address accessType tlb) ∧
      Coherent (answer cpu address accessType tlb).2 := by
  have hscan := tlbScan_scanned cpu.mmu.tlbCache (pageOf address)
  rw [translate_active address hact]
  cases hh : (tlbScan cpu.mmu.tlbCache (pageOf address)).hit with
  | some i =>
    have hcached : Cached cpu (cpu.mmu.tlbCache i) :=
      (hc.entries i).resolve_left fun hempty => hit ⟨i, hh, hempty⟩
    have hvirt := hscan.hit i hh
    obtain ⟨leaf, hl, he, hp⟩ := hcached.leaf
    rw [hvirt] at hl hp
    rw [findLeaf_samePage _ (pageOf_pageOf address)] at hl
    have hs := hscan.same i
    have he' := hs.entryOf he
    have hsame : ((tlbScan cpu.mmu.tlbCache (pageOf address)).tlb i).virtBase = pageOf address ∧
        GivesPage leaf (pageOf address) ((tlbScan cpu.mmu.tlbCache (pageOf address)).tlb i) := by
      obtain ⟨age, hage⟩ := hs
      rw [hage]
      exact ⟨hvirt, hp⟩
    rw [getTlbEntry_hit accessType huse hh, Except.ok_bind]
    exact checkEntry_coherent accessType hc hl hram (fun j _ => hscan.same j) he' hsame.2 hsame.1
  | none =>
    have hmiss : Misses cpu address := fun _ => hh
    rw [getTlbEntry_miss hram hmiss]
    cases hl : findLeaf cpu address with
    | none =>
      refine ⟨cpu.mmu.tlbCache, by rw [answer_none hl]; rfl, ?_⟩
      rw [answer_none hl]
      exact coherent_flush hc.root rfl
    | some leaf =>
      obtain ⟨he, hp⟩ := filled_entry hl
      obtain ⟨hvirt, hsame⟩ := filled_coherent address leaf huse
      exact checkEntry_coherent accessType hc hl hram hsame he hp hvirt

end Mmu

end Rv64gcEmu
