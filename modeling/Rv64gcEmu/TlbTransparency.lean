import Rv64gcEmu.TlbCoherence
import Rv64gcEmu.WalkSpec

namespace Rv64gcEmu

/-- A call of `Mmu::translate`, with the mode and the CSRs it is made under. -/
structure TranslateCall where
  address : Word
  accessType : AccessType
  mode : Mode
  cregs : Csr

def TranslateCall.enter (call : TranslateCall) (cpu : Cpu) : Cpu :=
  ((cpu.setMode call.mode).setCregs call.cregs).clearException

/-- What a call gives back: the address or the exception, and the RAM. -/
structure TranslateOutcome where
  address : Word
  excVal : Option Exception
  excData : Word
  ram : RamDevice

namespace Mmu

open Paging (Leaf)

def outcome (p : Word × Cpu) : TranslateOutcome := ⟨p.1, p.2.excVal, p.2.excData, p.2.bus.ram⟩

def translateAll (cpu : Cpu) : List TranslateCall → HostM (List TranslateOutcome × Cpu)
  | [] => .ok ([], cpu)
  | call :: calls => do
    let p ← translate (call.enter cpu) call.address call.accessType
    let (outcomes, cpu) ← translateAll p.2 calls
    .ok (outcome p :: outcomes, cpu)

/-- The same machine, built with `USE_TLB=0`. -/
def withoutTlb (cpu : Cpu) : Cpu := { cpu with host := { cpu.host with useTlb := false } }

/-- The cache has the page, or has to walk for it; or the tables refuse the access anyway. -/
def Transparent (cpu : Cpu) (address : Word) (accessType : AccessType) : Prop :=
  Active cpu accessType → HitsEmpty cpu address → lookup cpu address accessType = none

def AllTransparent (cpu : Cpu) : List TranslateCall → Prop
  | [] => True
  | call :: calls => Transparent (call.enter cpu) call.address call.accessType ∧
      ∀ p, translate (call.enter cpu) call.address call.accessType = .ok p → AllTransparent p.2 calls

/-- Only page 0 is found in an entry that has not been filled. -/
theorem HitsEmpty.page {cpu : Cpu} {address : Word} (h : HitsEmpty cpu address) :
    pageOf address = 0 := by
  obtain ⟨i, hi, he⟩ := h
  rw [← (tlbScan_scanned _ _).hit i hi, he.virtBase]

/-- The state of the MMU that every call leaves behind. -/
structure Sound (cpu : Cpu) : Prop where
  root : RootAligned cpu
  coherent : cpu.host.useTlb = true → Coherent cpu

theorem Sound.enter {cpu : Cpu} (h : Sound cpu) (call : TranslateCall) : Sound (call.enter cpu) := by
  refine ⟨h.root, fun huse => ⟨h.root, fun i => ?_⟩⟩
  rcases (h.coherent huse).entries i with hempty | hcached
  · exact .inl hempty
  · exact .inr ⟨hcached.accessed, hcached.page, hcached.leaf⟩

theorem answer_tables {cpu : Cpu} {address : Word} {accessType : AccessType}
    (hroot : RootAligned cpu) (tlb : Fin 4 → TlbEntry) {a : Word} (h : TablesInRam cpu a) :
    TablesInRam (answer cpu address accessType tlb).2 a := by
  unfold answer
  split
  next leaf hl =>
    exact tablesInRam_resolved accessType hroot (Option.filter_eq_some_iff.mp hl).1 tlb h
  next => exact h

theorem answer_root {cpu : Cpu} {address : Word} {accessType : AccessType}
    (hroot : RootAligned cpu) (tlb : Fin 4 → TlbEntry) :
    RootAligned (answer cpu address accessType tlb).2 := by
  unfold answer
  split <;> exact hroot

/-- Two machines that a translation cannot tell apart, but for the cache. -/
structure SameView (a b : Cpu) : Prop where
  bus : b.bus = a.bus
  root : SameRoot a.mmu b.mmu
  mode : b.mode = a.mode
  cregs : b.cregs = a.cregs
  excVal : b.excVal = a.excVal
  excData : b.excData = a.excData

namespace SameView

variable {a b : Cpu}

theorem active_iff (h : SameView a b) (accessType : AccessType) :
    Active b accessType ↔ Active a accessType := by
  have hm : accessMode b accessType = accessMode a accessType := by
    unfold accessMode
    rw [h.mode, h.cregs]
  exact ⟨fun hb => ⟨h.root.1 ▸ hb.mode, hm ▸ hb.accessMode⟩,
    fun ha => ⟨h.root.1.symm ▸ ha.mode, hm.symm ▸ ha.accessMode⟩⟩

theorem levels (h : SameView a b) : b.mmu.getLevels = a.mmu.getLevels := by
  unfold getLevels
  rw [h.root.1]

theorem findLeaf (h : SameView a b) (address : Word) :
    Mmu.findLeaf b address = Mmu.findLeaf a address := by
  unfold Mmu.findLeaf Cpu.memory
  rw [h.bus, h.root.2, h.levels]

theorem tables (h : SameView a b) {address : Word} (ha : TablesInRam a address) :
    TablesInRam b address := by
  unfold TablesInRam Cpu.memory
  rw [h.bus, h.root.2, h.levels]
  exact ha

theorem lookup (h : SameView a b) (address : Word) (accessType : AccessType) :
    Mmu.lookup b address accessType = Mmu.lookup a address accessType := by
  unfold Mmu.lookup refuses accessMode
  rw [h.findLeaf, h.mode, h.cregs]

/-- The two builds give the same answer. -/
theorem answer (h : SameView a b) (address : Word) (accessType : AccessType)
    (tlb tlb' : Fin 4 → TlbEntry) :
    outcome (Mmu.answer b address accessType tlb') = outcome (Mmu.answer a address accessType tlb) ∧
      SameView (Mmu.answer a address accessType tlb).2 (Mmu.answer b address accessType tlb').2 := by
  have hram : b.bus.ram = a.bus.ram := congrArg Bus.ram h.bus
  unfold Mmu.answer
  rw [h.lookup]
  split
  next leaf _ =>
    have hb : (resolved b tlb' leaf accessType).bus = (resolved a tlb leaf accessType).bus := by
      simp only [resolved, Cpu.setBus_bus, h.bus]
    refine ⟨?_, hb, h.root, h.mode, h.cregs, h.excVal, h.excData⟩
    unfold outcome
    rw [hb]
    simp only [resolved, Cpu.setBus_excVal, Cpu.setBus_excData, Cpu.setMmu_excVal,
      Cpu.setMmu_excData, h.excVal, h.excData]
  next =>
    refine ⟨?_, h.bus, h.root, h.mode, h.cregs, rfl, rfl⟩
    unfold outcome setCpuError
    simp only [Cpu.setMmu_bus, Cpu.setException_bus, hram]
    rfl

end SameView

/-- A call succeeds, and leaves the MMU and the tables fit for the next one. -/
theorem translate_sound {cpu : Cpu} {address : Word} (accessType : AccessType) (hs : Sound cpu)
    (hram : TablesInRam cpu address) :
    ∃ p, translate cpu address accessType = .ok p ∧ Sound p.2 ∧
      ∀ a, TablesInRam cpu a → TablesInRam p.2 a := by
  by_cases hact : Active cpu accessType
  · cases huse : cpu.host.useTlb with
    | true =>
      have hc := hs.coherent huse
      by_cases hit : HitsEmpty cpu address
      · exact ⟨_, translate_of_hitsEmpty huse hact hit,
          ⟨hs.root, fun _ => coherent_flush hs.root rfl⟩, fun _ h => h⟩
      · obtain ⟨tlb, ht, hcoh⟩ := translate_of_coherent huse hact hc hram hit
        exact ⟨_, ht, ⟨answer_root hs.root tlb, fun _ => hcoh⟩,
          fun _ h => answer_tables hs.root tlb h⟩
    | false =>
      have hmiss : Misses cpu address := fun h => absurd (huse.symm.trans h) (by simp)
      obtain ⟨tlb, ht⟩ := translate_of_miss hact hram hmiss
      have hhost : (answer cpu address accessType tlb).2.host = cpu.host := by
        unfold answer
        split <;> rfl
      refine ⟨_, ht, ⟨answer_root hs.root tlb, fun h => ?_⟩, fun _ h => answer_tables hs.root tlb h⟩
      rw [hhost, huse] at h
      cases h
  · exact ⟨_, translate_inactive address hact, hs, fun _ h => h⟩

/-- One call with the cache against one without: the outcomes agree exactly when the
call is transparent, and then so do the machines. -/
theorem translate_agree {a b : Cpu} {address : Word} (accessType : AccessType)
    (hview : SameView a b) (ha : a.host.useTlb = true) (hb : b.host.useTlb = false)
    (hexc : a.excVal = none) (hs : Sound a) (hram : TablesInRam a address) :
    ∃ p q, translate a address accessType = .ok p ∧ translate b address accessType = .ok q ∧
      (outcome p = outcome q ↔ Transparent a address accessType) ∧
      (Transparent a address accessType → SameView p.2 q.2) := by
  by_cases hact : Active a accessType
  · have hmiss : Misses b address := fun h => absurd (hb.symm.trans h) (by simp)
    obtain ⟨tlb', ht'⟩ := translate_of_miss ((hview.active_iff accessType).mpr hact)
      (hview.tables hram) hmiss
    by_cases hit : HitsEmpty a address
    · refine ⟨_, _, translate_of_hitsEmpty ha hact hit, ht', ?_⟩
      have htrans : Transparent a address accessType ↔ lookup a address accessType = none :=
        ⟨fun h => h hact hit, fun h _ _ => h⟩
      rw [htrans]
      obtain ⟨hout, hview'⟩ := hview.answer address accessType a.mmu.tlbCache tlb'
      rw [hout]
      cases hl : lookup a address accessType with
      | none =>
        have hans : answer a address accessType a.mmu.tlbCache = (0, setCpuError a address accessType) := by
          unfold answer
          rw [hl]
        rw [hans] at hview' ⊢
        simp [hview']
      | some leaf =>
        have hne : outcome (0, setCpuError a address accessType) ≠
            outcome (answer a address accessType a.mmu.tlbCache) := by
          unfold answer
          rw [hl]
          intro h
          have he : (some (pageFault accessType) : Option Exception) = a.excVal :=
            congrArg TranslateOutcome.excVal h
          rw [hexc] at he
          cases he
        exact ⟨⟨fun h => absurd h hne, by simp⟩, by simp⟩
    · obtain ⟨tlb, ht, _⟩ := translate_of_coherent ha hact (hs.coherent ha) hram hit
      obtain ⟨hout, hview'⟩ := hview.answer address accessType tlb tlb'
      have htrans : Transparent a address accessType := fun _ h => absurd h hit
      exact ⟨_, _, ht, ht', by simp [hout, htrans], fun _ => hview'⟩
  · have hact' : ¬Active b accessType := fun h => hact ((hview.active_iff accessType).mp h)
    have htrans : Transparent a address accessType := fun h => absurd h hact
    refine ⟨_, _, translate_inactive address hact, translate_inactive address hact', ?_,
      fun _ => hview⟩
    have hout : outcome (address, a) = outcome (address, b) := by
      unfold outcome
      simp only [hview.bus, hview.excVal, hview.excData]
    simp [hout, htrans]

theorem translateAll_ok (calls : List TranslateCall) {cpu : Cpu} (hs : Sound cpu)
    (hram : ∀ call ∈ calls, TablesInRam cpu call.address) :
    ∃ r, translateAll cpu calls = .ok r := by
  induction calls generalizing cpu with
  | nil => exact ⟨_, rfl⟩
  | cons call calls ih =>
    obtain ⟨p, ht, hp, htables⟩ :=
      translate_sound call.accessType (hs.enter call) (hram call (by simp))
    obtain ⟨r, hr⟩ := ih hp fun c hc => htables _ (hram c (by simp [hc]))
    simp only [translateAll, ht, Except.ok_bind, hr]
    exact ⟨_, rfl⟩

theorem translateAll_cons {cpu : Cpu} {call : TranslateCall} {calls : List TranslateCall}
    {p : Word × Cpu} {r : List TranslateOutcome × Cpu}
    (ht : translate (call.enter cpu) call.address call.accessType = .ok p)
    (hr : translateAll p.2 calls = .ok r) :
    translateAll cpu (call :: calls) = .ok (outcome p :: r.1, r.2) := by
  simp only [translateAll, ht, Except.ok_bind, hr]

theorem allTransparent_cons {cpu : Cpu} {call : TranslateCall} {calls : List TranslateCall}
    {p : Word × Cpu} (ht : translate (call.enter cpu) call.address call.accessType = .ok p) :
    AllTransparent cpu (call :: calls) ↔
      Transparent (call.enter cpu) call.address call.accessType ∧ AllTransparent p.2 calls := by
  simp only [AllTransparent, ht, Except.ok.injEq, forall_eq']

/-- In a run with the cache every outcome is that of the run without it, exactly when
every call is transparent. -/
theorem translateAll_agree (calls : List TranslateCall) {a b : Cpu} (hbus : b.bus = a.bus)
    (hroot : SameRoot a.mmu b.mmu) (ha : a.host.useTlb = true) (hb : b.host.useTlb = false)
    (hs : Sound a) (hram : ∀ call ∈ calls, TablesInRam a call.address) :
    ∃ r r', translateAll a calls = .ok r ∧ translateAll b calls = .ok r' ∧
      (r.1 = r'.1 ↔ AllTransparent a calls) := by
  induction calls generalizing a b with
  | nil => exact ⟨_, _, rfl, rfl, by simp [AllTransparent]⟩
  | cons call calls ih =>
    have hview : SameView (call.enter a) (call.enter b) := ⟨hbus, hroot, rfl, rfl, rfl, rfl⟩
    have htabs : ∀ c ∈ calls, TablesInRam a c.address := fun c hc => hram c (by simp [hc])
    obtain ⟨p, q, hp, hq, hout, hnext⟩ := translate_agree call.accessType hview ha hb rfl
      (hs.enter call) (hram call (by simp))
    obtain ⟨p', hp', hsp, hkeep⟩ := translate_sound call.accessType (hs.enter call)
      (hram call (by simp))
    obtain rfl := Except.ok.inj (hp.symm.trans hp')
    have hpost : p.2.host.useTlb = true := by
      rw [(translate_coreEq hp).1.host]
      exact ha
    have hqost : q.2.host.useTlb = false := by
      rw [(translate_coreEq hq).1.host]
      exact hb
    rw [allTransparent_cons hp]
    by_cases htrans : Transparent (call.enter a) call.address call.accessType
    · have hv := hnext htrans
      obtain ⟨r, r', hr, hr', hiff⟩ := ih hv.bus hv.root hpost hqost hsp
        fun c hc => hkeep _ (htabs c hc)
      refine ⟨_, _, translateAll_cons hp hr, translateAll_cons hq hr', ?_⟩
      simp only [List.cons.injEq, hout, hiff]
    · have hsb : Sound (call.enter b) := by
        refine ⟨?_, fun h => ?_⟩
        · change ((b.mmu.mppn.setWidth 64 : Word)).toNat % 8 = 0
          rw [hroot.2]
          exact hs.root
        · exact absurd (hb.symm.trans h) (by simp)
      obtain ⟨q', hq', hsq, hkeep'⟩ := translate_sound call.accessType hsb
        (hview.tables (hram call (by simp)))
      obtain rfl := Except.ok.inj (hq.symm.trans hq')
      obtain ⟨r, hr⟩ := translateAll_ok calls hsp fun c hc => hkeep _ (htabs c hc)
      obtain ⟨r', hr'⟩ := translateAll_ok calls hsq fun c hc =>
        hkeep' _ (hview.tables (htabs c hc))
      refine ⟨_, _, translateAll_cons hp hr, translateAll_cons hq hr', ?_⟩
      simp only [List.cons.injEq, hout, htrans, false_and]

theorem update_sound (cpu : Cpu) : Sound (update cpu) := by
  have hroot : RootAligned (update cpu) := by
    unfold RootAligned update
    simp only [Cpu.setMmu_mmu, flushTlb]
    rw [BitVec.toNat_setWidth, BitVec.toNat_setWidth, BitVec.toNat_shiftLeft, Nat.shiftLeft_eq]
    omega
  exact ⟨hroot, fun _ => coherent_flush hroot rfl⟩

/-- From a flushed cache, the calls with and without the cache have the same outcomes
exactly when none of them ends at an empty entry that hides a mapped page. -/
theorem translateAll_iff_allTransparent (cpu : Cpu) (calls : List TranslateCall)
    (huse : cpu.host.useTlb = true)
    (hram : ∀ call ∈ calls, TablesInRam (update cpu) call.address) :
    ∃ r r', translateAll (update cpu) calls = .ok r ∧
      translateAll (withoutTlb (update cpu)) calls = .ok r' ∧
      (r.1 = r'.1 ↔ AllTransparent (update cpu) calls) :=
  translateAll_agree calls rfl (.refl _) huse rfl (update_sound cpu) hram

/-- A store to the second page, and a load from the first one. -/
def storeCall : TranslateCall := ⟨0x1234, .store, .supervisor, gigapage.cregs⟩

def pageZeroCall : TranslateCall := ⟨0x10, .load, .supervisor, gigapage.cregs⟩

theorem gigapage_tables_of {address : Word}
    (h : Paging.walkReads gigapage.memory address 0x80000000 3 = [0x80000000]) :
    TablesInRam (update gigapage) address := by
  change ∀ x ∈ Paging.walkReads gigapage.memory address 0x80000000 3, gigapage.bus.ram.Contains x 8
  rw [h]
  intro x hx
  obtain rfl := List.mem_singleton.mp hx
  decide

theorem storeCall_tables : ∀ call ∈ [storeCall], TablesInRam (update gigapage) call.address := by
  intro call hc
  obtain rfl := List.mem_singleton.mp hc
  exact gigapage_tables_of (by decide +kernel)

theorem pageZeroCall_tables :
    ∀ call ∈ [pageZeroCall], TablesInRam (update gigapage) call.address := by
  intro call hc
  obtain rfl := List.mem_singleton.mp hc
  exact gigapage_tables_of (by decide +kernel)

theorem translateAll_iff_storeCall : ∃ r r', translateAll (update gigapage) [storeCall] = .ok r ∧
    translateAll (withoutTlb (update gigapage)) [storeCall] = .ok r' ∧
    (r.1 = r'.1 ↔ AllTransparent (update gigapage) [storeCall]) :=
  translateAll_iff_allTransparent gigapage [storeCall] rfl storeCall_tables

theorem pageZero_not_transparent : ¬ ∀ (cpu : Cpu) (calls : List TranslateCall)
    (r r' : List TranslateOutcome × Cpu), cpu.host.useTlb = true →
    (∀ call ∈ calls, TablesInRam (update cpu) call.address) →
    translateAll (update cpu) calls = .ok r →
    translateAll (withoutTlb (update cpu)) calls = .ok r' → r.1 = r'.1 := by
  intro h
  have hsame := h gigapage [pageZeroCall] _ _ rfl pageZeroCall_tables rfl rfl
  have hexc : [some Exception.loadPageFault] = [none] :=
    congrArg (List.map TranslateOutcome.excVal) hsame
  cases hexc

end Mmu

end Rv64gcEmu
