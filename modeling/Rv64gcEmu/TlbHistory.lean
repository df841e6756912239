import Rv64gcEmu.Recency
import Rv64gcEmu.TlbAges
import Rv64gcEmu.Transition
import Rv64gcEmu.WalkSpec

namespace Rv64gcEmu

namespace Mmu

open Transition (Step Steps)

inductive TlbEvent where
  | lookup (address : Word) (accessType : AccessType) (found : Option (Fin 4))
  | flush
  | change

/-- A lookup uses the entry that it gives, and one that gives none has flushed the cache. -/
def TlbEvent.effect : TlbEvent → Recency.Effect (Fin 4)
  | .lookup _ _ (some i) => .use i
  | .lookup _ _ none => .reset
  | .flush => .reset
  | .change => .other

/-- Two entries that differ in the marks of the page table entry at most. -/
def Remarked (a b : TlbEntry) : Prop :=
  ∃ pte accessed dirty, b = { a with pte := pte, accessed := accessed, dirty := dirty }

/-- A lookup of a page other than the first, a flush, or anything that leaves the cache alone
but for the marks. -/
inductive TlbStep : Cpu → TlbEvent → Cpu → Prop
  | lookup {a b : Cpu} {address : Word} {accessType : AccessType} {found : Option (Fin 4)}
      (hpage : pageOf address ≠ 0) (h : getTlbEntry a address accessType = .ok (found, b)) :
      TlbStep a (.lookup address accessType found) b
  | flush {a b : Cpu} (hhost : b.host = a.host)
      (h : b.mmu.tlbCache = a.mmu.flushTlb.tlbCache) : TlbStep a .flush b
  | change {a b : Cpu} (hhost : b.host = a.host)
      (h : ∀ j, Remarked (a.mmu.tlbCache j) (b.mmu.tlbCache j)) : TlbStep a .change b

def effectOf (t : Step Cpu TlbEvent) : Recency.Effect (Fin 4) := t.label.effect

/-- What a walk finds out about a page. -/
structure SameWalk (e walked : TlbEntry) : Prop where
  physBase : e.physBase = walked.physBase
  pteAddr : e.pteAddr = walked.pteAddr
  read : e.read = walked.read
  write : e.write = walked.write
  execute : e.execute = walked.execute
  user : e.user = walked.user

/-- The step is a miss, and its walk has filled the slot with the entry. -/
def Fills (i : Fin 4) (e : TlbEntry) (t : Step Cpu TlbEvent) : Prop :=
  ∃ address accessType walked c, t.label = .lookup address accessType (some i) ∧
    e.virtBase = pageOf address ∧
    (tlbScan t.before.mmu.tlbCache (pageOf address)).hit = none ∧
    fetchPte (scanned t.before address) address accessType
      ((scanned t.before address).mmu.tlbCache i) = .ok (some walked, c) ∧
    SameWalk e walked

/-- The step flushes the cache, or fills the slot with another entry. -/
def Discards (i : Fin 4) (t : Step Cpu TlbEvent) : Prop :=
  effectOf t = .reset ∨ ∃ e, Fills i e t

def tlbResetAge : Nat := 0xffffffff

/-- The age of no entry goes round at the next lookup. -/
def AgesFit (history : List (Step Cpu TlbEvent)) : Prop :=
  ∀ j, Recency.age effectOf tlbResetAge j history + 1 < 2 ^ 64

/-- A miss overwrites an empty entry, or without one the entry whose last use is the longest
ago. -/
structure Replaces (cpu : Cpu) (address : Word) (history : List (Step Cpu TlbEvent)) : Prop where
  overwritten : ∀ accessType i after, getTlbEntry cpu address accessType = .ok (some i, after) →
    i = victim cpu address ∧ ∀ j, j ≠ i → SameButAge (cpu.mmu.tlbCache j) (after.mmu.tlbCache j)
  empty : (∃ j, (cpu.mmu.tlbCache j).virtBase = 0) →
    (cpu.mmu.tlbCache (victim cpu address)).virtBase = 0
  longestAgo : (∀ j, (cpu.mmu.tlbCache j).virtBase ≠ 0) →
    ∀ j, j ≠ victim cpu address → Recency.Later effectOf (victim cpu address) j history

theorem Remarked.refl (e : TlbEntry) : Remarked e e := ⟨e.pte, e.accessed, e.dirty, rfl⟩

theorem markEntry_remarked (e : TlbEntry) (accessType : AccessType) :
    Remarked e (markEntry e accessType) := by
  cases accessType <;> exact ⟨_, _, _, rfl⟩

/-- A translation does nothing else to the cache. -/
theorem tlbSteps_of_translate {cpu after : Cpu} {address p : Word} {accessType : AccessType}
    (hpage : pageOf address ≠ 0) (h : translate cpu address accessType = .ok (p, after)) :
    ∃ steps, Steps TlbStep cpu steps after := by
  rcases translate_cases h with ⟨_, rfl⟩ | ⟨c, hg, rfl⟩ | ⟨_, i, c, hg, hcheck⟩
  · exact ⟨_, .start⟩
  · exact ⟨_, .step .start (.lookup hpage hg)⟩
  · have run := Steps.step .start (TlbStep.lookup hpage hg)
    rcases checkEntry_cases hcheck with ⟨_, rfl⟩ | ⟨_, ⟨_, rfl⟩ | ⟨_, hst⟩⟩
    · exact ⟨_, run.step (.flush rfl rfl)⟩
    · exact ⟨_, run⟩
    · obtain ⟨hcore, hmmu⟩ := Bus.store_coreEq hst
      refine ⟨_, run.step (.change hcore.host fun j => ?_)⟩
      rw [hmmu]
      simp only [Cpu.setMmu_mmu, setEntry]
      by_cases hj : j = i
      · rw [hj, Function.update_self]
        exact markEntry_remarked _ _
      · rw [Function.update_of_ne hj]
        exact .refl _

/-- A write of `satp` is a flush. -/
theorem tlbStep_update (cpu : Cpu) : TlbStep cpu .flush (update cpu) := .flush rfl rfl

structure Recorded (cpu : Cpu) (history : List (Step Cpu TlbEvent)) : Prop where
  useTlb : cpu.host.useTlb = true
  ages : ∀ j, (cpu.mmu.tlbCache j).age =
    BitVec.ofNat 64 (Recency.age effectOf tlbResetAge j history)
  used : ∀ j, (cpu.mmu.tlbCache j).virtBase ≠ 0 ↔ Recency.Used effectOf j history
  distinct : ∀ i j, (cpu.mmu.tlbCache i).virtBase ≠ 0 →
    (cpu.mmu.tlbCache i).virtBase = (cpu.mmu.tlbCache j).virtBase → i = j
  walked : ∀ j, (cpu.mmu.tlbCache j).virtBase ≠ 0 →
    Since (Fills j (cpu.mmu.tlbCache j)) (Discards j) history

section Recording

variable {a b cpu : Cpu} {history : List (Step Cpu TlbEvent)} {t : Step Cpu TlbEvent}
  {i j : Fin 4}

theorem Recorded.flushed (huse : b.host.useTlb = true)
    (h : b.mmu.tlbCache = fun _ => emptyEntry) (hage : ∀ j, Recency.age effectOf tlbResetAge j
      history = tlbResetAge) (hused : ∀ j, ¬Recency.Used effectOf j history) :
    Recorded b history := by
  have hbase : ∀ j, (b.mmu.tlbCache j).virtBase = 0 := fun j => by rw [h]; rfl
  refine ⟨huse, fun j => ?_, fun j => ?_, fun i _ hi => absurd (hbase i) hi,
    fun i hi => absurd (hbase i) hi⟩
  · rw [hage, h]
    rfl
  · exact iff_of_false (fun hj => hj (hbase j)) (hused j)

theorem Recorded.reset (huse : b.host.useTlb = true) (ht : effectOf t = .reset)
    (h : b.mmu.tlbCache = fun _ => emptyEntry) : Recorded b (t :: history) :=
  .flushed huse h (fun _ => Recency.age_reset ht) fun _ => Recency.used_reset ht

/-- The ages count on with the history. -/
theorem ages_use {before after : Word} (ht : effectOf t = .use i)
    (h : before = BitVec.ofNat 64 (Recency.age effectOf tlbResetAge j history))
    (hafter : after = if some i = some j then 0 else before + 1) :
    after = BitVec.ofNat 64 (Recency.age effectOf tlbResetAge j (t :: history)) := by
  rw [Recency.age_use ht, hafter]
  by_cases hij : i = j
  · rw [if_pos hij, if_pos (congrArg some hij)]
    rfl
  · rw [if_neg hij, if_neg (fun he => hij (Option.some.inj he)), h,
      BitVec.ofNat_add]
    rfl

theorem Fills.congr {e e' : TlbEntry} (h : Fills i e t) (hbase : e'.virtBase = e.virtBase)
    (hs : SameWalk e' e) : Fills i e' t := by
  obtain ⟨address, accessType, walked, c, hl, hb, hmiss, hf, hw⟩ := h
  exact ⟨address, accessType, walked, c, hl, hbase.trans hb, hmiss, hf,
    hs.physBase.trans hw.physBase, hs.pteAddr.trans hw.pteAddr, hs.read.trans hw.read,
    hs.write.trans hw.write, hs.execute.trans hw.execute, hs.user.trans hw.user⟩

/-- An entry keeps its walk in a step that does not discard it. -/
theorem Recorded.carry_walked (h : Recorded a history) (hn : ¬Discards j t) {e : TlbEntry}
    (hbase : e.virtBase = (a.mmu.tlbCache j).virtBase) (hs : SameWalk e (a.mmu.tlbCache j))
    (hj : e.virtBase ≠ 0) : Since (Fills j e) (Discards j) (t :: history) := by
  rw [hbase] at hj
  obtain ⟨later, x, earlier, rfl, hx, hlater⟩ := h.walked j hj
  exact Since.cons_iff.mpr (.inr ⟨hn, later, x, earlier, rfl, hx.congr hbase hs, hlater⟩)

theorem Recorded.change (h : Recorded a history) (hhost : b.host = a.host)
    (hm : ∀ j, Remarked (a.mmu.tlbCache j) (b.mmu.tlbCache j)) :
    Recorded b (⟨a, .change, b⟩ :: history) := by
  have ht : effectOf ⟨a, .change, b⟩ = .other := rfl
  have hbase : ∀ j, (b.mmu.tlbCache j).virtBase = (a.mmu.tlbCache j).virtBase := by
    intro j
    obtain ⟨pte, accessed, dirty, he⟩ := hm j
    rw [he]
  refine ⟨by rw [hhost, h.useTlb], fun j => ?_, fun j => ?_, fun i j => ?_, fun j hj => ?_⟩
  · obtain ⟨pte, accessed, dirty, he⟩ := hm j
    rw [Recency.age_other ht, ← h.ages j, he]
  · rw [Recency.used_other ht, hbase, h.used]
  · rw [hbase, hbase]
    exact h.distinct i j
  · refine h.carry_walked ?_ (hbase j) ?_ hj
    · rintro (he | ⟨e, _, _, _, _, hl, _⟩)
      · cases he
      · cases hl
    · obtain ⟨pte, accessed, dirty, he⟩ := hm j
      rw [he]
      exact ⟨rfl, rfl, rfl, rfl, rfl, rfl⟩

/-- A hit is no fill. -/
theorem Recorded.hit {address : Word} {accessType : AccessType} (h : Recorded a history)
    (hhost : b.host = a.host) (hpage : pageOf address ≠ 0)
    (hi : (tlbScan a.mmu.tlbCache (pageOf address)).hit = some i)
    (htlb : b.mmu.tlbCache = aged a.mmu.tlbCache (some i)) :
    Recorded b (⟨a, .lookup address accessType (some i), b⟩ :: history) := by
  have ht : effectOf ⟨a, .lookup address accessType (some i), b⟩ = .use i := rfl
  have hvirt := (tlbScan_scanned a.mmu.tlbCache (pageOf address)).hit i hi
  refine ⟨by rw [hhost, h.useTlb], fun j => ?_, fun j => ?_, fun k j => ?_, fun j hj => ?_⟩
  · rw [htlb]
    exact ages_use ht (h.ages j) rfl
  · rw [Recency.used_use ht, htlb, ← h.used j]
    refine ⟨.inr, ?_⟩
    rintro (rfl | hj)
    · exact hvirt ▸ hpage
    · exact hj
  · rw [htlb]
    exact h.distinct k j
  · rw [htlb] at hj ⊢
    refine h.carry_walked ?_ rfl ⟨rfl, rfl, rfl, rfl, rfl, rfl⟩ hj
    rintro (he | ⟨e, address', accessType', walked, c, hl, _, hmiss, _⟩)
    · cases he
    · obtain ⟨rfl, _⟩ := TlbEvent.lookup.inj hl
      rw [hi] at hmiss
      cases hmiss

/-- A miss has no entry for its page. -/
theorem virtBase_ne_of_miss {tlb : Fin 4 → TlbEntry} {page : Word}
    (h : (tlbScan tlb page).hit = none) (j : Fin 4) : (tlb j).virtBase ≠ page := by
  rw [tlbScan_hit, List.find?_eq_none] at h
  exact fun he => h j (List.mem_finRange j) (decide_eq_true he.symm)

theorem Recorded.fill {address : Word} {accessType : AccessType} {walked : TlbEntry} {c : Cpu}
    (h : Recorded a history) (hhost : b.host = a.host) (hpage : pageOf address ≠ 0)
    (hmiss : (tlbScan a.mmu.tlbCache (pageOf address)).hit = none)
    (hf : fetchPte (scanned a address) address accessType
      ((scanned a address).mmu.tlbCache i) = .ok (some walked, c))
    (htlb : b.mmu.tlbCache = Function.update (aged a.mmu.tlbCache none) i
      { walked with virtBase := pageOf address, age := 0 }) :
    Recorded b (⟨a, .lookup address accessType (some i), b⟩ :: history) := by
  have ht : effectOf ⟨a, .lookup address accessType (some i), b⟩ = .use i := rfl
  have hbase := virtBase_ne_of_miss hmiss
  have hnew : b.mmu.tlbCache i = { walked with virtBase := pageOf address, age := 0 } := by
    rw [htlb, Function.update_self]
  have hold : ∀ j, j ≠ i → b.mmu.tlbCache j = aged a.mmu.tlbCache none j := by
    intro j hj
    rw [htlb, Function.update_of_ne hj]
  refine ⟨by rw [hhost, h.useTlb], fun j => ?_, fun j => ?_, fun k j => ?_, fun j hj => ?_⟩
  · refine ages_use ht (h.ages j) ?_
    by_cases hj : j = i
    · rw [hj, hnew, if_pos rfl]
    · rw [hold j hj, if_neg fun he => hj (Option.some.inj he).symm]
      rfl
  · rw [Recency.used_use ht, ← h.used j]
    by_cases hj : j = i
    · rw [hj, hnew]
      exact iff_of_true hpage (.inl rfl)
    · rw [hold j hj]
      exact ⟨.inr, fun ho => ho.resolve_left fun he => hj he.symm⟩
  · by_cases hk : k = i
    · by_cases hj : j = i
      · rw [hk, hj]
        exact fun _ _ => rfl
      · rw [hk, hnew, hold j hj]
        exact fun _ he => absurd he.symm (hbase j)
    · by_cases hj : j = i
      · rw [hj, hnew, hold k hk]
        exact fun _ he => absurd he (hbase k)
      · rw [hold k hk, hold j hj]
        exact h.distinct k j
  · by_cases hji : j = i
    · subst hji
      rw [hnew]
      exact Since.cons_iff.mpr (.inl ⟨address, accessType, walked, c, rfl, rfl, hmiss, hf,
        rfl, rfl, rfl, rfl, rfl, rfl⟩)
    · rw [hold j hji] at hj ⊢
      refine h.carry_walked ?_ rfl ⟨rfl, rfl, rfl, rfl, rfl, rfl⟩ hj
      rintro (he | ⟨e, address', accessType', walked', c', hl, _⟩)
      · cases he
      · obtain ⟨_, _, hij⟩ := TlbEvent.lookup.inj hl
        exact hji (Option.some.inj hij).symm

theorem Recorded.step {event : TlbEvent} (h : Recorded a history) (hstep : TlbStep a event b) :
    Recorded b (⟨a, event, b⟩ :: history) := by
  cases hstep with
  | lookup hpage hg =>
    have hhost := (getTlbEntry_frame hg).core.host
    rcases tlbLookup_cases h.useTlb hg with
      ⟨i, hi, rfl, htlb⟩ | ⟨hmiss, ⟨walked, c, hf, rfl, htlb⟩ | ⟨rfl, htlb⟩⟩
    · exact h.hit hhost hpage hi htlb
    · exact h.fill hhost hpage hmiss hf htlb
    · exact .reset (by rw [hhost, h.useTlb]) rfl htlb
  | flush hhost htlb => exact .reset (by rw [hhost, h.useTlb]) rfl htlb
  | change hhost hm => exact h.change hhost hm

theorem recorded_of_steps {start : Cpu} {steps : List (Step Cpu TlbEvent)}
    (huse : start.host.useTlb = true) (h0 : start.mmu.tlbCache = fun _ => emptyEntry)
    (run : Steps TlbStep start steps cpu) : Recorded cpu steps := by
  have hstart : Recorded start [] := .flushed huse h0 (fun _ => rfl) fun _ => Since.not_nil
  induction run with
  | start => exact hstart
  | step _ hs ih => exact ih.step hs

theorem Recorded.victim_oldest {address : Word} (h : Recorded cpu history)
    (hmiss : (tlbScan cpu.mmu.tlbCache (pageOf address)).hit = none) (hfit : AgesFit history)
    (j : Fin 4) : Recency.age effectOf tlbResetAge j history ≤
      Recency.age effectOf tlbResetAge (victim cpu address) history := by
  have hle := tlbScan_oldest hmiss j
  have hage : ∀ k, ((cpu.mmu.tlbCache k).age + 1).toNat =
      Recency.age effectOf tlbResetAge k history + 1 := by
    intro k
    have hk := hfit k
    rw [h.ages k, BitVec.toNat_add, BitVec.toNat_ofNat, Nat.mod_add_mod]
    exact Nat.mod_eq_of_lt hk
  rw [BitVec.le_def, hage, ← victim, hage] at hle
  omega

theorem Recorded.replaces {address : Word} (h : Recorded cpu history)
    (hmiss : (tlbScan cpu.mmu.tlbCache (pageOf address)).hit = none) (hfit : AgesFit history) :
    Replaces cpu address history := by
  have hold := h.victim_oldest hmiss hfit
  refine ⟨fun accessType i after hg => ?_, fun ⟨j, hj⟩ => ?_, fun hall j _ => ?_⟩
  · rcases tlbLookup_cases h.useTlb hg with
      ⟨k, hk, _⟩ | ⟨_, ⟨walked, c, _, hi, htlb⟩ | ⟨hn, _⟩⟩
    · rw [hmiss] at hk
      cases hk
    · obtain rfl := Option.some.inj hi
      refine ⟨rfl, fun j hj => ?_⟩
      rw [htlb, Function.update_of_ne hj]
      exact ⟨_, rfl⟩
    · cases hn
  · have hu : ¬Recency.Used effectOf j history := fun hu => (h.used j).mpr hu hj
    by_contra hv
    exact Recency.oldest_not_used hold hu ((h.used _).mp hv)
  · exact Recency.later_of_age_le ((h.used j).mp (hall j)) (hold j)

/-- A history with fewer events than the ages have room for. -/
theorem agesFit_of_length (h : history.length < 2 ^ 64 - 2 ^ 32) : AgesFit history := by
  intro j
  have hle : Recency.age effectOf tlbResetAge j history ≤ tlbResetAge + history.length :=
    Recency.age_le_length
  have hreset : tlbResetAge = 2 ^ 32 - 1 := rfl
  omega

end Recording

/-- The cache after any run of lookups and flushes: no page has two entries, every entry is
from the last walk for its page, and a miss overwrites the right entry. -/
theorem tlb_of_history {start cpu : Cpu} {steps : List (Step Cpu TlbEvent)}
    (huse : start.host.useTlb = true) (h0 : start.mmu.tlbCache = fun _ => emptyEntry)
    (run : Steps TlbStep start steps cpu) :
    (∀ i j, (cpu.mmu.tlbCache i).virtBase ≠ 0 →
      (cpu.mmu.tlbCache i).virtBase = (cpu.mmu.tlbCache j).virtBase → i = j) ∧
    (∀ i, (cpu.mmu.tlbCache i).virtBase ≠ 0 →
      Since (Fills i (cpu.mmu.tlbCache i)) (Discards i) steps) ∧
    ∀ address, (tlbScan cpu.mmu.tlbCache (pageOf address)).hit = none → AgesFit steps →
      Replaces cpu address steps := by
  have h := recorded_of_steps huse h0 run
  exact ⟨h.distinct, h.walked, fun address hmiss hfit => h.replaces hmiss hfit⟩

/-- Four pages have been looked up, and the first of them once more. -/
theorem tlb_of_history_gigapage : ∃ steps cpu, Steps TlbStep gigapage steps cpu ∧
    (∀ j, (cpu.mmu.tlbCache j).virtBase ≠ 0) ∧ victim cpu 0x5000 = 1 ∧
    Replaces cpu 0x5000 steps := by
  have run := Steps.step .start
    (@TlbStep.lookup gigapage _ 0x1000 .load _ (by decide) rfl)
  have run := run.step (@TlbStep.lookup _ _ 0x2000 .load _ (by decide) rfl)
  have run := run.step (@TlbStep.lookup _ _ 0x3000 .load _ (by decide) rfl)
  have run := run.step (@TlbStep.lookup _ _ 0x4000 .load _ (by decide) rfl)
  have run := run.step (@TlbStep.lookup _ _ 0x1000 .load _ (by decide) rfl)
  exact ⟨_, _, run, by decide +kernel, by decide +kernel,
    (tlb_of_history rfl rfl run).2.2 0x5000 (by decide +kernel)
      (agesFit_of_length (by decide +kernel))⟩

/-- The cache when one page has been looked up, and again `k` times since. -/
def lookedUp (k : Nat) (j : Fin 4) : TlbEntry :=
  if j.val = 0 then
    { emptyEntry with
      virtBase := 0x1000
      physBase := 0x80001000
      pte := 0x2000000f
      pteAddr := 0x80000000
      age := 0
      read := true
      write := true
      execute := true }
  else { emptyEntry with age := BitVec.ofNat 64 (0x100000000 + k) }

theorem lookedUp_succ (k : Nat) :
    (tlbScan (lookedUp k) 0x1000).tlb = lookedUp (k + 1) := by
  have hhit : (tlbScan (lookedUp k) 0x1000).hit = some 0 := by
    rw [tlbScan_hit]
    rfl
  rw [tlbScan_tlb, hhit]
  funext j
  by_cases hj : j.val = 0
  · obtain rfl : j = 0 := Fin.ext hj
    rfl
  · have hj' : some 0 ≠ some j := fun he => hj (congrArg Fin.val (Option.some.inj he).symm)
    simp only [aged, lookedUp, if_neg hj, if_neg hj', ← Nat.add_assoc]
    rw [BitVec.ofNat_add (0x100000000 + k) 1]
    rfl

theorem lookedUp_reached (k : Nat) : ∃ steps cpu, Steps TlbStep gigapage steps cpu ∧
    cpu.host.useTlb = true ∧ cpu.mmu.tlbCache = lookedUp k := by
  induction k with
  | zero =>
    have run := Steps.step .start
      (@TlbStep.lookup gigapage _ 0x1000 .load _ (by decide) rfl)
    refine ⟨_, _, run, rfl, funext fun j => ?_⟩
    revert j
    decide +kernel
  | succ k ih =>
    obtain ⟨steps, cpu, run, huse, htlb⟩ := ih
    have hhit : (tlbScan cpu.mmu.tlbCache (pageOf 0x1000)).hit = some 0 := by
      rw [htlb, tlbScan_hit]
      rfl
    have hstep := TlbStep.lookup (by decide) (getTlbEntry_hit .load huse hhit)
    refine ⟨_, _, run.step hstep, huse, ?_⟩
    rw [htlb]
    exact lookedUp_succ k

/-- After enough lookups of one page the ages of the empty entries are back at zero. -/
theorem empty_entry_passed_over : ¬ ∀ (start cpu : Cpu) (steps : List (Step Cpu TlbEvent)),
    start.host.useTlb = true → start.mmu.tlbCache = (fun _ => emptyEntry) →
    Steps TlbStep start steps cpu → ∀ address, pageOf address ≠ 0 →
    (tlbScan cpu.mmu.tlbCache (pageOf address)).hit = none → Replaces cpu address steps := by
  intro h
  obtain ⟨steps, cpu, run, _, htlb⟩ := lookedUp_reached 0xfffffffeffffffff
  have hmiss : (tlbScan cpu.mmu.tlbCache (pageOf 0x2000)).hit = none := by
    rw [htlb]
    decide +kernel
  have hempty := (h gigapage cpu steps rfl rfl run 0x2000 (by decide) hmiss).empty
    ⟨1, by rw [htlb]; rfl⟩
  have hvictim : victim cpu 0x2000 = 0 := by
    rw [victim, htlb]
    decide +kernel
  rw [hvictim, htlb] at hempty
  exact absurd hempty (by decide)

end Mmu

end Rv64gcEmu
