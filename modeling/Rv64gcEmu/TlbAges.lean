import Rv64gcEmu.TlbReuse

namespace Rv64gcEmu

namespace Mmu

/-- The entry after a lookup: one turn older, or new if it was found. -/
def aged (tlb : Fin 4 → TlbEntry) (hit : Option (Fin 4)) (j : Fin 4) : TlbEntry :=
  { tlb j with age := if hit = some j then 0 else (tlb j).age + 1 }

/-- The entries after the scan of some of them. -/
structure Aged (tlb : Fin 4 → TlbEntry) (visited : List (Fin 4)) (hit : Option (Fin 4))
    (cache : Fin 4 → TlbEntry) : Prop where
  turned : ∀ j ∈ visited, cache j = aged tlb hit j
  rest : ∀ j, j ∉ visited → cache j = tlb j

/-- The scan when it has come past some entries; as long as the page was not among them, the
oldest of them is known. -/
structure Scanning (tlb : Fin 4 → TlbEntry) (visited : List (Fin 4)) (s : TlbScan) : Prop where
  ages : Aged tlb visited s.hit s.tlb
  hit : ∀ k, s.hit = some k → k ∈ visited
  bound : s.hit = none → ∀ j ∈ visited, (tlb j).age + 1 ≤ s.oldestAge
  oldest : s.hit = none → s.oldestAge ≤ (tlb s.oldestIndex).age + 1

section Scan

variable {tlb cache : Fin 4 → TlbEntry} {visited : List (Fin 4)} {hit hit' : Option (Fin 4)}
  {s : TlbScan} {i : Fin 4}

/-- The next entry gets its age, and those before it keep theirs. -/
theorem Aged.turn (h : Aged tlb visited hit cache) (hi : i ∉ visited) {age : Word}
    (hage : age = if hit' = some i then 0 else (cache i).age + 1)
    (hhit : ∀ j ∈ visited, (hit' = some j ↔ hit = some j)) :
    Aged tlb (i :: visited) hit' (Function.update cache i { cache i with age := age }) := by
  constructor
  · intro j hj
    rcases List.mem_cons.mp hj with rfl | hj
    · rw [Function.update_self, hage, h.rest j hi, aged]
    · have hne : j ≠ i := fun he => hi (he ▸ hj)
      rw [Function.update_of_ne hne, h.turned j hj]
      simp only [aged, hhit j hj]
  · intro j hj
    have hne : j ≠ i := fun he => hj (he ▸ List.mem_cons_self)
    rw [Function.update_of_ne hne, h.rest j fun hm => hj (List.mem_cons_of_mem i hm)]

theorem tlbScanStep_scanning (page : Word) (h : Scanning tlb visited s) (hi : i ∉ visited) :
    Scanning tlb (i :: visited) (tlbScanStep page s i) := by
  have hentry : s.tlb i = tlb i := h.ages.rest i hi
  unfold tlbScanStep
  simp only
  split
  next k hk =>
    have hki : s.hit ≠ some i := fun he => hi (h.hit i he)
    refine ⟨h.ages.turn hi (if_neg hki).symm fun j _ => Iff.rfl,
      fun l hl => List.mem_cons_of_mem i (h.hit l hl), fun hn => ?_, fun hn => ?_⟩
    · rw [hk] at hn
      cases hn
    · rw [hk] at hn
      cases hn
  next hk =>
    split
    next hp =>
      refine ⟨h.ages.turn hi (if_pos rfl).symm fun j hj => ?_, fun l hl => ?_, (fun hn => ?_),
        fun hn => ?_⟩
      · rw [hk]
        exact iff_of_false (fun he => hi (Option.some.inj he ▸ hj)) (by simp)
      · cases Option.some.inj hl
        exact List.mem_cons_self
      · cases hn
      · cases hn
    next hp =>
      have hki : s.hit ≠ some i := by simp [hk]
      have hages := h.ages.turn hi (if_neg hki).symm fun j _ => Iff.rfl
      have hvisited : ∀ l, s.hit = some l → l ∈ i :: visited :=
        fun l hl => List.mem_cons_of_mem i (h.hit l hl)
      split
      next hlt =>
        rw [hentry] at hlt
        refine ⟨hages, hvisited, fun _ j hj => ?_, fun _ => ?_⟩
        · simp only [hentry]
          rcases List.mem_cons.mp hj with rfl | hj
          · exact BitVec.le_refl _
          · exact BitVec.le_trans (h.bound hk j hj) (BitVec.le_of_lt hlt)
        · simp only [hentry]
          exact BitVec.le_refl _
      next hle =>
        rw [hentry] at hle
        refine ⟨hages, hvisited, fun _ j hj => ?_, fun _ => h.oldest hk⟩
        rcases List.mem_cons.mp hj with rfl | hj
        · exact BitVec.not_lt.mp hle
        · exact h.bound hk j hj

theorem tlbScan_scanning (tlb : Fin 4 → TlbEntry) (page : Word) :
    Scanning tlb (List.finRange 4).reverse (tlbScan tlb page) := by
  have hrun : ∀ (l visited : List (Fin 4)) (s : TlbScan), (l.reverse ++ visited).Nodup →
      Scanning tlb visited s →
      Scanning tlb (l.reverse ++ visited) (l.foldl (tlbScanStep page) s) := by
    intro l
    induction l with
    | nil => exact fun _ _ _ h => h
    | cons i l ih =>
      intro visited s hnd h
      rw [List.reverse_cons, List.append_assoc, List.singleton_append] at hnd ⊢
      have hi : i ∉ visited := (List.nodup_cons.mp (List.nodup_append.mp hnd).2.1).1
      exact ih _ _ hnd (tlbScanStep_scanning page h hi)
  have hstart : Scanning tlb [] ⟨tlb, 0, 0, none⟩ :=
    ⟨⟨by simp, fun _ _ => rfl⟩, by simp, by simp, fun _ => BitVec.le_def.mpr (Nat.zero_le _)⟩
  have hend := hrun (List.finRange 4) [] ⟨tlb, 0, 0, none⟩ (by decide) hstart
  rwa [List.append_nil] at hend

/-- A lookup makes every entry older but the one that it finds. -/
theorem tlbScan_tlb (tlb : Fin 4 → TlbEntry) (page : Word) :
    (tlbScan tlb page).tlb = aged tlb (tlbScan tlb page).hit := by
  funext j
  exact (tlbScan_scanning tlb page).ages.turned j (by simp)

/-- On a miss no entry is older than the one that is given up. -/
theorem tlbScan_oldest {page : Word} (h : (tlbScan tlb page).hit = none) (j : Fin 4) :
    (tlb j).age + 1 ≤ (tlb (tlbScan tlb page).oldestIndex).age + 1 := by
  have hs := tlbScan_scanning tlb page
  exact BitVec.le_trans (hs.bound h j (by simp)) (hs.oldest h)

end Scan

/-- The machine after the scan of a lookup. -/
def scanned (cpu : Cpu) (address : Word) : Cpu :=
  cpu.setMmu { cpu.mmu with tlbCache := (tlbScan cpu.mmu.tlbCache (pageOf address)).tlb }

/-- The entry that a miss overwrites. -/
def victim (cpu : Cpu) (address : Word) : Fin 4 :=
  (tlbScan cpu.mmu.tlbCache (pageOf address)).oldestIndex

theorem tlbLookup_cases {cpu after : Cpu} {address : Word} {accessType : AccessType}
    {found : Option (Fin 4)} (huse : cpu.host.useTlb = true)
    (h : getTlbEntry cpu address accessType = .ok (found, after)) :
    (∃ i, (tlbScan cpu.mmu.tlbCache (pageOf address)).hit = some i ∧ found = some i ∧
      after.mmu.tlbCache = aged cpu.mmu.tlbCache (some i)) ∨
    ((tlbScan cpu.mmu.tlbCache (pageOf address)).hit = none ∧
      ((∃ walked c, fetchPte (scanned cpu address) address accessType
          ((scanned cpu address).mmu.tlbCache (victim cpu address)) = .ok (some walked, c) ∧
        found = some (victim cpu address) ∧
        after.mmu.tlbCache = Function.update (aged cpu.mmu.tlbCache none) (victim cpu address)
          { walked with virtBase := pageOf address, age := 0 }) ∨
      (found = none ∧ after.mmu.tlbCache = fun _ => emptyEntry))) := by
  have hscan := tlbScan_tlb cpu.mmu.tlbCache (pageOf address)
  cases found with
  | none =>
    have hfault := (getTlbEntry_frame h).fault rfl
    cases hk : (tlbScan cpu.mmu.tlbCache (pageOf address)).hit with
    | none => exact .inr ⟨rfl, .inr ⟨rfl, hfault.tlb⟩⟩
    | some k =>
      rw [getTlbEntry_hit accessType huse hk] at h
      cases h
  | some i =>
    have hsearched : searched cpu address = scanned cpu address := if_pos huse
    rcases getTlbEntry_some h with ⟨_, hi, rfl⟩ | ⟨hmiss, hslot, walked, c, hf, rfl⟩
    · rw [hi] at hscan
      rw [hsearched]
      exact .inl ⟨i, hi, rfl, hscan⟩
    · obtain rfl : i = victim cpu address := hslot.trans (if_pos huse)
      rw [hmiss huse] at hscan
      have hmmu := ((fetchPte_frame hf).quiet rfl).2.2
      rw [hsearched] at hf hmmu
      refine .inr ⟨hmiss huse, .inl ⟨walked, c, hf, rfl, ?_⟩⟩
      simp only [Cpu.setMmu_mmu, setEntry, hmmu, tagged, if_pos huse]
      rw [← hscan]
      rfl

end Mmu

end Rv64gcEmu
