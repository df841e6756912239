import Rv64gcEmu.AmoSpec

namespace Rv64gcEmu

namespace Mmu

theorem tlbScanStep_virtBase (page : Word) (s : TlbScan) (i j : Fin 4) :
    ((tlbScanStep page s i).tlb j).virtBase = (s.tlb j).virtBase := by
  have hupdate : ∀ age, (Function.update s.tlb i { s.tlb i with age := age } j).virtBase =
      (s.tlb j).virtBase := by
    intro age
    by_cases hj : j = i
    · subst hj
      rw [Function.update_self]
    · rw [Function.update_of_ne hj]
  unfold tlbScanStep
  simp only
  split
  next => exact hupdate _
  next =>
    split
    next => exact hupdate _
    next =>
      split
      next => exact hupdate _
      next => exact hupdate _

theorem tlbScanStep_hit (page : Word) (s : TlbScan) (i : Fin 4) :
    (tlbScanStep page s i).hit =
      (s.hit <|> if page = (s.tlb i).virtBase then some i else none) := by
  unfold tlbScanStep
  simp only
  split
  next k hk => rw [hk]; rfl
  next hk =>
    rw [hk]
    split
    next => rfl
    next =>
      split
      next => rfl
      next => rfl

/-- The first entry for the page. -/
theorem tlbScan_hit (tlb : Fin 4 → TlbEntry) (page : Word) :
    (tlbScan tlb page).hit = (List.finRange 4).find? fun j => page = (tlb j).virtBase := by
  have hrun : ∀ (l : List (Fin 4)) (s : TlbScan), (∀ j, (s.tlb j).virtBase = (tlb j).virtBase) →
      (l.foldl (tlbScanStep page) s).hit =
        (s.hit <|> l.find? fun j => page = (tlb j).virtBase) := by
    intro l
    induction l with
    | nil =>
      intro s _
      cases hs : s.hit <;> simp [hs]
    | cons i l ih =>
      intro s hs
      rw [List.foldl_cons, ih _ fun j => (tlbScanStep_virtBase page s i j).trans (hs j),
        tlbScanStep_hit, hs i, List.find?_cons]
      by_cases hp : page = (tlb i).virtBase
      · cases s.hit <;> simp [hp]
      · cases s.hit <;> simp [hp]
  exact (hrun _ ⟨tlb, 0, 0, none⟩ fun _ => rfl).trans rfl

theorem setCpuError_excVal (cpu : Cpu) (address : Word) (accessType : AccessType) :
    (setCpuError cpu address accessType).excVal ≠ none := by
  rw [(setCpuError_faulted cpu address accessType).excVal]
  exact Option.some_ne_none _

/-- The entry that lets an access through, if the lookup finds one. -/
def granting (c : Cpu) (found : Option (Fin 4)) (accessType : AccessType) (cpuMode : Mode) :
    Option TlbEntry :=
  (found.map c.mmu.tlbCache).filter fun entry =>
    !permissionFault entry accessType cpuMode (c.cregs.readBitMstatus .mxr ≠ 0)
      (c.cregs.readBitMstatus .sum ≠ 0)

/-- What a translation answers after its lookup. -/
structure Answers (cpu : Cpu) (address : Word) (accessType : AccessType) (entry : Option TlbEntry)
    (p : Word) (after : Cpu) : Prop where
  refused : entry = none →
    p = 0 ∧ after.excVal = some (pageFault accessType) ∧ after.excData = address
  granted : ∀ e, entry = some e → p = e.physBase ||| (address &&& 0xfff) ∧
    (after.excVal = cpu.excVal ∨ after.excVal = some .storeAccessFault)

theorem checkEntry_answers {cpu after : Cpu} {i : Fin 4} {address p : Word}
    {accessType : AccessType} {cpuMode : Mode}
    (h : checkEntry cpu i address accessType cpuMode = .ok (p, after)) :
    Answers cpu address accessType (granting cpu (some i) accessType cpuMode) p after := by
  have hphys := markEntry_physBase (cpu.mmu.tlbCache i) accessType
  unfold granting
  rw [Option.map_some, Option.filter_some]
  unfold checkEntry at h
  simp only at h
  split at h
  next hperm =>
    obtain ⟨rfl, rfl⟩ := Prod.mk.inj (Except.ok.inj h)
    rw [if_neg (by rw [hperm]; decide)]
    exact ⟨fun _ => ⟨rfl, rfl, rfl⟩, fun e he => by cases he⟩
  next hperm =>
    rw [if_pos (by rw [Bool.eq_false_iff.mpr hperm]; rfl)]
    refine ⟨(fun hn => by cases hn), fun e he => ?_⟩
    cases Option.some.inj he
    split at h
    next =>
      obtain ⟨c, hs, h⟩ := Except.bind_eq_ok_iff.mp h
      obtain ⟨rfl, rfl⟩ := Prod.mk.inj (Except.ok.inj h)
      rw [hphys]
      exact ⟨rfl, (Bus.store_exc hs).imp id fun hf => hf.1⟩
    next =>
      obtain ⟨rfl, rfl⟩ := Prod.mk.inj (Except.ok.inj h)
      exact ⟨rfl, .inl rfl⟩

end Mmu

end Rv64gcEmu
