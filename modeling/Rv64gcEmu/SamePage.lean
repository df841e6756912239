import Rv64gcEmu.TlbReuse

namespace Rv64gcEmu

namespace Mmu

/-- The base addresses in the cache are those of pages. -/
def Paged (mmu : Mmu) : Prop := ∀ i k, k < 12 → (mmu.tlbCache i).physBase.getLsbD k = false

theorem foldl_shifted_low (f : Nat → Word) (l : List Nat) {b : Word} {k : Nat} (hk : k < 12)
    (hb : b.getLsbD k = false) :
    (l.foldl (fun b j => b ||| (f j <<< (12 + j * 9))) b).getLsbD k = false := by
  induction l generalizing b with
  | nil => exact hb
  | cons j l ih =>
    refine ih ?_
    have hlt : k < 12 + j * 9 := by omega
    rw [BitVec.getLsbD_or, BitVec.getLsbD_shiftLeft, hb]
    simp [hlt]

theorem leafEntry_paged (mmu : Mmu) (address : Word) (i : Nat) (entry : TlbEntry) {k : Nat}
    (hk : k < 12) : (leafEntry mmu address i entry).physBase.getLsbD k = false := by
  unfold leafEntry
  simp only
  split
  next =>
    rw [BitVec.getLsbD_shiftLeft]
    simp [hk]
  next => exact foldl_shifted_low _ _ hk (foldl_shifted_low _ _ hk (BitVec.getLsbD_zero))

theorem fetchPte_paged {cpu c : Cpu} {address : Word} {accessType : AccessType} {entry e : TlbEntry}
    (h : fetchPte cpu address accessType entry = .ok (some e, c)) {k : Nat} (hk : k < 12) :
    e.physBase.getLsbD k = false := by
  obtain ⟨l, leaf, _, rfl⟩ := fetchPte_some h
  exact leafEntry_paged _ _ _ _ hk

theorem Paged.setEntry {mmu : Mmu} (hp : Paged mmu) (i : Fin 4) {e : TlbEntry}
    (he : ∀ k, k < 12 → e.physBase.getLsbD k = false) : Paged (mmu.setEntry i e) := by
  intro j k hk
  change (Function.update mmu.tlbCache i e j).physBase.getLsbD k = false
  by_cases hj : j = i
  · subst hj
    rw [Function.update_self]
    exact he k hk
  · rw [Function.update_of_ne hj]
    exact hp j k hk

theorem paged_of_empty {mmu : Mmu} (h : mmu.tlbCache = fun _ => emptyEntry) : Paged mmu := by
  intro i k _
  rw [h]
  exact BitVec.getLsbD_zero

theorem getTlbEntry_paged {cpu c : Cpu} {address : Word} {accessType : AccessType}
    {found : Option (Fin 4)} (hp : Paged cpu.mmu)
    (h : getTlbEntry cpu address accessType = .ok (found, c)) : Paged c.mmu := by
  cases found with
  | none => exact paged_of_empty ((getTlbEntry_frame h).fault rfl).tlb
  | some i =>
    have hscan : Paged (searched cpu address).mmu := by
      intro j k hk
      obtain ⟨age, he⟩ := searched_same cpu address j
      rw [he]
      exact hp j k hk
    rcases getTlbEntry_some h with ⟨_, _, rfl⟩ | ⟨_, _, walked, c', hf, rfl⟩
    · exact hscan
    · have hmmu := ((fetchPte_frame hf).quiet rfl).2.2
      obtain ⟨virtBase, age, htag⟩ := tagged_same cpu address walked
      rw [htag, Cpu.setMmu_mmu]
      refine Paged.setEntry ?_ _ fun k hk => fetchPte_paged hf hk
      rw [hmmu]
      exact hscan

/-- No translation puts another kind of base address in the cache. -/
theorem paged_kept : Kept Paged where
  translate hp h := by
    rcases translate_cases h with ⟨_, rfl⟩ | ⟨c, hg, rfl⟩ | ⟨_, i, c, hg, hcheck⟩
    · exact hp
    · exact getTlbEntry_paged hp hg
    · have hc := getTlbEntry_paged hp hg
      rcases checkEntry_cases hcheck with ⟨_, rfl⟩ | ⟨_, ⟨_, rfl⟩ | ⟨_, hst⟩⟩
      · exact paged_of_empty rfl
      · exact hc
      · rw [(store_word_cases hst).1]
        refine hc.setEntry i fun k hk => ?_
        rw [markEntry_physBase]
        exact hc i k hk

/-- The lookup for another address of the page finds the same entry. -/
theorem getTlbEntry_samePage {cpu c : Cpu} {a b : Word} {accessType : AccessType} {i : Fin 4}
    (hpage : pageOf a = pageOf b) (h : getTlbEntry cpu a accessType = .ok (some i, c)) :
    getTlbEntry cpu b accessType = .ok (some i, c) := by
  have hwalk : ∀ (cpu : Cpu) (entry e : TlbEntry) (c : Cpu),
      fetchPte cpu a accessType entry = .ok (some e, c) →
        fetchPte cpu b accessType entry = .ok (some e, c) := by
    intro cpu entry e c hf
    rw [fetchPte_sameVpn accessType entry (getVpn_samePage cpu.mmu hpage), hf]
    rfl
  unfold getTlbEntry at h ⊢
  rw [← hpage]
  split at h
  next huse =>
    rw [if_pos huse]
    simp only at h ⊢
    split at h
    next hk => simpa only [hk] using h
    next hk =>
      obtain ⟨⟨entry, c'⟩, hf, h⟩ := Except.bind_eq_ok_iff.mp h
      cases entry with
      | none =>
        obtain ⟨hn, _⟩ := Prod.mk.inj (Except.ok.inj h)
        cases hn
      | some e =>
        simp only [hwalk _ _ _ _ hf, Except.ok_bind]
        exact h
  next huse =>
    rw [if_neg huse]
    obtain ⟨⟨entry, c'⟩, hf, h⟩ := Except.bind_eq_ok_iff.mp h
    cases entry with
    | none =>
      obtain ⟨hn, _⟩ := Prod.mk.inj (Except.ok.inj h)
      cases hn
    | some e =>
      simp only [hwalk _ _ _ _ hf, Except.ok_bind]
      exact h

theorem pageOf_add_offset (a : Word) : pageOf a + (a &&& 0xfff) = a := by
  have hdisjoint : pageOf a &&& (a &&& 0xfff) = 0 := by
    unfold pageOf
    apply BitVec.eq_of_getLsbD_eq
    intro i hi
    simp only [BitVec.getLsbD_and, BitVec.getLsbD_not]
    cases a.getLsbD i <;> cases (0xfff : Word).getLsbD i <;> simp
  rw [BitVec.add_eq_or_of_and_eq_zero _ _ hdisjoint]
  unfold pageOf
  apply BitVec.eq_of_getLsbD_eq
  intro i hi
  simp only [BitVec.getLsbD_or, BitVec.getLsbD_and, BitVec.getLsbD_not, hi]
  cases a.getLsbD i <;> cases (0xfff : Word).getLsbD i <;> simp

/-- In a page the physical addresses follow one another as the virtual ones do. -/
theorem physical_samePage {base a b : Word} (hbase : ∀ k, k < 12 → base.getLsbD k = false)
    (hpage : pageOf a = pageOf b) :
    base ||| (b &&& 0xfff) = (base ||| (a &&& 0xfff)) + (b - a) := by
  have hadd : ∀ x : Word, base ||| (x &&& 0xfff) = base + (x &&& 0xfff) := by
    intro x
    refine (BitVec.add_eq_or_of_and_eq_zero _ _ ?_).symm
    have h12 : (0xfff : Word) = BitVec.ofNat 64 (2 ^ 12 - 1) := rfl
    apply BitVec.eq_of_getLsbD_eq
    intro i hi
    rw [BitVec.getLsbD_and, BitVec.getLsbD_and, h12, BitField.getLsbD_lowMask]
    by_cases hlt : i < 12
    · rw [hbase i hlt, Bool.false_and, BitVec.getLsbD_zero]
    · simp [hlt]
  have hb := pageOf_add_offset b
  have ha := pageOf_add_offset a
  rw [hpage] at ha
  have hsub : b - a = (b &&& 0xfff) - (a &&& 0xfff) := by
    calc b - a = (pageOf b + (b &&& 0xfff)) - (pageOf b + (a &&& 0xfff)) := by rw [hb, ha]
      _ = (b &&& 0xfff) - (a &&& 0xfff) := by
        generalize pageOf b = p
        generalize b &&& 0xfff = y
        generalize a &&& 0xfff = x
        bv_omega
  rw [hadd, hadd, hsub]
  generalize b &&& 0xfff = y
  generalize a &&& 0xfff = x
  bv_omega

theorem translate_samePage {cpu c : Cpu} {a b p : Word} {accessType : AccessType}
    (hp : Paged cpu.mmu) (hpage : pageOf a = pageOf b)
    (h : translate cpu a accessType = .ok (p, c)) (hq : c.excVal = none) :
    translate cpu b accessType = .ok (p + (b - a), c) := by
  by_cases hact : Active cpu accessType
  · rw [translate_active a hact] at h
    rw [translate_active b hact]
    obtain ⟨⟨found, c'⟩, hg, h⟩ := Except.bind_eq_ok_iff.mp h
    cases found with
    | none =>
      obtain ⟨_, rfl⟩ := Prod.mk.inj (Except.ok.inj h)
      rw [((getTlbEntry_frame hg).fault rfl).excVal] at hq
      cases hq
    | some i =>
      rw [getTlbEntry_samePage hpage hg, Except.ok_bind]
      simp only at h ⊢
      have hbase := fun k => getTlbEntry_paged hp hg i k
      unfold checkEntry at h ⊢
      simp only [markEntry_physBase] at h ⊢
      split at h
      next =>
        obtain ⟨_, rfl⟩ := Prod.mk.inj (Except.ok.inj h)
        exact absurd hq (setCpuError_excVal _ _ _)
      next hperm =>
        rw [if_neg hperm]
        split at h
        next hneed =>
          rw [if_pos hneed]
          obtain ⟨stored, hst, h⟩ := Except.bind_eq_ok_iff.mp h
          obtain ⟨rfl, rfl⟩ := Prod.mk.inj (Except.ok.inj h)
          rw [hst, Except.ok_bind, physical_samePage hbase hpage]
        next hneed =>
          rw [if_neg hneed]
          obtain ⟨rfl, rfl⟩ := Prod.mk.inj (Except.ok.inj h)
          rw [physical_samePage hbase hpage]
  · rw [translate_inactive a hact] at h
    obtain ⟨rfl, rfl⟩ := Prod.mk.inj (Except.ok.inj h)
    rw [translate_inactive b hact, BitVec.add_comm, BitVec.sub_add_cancel]

end Mmu

end Rv64gcEmu
