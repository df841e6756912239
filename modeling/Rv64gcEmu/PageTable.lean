import Rv64gcEmu.MmuFrame
import Rv64gcEmu.Paging

namespace Rv64gcEmu

namespace RamDevice

/-- The eight bytes from an address on. -/
def word (ram : RamDevice) (address : Word) : Word :=
  LittleEndian.read ram.data.get (address - ram.baseAddr).toNat 8

def setWord (ram : RamDevice) (address value : Word) : RamDevice :=
  { ram with
    data := { ram.data with
      get := LittleEndian.write ram.data.get (address - ram.baseAddr).toNat value 8 }
    size_eq := ram.size_eq }

theorem load_word {ram : RamDevice} {address : Word} (h : ram.Contains address 8) :
    ram.load address .w64 = .ok (ram.word address) :=
  load_eq_ok_iff.mpr ⟨h.offset_le, rfl⟩

theorem store_word {ram : RamDevice} {address : Word} (value : Word) (h : ram.Contains address 8) :
    ram.store address value .w64 = .ok (ram.setWord address value) :=
  store_eq_ok_iff.mpr ⟨h.offset_le, rfl⟩

theorem word_setWord_self (ram : RamDevice) (address value : Word) :
    (ram.setWord address value).word address = value :=
  LittleEndian.read_write_same _ _ _ _ rfl

theorem setWord_word_self (ram : RamDevice) (address : Word) :
    ram.setWord address (ram.word address) = ram := by
  unfold setWord word
  congr
  rw [LittleEndian.write_read_same _ _ _ (by omega)]

/-- The offsets of two different aligned addresses are eight bytes apart. -/
theorem word_setWord_of_ne (ram : RamDevice) {address a : Word} (value : Word)
    (ha : address.toNat % 8 = 0) (ha' : a.toNat % 8 = 0) (hne : a ≠ address) :
    (ram.setWord address value).word a = ram.word a := by
  apply LittleEndian.read_write_disjoint
  have hn : a.toNat ≠ address.toNat := fun h => hne (BitVec.eq_of_toNat_eq h)
  change (a - ram.baseAddr).toNat + 8 ≤ (address - ram.baseAddr).toNat ∨
    (address - ram.baseAddr).toNat + 8 ≤ (a - ram.baseAddr).toNat
  rw [BitVec.toNat_sub, BitVec.toNat_sub]
  have hb := ram.baseAddr.isLt
  have h1 := a.isLt
  have h2 := address.isLt
  omega

end RamDevice

namespace Bus

/-- The bus with another RAM. -/
def setRam (bus : Bus) (ram : RamDevice) : Bus := { bus with ram := ram }

theorem findBusDevice_of_contains {bus : Bus} {address : Word} {n : Nat} (hn : 0 < n)
    (h : bus.ram.Contains address n) : bus.findBusDevice address = some .ram := by
  refine findBusDevice_eq_ram_iff.mpr ⟨h.1, ?_⟩
  have he := h.2
  rw [BitVec.lt_def]
  omega

theorem load_ram {cpu : Cpu} {address : Word} {length : Width}
    (h : cpu.bus.ram.Contains address length.bytes) : load cpu address length =
      .ok (LittleEndian.read cpu.bus.ram.data.get (address - cpu.bus.ram.baseAddr).toNat length.bytes,
        cpu) := by
  unfold load
  rw [findBusDevice_of_contains length.bytes_pos h]
  simp only [deviceLoad, RamDevice.load_eq_ok_iff.mpr ⟨h.offset_le, rfl⟩]
  rfl

theorem load_word {cpu : Cpu} {address : Word} (h : cpu.bus.ram.Contains address 8) :
    load cpu address .w64 = .ok (cpu.bus.ram.word address, cpu) := load_ram h

theorem store_word {cpu : Cpu} {address : Word} (value : Word) (h : cpu.bus.ram.Contains address 8) :
    store cpu address value .w64 =
      .ok (cpu.setBus (cpu.bus.setRam (cpu.bus.ram.setWord address value))) := by
  unfold store
  rw [findBusDevice_of_contains (by omega) h]
  simp only [deviceStore, RamDevice.store_word value h]
  rfl

end Bus

namespace Cpu

/-- The page tables, as the walk sees them. -/
def memory (cpu : Cpu) : Paging.Memory := cpu.bus.ram.word

end Cpu

namespace Mmu

open Paging (Leaf)

theorem getVpn_eq {mmu : Mmu} {i : Nat} (address : Word) (h : i < mmu.getLevels) :
    mmu.getVpn address i = (Paging.vpn address i).setWidth 64 := by
  unfold getVpn
  rw [if_pos h]
  exact BitField.field_eq_of_setWidth address (12 + i * 9) 9

theorem getLevels_cases (mmu : Mmu) :
    mmu.getLevels = 0 ∨ (mmu.mode = sv39 ∧ mmu.getLevels = 3) ∨
      (mmu.mode = sv48 ∧ mmu.getLevels = 4) ∨ (mmu.mode = sv57 ∧ mmu.getLevels = 5) := by
  unfold getLevels
  split
  next h => exact .inr (.inl ⟨h, rfl⟩)
  next =>
    split
    next h => exact .inr (.inr (.inl ⟨h, rfl⟩))
    next =>
      split
      next h => exact .inr (.inr (.inr ⟨h, rfl⟩))
      next => exact .inl rfl

theorem getPpn_low {mmu : Mmu} {i : Nat} (pte : Word) (h : i < mmu.getLevels - 1) :
    mmu.getPpn pte i = BitField.field pte (10 + i * 9) 9 := by
  unfold getPpn
  rw [if_pos h]
  rfl

/-- The last field takes what is left of the page number. -/
theorem getPpn_top {mmu : Mmu} {i : Nat} (pte : Word) (h : i + 1 = mmu.getLevels) :
    mmu.getPpn pte i = BitField.field pte (10 + i * 9) (44 - i * 9) := by
  unfold getPpn
  rw [if_neg (by omega)]
  rcases mmu.getLevels_cases with h0 | ⟨hm, hl⟩ | ⟨hm, hl⟩ | ⟨hm, hl⟩
  · omega
  · obtain rfl : i = 2 := by omega
    rw [hm]
    rfl
  · obtain rfl : i = 3 := by omega
    rw [hm]
    rfl
  · obtain rfl : i = 4 := by omega
    rw [hm]
    rfl

theorem misaligned_iff {mmu : Mmu} {i : Nat} (pte : Word) (h : i < mmu.getLevels) (a : Word) :
    ((List.range i).any fun j => mmu.getPpn pte j ≠ 0) = !Leaf.aligned ⟨i, a, pte⟩ := by
  have hz := BitField.fields_eq_zero_iff pte 10 9 i
  have hl : ∀ j, j < i → mmu.getPpn pte j = BitField.field pte (10 + j * 9) 9 :=
    fun j hj => getPpn_low pte (by omega)
  rw [Bool.eq_iff_iff]
  simp only [List.any_eq_true, List.mem_range, decide_eq_true_eq, Leaf.aligned, Bool.not_eq_true',
    decide_eq_false_iff_not, ← hz]
  constructor
  · rintro ⟨j, hj, hne⟩ hall
    exact hne ((hl j hj).trans (hall j hj))
  · intro hne
    by_contra hnone
    refine hne fun j hj => ?_
    rw [← hl j hj]
    by_contra hj'
    exact hnone ⟨j, hj, hj'⟩

theorem superpageBase_eq {mmu : Mmu} {i : Nat} (address pte : Word) (h : i < mmu.getLevels) :
    superpageBase mmu.getLevels i (mmu.getVpn address) (mmu.getPpn pte) =
      (BitField.field address 12 (i * 9) <<< 12) |||
        (BitField.field pte (10 + i * 9) (44 - i * 9) <<< (12 + i * 9)) := by
  have hv : (List.range i).foldl
      (fun b j => b ||| (mmu.getVpn address j <<< (12 + j * 9))) (0 : Word) =
      BitField.field address 12 (i * 9) <<< 12 := by
    have hf := BitField.foldl_fields address 0#64 12 12 9 0 i
    rw [Nat.zero_mul, Nat.add_zero, BitVec.zero_or, ← List.range_eq_range'] at hf
    rw [← hf]
    refine List.foldl_ext _ _ _ fun b j hj => ?_
    rw [getVpn, if_pos (Nat.lt_trans (List.mem_range.mp hj) h)]
    rfl
  obtain ⟨n, hn⟩ : ∃ n, mmu.getLevels = i + n + 1 := ⟨mmu.getLevels - i - 1, by omega⟩
  have hlow : ∀ b : Word, (List.range' i n).foldl
      (fun b j => b ||| (mmu.getPpn pte j <<< (12 + j * 9))) b =
      b ||| (BitField.field pte (10 + i * 9) (n * 9) <<< (12 + i * 9)) := by
    intro b
    rw [← BitField.foldl_fields pte b 10 12 9 i n]
    refine List.foldl_ext _ _ _ fun c j hj => ?_
    have hj' := (List.mem_range'_1.mp hj).2
    rw [getPpn_low pte (by omega)]
  have hlen : mmu.getLevels - i = n + 1 := by omega
  have h44 : 44 - i * 9 = n * 9 + (44 - (i + n) * 9) := by
    rcases mmu.getLevels_cases with h0 | ⟨_, hl⟩ | ⟨_, hl⟩ | ⟨_, hl⟩ <;> omega
  have hlo : 10 + (i + n) * 9 = 10 + i * 9 + n * 9 := by omega
  have hdst : 12 + (i + n) * 9 = n * 9 + (12 + i * 9) := by omega
  unfold superpageBase
  simp only [hv, hlen, List.range'_concat, List.foldl_append, hlow, List.foldl_cons, List.foldl_nil,
    Nat.one_mul]
  rw [getPpn_top pte (by omega), h44, ← BitField.field_or_field, BitVec.shiftLeft_or_distrib,
    ← BitVec.or_assoc, hlo, hdst, BitVec.shiftLeft_add _ (n * 9)]

/-- The base of the entry, joined with the page offset. -/
theorem physBase_or_offset {i : Nat} (address pte a : Word) (hi : i < 5) :
    ((BitField.field address 12 (i * 9) <<< 12) |||
      (BitField.field pte (10 + i * 9) (44 - i * 9) <<< (12 + i * 9))) ||| (address &&& 0xfff) =
      Leaf.physical ⟨i, a, pte⟩ address := by
  have hoff : address &&& 0xfff = BitField.field address 0 12 := by
    rw [BitField.field, BitVec.ushiftRight_zero]
    rfl
  apply BitVec.eq_of_getLsbD_eq
  intro k hk
  simp only [hoff, Leaf.physical, Paging.offsetMask, Paging.ppn, BitVec.getLsbD_or,
    BitVec.getLsbD_and, BitVec.getLsbD_not, BitVec.getLsbD_shiftLeft, BitField.getLsbD_field,
    BitField.getLsbD_lowMask, BitVec.getLsbD_setWidth, BitVec.getLsbD_extractLsb', hk, decide_true,
    Bool.true_and]
  by_cases h12 : k < 12
  · have hlt : k < 12 + i * 9 := by omega
    simp [h12, hlt]
  · by_cases hlt : k < 12 + i * 9
    · have h1 : k - 12 < i * 9 := by omega
      have h2 : 12 + (k - 12) = k := by omega
      simp [h12, hlt, h1, h2]
    · have h1 : ¬k - 12 < i * 9 := by omega
      have h2 : 10 + i * 9 + (k - (12 + i * 9)) = 10 + (k - 12) := by omega
      have h3 : k - (12 + i * 9) < 44 - i * 9 ↔ k - 12 < 44 := by omega
      have h4 : k - 12 < 64 := by omega
      simp [h12, hlt, h1, h2, h3, h4]

theorem leafEntry_physBase {mmu : Mmu} {i : Nat} {entry : TlbEntry} (address a : Word)
    (h : i < mmu.getLevels) : (leafEntry mmu address i entry).physBase ||| (address &&& 0xfff) =
      Leaf.physical ⟨i, a, entry.pte⟩ address := by
  have hi : i < 5 := by
    rcases mmu.getLevels_cases with h0 | ⟨_, hl⟩ | ⟨_, hl⟩ | ⟨_, hl⟩ <;> omega
  rw [← physBase_or_offset address entry.pte a hi]
  unfold leafEntry
  simp only
  split
  next hz =>
    subst hz
    have hf : BitField.field address 12 (0 * 9) = 0#64 := by simp [BitField.field]
    rw [hf, BitVec.zero_shiftLeft, BitVec.zero_or]
    rfl
  next => rw [superpageBase_eq address entry.pte h]

/-- `fetch_pte` searches for the leaf as specified, when the tables lie in RAM. -/
theorem fetchPteLoop_eq {cpu : Cpu} {address : Word} {accessType : AccessType} {a : Word} {i : Nat}
    (entry : TlbEntry) (hi : i ≤ cpu.mmu.getLevels)
    (hram : ∀ x ∈ Paging.walkReads cpu.memory address a i, cpu.bus.ram.Contains x 8) :
    fetchPteLoop cpu address accessType (cpu.mmu.getVpn address) a entry i =
      .ok (match Paging.walk cpu.memory address a i with
        | some leaf => (some (leaf.level, fillEntry entry leaf.addr leaf.pte), cpu)
        | none => (none, setCpuError cpu address accessType)) := by
  induction i generalizing a entry with
  | zero => rfl
  | succ i ih =>
    have haddr : a + cpu.mmu.getVpn address i * 8 = Paging.entryAddr a address i := by
      rw [getVpn_eq address hi]
      rfl
    have hmem : Paging.entryAddr a address i ∈ Paging.walkReads cpu.memory address a (i + 1) := by
      simp only [Paging.walkReads]
      split <;> simp
    simp only [fetchPteLoop, haddr, Bus.load_word (hram _ hmem), Except.ok_bind, Paging.walk]
    have hbad : (!(cpu.bus.ram.word (Paging.entryAddr a address i)).getLsbD 0 ||
        (!(fillEntry entry (Paging.entryAddr a address i)
          (cpu.bus.ram.word (Paging.entryAddr a address i))).read &&
        (fillEntry entry (Paging.entryAddr a address i)
          (cpu.bus.ram.word (Paging.entryAddr a address i))).write)) =
        Paging.invalid (cpu.memory (Paging.entryAddr a address i)) := rfl
    have hleaf : ((fillEntry entry (Paging.entryAddr a address i)
          (cpu.bus.ram.word (Paging.entryAddr a address i))).read ||
        (fillEntry entry (Paging.entryAddr a address i)
          (cpu.bus.ram.word (Paging.entryAddr a address i))).execute) =
        Paging.isLeaf (cpu.memory (Paging.entryAddr a address i)) := rfl
    rw [hbad, hleaf]
    split
    next => rfl
    next hv =>
      split
      next => rfl
      next hl =>
        have hnext : ((cpu.bus.ram.word (Paging.entryAddr a address i) >>> 10) &&& 0xfffffffffff) *
            pageSize = Paging.nextTable (cpu.memory (Paging.entryAddr a address i)) := by
          rw [Paging.nextTable, Paging.ppn, ← BitField.field_eq_of_setWidth]
          rfl
        rw [hnext, ih _ (by omega)]
        · split <;> rfl
        · intro x hx
          refine hram x ?_
          simp only [Paging.walkReads]
          rw [if_neg (by simp [hv, hl])]
          exact List.mem_cons_of_mem _ hx

/-- The leaf that a walk from the root finds. -/
def findLeaf (cpu : Cpu) (address : Word) : Option Leaf :=
  (Paging.walk cpu.memory address (cpu.mmu.mppn.setWidth 64) cpu.mmu.getLevels).filter Leaf.aligned

/-- All the tables that a walk for the address reads lie in RAM. -/
def TablesInRam (cpu : Cpu) (address : Word) : Prop :=
  ∀ x ∈ Paging.walkReads cpu.memory address (cpu.mmu.mppn.setWidth 64) cpu.mmu.getLevels,
    cpu.bus.ram.Contains x 8

theorem fetchPte_eq {cpu : Cpu} {address : Word} {accessType : AccessType} (entry : TlbEntry)
    (hram : TablesInRam cpu address) :
    fetchPte cpu address accessType entry =
      .ok (match findLeaf cpu address with
        | some leaf => (some (leafEntry cpu.mmu address leaf.level
            (fillEntry entry leaf.addr leaf.pte)), cpu)
        | none => (none, setCpuError cpu address accessType)) := by
  unfold fetchPte findLeaf
  rw [fetchPteLoop_eq entry (Nat.le_refl _) hram, Except.ok_bind]
  cases hw : Paging.walk cpu.memory address (cpu.mmu.mppn.setWidth 64) cpu.mmu.getLevels with
  | none => rfl
  | some leaf =>
    simp only [misaligned_iff (fillEntry entry leaf.addr leaf.pte).pte (Paging.walk_level hw) leaf.addr]
    change (if (!leaf.aligned) = true then _ else _) = _
    cases hal : leaf.aligned <;> simp [Option.filter, hal]

end Mmu

end Rv64gcEmu
