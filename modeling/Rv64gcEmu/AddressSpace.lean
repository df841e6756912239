import Rv64gcEmu.HartView
import Rv64gcEmu.PagingTables
import Rv64gcEmu.TlbTransparency

namespace Rv64gcEmu

open Cpu (SameMemory SameSystem)

namespace RamDevice

variable {ram : RamDevice} {x p : Word}

/-- A doubleword that shares no byte with a store. -/
theorem word_put {length : Width} (v : Word) (hc : ram.Contains p length.bytes)
    (h : ∀ k < length.bytes, ¬(p + BitVec.ofNat 64 k - x).toNat < 8) :
    (ram.put p v length).word x = ram.word x := by
  refine LittleEndian.read_congr fun j hj =>
    LittleEndian.write_of_not_mem _ v fun (hin : _ ≤ (x - ram.baseAddr).toNat + j ∧
      (x - ram.baseAddr).toNat + j < _) => ?_
  obtain ⟨k, hk⟩ := Nat.exists_eq_add_of_le hin.1
  have hlt : k < length.bytes := by omega
  have hoff := (hc.offset hlt).trans hk.symm
  refine h k hlt ?_
  have hsub : p + BitVec.ofNat 64 k - x =
      (p + BitVec.ofNat 64 k - ram.baseAddr) - (x - ram.baseAddr) := by bv_omega
  rw [hsub, BitVec.toNat_sub, hoff]
  have hbound := (x - ram.baseAddr).isLt
  omega

end RamDevice

namespace Mmu

open Paging (Leaf Reads SameTables SameButMarks)

/-- The physical address of a byte in one of the pages. -/
def place (cpu : Cpu) (pages : Word → Bool) (a : Word) : Option Word :=
  if pages (pageOf a) then (findLeaf cpu a).map fun leaf => leaf.physical a else none

/-- A translation that is on gives the answer of the tables, unless it meets an entry that was
never filled. -/
theorem translate_answer {cpu : Cpu} {address : Word} {t : AccessType} (hact : Active cpu t)
    (hs : Sound cpu) (hram : TablesInRam cpu address)
    (hit : cpu.host.useTlb = true → ¬HitsEmpty cpu address) : ∃ tlb, translate cpu address t = .ok (answer cpu address t tlb) ∧
      Sound (answer cpu address t tlb).2 := by
  cases huse : cpu.host.useTlb with
  | true =>
    obtain ⟨tlb, ht, hc⟩ := translate_of_coherent huse hact (hs.coherent huse) hram (hit huse)
    exact ⟨tlb, ht, answer_root hs.root tlb, fun _ => hc⟩
  | false =>
    obtain ⟨tlb, ht⟩ := translate_of_miss hact hram fun h => absurd (huse.symm.trans h) (by decide)
    refine ⟨tlb, ht, answer_root hs.root tlb, fun h => ?_⟩
    have hhost : (answer cpu address t tlb).2.host = cpu.host := (translate_coreEq ht).1.host
    rw [hhost, huse] at h
    cases h

/-- The physical address of the page. -/
def frameOf (leaf : Leaf) (page : Word) : Word :=
  (((Paging.ppn leaf.pte).setWidth 64 <<< 12) &&& ~~~Paging.offsetMask leaf.level) |||
    (page &&& Paging.offsetMask leaf.level)

theorem getLsbD_pageOf (a : Word) {i : Nat} (hi : i < 64) :
    (pageOf a).getLsbD i = (decide (12 ≤ i) && a.getLsbD i) := by
  have h12 : (0xfff : Word) = BitVec.ofNat 64 (2 ^ 12 - 1) := rfl
  rw [pageOf, BitVec.getLsbD_and, BitVec.getLsbD_not, h12, BitField.getLsbD_lowMask, Bool.and_comm]
  by_cases hlt : i < 12
  · have hle : ¬12 ≤ i := by omega
    simp [hlt, hle]
  · have hle : 12 ≤ i := by omega
    simp [hi, hlt, hle]

theorem frameOf_low (leaf : Leaf) (a : Word) {k : Nat} (hk : k < 12) :
    (frameOf leaf (pageOf a)).getLsbD k = false := by
  have hpage := getLsbD_pageOf a (by omega : k < 64)
  have hle : ¬12 ≤ k := by omega
  simp only [hle, decide_false, Bool.false_and] at hpage
  simp [frameOf, BitVec.getLsbD_or, BitVec.getLsbD_and, BitVec.getLsbD_shiftLeft, hk, hpage]

theorem physical_eq (leaf : Leaf) (a : Word) :
    leaf.physical a = frameOf leaf (pageOf a) ||| (a &&& 0xfff) := by
  have hmask : a &&& Paging.offsetMask leaf.level =
      (pageOf a &&& Paging.offsetMask leaf.level) ||| (a &&& 0xfff) := by
    have h12 : (0xfff : Word) = BitVec.ofNat 64 (2 ^ 12 - 1) := rfl
    apply BitVec.eq_of_getLsbD_eq
    intro i hi
    rw [BitVec.getLsbD_or, BitVec.getLsbD_and, BitVec.getLsbD_and, BitVec.getLsbD_and,
      getLsbD_pageOf a hi, h12, Paging.offsetMask, BitField.getLsbD_lowMask,
      BitField.getLsbD_lowMask]
    by_cases hlt : i < 12
    · have hle : ¬12 ≤ i := by omega
      have hlevel : i < 12 + leaf.level * 9 := by omega
      simp [hlt, hle, hlevel]
    · have hle : 12 ≤ i := by omega
      simp [hlt, hle]
  unfold Leaf.physical frameOf
  rw [hmask, BitVec.or_assoc]

/-- In a page the physical addresses follow one another. -/
theorem physical_add (leaf : Leaf) {a : Word} {k : Nat}
    (h : pageOf (a + BitVec.ofNat 64 k) = pageOf a) :
    leaf.physical (a + BitVec.ofNat 64 k) = leaf.physical a + BitVec.ofNat 64 k := by
  rw [physical_eq, physical_eq, h, physical_samePage (fun _ => frameOf_low leaf a) h.symm,
    BitVec.add_comm a, BitVec.add_sub_cancel]

/-- Some walk reads the doubleword at the address. -/
def InTables (cpu : Cpu) (x : Word) : Prop :=
  Reads cpu.memory (cpu.mmu.mppn.setWidth 64) cpu.mmu.getLevels x

/-- The cache stays good when no word of the tables changes. -/
theorem Sound.of_tables {a b : Cpu} (hs : Sound a) (hmmu : b.mmu = a.mmu) (hhost : b.host = a.host)
    (h : ∀ x, InTables a x → b.memory x = a.memory x) : Sound b := by
  have hleaf : ∀ va, findLeaf b va = findLeaf a va := by
    intro va
    unfold findLeaf
    rw [hmmu, Paging.walk_eq_of_reads h]
  have hroot : RootAligned b := by
    unfold RootAligned
    rw [hmmu]
    exact hs.root
  refine ⟨hroot, fun huse => ⟨hroot, fun i => ?_⟩⟩
  rw [hmmu]
  rcases (hs.coherent (hhost ▸ huse)).entries i with hempty | hcached
  · exact .inl hempty
  · obtain ⟨leaf, hl, he⟩ := hcached.leaf
    exact .inr ⟨hcached.accessed, hcached.page, leaf, (hleaf _).trans hl, he⟩

/-- The address belongs to a doubleword that some walk reads. -/
def TableByte (cpu : Cpu) (x : Word) : Prop := ∃ y, InTables cpu y ∧ (x - y).toNat < 8

/-- The processor translates as `start` does; the tables may have got marks. -/
structure SameSpace (start cpu : Cpu) : Prop where
  mode : cpu.mode = start.mode
  status : cpu.cregs.regs Address.mstatus = start.cregs.regs Address.mstatus
  root : SameRoot start.mmu cpu.mmu
  range : RamDevice.SameRange start.bus.ram cpu.bus.ram
  sound : Sound cpu
  tables : SameTables start.memory cpu.memory (start.mmu.mppn.setWidth 64) start.mmu.getLevels

namespace SameSpace

variable {start cpu : Cpu}

theorem refl (hs : Sound start) : SameSpace start start :=
  ⟨rfl, rfl, .refl _, ⟨rfl, rfl⟩, hs, .refl _ _ _⟩

theorem levels (h : SameSpace start cpu) : cpu.mmu.getLevels = start.mmu.getLevels := by
  unfold getLevels
  rw [h.root.1]

theorem accessMode (h : SameSpace start cpu) (t : AccessType) :
    Mmu.accessMode cpu t = Mmu.accessMode start t := by
  have hload : cpu.cregs.load Address.mstatus = start.cregs.load Address.mstatus := by
    change cpu.cregs.regs Address.mstatus ||| _ = start.cregs.regs Address.mstatus ||| _
    rw [h.status]
  unfold Mmu.accessMode Csr.readBitMstatus Csr.readMppMode Csr.readBit Csr.readBits
  rw [h.mode, hload]

theorem active (h : SameSpace start cpu) {t : AccessType} (ha : Active start t) : Active cpu t := by
  obtain ⟨hmode, haccess⟩ := ha
  exact ⟨h.root.1.symm ▸ hmode, (h.accessMode t).symm ▸ haccess⟩

theorem refuses (h : SameSpace start cpu) {pte pte' : Word} (hs : SameButMarks pte' pte)
    (t : AccessType) : Mmu.refuses cpu pte' t = Mmu.refuses start pte t := by
  have hload : cpu.cregs.load Address.mstatus = start.cregs.load Address.mstatus := by
    change cpu.cregs.regs Address.mstatus ||| _ = start.cregs.regs Address.mstatus ||| _
    rw [h.status]
  unfold Mmu.refuses Csr.readBitMstatus Csr.readBit Paging.readable Paging.writable
    Paging.executable Paging.user
  rw [h.accessMode t, hload, hs 1 (by omega) (by omega), hs 2 (by omega) (by omega),
    hs 3 (by omega) (by omega), hs 4 (by omega) (by omega)]

theorem marks (h : SameSpace start cpu) {a : Word} {leaf : Leaf}
    (hl : Mmu.findLeaf start a = some leaf) : SameButMarks (cpu.memory leaf.addr) leaf.pte := by
  have hw := (findLeaf_walk hl).1
  have hs := h.tables leaf.addr ⟨a, Paging.walk_mem_reads hw⟩
  rwa [← Paging.walk_pte hw] at hs

theorem findLeaf (h : SameSpace start cpu) (a : Word) : Mmu.findLeaf cpu a =
    (Mmu.findLeaf start a).map fun leaf => { leaf with pte := cpu.memory leaf.addr } := by
  unfold Mmu.findLeaf
  rw [h.root.2, h.levels, h.tables.walk]
  cases hw : Paging.walk start.memory a (start.mmu.mppn.setWidth 64) start.mmu.getLevels with
  | none => rfl
  | some leaf =>
    have hs := h.tables leaf.addr ⟨a, Paging.walk_mem_reads hw⟩
    rw [← Paging.walk_pte hw] at hs
    rw [Option.map_some, Option.filter_some, Option.filter_some,
      hs.aligned_eq leaf.level leaf.addr leaf.addr]
    split <;> rfl

theorem lookup (h : SameSpace start cpu) (a : Word) (t : AccessType) : Mmu.lookup cpu a t =
    (Mmu.lookup start a t).map fun leaf => { leaf with pte := cpu.memory leaf.addr } := by
  unfold Mmu.lookup
  rw [h.findLeaf]
  cases hl : Mmu.findLeaf start a with
  | none => rfl
  | some leaf =>
    rw [Option.map_some, Option.filter_some, Option.filter_some, h.refuses (h.marks hl) t]
    split <;> rfl

/-- The same byte is reached. -/
theorem physical (h : SameSpace start cpu) {a : Word} {leaf : Leaf}
    (hl : Mmu.findLeaf start a = some leaf) (va : Word) :
    ({ leaf with pte := cpu.memory leaf.addr } : Leaf).physical va = leaf.physical va := by
  unfold Leaf.physical
  rw [(h.marks hl).ppn_eq]

theorem tablesInRam (h : SameSpace start cpu) {a : Word} (ha : TablesInRam start a) :
    TablesInRam cpu a := by
  intro x hx
  rw [h.root.2, h.levels, h.tables.walkReads] at hx
  exact h.range.contains.mpr (ha x hx)

theorem inTables (h : SameSpace start cpu) {x : Word} : InTables cpu x ↔ InTables start x := by
  unfold InTables
  rw [h.root.2, h.levels]
  exact h.tables.reads

/-- A mark in the tables changes no other byte. -/
theorem resolved (h : SameSpace start cpu) {a : Word} {leaf : Leaf}
    (hl : Mmu.findLeaf cpu a = some leaf) {tlb : Fin 4 → TlbEntry} {t : AccessType}
    (hs : Sound (resolved cpu tlb leaf t)) : SameSpace start (resolved cpu tlb leaf t) ∧
      ∀ x, ¬TableByte start x →
        (Mmu.resolved cpu tlb leaf t).bus.ram.byteAt x = cpu.bus.ram.byteAt x := by
  have hin : InTables start leaf.addr :=
    h.inTables.mp ⟨a, Paging.walk_mem_reads (findLeaf_walk hl).1⟩
  refine ⟨⟨h.mode, h.status, h.root, h.range, hs, h.tables.trans fun x hx => ?_⟩, fun x hx => ?_⟩
  · rw [← h.levels, ← h.root.2] at hx
    obtain ⟨va, hx⟩ := hx
    exact resolved_sameButMarks t h.sound.root hl tlb x (Paging.walkReads_aligned h.sound.root hx)
  · exact @RamDevice.byteAt_put _ _ _ .w64 _ fun hlt => hx ⟨leaf.addr, hin, hlt⟩

/-- A store outside of the tables. -/
theorem put (h : SameSpace start cpu) {p : Word} {length : Width} (v : Word)
    (hc : cpu.bus.ram.Contains p length.bytes)
    (hp : ∀ k < length.bytes, ¬TableByte start (p + BitVec.ofNat 64 k)) :
    SameSpace start (afterStore cpu p v length) := by
  have hwords : ∀ x, InTables start x → (afterStore cpu p v length).memory x = cpu.memory x :=
    fun x hx => RamDevice.word_put v hc fun k hk hlt => hp k hk ⟨x, hx, hlt⟩
  refine ⟨h.mode, h.status, h.root, h.range,
    h.sound.of_tables rfl rfl fun x hx => hwords x (h.inTables.mp hx),
    h.tables.trans (.of_eq fun x hx => hwords x ?_)⟩
  exact h.tables.reads.mp hx

theorem of_same {a b : Cpu} (hab : SameMemory a b) (h : SameSpace start a) : SameSpace start b := by
  have hmem : b.memory = a.memory := congrArg RamDevice.word hab.ram
  refine ⟨hab.mode.trans h.mode, hab.status.trans h.status, hab.mmu ▸ h.root, hab.ram ▸ h.range,
    h.sound.of_tables hab.mmu hab.host fun x _ => congrFun hmem x, hmem ▸ h.tables⟩

end SameSpace

end Mmu

/-- Pages of a program, mapped by the page tables of `start`. No byte of them is mapped twice, and
none belongs to the tables. -/
structure AddressSpace where
  start : Cpu
  pages : Word → Bool
  active : ∀ t, Mmu.Active start t
  sound : Mmu.Sound start
  tables : ∀ a, pages (Mmu.pageOf a) = true → Mmu.TablesInRam start a
  alone : ∀ a b p, Mmu.place start pages a = some p → Mmu.place start pages b = some p → a = b
  apart : ∀ a p, Mmu.place start pages a = some p → ¬Mmu.TableByte start p

namespace AddressSpace

open Mmu (findLeaf lookup pageOf place)
open Paging (SameTables SameButMarks)

variable (space : AddressSpace)

def place (a : Word) : Option Word := Mmu.place space.start space.pages a

/-- The accesses that stay in a page of the program, and are let through. The first page is left
out: an entry of the cache that was never filled stands for it. -/
def Reach (t : AccessType) (a : Word) (n : Nat) : Prop :=
  space.pages (pageOf a) = true ∧ pageOf a ≠ 0 ∧
    (∀ k < n, pageOf (a + BitVec.ofNat 64 k) = pageOf a) ∧ (lookup space.start a t).isSome

/-- The state of the processor while the program runs: the tables may have got marks, and the bytes
of the RAM are as at the start, but for those of the tables and of the pages. -/
structure InUse (cpu : Cpu) : Prop extends Mmu.SameSpace space.start cpu where
  rest : ∀ x, (∀ a, space.place a ≠ some x) → ¬Mmu.TableByte space.start x →
    cpu.bus.ram.byteAt x = space.start.bus.ram.byteAt x

variable {space} {cpu : Cpu}

namespace InUse

/-- The leaf that lets the access through. -/
theorem lookup (h : space.InUse cpu) {a : Word} {t : AccessType} {n : Nat}
    (hr : space.Reach t a n) : ∃ leaf, Mmu.lookup cpu a t = some leaf ∧
      space.place a = some (leaf.physical a) := by
  obtain ⟨hpage, -, -, hl⟩ := hr
  obtain ⟨leaf, hl⟩ := Option.isSome_iff_exists.mp hl
  have hleaf := (Option.filter_eq_some_iff.mp hl).1
  refine ⟨{ leaf with pte := cpu.memory leaf.addr }, ?_, ?_⟩
  · rw [h.toSameSpace.lookup, hl]
    rfl
  · unfold place Mmu.place
    rw [if_pos hpage, hleaf, h.physical hleaf]
    rfl

/-- The answer of the tables, to an access that may be made. -/
theorem translate (h : space.InUse cpu) {a : Word} {t : AccessType} {n : Nat}
    (hr : space.Reach t a n) : ∃ p tlb leaf, space.place a = some p ∧ p = leaf.physical a ∧
      Mmu.findLeaf cpu a = some leaf ∧
      Mmu.translate cpu a t = .ok (p, Mmu.resolved cpu tlb leaf t) ∧
      Mmu.Sound (Mmu.resolved cpu tlb leaf t) := by
  obtain ⟨leaf, hl, hp⟩ := h.lookup hr
  have hit : cpu.host.useTlb = true → ¬Mmu.HitsEmpty cpu a := fun _ hit => hr.2.1 hit.page
  obtain ⟨tlb, ht, hs⟩ := Mmu.translate_answer (h.active (space.active t)) h.sound
    (h.tablesInRam (space.tables a hr.1)) hit
  have hans : Mmu.answer cpu a t tlb = (leaf.physical a, Mmu.resolved cpu tlb leaf t) := by
    unfold Mmu.answer
    rw [hl]
  rw [hans] at ht hs
  exact ⟨_, tlb, leaf, hp, rfl, (Option.filter_eq_some_iff.mp hl).1, ht, hs⟩

/-- The places of the bytes of an access follow one another. -/
theorem places {a : Word} {t : AccessType} {n : Nat} (hr : space.Reach t a n) {p : Word}
    (hp : space.place a = some p) : ByteMemory.Places space.place a p n := by
  intro k hk
  have hpage := hr.2.2.1 k hk
  unfold place Mmu.place at hp ⊢
  rw [if_pos hr.1] at hp
  obtain ⟨leaf, hl, rfl⟩ := Option.map_eq_some_iff.mp hp
  rw [if_pos (hpage.symm ▸ hr.1), Mmu.findLeaf_samePage _ hpage, hl, Option.map_some,
    Mmu.physical_add leaf hpage]

end InUse

/-- The memory that the program sees. -/
def mem (space : AddressSpace) (cpu : Cpu) : ByteMemory 64 := cpu.bus.ram.bytes.through space.place

theorem mem_congr {a b : Cpu}
    (h : ∀ p, (∃ x, space.place x = some p) → b.bus.ram.bytes p = a.bus.ram.bytes p) :
    space.mem b = space.mem a :=
  funext fun x => Option.bind_congr fun p hp => h p ⟨x, hp⟩

theorem bytes_congr {ram ram' : RamDevice} (hr : RamDevice.SameRange ram ram') {p : Word}
    (h : ram'.byteAt p = ram.byteAt p) : ram'.bytes p = ram.bytes p := by
  unfold RamDevice.bytes
  rw [h]
  exact if_congr hr.contains rfl rfl

namespace InUse

/-- A mark in the tables is nothing to the program. -/
theorem resolved (h : space.InUse cpu) {a : Word} {leaf : Paging.Leaf}
    (hl : Mmu.findLeaf cpu a = some leaf) {tlb : Fin 4 → TlbEntry} {t : AccessType}
    (hs : Mmu.Sound (Mmu.resolved cpu tlb leaf t)) :
    space.InUse (Mmu.resolved cpu tlb leaf t) ∧
      space.mem (Mmu.resolved cpu tlb leaf t) = space.mem cpu := by
  obtain ⟨hspace, hbyte⟩ := h.toSameSpace.resolved hl hs
  refine ⟨⟨hspace, fun x hx ht => (hbyte x ht).trans (h.rest x hx ht)⟩, mem_congr ?_⟩
  rintro p ⟨x, hp⟩
  have hrange : RamDevice.SameRange cpu.bus.ram (Mmu.resolved cpu tlb leaf t).bus.ram := ⟨rfl, rfl⟩
  exact bytes_congr hrange (hbyte p (space.apart x p hp))

theorem found (h : space.InUse cpu) {a : Word} {t : AccessType} {n : Nat}
    (hr : space.Reach t a n) (hn : 0 < n) (hc : (space.mem cpu).Covers a n) :
    ∃ p c, Mmu.translate cpu a t = .ok (p, c) ∧ Cpu.Found space.mem space.InUse cpu a n p c := by
  obtain ⟨p, tlb, leaf, hp, -, hl, ht, hs⟩ := h.translate hr
  obtain ⟨huse, hmem⟩ := h.resolved hl hs
  have hplaces := places hr hp
  refine ⟨p, _, ht, ⟨rfl, rfl, rfl, rfl, ⟨rfl, rfl⟩, rfl, rfl, rfl⟩, rfl, rfl, huse, hmem, ?_, ?_⟩
  · rw [← hmem] at hc
    exact (RamDevice.covers_iff hn).mp ((ByteMemory.covers_through hplaces).mp hc)
  · rw [← hmem]
    exact (ByteMemory.load_through hplaces).symm

/-- A store to a page of the program leaves the tables, and the rest of the RAM. -/
theorem stored (h : space.InUse cpu) {a : Word} {length : Width} {p : Word} {c : Cpu} (v : Word)
    (hr : space.Reach .store a length.bytes) (hc : (space.mem cpu).Covers a length.bytes)
    (ht : Mmu.translate cpu a .store = .ok (p, c)) :
    space.InUse (Mmu.afterStore c p v length) ∧
      (space.mem cpu).store a length.bytes v = some (space.mem (Mmu.afterStore c p v length)) := by
  obtain ⟨q, tlb, leaf, hp, -, hl, ht', hs⟩ := h.translate hr
  obtain ⟨rfl, rfl⟩ := Prod.mk.inj (Except.ok.inj (ht.symm.trans ht'))
  obtain ⟨huse, hmem⟩ := h.resolved hl hs
  generalize Mmu.resolved cpu tlb leaf .store = c at *
  have hplaces := places hr hp
  rw [← hmem] at hc ⊢
  have hn := length.bytes_pos
  have hram := (RamDevice.covers_iff hn).mp ((ByteMemory.covers_through hplaces).mp hc)
  obtain ⟨mv, hstore⟩ := ByteMemory.store_of_covers v hc
  have hle : length.bytes ≤ 2 ^ 64 := by cases length <;> decide
  obtain ⟨m, hput, rfl⟩ := ByteMemory.store_through hle hle space.alone hplaces hstore
  obtain ⟨-, hm⟩ := RamDevice.bytes_put hput fun k _ => rfl
  subst hm
  refine ⟨⟨huse.put v hram fun k hk => space.apart _ _ (hplaces k hk), fun x hx hx' => ?_⟩, hstore⟩
  refine (RamDevice.byteAt_put v fun hlt => ?_).trans (huse.rest x hx hx')
  have hplaced := hplaces _ hlt
  rw [ByteMemory.add_ofNat_sub] at hplaced
  exact hx _ hplaced

end InUse

end AddressSpace

end Rv64gcEmu
