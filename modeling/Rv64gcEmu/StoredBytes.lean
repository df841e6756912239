import Rv64gcEmu.FloatMemory
import Rv64gcEmu.LastWritten
import Rv64gcEmu.MemoryInsn
import Rv64gcEmu.SamePage

open Transition

namespace LittleEndian

theorem read_shift {w : Nat} (mem : Nat → BitVec 8) (off n : Nat) :
    (read mem off n : BitVec w) = read (fun k => mem (off + k)) 0 n := by
  apply BitVec.eq_of_getLsbD_eq
  intro i hi
  rw [getLsbD_read, getLsbD_read, Nat.zero_add]

end LittleEndian

namespace Rv64gcEmu

theorem RamDevice.value_eq_read {ram : RamDevice} {address : Word} {length : Width}
    (h : ram.Contains address length.bytes) : ram.value address length =
      LittleEndian.read (fun k => ram.byteAt (address + BitVec.ofNat 64 k)) 0 length.bytes := by
  rw [value, LittleEndian.read_shift]
  refine LittleEndian.read_congr fun k hk => ?_
  rw [Nat.zero_add, byteAt, h.offset hk]

theorem RamDevice.byteAt_put_eq {ram : RamDevice} {address : Word} {length : Width}
    (h : ram.Contains address length.bytes) (v x : Word) : (ram.put address v length).byteAt x =
      if (x - address).toNat < length.bytes then LittleEndian.byteOf v (x - address).toNat
      else ram.byteAt x := by
  split
  next hlt =>
    have hx : x = address + BitVec.ofNat 64 (x - address).toNat := by
      rw [BitVec.ofNat_toNat, BitVec.setWidth_eq, BitVec.add_comm, BitVec.sub_add_cancel]
    have hoff := h.offset hlt
    rw [← hx] at hoff
    change LittleEndian.write _ _ _ _ (x - ram.baseAddr).toNat = _
    rw [hoff, LittleEndian.write_of_mem _ _ ⟨by omega, by omega⟩, Nat.add_sub_cancel_left]
  next hlt => exact byteAt_put v hlt

namespace MemoryInsn

theorem cast_read (mem : Nat → Byte) (off : Nat) (length : Width) (signed : Bool) :
    cast length signed (LittleEndian.read mem off length.bytes) =
      extend signed (LittleEndian.read mem off length.bytes : BitVec length.bits) := by
  unfold cast extend signExtendCast
  split
  next => rw [LittleEndian.setWidth_read _ _ _ length.bits_le]
  next => exact (LittleEndian.setWidth_read _ _ _ (le_refl _)).symm

end MemoryInsn

/-- An integer load or store, the state in which it is executed, and how its address is
translated there. -/
structure MemoryAccess where
  d : Decoder
  insn : MemoryInsn
  cpu : Cpu
  physical : Word
  translated : Cpu

namespace MemoryAccess

def address (e : MemoryAccess) : Word := e.cpu.regs e.d.rs1 + e.insn.offset e.d

/-- The bytes that a store names, with what it writes there. -/
def written (e : MemoryAccess) (x : Word) : Option Byte :=
  match e.insn with
  | .load .. => none
  | .store length =>
    if (x - e.physical).toNat < length.bytes then
      some (LittleEndian.byteOf (e.cpu.regs e.d.rs2) (x - e.physical).toNat)
    else none

/-- The byte belongs to the page table entry by which the address is translated. -/
def OfTables (e : MemoryAccess) (x : Word) : Prop :=
  Mmu.OfTables e.cpu e.insn.accessType e.translated e.address x

/-- The access stays in a page, is translated without a fault, and lies in the RAM outside of the
page tables `tables`, which are those in use. -/
structure Reaches (tables : Set Word) (e : MemoryAccess) : Prop where
  decodes : MemoryInsn.of e.d = some e.insn
  page : ∀ k < e.insn.length.bytes,
    Mmu.pageOf (e.address + BitVec.ofNat 64 k) = Mmu.pageOf e.address
  translates : Mmu.translate e.cpu e.address e.insn.accessType = .ok (e.physical, e.translated)
  quiet : e.translated.excVal = none
  ram : e.cpu.bus.ram.Contains e.physical e.insn.length.bytes
  outside : ∀ k < e.insn.length.bytes, e.physical + BitVec.ofNat 64 k ∉ tables
  inUse : ∀ x, e.OfTables x → x ∈ tables

/-- What may happen before the next of these instructions: the tables may change, but no other
byte of the RAM. -/
structure Between (tables : Set Word) (before cpu : Cpu) : Prop where
  bytes : ∀ x ∉ tables, cpu.bus.ram.byteAt x = before.bus.ram.byteAt x
  paged : Mmu.Paged before.mmu → Mmu.Paged cpu.mmu

structure Next (tables : Set Word) (before : Cpu) (e : MemoryAccess) (after : Cpu) : Prop where
  between : Between tables before e.cpu
  reaches : e.Reaches tables
  execute : e.cpu.execute e.d = .ok (4, after)

/-- The access did what it is for, when the memory was `memory`. -/
structure Performed (e : MemoryAccess) (memory : Word → Byte) (after : Cpu) : Prop where
  excVal : after.excVal = none
  physical : ∀ k < e.insn.length.bytes,
    Mmu.translate e.cpu (e.address + BitVec.ofNat 64 k) e.insn.accessType =
      .ok (e.physical + BitVec.ofNat 64 k, e.translated)
  loaded : ∀ length signed, e.insn = .load length signed →
    after.regs = Function.update e.cpu.regs e.d.rd (MemoryInsn.extend signed
      (LittleEndian.read (fun k => memory (e.physical + BitVec.ofNat 64 k)) 0 length.bytes :
        BitVec length.bits))
  stored : ∀ length, e.insn = .store length → after.regs = e.cpu.regs
  bytes : ∀ x, ¬e.OfTables x →
    after.bus.ram.byteAt x = (e.written x).getD (e.cpu.bus.ram.byteAt x)

variable {tables : Set Word} {e : MemoryAccess} {after : Cpu}

theorem loaded_value (h : e.Reaches tables) {memory : Word → Byte}
    (hmem : ∀ x, x ∉ tables → e.cpu.bus.ram.byteAt x = memory x) :
    e.translated.bus.ram.value e.physical e.insn.length = LittleEndian.read
      (fun k => memory (e.physical + BitVec.ofNat 64 k)) 0 e.insn.length.bytes := by
  rw [RamDevice.value_eq_read ((Mmu.translate_range h.translates).contains.mpr h.ram)]
  refine LittleEndian.read_congr fun k hk => ?_
  have hout := h.outside k (by omega)
  rw [Nat.zero_add, Mmu.translate_byteAt h.translates fun hentry => hout (h.inUse _ hentry), hmem _ hout]

/-- The state that the instruction leaves, if its access gets through. -/
theorem execute_of_reaches (h : e.Reaches tables) {memory : Word → Byte}
    (hp : Mmu.Paged e.cpu.mmu)
    (hmem : ∀ x, x ∉ tables → e.cpu.bus.ram.byteAt x = memory x) :
    ∃ after, e.cpu.execute e.d = .ok (4, after) ∧ Performed e memory after ∧
      after.mmu = e.translated.mmu := by
  have hcore := (Mmu.translate_coreEq h.translates).1
  have hphysical : ∀ k < e.insn.length.bytes,
      Mmu.translate e.cpu (e.address + BitVec.ofNat 64 k) e.insn.accessType =
        .ok (e.physical + BitVec.ofNat 64 k, e.translated) := by
    intro k hk
    rw [Mmu.translate_samePage hp (h.page k hk).symm h.translates h.quiet, BitVec.add_comm e.address,
      BitVec.add_sub_cancel]
  have hvalue := loaded_value h hmem
  have hbytes := @Mmu.translate_byteAt _ _ _ _ _ h.translates
  have hcontains := (Mmu.translate_range h.translates).contains.mpr h.ram
  obtain ⟨d, insn, cpu, p, t⟩ := e
  cases insn with
  | load length signed =>
    have ht : Mmu.translate cpu (cpu.regs d.rs1 + d.immI) .load = .ok (p, t) := by
      rw [d.immI_eq]
      exact h.translates
    have hexec : cpu.execute d = _ := MemoryInsn.execute_load cpu h.decodes
    have hload : Mmu.load cpu (cpu.regs d.rs1 + d.immI) length = _ :=
      Mmu.load_read_of_translate ht h.quiet h.ram
    rw [Load.loadOp, hload] at hexec
    have hassign : ∀ v, Load.assignIfNoException t d.rd v = t.setReg d.rd v :=
      fun v => if_pos h.quiet
    rw [Except.ok_bind, Except.ok_bind, hassign] at hexec
    refine ⟨_, hexec, ⟨h.quiet, hphysical, fun l s hls => ?_, fun l hls => ?_,
      fun x hx => hbytes hx⟩, rfl⟩
    · cases hls
      rw [MemoryInsn.cast_read, ← hcore.regs]
      exact congrArg (fun v => Function.update t.regs d.rd (MemoryInsn.extend signed v)) hvalue
    · cases hls
  | store length =>
    have hr : Mmu.StoreReaches cpu (cpu.regs d.rs1 + d.immS) length p t := by
      rw [d.immS_eq]
      exact ⟨h.translates, h.quiet, h.ram⟩
    have hexec : cpu.execute d = _ := MemoryInsn.execute_store cpu h.decodes
    rw [hr.store_eq] at hexec
    refine ⟨_, hexec, ⟨h.quiet, hphysical, fun l s hls => ?_, fun l hls => hcore.regs,
      fun x hx => ?_⟩, rfl⟩
    · cases hls
    · refine (RamDevice.byteAt_put_eq hcontains (cpu.regs d.rs2) x).trans ?_
      unfold written
      simp only
      by_cases hlt : (x - p).toNat < length.bytes
      · rw [if_pos hlt, Option.getD_some]
        exact if_pos hlt
      · rw [if_neg hlt, Option.getD_none]
        exact (if_neg hlt).trans (hbytes hx)

theorem Next.performed {before : Cpu} {memory : Word → Byte} (hn : Next tables before e after)
    (hp : Mmu.Paged before.mmu)
    (hmem : ∀ x, x ∉ tables → before.bus.ram.byteAt x = memory x) :
    Performed e memory after ∧ after.mmu = e.translated.mmu := by
  obtain ⟨a, ha, hperf⟩ := execute_of_reaches hn.reaches (hn.between.paged hp)
    fun x hx => (hn.between.bytes x hx).trans (hmem x hx)
  have heq := ha.symm.trans hn.execute
  obtain ⟨_, rfl⟩ := Prod.mk.inj (Except.ok.inj heq)
  exact hperf

theorem Next.paged {before : Cpu} (hn : Next tables before e after) (hp : Mmu.Paged before.mmu) :
    Mmu.Paged after.mmu := by
  rw [(hn.performed hp fun _ _ => rfl).2]
  exact Mmu.paged_kept.translate (hn.between.paged hp) hn.reaches.translates

/-- The bytes outside of the tables change as the instruction says. -/
theorem Next.byteAt {before : Cpu} (hn : Next tables before e after) (hp : Mmu.Paged before.mmu)
    {x : Word} (hx : x ∉ tables) :
    after.bus.ram.byteAt x = (e.written x).getD (before.bus.ram.byteAt x) := by
  have hperf := (hn.performed hp fun _ _ => rfl).1
  rw [hperf.bytes x fun hentry => hx (hn.reaches.inUse x hentry), hn.between.bytes x hx]

/-- The fetch of the instruction may come before it. -/
theorem Between.of_fetch {cpu c : Cpu} {pc v : Word} (hf : Mmu.fetch cpu pc = .ok (v, c))
    (hin : ∀ p t, Mmu.translate cpu pc .instruction = .ok (p, t) →
      ∀ x, Mmu.OfTables cpu .instruction t pc x → x ∈ tables) : Between tables cpu c where
  bytes x hx := by
    obtain ⟨p, t, ht, hc⟩ := Mmu.fetch_cases hf
    rw [← Mmu.translate_byteAt ht fun hentry => hx (hin p t ht x hentry)]
    rcases hc with ⟨_, _, rfl⟩ | ⟨_, b, hl, hc⟩
    · rfl
    · rw [← (Bus.load_coreEq hl).2.2]
      rcases hc with rfl | rfl
      · rfl
      · rfl
  paged hp := Mmu.paged_kept.fetch hp hf

/-- A turn of `_loop` whose instruction is an integer load or store that reaches the RAM. -/
theorem Next.of_loop {before : Cpu} (hf : before.Fetched e.cpu e.d) (hr : e.Reaches tables)
    (hin : ∀ p t, Mmu.translate (before.setReg 0 0) before.pc .instruction = .ok (p, t) →
      ∀ x, Mmu.OfTables (before.setReg 0 0) .instruction t before.pc x → x ∈ tables)
    (hl : before._loop = .ok (4, after)) : Next tables before e after where
  between := by
    obtain ⟨v, hv, _⟩ := hf.fetch
    have hb := Between.of_fetch hv hin
    exact ⟨hb.bytes, hb.paged⟩
  reaches := hr
  execute := by
    have hne : e.d.insn ≠ 0 := by
      intro h0
      have hd := hr.decodes
      rw [show e.d = ⟨0⟩ from congrArg Decoder.mk h0] at hd
      cases hd
    rw [← Cpu.loop_of_fetched hf hne]
    exact hl

/-- The memory after the accesses, the last one first. -/
def memoryAfter (start : Cpu) (steps : List (Step Cpu MemoryAccess)) : Word → Byte :=
  lastWritten start.bus.ram.byteAt (steps.map fun t => t.label.written)

variable {start s : Cpu} {steps : List (Step Cpu MemoryAccess)}

theorem paged_of_run (hp : Mmu.Paged start.mmu) (run : Steps (Next tables) start steps s) :
    Mmu.Paged s.mmu :=
  @Steps.always _ _ _ start s steps (fun c => Mmu.Paged c.mmu) (fun _ _ _ => Next.paged) hp run

theorem byteAt_eq_memoryAfter (hp : Mmu.Paged start.mmu)
    (run : Steps (Next tables) start steps s) {x : Word} (hx : x ∉ tables) :
    s.bus.ram.byteAt x = memoryAfter start steps x :=
  @Steps.eq_lastWritten _ _ _ _ _ start s steps (fun c => Mmu.Paged c.mmu)
    (fun c => c.bus.ram.byteAt) (fun t => t.label.written) (· ∉ tables) (fun _ _ _ => Next.paged)
    (fun _ _ _ hn hp _ hx => hn.byteAt hp hx) hp run _ hx

/-- Loads read what was stored last, however the accesses overlap; and no access that reaches the
RAM fails. -/
theorem performed_of_run (hp : Mmu.Paged start.mmu) (run : Steps (Next tables) start steps s) :
    (∀ t earlier, t :: earlier <:+ steps →
      Performed t.label (memoryAfter start earlier) t.after) ∧
    (∀ x ∉ tables, s.bus.ram.byteAt x = memoryAfter start steps x) ∧
    ∀ e, Between tables s e.cpu → e.Reaches tables → ∃ after, Next tables s e after := by
  refine ⟨fun t earlier ht => ?_, fun x hx => byteAt_eq_memoryAfter hp run hx,
    fun e hb hr => ?_⟩
  · obtain ⟨before, hn⟩ := run.of_suffix ht
    exact (hn.performed (paged_of_run hp before) fun x hx => byteAt_eq_memoryAfter hp before hx).1
  · obtain ⟨after, hexec, _⟩ := execute_of_reaches hr (hb.paged (paged_of_run hp run))
      fun _ _ => rfl
    exact ⟨after, hb, hr, hexec⟩

end MemoryAccess

/-- `x6` points into the RAM, and `x7` holds a number to store. -/
def pointing : Cpu := Cpu.ofOperands 0x80000100 0x8877665544332211

/-- `sd x7, -4(x6)`. -/
def doubleStore : MemoryAccess := ⟨⟨0xfe733e23⟩, .store .w64, pointing, 0x800000fc, pointing⟩

def pointingStored : Cpu := Mmu.afterStore pointing 0x800000fc 0x8877665544332211 .w64

/-- `lw x5, 1(x6)`. -/
def oddLoad : MemoryAccess :=
  ⟨⟨0x00132283⟩, .load .w32 true, pointingStored, 0x80000101, pointingStored⟩

def pointingLoaded : Cpu := pointingStored.setReg 5 0x00887766

theorem doubleStore_next : MemoryAccess.Next ∅ pointing doubleStore pointingStored where
  between := ⟨fun _ _ => rfl, id⟩
  reaches := by
    refine ⟨by decide, by decide, rfl, rfl, by decide, fun _ _ => id, fun x hx => ?_⟩
    exact absurd hx.1.mode (by decide)
  execute := rfl

theorem oddLoad_next : MemoryAccess.Next ∅ pointingStored oddLoad pointingLoaded where
  between := ⟨fun _ _ => rfl, id⟩
  reaches := by
    refine ⟨by decide, by decide, rfl, rfl, by decide, fun _ _ => id, fun x hx => ?_⟩
    exact absurd hx.1.mode (by decide)
  execute := rfl

theorem performed_of_run_pointing : pointingLoaded.excVal = none ∧
    doubleStore.Performed (MemoryAccess.memoryAfter pointing []) pointingStored ∧
    oddLoad.Performed (MemoryAccess.memoryAfter pointing [⟨pointing, doubleStore, pointingStored⟩])
      pointingLoaded := by
  have run := Steps.step (Steps.step .start doubleStore_next) oddLoad_next
  have h := MemoryAccess.performed_of_run (Mmu.paged_of_empty rfl) run
  refine ⟨rfl, ?_, ?_⟩
  · exact h.1 _ _ (List.suffix_cons _ _)
  · exact h.1 _ _ (List.suffix_refl _)

end Rv64gcEmu
