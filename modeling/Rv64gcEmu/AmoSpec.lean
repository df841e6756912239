import Rv64gcEmu.RamField
import Rv64gcEmu.Run

namespace Rv64gcEmu

inductive AmoKind where
  | add
  | swap
  | xor
  | or
  | and
  | min
  | max
  | minu
  | maxu
  deriving DecidableEq

namespace AmoKind

def funct5 : AmoKind → BitVec 5
  | add => 0x00
  | swap => 0x01
  | xor => 0x04
  | or => 0x08
  | and => 0x0c
  | min => 0x10
  | max => 0x14
  | minu => 0x18
  | maxu => 0x1c

/-- What is left in memory, from the old word and the operand. -/
def combine {n : Nat} (kind : AmoKind) (old operand : BitVec n) : BitVec n :=
  match kind with
  | add => old + operand
  | swap => operand
  | xor => old ^^^ operand
  | or => old ||| operand
  | and => old &&& operand
  | min => if old.toInt ≤ operand.toInt then old else operand
  | max => if old.toInt < operand.toInt then operand else old
  | minu => if old.toNat ≤ operand.toNat then old else operand
  | maxu => if old.toNat < operand.toNat then operand else old

end AmoKind

inductive AtomicOp where
  | lr
  | sc
  | amo (kind : AmoKind)
  deriving DecidableEq

def AtomicOp.funct5 : AtomicOp → BitVec 5
  | lr => 0x02
  | sc => 0x03
  | amo kind => kind.funct5

/-- An atomic of 4 or of 8 bytes. -/
structure Decoder.IsAtomicOp (d : Decoder) (op : AtomicOp) (length : Width) : Prop where
  size : d.insnSize = 4
  opcode : d.opcodeType = some .atomic
  funct5 : d.funct5 = op.funct5
  length : d.funct3 = 2 ∧ length = .w32 ∨ d.funct3 = 3 ∧ length = .w64

namespace Atomic

section Combine

variable {n : Nat} (a b : BitVec n)

theorem smin_eq : smin a b = AmoKind.min.combine a b := by
  simp only [smin, AmoKind.combine, BitVec.slt_iff_toInt_lt, ← Int.not_lt, ite_not]

theorem smax_eq : smax a b = AmoKind.max.combine a b := by
  simp only [smax, AmoKind.combine, BitVec.slt_iff_toInt_lt]

theorem umin_eq : umin a b = AmoKind.minu.combine a b := by
  simp only [umin, AmoKind.combine, BitVec.ult_iff_lt, BitVec.lt_def, ← Nat.not_lt, ite_not]

theorem umax_eq : umax a b = AmoKind.maxu.combine a b := by
  simp only [umax, AmoKind.combine, BitVec.ult_iff_lt, BitVec.lt_def]

end Combine

/-- The state in which the operation runs, after the check of the address. -/
def checkAlign (cpu : Cpu) (d : Decoder) : Width → Cpu
  | .w64 => if cpu.regs d.rs1 % 8 ≠ 0 then cpu.illegal d else cpu
  | _ =>
    if cpu.regs d.rs1 % 4 ≠ 0 then
      cpu.setException .instructionAddressMisaligned (d.insn.setWidth 64)
    else cpu

/-- The handler of an operation is `amoOp` with a result whose low bits are the combination. -/
theorem amow_eq {d : Decoder} {kind : AmoKind} (cpu : Cpu) (hf : d.funct5 = kind.funct5) :
    ∃ result : BitVec 32 → BitVec 32 → Word,
      (∀ a b, (result a b).setWidth 32 = kind.combine a b) ∧
        amow cpu d = amoOp .w32 32 result (checkAlign cpu d .w32) d := by
  have hsext : ∀ v : BitVec 32, (v.signExtend 64).setWidth 32 = v := by
    intro v
    apply BitVec.eq_of_getLsbD_eq
    intro i hi
    rw [BitVec.getLsbD_setWidth, BitVec.getLsbD_signExtend]
    simp [hi, (by omega : i < 64)]
  have hzext : ∀ v : BitVec 32, (v.setWidth 64).setWidth 32 = v := by
    intro v
    rw [BitVec.setWidth_setWidth_of_le _ (by omega), BitVec.setWidth_eq]
  unfold amow
  rw [hf]
  cases kind with
  | min => exact ⟨_, fun a b => (hsext _).trans (smin_eq a b), rfl⟩
  | max => exact ⟨_, fun a b => (hsext _).trans (smax_eq a b), rfl⟩
  | minu => exact ⟨_, fun a b => (hzext _).trans (umin_eq a b), rfl⟩
  | maxu => exact ⟨_, fun a b => (hzext _).trans (umax_eq a b), rfl⟩
  | add => exact ⟨_, fun _ _ => hsext _, rfl⟩
  | swap => exact ⟨_, fun _ _ => hsext _, rfl⟩
  | xor => exact ⟨_, fun _ _ => hsext _, rfl⟩
  | or => exact ⟨_, fun _ _ => hsext _, rfl⟩
  | and => exact ⟨_, fun _ _ => hsext _, rfl⟩

theorem amod_eq {d : Decoder} {kind : AmoKind} (cpu : Cpu) (hf : d.funct5 = kind.funct5) :
    ∃ result : BitVec 64 → BitVec 64 → Word,
      (∀ a b, (result a b).setWidth 64 = kind.combine a b) ∧
        amod cpu d = amoOp .w64 64 result (checkAlign cpu d .w64) d := by
  unfold amod
  rw [hf]
  cases kind with
  | min => exact ⟨_, fun a b => (BitVec.setWidth_eq _).trans (smin_eq a b), rfl⟩
  | max => exact ⟨_, fun a b => (BitVec.setWidth_eq _).trans (smax_eq a b), rfl⟩
  | minu => exact ⟨_, fun a b => (BitVec.setWidth_eq _).trans (umin_eq a b), rfl⟩
  | maxu => exact ⟨_, fun a b => (BitVec.setWidth_eq _).trans (umax_eq a b), rfl⟩
  | add => exact ⟨_, fun _ _ => BitVec.setWidth_eq _, rfl⟩
  | swap => exact ⟨_, fun _ _ => BitVec.setWidth_eq _, rfl⟩
  | xor => exact ⟨_, fun _ _ => BitVec.setWidth_eq _, rfl⟩
  | or => exact ⟨_, fun _ _ => BitVec.setWidth_eq _, rfl⟩
  | and => exact ⟨_, fun _ _ => BitVec.setWidth_eq _, rfl⟩

end Atomic

namespace RamDevice

end RamDevice

namespace Mmu

/-- The entry of the cache that translates the address. -/
def Translates (cpu : Cpu) (address : Word) (i : Fin 4) : Prop :=
  if cpu.host.useTlb then (cpu.mmu.tlbCache i).virtBase = pageOf address else i = soleEntry

/-- The byte belongs to the page table entry of the page. -/
def OfEntry (cpu : Cpu) (address x : Word) : Prop :=
  ∃ i, Translates cpu address i ∧ (x - (cpu.mmu.tlbCache i).pteAddr).toNat < 8

/-- The byte belongs to the page table entry by which the access has been translated; there is none
when translation is off. -/
def OfTables (cpu : Cpu) (accessType : AccessType) (after : Cpu) (address x : Word) : Prop :=
  Active cpu accessType ∧ OfEntry after address x

theorem getTlbEntry_translates {cpu after : Cpu} {address : Word} {accessType : AccessType}
    {i : Fin 4} (h : getTlbEntry cpu address accessType = .ok (some i, after)) :
    Translates after address i := by
  have hhost := (getTlbEntry_frame h).core.host
  unfold Translates
  rw [hhost]
  rcases getTlbEntry_some h with ⟨huse, hi, rfl⟩ | ⟨_, hslot, walked, c, _, rfl⟩
  · obtain ⟨age, hage⟩ := searched_same cpu address i
    rw [if_pos huse, hage]
    exact (tlbScan_scanned cpu.mmu.tlbCache (pageOf address)).hit i hi
  · simp only [Cpu.setMmu_mmu, setEntry, Function.update_self]
    unfold tagged
    unfold slot at hslot
    split
    next huse => rfl
    next huse => rwa [if_neg huse] at hslot

theorem markEntry_place (e : TlbEntry) (accessType : AccessType) :
    (markEntry e accessType).virtBase = e.virtBase ∧
      (markEntry e accessType).pteAddr = e.pteAddr := by
  cases accessType <;> exact ⟨rfl, rfl⟩

theorem markEntry_physBase (e : TlbEntry) (accessType : AccessType) :
    (markEntry e accessType).physBase = e.physBase := by
  cases accessType <;> rfl

/-- A translation writes at most the page table entry of the page. -/
theorem translate_ram {cpu after : Cpu} {address p : Word} {accessType : AccessType}
    (h : translate cpu address accessType = .ok (p, after)) :
    after.bus.ram = cpu.bus.ram ∨ ∃ i v, Translates after address i ∧
      after.bus.ram = cpu.bus.ram.setWord (after.mmu.tlbCache i).pteAddr v := by
  rcases translate_cases h with ⟨_, rfl⟩ | ⟨c, hg, rfl⟩ | ⟨_, i, c, hg, hcheck⟩
  · exact .inl rfl
  · exact .inl (getTlbEntry_frame hg).ram
  · have hram := (getTlbEntry_frame hg).ram
    rcases checkEntry_cases hcheck with ⟨_, rfl⟩ | ⟨_, ⟨_, rfl⟩ | ⟨_, hst⟩⟩
    · exact .inl hram
    · exact .inl hram
    · obtain ⟨hmmu, hst⟩ := store_word_cases hst
      rcases hst with ⟨_, hset⟩ | ⟨_, hsame⟩
      · have hent : after.mmu.tlbCache i = markEntry (c.mmu.tlbCache i) accessType := by
          rw [hmmu]
          exact Function.update_self ..
        refine .inr ⟨i, Paging.mark (c.mmu.tlbCache i).pte accessType.kind, ?_, ?_⟩
        · have ht := getTlbEntry_translates hg
          have hhost := (translate_coreEq h).1.host.trans (getTlbEntry_frame hg).core.host.symm
          unfold Translates at ht ⊢
          rw [hhost]
          split
          next huse =>
            rw [if_pos huse] at ht
            rw [hent, (markEntry_place _ _).1]
            exact ht
          next huse => exact (if_neg huse).mp ht
        · rw [hent, (markEntry_place _ _).2, ← hram]
          exact hset
      · exact .inl (hsame.trans hram)

theorem translate_range {cpu after : Cpu} {address p : Word} {accessType : AccessType}
    (h : translate cpu address accessType = .ok (p, after)) :
    RamDevice.SameRange cpu.bus.ram after.bus.ram := by
  rcases translate_ram h with hram | ⟨_, _, _, hram⟩
  · exact hram ▸ ⟨rfl, rfl⟩
  · exact hram ▸ ⟨rfl, rfl⟩

theorem translate_byteAt {cpu after : Cpu} {address p : Word} {accessType : AccessType}
    (h : translate cpu address accessType = .ok (p, after)) {x : Word}
    (hx : ¬OfTables cpu accessType after address x) :
    after.bus.ram.byteAt x = cpu.bus.ram.byteAt x := by
  by_cases hact : Active cpu accessType
  · rcases translate_ram h with hram | ⟨i, v, ht, hram⟩
    · rw [hram]
    · rw [hram]
      exact RamDevice.byteAt_setWord v fun hlt => hx ⟨hact, i, ht, hlt⟩
  · rw [translate_inactive address hact] at h
    obtain ⟨_, rfl⟩ := Prod.mk.inj (Except.ok.inj h)
    rfl

end Mmu

namespace Atomic

/-- The address is translated to RAM for a load, and then for a store, without a fault. -/
structure Reached (cpu : Cpu) (address : Word) (length : Width) (p : Word) (loaded stored : Cpu) :
    Prop where
  load : Mmu.translate cpu address .load = .ok (p, loaded)
  loads : loaded.excVal = none
  store : Mmu.translate loaded address .store = .ok (p, stored)
  stores : stored.excVal = none
  ram : cpu.bus.ram.Contains p length.bytes

variable {cpu loaded stored : Cpu} {d : Decoder} {length : Width} {p : Word}

theorem Reached.marks (h : Reached cpu (cpu.regs d.rs1) length p loaded stored)
    (hs : Mmu.Settled cpu.mmu) (hn : ¬Mmu.StaleHit loaded (cpu.regs d.rs1)) {x : Word} {i : Nat}
    (h6 : i ≠ 6) (h7 : i ≠ 7) :
    (stored.bus.ram.byteAt x).getLsbD i = (cpu.bus.ram.byteAt x).getLsbD i := by
  have hload := Mmu.translate_writesBack hs h.load
  have hstore := Mmu.translate_writesBack hload.settled h.store
  have hbits : ∀ {P : Word → Prop} {a b : RamDevice}, RamDevice.MarksOnly P a b →
      (b.byteAt x).getLsbD i = (a.byteAt x).getLsbD i := by
    intro P a b hm
    rcases hm x with heq | ⟨_, hb⟩
    · rw [heq]
    · exact hb i h6 h7
  exact (hbits (hstore.marks fun hst => hn hst.2)).trans (hbits (hload.marks (by simp)))

/-- The handler that an encoding selects. -/
theorem funct3_amo {kind : AmoKind} (cpu : Cpu) (hd : d.IsAtomicOp (.amo kind) length) :
    ∃ result : BitVec length.bits → BitVec length.bits → Word,
      (∀ a b, (result a b).setWidth length.bits = kind.combine a b) ∧
        funct3 cpu d = amoOp length length.bits result (checkAlign cpu d length) d := by
  rcases hd.length with ⟨hf, rfl⟩ | ⟨hf, rfl⟩
  · obtain ⟨result, hres, heq⟩ := amow_eq cpu hd.funct5
    refine ⟨result, hres, ?_⟩
    rw [funct3, hf]
    exact heq
  · obtain ⟨result, hres, heq⟩ := amod_eq cpu hd.funct5
    refine ⟨result, hres, ?_⟩
    rw [funct3, hf]
    exact heq

theorem checkAlign_of_aligned {op : AtomicOp} (hd : d.IsAtomicOp op length)
    (ha : (cpu.regs d.rs1).toNat % length.bytes = 0) : checkAlign cpu d length = cpu := by
  rcases hd.length with ⟨_, rfl⟩ | ⟨_, rfl⟩
  · have hz : cpu.regs d.rs1 % 4 = 0 := BitVec.eq_of_toNat_eq ha
    exact if_neg (not_not.mpr hz)
  · have hz : cpu.regs d.rs1 % 8 = 0 := BitVec.eq_of_toNat_eq ha
    exact if_neg (not_not.mpr hz)

end Atomic

end Rv64gcEmu
