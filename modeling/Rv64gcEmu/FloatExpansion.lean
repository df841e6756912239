import Rv64gcEmu.CompressedStep
import Rv64gcEmu.FloatMemory
import Rv64gcEmu.ImmediateDecoding

namespace Rv64gcEmu

open BitField (gather)

section Words

/-- `fld rd, offset(rs1)`. -/
def fldWord (rd rs1 : BitVec 5) (offset : BitVec 12) : BitVec 32 :=
  offset ++ rs1 ++ 3#3 ++ rd ++ 0x07#7

/-- `fsd rs2, offset(rs1)`. -/
def fsdWord (rs2 rs1 : BitVec 5) (offset : BitVec 12) : BitVec 32 :=
  offset.extractLsb' 5 7 ++ rs2 ++ rs1 ++ 3#3 ++ offset.extractLsb' 0 5 ++ 0x27#7

variable (r rs1 : BitVec 5) (offset : BitVec 12)

/-- The offset as an immediate of the formats `i` and `s`. -/
def offsetImm : Immediate 64 12 0 := ⟨offset.signExtend 64, .of_signExtend_zero rfl (by decide)⟩

theorem extractLsb'_offsetImm {lo n : Nat} (hn : lo + n ≤ 12) :
    (offsetImm offset).val.extractLsb' lo n = offset.extractLsb' lo n :=
  SignedWord.extractLsb'_signExtend offset hn (by decide)

theorem fldWord_eq_encode :
    fldWord r rs1 offset = (Insn.i (offsetImm offset) rs1 3 r 0x07).encode := by
  rw [Insn.encode, extractLsb'_offsetImm offset (by decide), BitVec.extractLsb'_eq_self]
  rfl

theorem fsdWord_eq_encode :
    fsdWord r rs1 offset = (Insn.s (offsetImm offset) r rs1 3 0x27).encode := by
  rw [Insn.encode, extractLsb'_offsetImm offset (by decide),
    extractLsb'_offsetImm offset (by decide)]
  rfl

/-- What the decoder reads in the word of an `fld`. -/
theorem fldWord_fields {d : Decoder} (hd : d.insn = fldWord r rs1 offset) :
    d.immI = offset.signExtend 64 ∧ d.rs1 = rs1 ∧ d.funct3 = 3 ∧ d.rd = r ∧
      d.opcodeType = some .fl := by
  have hread := d.read_of_encode (hd.trans (fldWord_eq_encode r rs1 offset))
  obtain ⟨himm, hrs1, hfunct3, hrd, hop⟩ := Insn.i.inj hread
  refine ⟨congrArg Subtype.val himm, hrs1, hfunct3, hrd, ?_⟩
  exact Decoder.opcodeType_of_opcode (d.opcode_eq.symm.trans hop)

theorem fsdWord_fields {d : Decoder} (hd : d.insn = fsdWord r rs1 offset) :
    d.storeImm = offset ∧ d.rs2 = r ∧ d.rs1 = rs1 ∧ d.funct3 = 3 ∧ d.opcodeType = some .fs := by
  have hencode := hd.trans (fsdWord_eq_encode r rs1 offset)
  have hread := d.read_of_encode hencode
  obtain ⟨-, hrs2, hrs1, hfunct3, hop⟩ := Insn.s.inj hread
  refine ⟨?_, hrs2, hrs1, hfunct3, Decoder.opcodeType_of_opcode (d.opcode_eq.symm.trans hop)⟩
  have himm : d.storeImm = (offsetImm offset).val.extractLsb' 0 12 := by
    change InsnWord.immS d.insn = _
    rw [hencode]
    exact Insn.immS_encode ..
  rw [himm, extractLsb'_offsetImm offset (by decide), BitVec.extractLsb'_eq_self]

end Words

inductive FloatForm where
  | fld
  | fsd
  | fldsp
  | fsdsp
  deriving DecidableEq, Repr

namespace FloatForm

def Encodes (h : BitVec 16) : FloatForm → Prop
  | fld => h.extractLsb' 0 2 = 0 ∧ h.extractLsb' 13 3 = 1
  | fsd => h.extractLsb' 0 2 = 0 ∧ h.extractLsb' 13 3 = 5
  | fldsp => h.extractLsb' 0 2 = 2 ∧ h.extractLsb' 13 3 = 1
  | fsdsp => h.extractLsb' 0 2 = 2 ∧ h.extractLsb' 13 3 = 5

/-- The register with the address. -/
def base (h : BitVec 16) : FloatForm → BitVec 5
  | fld => Expand.creg h 7
  | fsd => Expand.creg h 7
  | fldsp => 2
  | fsdsp => 2

/-- The register that is loaded or stored. -/
def data (h : BitVec 16) : FloatForm → BitVec 5
  | fld => Expand.creg h 2
  | fsd => Expand.creg h 2
  | fldsp => Expand.reg h 7
  | fsdsp => Expand.reg h 2

def offset (h : BitVec 16) : FloatForm → BitVec 12
  | fld => (gather h 8 [(6, 5, 2), (3, 10, 3)]).setWidth 12
  | fsd => (gather h 8 [(6, 5, 2), (3, 10, 3)]).setWidth 12
  | fldsp => (gather h 9 [(6, 2, 3), (5, 12, 1), (3, 5, 2)]).setWidth 12
  | fsdsp => (gather h 9 [(6, 7, 3), (3, 10, 3)]).setWidth 12

def expand (h : BitVec 16) (form : FloatForm) : BitVec 32 :=
  match form with
  | fld => fldWord (form.data h) (form.base h) (form.offset h)
  | fsd => fsdWord (form.data h) (form.base h) (form.offset h)
  | fldsp => fldWord (form.data h) (form.base h) (form.offset h)
  | fsdsp => fsdWord (form.data h) (form.base h) (form.offset h)

def accessType : FloatForm → AccessType
  | fld => .load
  | fsd => .store
  | fldsp => .load
  | fsdsp => .store

/-- The register that the handler stores: of `C.FSD` it is the one with the address. -/
def source (h : BitVec 16) : FloatForm → BitVec 5
  | fsd => Expand.creg h 7
  | form => form.data h

variable {cpu : Cpu} {hi h : BitVec 16} {form : FloatForm}

/-- The address that the expansion names. -/
def address (cpu : Cpu) (h : BitVec 16) (form : FloatForm) : Word :=
  cpu.regs (form.base h) + (form.offset h).setWidth 64

theorem signExtend_offset (h : BitVec 16) (form : FloatForm) :
    (form.offset h).signExtend 64 = (form.offset h).setWidth 64 := by
  have hmsb : (form.offset h).msb = false := by
    rw [BitVec.msb_eq_getLsbD_last]
    cases form <;> simp [offset]
  exact BitVec.signExtend_eq_setWidth_of_msb_false hmsb

theorem execute_size (h3 : h.extractLsb' 0 2 ≠ 3) : cpu.execute (wordOf hi h) =
    (cpu.execute16 (wordOf hi h) >>= fun c => .ok (2, c)) := by
  have hs : (wordOf hi h).insnSize = 2 := by
    rw [Decoder.insnSize, wordOf_opcode, if_neg h3]
  rw [Cpu.execute, hs]
  rfl

theorem setWidth_offset {n : Nat} (x : BitVec n) (hn : n ≤ 12) :
    (x.setWidth 12).setWidth 64 = x.setWidth 64 := by
  have hx := x.isLt
  have hp : 2 ^ n ≤ 2 ^ 12 := Nat.pow_le_pow_right (by decide) hn
  apply BitVec.eq_of_toNat_eq
  rw [BitVec.toNat_setWidth, BitVec.toNat_setWidth, BitVec.toNat_setWidth,
    Nat.mod_eq_of_lt (by omega : x.toNat < 2 ^ 12)]

theorem execute_load16 (hf : form.Encodes h) (hl : form.accessType = .load) :
    cpu.execute (wordOf hi h) = (Mmu.load cpu (form.address cpu h) .w64 >>= fun r =>
      .ok (2, r.2.setFreg (form.data h) r.1)) := by
  cases form with
  | fld =>
    rw [execute_size (by rw [hf.1]; decide), Cpu.execute16, wordOf_opcode, hf.1, Ctype.quadrant0,
      wordOf_funct3, hf.2]
    change (Ctype.fld cpu (wordOf hi h) >>= _) = _
    rw [Ctype.fld, Ctype.loadFreg, wordOf_compressedRs1, wordOf_offsetDouble, wordOf_compressedRd,
      bind_assoc, address, offset, setWidth_offset _ (by decide)]
    rfl
  | fldsp =>
    rw [execute_size (by rw [hf.1]; decide), Cpu.execute16, wordOf_opcode, hf.1, Ctype.quadrant2,
      wordOf_funct3, hf.2]
    change (Ctype.fldsp cpu (wordOf hi h) >>= _) = _
    rw [Ctype.fldsp, Ctype.loadFreg, wordOf_offsetLdsp, wordOf_rd, bind_assoc, address, offset,
      setWidth_offset _ (by decide)]
    rfl
  | fsd => cases hl
  | fsdsp => cases hl

theorem execute_store16 (hf : form.Encodes h) (hs : form.accessType = .store) :
    cpu.execute (wordOf hi h) =
      (Mmu.store cpu (form.address cpu h) (cpu.fregs (form.source h)) .w64 >>= fun c =>
        .ok (2, c)) := by
  cases form with
  | fld => cases hs
  | fldsp => cases hs
  | fsd =>
    rw [execute_size (by rw [hf.1]; decide), Cpu.execute16, wordOf_opcode, hf.1, Ctype.quadrant0,
      wordOf_funct3, hf.2]
    change (Ctype.fsd cpu (wordOf hi h) >>= _) = _
    rw [Ctype.fsd, wordOf_compressedRs1, wordOf_offsetDouble, address, offset,
      setWidth_offset _ (by decide)]
    rfl
  | fsdsp =>
    rw [execute_size (by rw [hf.1]; decide), Cpu.execute16, wordOf_opcode, hf.1, Ctype.quadrant2,
      wordOf_funct3, hf.2]
    change (Ctype.fsdsp cpu (wordOf hi h) >>= _) = _
    rw [Ctype.fsdsp, wordOf_offsetSdsp, wordOf_lowReg, address, offset,
      setWidth_offset _ (by decide)]
    rfl

theorem execute_load32 (hfs : cpu.cregs.isFpuEnabled = true) (hl : form.accessType = .load) :
    cpu.execute ⟨form.expand h⟩ = (Mmu.load cpu (form.address cpu h) .w64 >>= fun r =>
      .ok (4, Fdimpl.setExceptions (r.2.setFreg (form.data h) r.1))) := by
  have hword : form.expand h = fldWord (form.data h) (form.base h) (form.offset h) := by
    cases form with
    | fld => rfl
    | fldsp => rfl
    | fsd => cases hl
    | fsdsp => cases hl
  obtain ⟨himm, hrs1, hfunct3, hrd, htype⟩ := @fldWord_fields _ _ _ ⟨form.expand h⟩ hword
  have hx := execute_fl (f := .double) hfs htype hfunct3
  rw [Decoder.flOffset_eq, himm, hrs1, hrd, signExtend_offset] at hx
  exact hx

theorem execute_store32 (hfs : cpu.cregs.isFpuEnabled = true) (hs : form.accessType = .store) :
    cpu.execute ⟨form.expand h⟩ =
      (Mmu.store cpu (form.address cpu h) (cpu.fregs (form.data h)) .w64 >>= fun c =>
        .ok (4, Fdimpl.setExceptions c)) := by
  have hword : form.expand h = fsdWord (form.data h) (form.base h) (form.offset h) := by
    cases form with
    | fld => cases hs
    | fldsp => cases hs
    | fsd => rfl
    | fsdsp => rfl
  obtain ⟨himm, hrs2, hrs1, hfunct3, htype⟩ := @fsdWord_fields _ _ _ ⟨form.expand h⟩ hword
  have hx := execute_fs (f := .double) hfs htype hfunct3
  rw [Decoder.fsOffset_eq, himm, hrs1, hrs2] at hx
  exact hx

/-- The access is translated without a fault, to RAM. -/
def Reaches (cpu : Cpu) (h : BitVec 16) (form : FloatForm) : Prop :=
  ∃ p c, Mmu.translate cpu (form.address cpu h) form.accessType = .ok (p, c) ∧ c.excVal = none ∧
    cpu.bus.ram.Contains p 8

/-- Two instructions leave the same registers and the same RAM. -/
structure SameEffect (a b : Cpu) : Prop where
  fregs : a.fregs = b.fregs
  regs : a.regs = b.regs
  ram : a.bus.ram = b.bus.ram

theorem SameEffect.flags {a b : Cpu} (h : a.FlagsOnly b) : SameEffect a b :=
  ⟨h.fregs.symm, h.regs.symm, by rw [h.bus]⟩

/-- The compressed instruction and the expansion both go through, and do the same. -/
def StepsLikeExpansion (cpu : Cpu) (hi h : BitVec 16) (form : FloatForm) : Prop :=
  ∃ a b, cpu.execute (wordOf hi h) = .ok (2, a) ∧ cpu.execute ⟨form.expand h⟩ = .ok (4, b) ∧
    SameEffect a b

theorem load_stepsLike (hfs : cpu.cregs.isFpuEnabled = true) (hf : form.Encodes h)
    (hl : form.accessType = .load) (hr : form.Reaches cpu h) : form.StepsLikeExpansion cpu hi h := by
  obtain ⟨p, c, ht, hq, hram⟩ := hr
  rw [hl] at ht
  obtain ⟨v, hv, _⟩ := @Mmu.load_value_of_translate cpu c _ p .w64 ht hq hram
  refine ⟨c.setFreg (form.data h) v, _, ?_, ?_, .flags (.setExceptions _)⟩
  · rw [execute_load16 hf hl, hv]
    rfl
  · rw [execute_load32 hfs hl, hv]
    rfl

/-- The handler and the expansion store the same when the registers they store are the same. -/
theorem store_stepsLike_iff (hfs : cpu.cregs.isFpuEnabled = true) (hf : form.Encodes h)
    (hs : form.accessType = .store) (hr : form.Reaches cpu h) :
    form.StepsLikeExpansion cpu hi h ↔
      cpu.fregs (form.source h) = cpu.fregs (form.data h) := by
  obtain ⟨p, c, ht, hq, hram⟩ := hr
  rw [hs] at ht
  have hreach : Mmu.StoreReaches cpu (form.address cpu h) .w64 p c := ⟨ht, hq, hram⟩
  have h16 := @execute_store16 cpu hi h form hf hs
  have h32 := @execute_store32 cpu h form hfs hs
  rw [hreach.store_eq, Except.ok_bind] at h16 h32
  constructor
  · rintro ⟨a, b, ha, hb, hab⟩
    obtain ⟨_, rfl⟩ := Prod.mk.inj (Except.ok.inj (h16.symm.trans ha))
    obtain ⟨_, rfl⟩ := Prod.mk.inj (Except.ok.inj (h32.symm.trans hb))
    have hram := congrArg (fun r => r.value p .w64) hab.ram
    rw [(Cpu.FlagsOnly.setExceptions _).bus] at hram
    change (c.bus.ram.put p _ _).value p _ = (c.bus.ram.put p _ _).value p _ at hram
    rw [RamDevice.value_put, RamDevice.value_put] at hram
    exact (BitVec.setWidth_eq _).symm.trans (hram.trans (BitVec.setWidth_eq _))
  · intro he
    refine ⟨_, _, h16, h32, ?_⟩
    rw [he]
    exact .flags (.setExceptions _)

/-- The compressed loads and stores of doubles do what their expansions do, but for `C.FSD`, which
stores the register with the number of the base. -/
theorem stepsLikeExpansion_iff (hfs : cpu.cregs.isFpuEnabled = true) (hf : form.Encodes h)
    (hr : form.Reaches cpu h) : form.StepsLikeExpansion cpu hi h ↔
      (form = .fsd → cpu.fregs (Expand.creg h 7) = cpu.fregs (Expand.creg h 2)) := by
  cases form with
  | fld => exact iff_of_true (load_stepsLike hfs hf rfl hr) fun h => by cases h
  | fldsp => exact iff_of_true (load_stepsLike hfs hf rfl hr) fun h => by cases h
  | fsd => exact (store_stepsLike_iff hfs hf rfl hr).trans ⟨fun h _ => h, fun h => h rfl⟩
  | fsdsp =>
    exact iff_of_true ((store_stepsLike_iff hfs hf rfl hr).mpr rfl) fun h => by cases h

/-- `c.fsdsp f7, 8(sp)`: quadrant 2, `funct3` 5. -/
theorem stepsLikeExpansion_iff_fsdsp :
    FloatForm.fsdsp.StepsLikeExpansion (floatCpu.setReg 2 0x80000100) 0 0xa41e := by
  have hiff := @stepsLikeExpansion_iff (floatCpu.setReg 2 0x80000100) 0 0xa41e .fsdsp (by decide)
    ⟨by decide, by decide⟩ ⟨0x80000108, _, rfl, rfl, by decide⟩
  exact hiff.mpr fun h => by cases h

/-- `c.fsd f9, 0(x8)`, with different numbers in `f8` and `f9`. -/
theorem not_stepsLikeExpansion : ¬∀ (cpu : Cpu) (hi h : BitVec 16) (form : FloatForm),
    cpu.cregs.isFpuEnabled = true → form.Encodes h → form.Reaches cpu h →
      form.StepsLikeExpansion cpu hi h := by
  intro hall
  have hs := hall ((floatCpu.setReg 8 0x80000100).setFreg 9 1) 0 0xa004 .fsd (by decide)
    ⟨by decide, by decide⟩ ⟨0x80000100, _, rfl, rfl, by decide⟩
  have hiff := @store_stepsLike_iff ((floatCpu.setReg 8 0x80000100).setFreg 9 1) 0 0xa004 .fsd
    (by decide) ⟨by decide, by decide⟩ rfl ⟨0x80000100, _, rfl, rfl, by decide⟩
  exact absurd (hiff.mp hs) (by decide)

end FloatForm

end Rv64gcEmu
