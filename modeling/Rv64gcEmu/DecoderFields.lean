import Rv64gcEmu.BitField
import Rv64gcEmu.Compressed

namespace Rv64gcEmu

open BitField (setWidth_field sshiftRight_signExtend setWidth_append setWidth_shiftLeft_piece
  sign_append shiftRight_piece shiftLeft_piece)

namespace Decoder

theorem opcode_eq (d : Decoder) : d.opcode = d.insn.extractLsb' 0 7 := by
  rw [← setWidth_field]
  rfl

theorem opcode_of_type {d : Decoder} {t : OpcodeType} (h : d.opcodeType = some t) :
    d.opcode = t.code := by
  have ht := List.find?_some h
  exact (of_decide_eq_true ht).symm

theorem opcodeType_of_opcode {d : Decoder} {t : OpcodeType} (h : d.insn.extractLsb' 0 7 = t.code) :
    d.opcodeType = some t := by
  rw [opcodeType, opcode_eq, h]
  cases t <;> rfl

theorem insnSize_of_type {d : Decoder} {t : OpcodeType} (h : d.opcodeType = some t) :
    d.insnSize = 4 := by
  have hop : d.opcode.extractLsb' 0 2 = 3 := by
    rw [opcode_of_type h]
    cases t <;> decide
  have hlow : d.compressedOpcode = 3 := by
    rw [← hop, compressedOpcode, opcode]
    ext i hi
    have hi' : i < 7 := by omega
    obtain rfl | rfl : i = 0 ∨ i = 1 := by omega
    · simp
    · simp
  rw [insnSize, if_pos hlow]

theorem rd_eq (d : Decoder) : d.rd = d.insn.extractLsb' 7 5 := setWidth_field d.insn 7 5

theorem funct3_eq (d : Decoder) : d.funct3 = d.insn.extractLsb' 12 3 := setWidth_field d.insn 12 3

theorem rs1_eq (d : Decoder) : d.rs1 = d.insn.extractLsb' 15 5 := setWidth_field d.insn 15 5

theorem rs2_eq (d : Decoder) : d.rs2 = d.insn.extractLsb' 20 5 := setWidth_field d.insn 20 5

theorem rs3_eq (d : Decoder) : d.rs3 = d.insn.extractLsb' 27 5 := by
  have hm : (d.insn &&& 0xf8000000) >>> 27 = (d.insn >>> 27) &&& 0x1f := by
    rw [BitVec.ushiftRight_and_distrib]
    rfl
  rw [rs3, hm]
  exact setWidth_field d.insn 27 5

theorem funct7_eq (d : Decoder) : d.funct7 = d.insn.extractLsb' 25 7 := setWidth_field d.insn 25 7

theorem compressedOpcode_eq (d : Decoder) : d.compressedOpcode = d.insn.extractLsb' 0 2 := by
  rw [← setWidth_field]
  rfl

theorem compressedFunct3_eq (d : Decoder) : d.compressedFunct3 = d.insn.extractLsb' 13 3 :=
  setWidth_field d.insn 13 3

theorem compressedFunct2_eq (d : Decoder) : d.compressedFunct2 = d.insn.extractLsb' 10 2 :=
  setWidth_field d.insn 10 2

theorem immI_eq (d : Decoder) : d.immI = (d.insn.extractLsb' 20 12).signExtend 64 := by
  have hmask : ∀ i, i < 12 → (0xfff00000 : BitVec 32).getLsbD (20 + i) = true := by decide
  have hcut : (d.insn &&& 0xfff00000).extractLsb' 20 12 = d.insn.extractLsb' 20 12 := by
    apply BitVec.eq_of_getLsbD_eq
    intro i hi
    rw [BitVec.getLsbD_extractLsb', BitVec.getLsbD_extractLsb', BitVec.getLsbD_and, hmask i hi,
      Bool.and_true]
  unfold immI
  rw [sshiftRight_signExtend _ (by decide) (by decide)]
  exact congrArg _ hcut

/-- The immediate of a store, of 12 bits. -/
def storeImm (d : Decoder) : BitVec 12 := d.insn.extractLsb' 25 7 ++ d.insn.extractLsb' 7 5

theorem getLsbD_storeImm (d : Decoder) (i : Nat) : d.storeImm.getLsbD i =
    if i < 5 then d.insn.getLsbD (7 + i) else decide (i < 12) && d.insn.getLsbD (20 + i) := by
  rw [storeImm, BitVec.getLsbD_append, BitVec.getLsbD_extractLsb', BitVec.getLsbD_extractLsb']
  by_cases h5 : i < 5
  · simp [h5]
  · have he : 25 + (i - 5) = 20 + i := by omega
    have hlt : i - 5 < 7 ↔ i < 12 := by omega
    simp [h5, he, hlt]

theorem flOffset_eq (d : Decoder) : d.flOffset = d.immI := by
  rw [immI_eq, flOffset, BitField.sshiftRight_signExtend _ (by decide) (by decide)]

/-- The five bits that the immediates of stores keep where `rd` is. -/
theorem getLsbD_rdField (d : Decoder) {i : Nat} (hi : i < 64) :
    (((d.insn >>> 7) &&& 0x1f).setWidth 64 : Word).getLsbD i =
      (decide (i < 5) && d.insn.getLsbD (7 + i)) := by
  have hmask : ∀ i, i < 64 → (0x1f : BitVec 32).getLsbD i = decide (i < 5) := by decide
  rw [BitVec.getLsbD_setWidth, BitVec.getLsbD_and, BitVec.getLsbD_ushiftRight, hmask i hi]
  by_cases h5 : i < 5 <;> simp [hi, h5]

theorem msb_storeImm (d : Decoder) : d.storeImm.msb = d.insn.getLsbD 31 := by
  rw [BitVec.msb_eq_getLsbD_last, getLsbD_storeImm]
  rfl

/-- The offset of the integer stores is sign-extended. -/
theorem immS_eq (d : Decoder) : d.immS = d.storeImm.signExtend 64 := by
  have hmask : ∀ i, i < 12 → (0xfe000000 : BitVec 32).getLsbD (20 + i) = decide (5 ≤ i) := by decide
  have hupper : ∀ i, i < 12 → ((d.insn &&& 0xfe000000).extractLsb' 20 12).getLsbD i =
      (d.insn.getLsbD (20 + i) && decide (5 ≤ i)) := by
    intro i hi
    rw [BitVec.getLsbD_extractLsb', BitVec.getLsbD_and, hmask i hi, decide_eq_true hi, Bool.true_and]
  have hmsb : ((d.insn &&& 0xfe000000).extractLsb' 20 12).msb = d.insn.getLsbD 31 := by
    rw [BitVec.msb_eq_getLsbD_last, hupper _ (by decide)]
    exact Bool.and_true _
  have hx : d.immS = ((d.insn &&& 0xfe000000).extractLsb' 20 12).signExtend 64 |||
      ((d.insn >>> 7) &&& 0x1f).setWidth 64 := by
    rw [immS, BitField.sshiftRight_signExtend _ (by decide) (by decide)]
  apply BitVec.eq_of_getLsbD_eq
  intro i hi
  rw [hx, BitVec.getLsbD_or, d.getLsbD_rdField hi, BitVec.getLsbD_signExtend,
    BitVec.getLsbD_signExtend, hmsb, msb_storeImm, getLsbD_storeImm]
  by_cases h12 : i < 12
  · rw [if_pos h12, if_pos h12, hupper i h12]
    by_cases h5 : i < 5
    · have hn : ¬5 ≤ i := by omega
      simp [hi, h5, hn]
    · have hn : 5 ≤ i := by omega
      simp [hi, h5, hn, h12]
  · have h5 : ¬i < 5 := by omega
    simp [h12, h5]

/-- That of the floating-point ones is not. -/
theorem fsOffset_eq (d : Decoder) : d.fsOffset = d.storeImm.setWidth 64 := by
  have hmask : ∀ i, i < 64 → (0xfe0 : Word).getLsbD i = (decide (5 ≤ i) && decide (i < 12)) := by
    decide
  have hx : d.fsOffset = (d.flOffset &&& (0xfe0 : Word)) |||
      (((d.insn >>> 7) &&& 0x1f).setWidth 64 : Word) := rfl
  apply BitVec.eq_of_getLsbD_eq
  intro i hi
  rw [hx, flOffset_eq, immI_eq, BitVec.getLsbD_or, d.getLsbD_rdField hi, BitVec.getLsbD_and,
    hmask i hi, BitVec.getLsbD_signExtend, BitVec.getLsbD_extractLsb', BitVec.getLsbD_setWidth,
    getLsbD_storeImm]
  by_cases h5 : i < 5
  · have hn : ¬5 ≤ i := by omega
    simp [hi, h5, hn]
  · have hn : 5 ≤ i := by omega
    by_cases h12 : i < 12
    · simp [hi, h5, hn, h12]
    · simp [h5, h12]

theorem immB_eq (d : Decoder) : d.immB = (d.insn.extractLsb' 31 1 ++
    (d.insn.extractLsb' 7 1 ++ (d.insn.extractLsb' 25 6 ++ (d.insn.extractLsb' 8 4 ++ 0#1)))).signExtend
      64 := by
  have h7 : (d.insn &&& 0x80) <<< 4 = (d.insn.extractLsb' 7 1).setWidth 32 <<< 11 := by
    rw [BitVec.shiftLeft_and_distrib]
    exact shiftLeft_piece rfl
  have h25 : (d.insn >>> 20) &&& (0x7e0 : BitVec 32) = (d.insn.extractLsb' 25 6).setWidth 32 <<< 5 :=
    shiftRight_piece rfl
  have h8 : (d.insn >>> 7) &&& (0x1e : BitVec 32) = (d.insn.extractLsb' 8 4).setWidth 32 <<< 1 :=
    shiftRight_piece rfl
  unfold Decoder.immB
  rw [h7, h25, h8, ← sign_append _ _ (by decide), setWidth_append, setWidth_append, setWidth_append,
    setWidth_shiftLeft_piece _ (by decide) (by decide), setWidth_shiftLeft_piece _ (by decide) (by decide),
    setWidth_shiftLeft_piece _ (by decide) (by decide), BitVec.setWidth_zero]
  simp only [BitVec.or_assoc, BitVec.or_zero]

theorem immJ_eq (d : Decoder) : d.immJ = (d.insn.extractLsb' 31 1 ++
    (d.insn.extractLsb' 12 8 ++ (d.insn.extractLsb' 20 1 ++ (d.insn.extractLsb' 21 10 ++ 0#1)))).signExtend
      64 := by
  have h12 : d.insn &&& (0xff000 : BitVec 32) = (d.insn.extractLsb' 12 8).setWidth 32 <<< 12 := 
    @shiftRight_piece _ d.insn 0xff000 0 12 8 rfl
  have h20 : (d.insn >>> 9) &&& (0x800 : BitVec 32) = (d.insn.extractLsb' 20 1).setWidth 32 <<< 11 :=
    shiftRight_piece rfl
  have h21 : (d.insn >>> 20) &&& (0x7fe : BitVec 32) = (d.insn.extractLsb' 21 10).setWidth 32 <<< 1 :=
    shiftRight_piece rfl
  unfold Decoder.immJ
  rw [h12, h20, h21, ← sign_append _ _ (by decide), setWidth_append, setWidth_append, setWidth_append,
    setWidth_shiftLeft_piece _ (by decide) (by decide), setWidth_shiftLeft_piece _ (by decide) (by decide),
    setWidth_shiftLeft_piece _ (by decide) (by decide), BitVec.setWidth_zero]
  simp only [BitVec.or_assoc, BitVec.or_zero]

theorem toNat_shamt (d : Decoder) : d.shamt.toNat = (d.insn.extractLsb' 20 6).toNat := by
  have hmask : ∀ i, i < 64 → (0x3f : Word).getLsbD i = decide (i < 6) := by decide
  have hcut : d.immI &&& 0x3f = (d.insn.extractLsb' 20 6).setWidth 64 := by
    apply BitVec.eq_of_getLsbD_eq
    intro i hi
    rw [immI_eq, BitVec.getLsbD_and, hmask i hi, BitVec.getLsbD_signExtend,
      BitVec.getLsbD_setWidth, BitVec.getLsbD_extractLsb', BitVec.getLsbD_extractLsb']
    by_cases h6 : i < 6
    · have h12 : i < 12 := by omega
      simp [hi, h6, h12]
    · simp [h6]
  have hlt := (d.insn.extractLsb' 20 6).isLt
  rw [shamt, hcut, BitVec.toNat_setWidth, BitVec.toNat_setWidth, Nat.mod_eq_of_lt (by omega),
    Nat.mod_eq_of_lt (by omega)]

end Decoder

theorem Ctype.lowReg_eq (d : Decoder) : Ctype.lowReg d = d.insn.extractLsb' 2 5 :=
  setWidth_field d.insn 2 5

end Rv64gcEmu
