import Rv64gcEmu.Control
import Rv64gcEmu.DecoderFields
import Rv64gcEmu.InsnFormat
import Rv64gcEmu.WideProduct

namespace Rv64gcEmu

open BitField (setWidth_append shiftRight_piece)

namespace Decoder

/-- The immediate that `auipc::auipc` and `lui::lui` cut out by themselves. -/
def upperImm (d : Decoder) : Word := signExtendCast (d.insn &&& 0xfffff000) 32

theorem upperImm_eq (d : Decoder) : d.upperImm = (InsnWord.immU d.insn).signExtend 64 := by
  have hcut : d.insn &&& (0xfffff000 : BitVec 32) = (d.insn.extractLsb' 12 20).setWidth 32 <<< 12 :=
    @shiftRight_piece _ d.insn 0xfffff000 0 12 20 rfl
  have happend : (InsnWord.immU d.insn).setWidth 32 =
      (d.insn.extractLsb' 12 20).setWidth 32 <<< 12 := by
    rw [InsnWord.immU, setWidth_append, BitVec.setWidth_zero, BitVec.or_zero]
  rw [upperImm, signExtendCast, hcut, ← happend, BitVec.setWidth_eq, BitVec.setWidth_eq]

/-- `Decoder::imm_u`, which `dump` alone prints. -/
def immU (d : Decoder) : Word := signExtendCast (d.insn &&& 0xfffff999) 32

/-- Its mask lets bits of `rd` and of the opcode through. -/
theorem immU_eq_upperImm_iff (d : Decoder) : d.immU = d.upperImm ↔ d.insn &&& 0x999 = 0#32 := by
  have hmask : (0xfffff999 : BitVec 32) = 0xfffff000 ||| 0x999 := rfl
  have hsplit : d.insn &&& 0xfffff999 = (d.insn &&& 0xfffff000) ||| (d.insn &&& 0x999) := by
    rw [hmask, BitVec.and_or_distrib_left]
  constructor
  · intro h
    have hlow := congrArg (BitVec.setWidth 32) h
    simp only [immU, upperImm, signExtendCast, BitVec.setWidth_eq,
      WideProduct.setWidth_signExtend _ (show 32 ≤ 64 by decide)] at hlow
    have hand := congrArg (· &&& (0x999 : BitVec 32)) hlow
    simpa [BitVec.and_assoc] using hand
  · intro h
    rw [immU, upperImm, hsplit, h, BitVec.or_zero]

/-- The word as the decoder's functions read it in a format. -/
def read (d : Decoder) : InsnFormat → Insn
  | .r => .r d.funct7 d.rs2 d.rs1 d.funct3 d.rd d.opcode
  -- `funct2` has one of the two bits below `rs3`, so that these are the word's own.
  | .r4 => .r4 d.rs3 (d.insn.extractLsb' 25 2) d.rs2 d.rs1 d.funct3 d.rd d.opcode
  | .i => .i ⟨d.immI, InsnWord.isImmediate_immI d.immI_eq⟩ d.rs1 d.funct3 d.rd d.opcode
  | .s => .s ⟨d.immS, InsnWord.isImmediate_immS d.immS_eq⟩ d.rs2 d.rs1 d.funct3 d.opcode
  | .b => .b ⟨d.immB, InsnWord.isImmediate_immB d.immB_eq⟩ d.rs2 d.rs1 d.funct3 d.opcode
  | .u => .u ⟨d.upperImm, InsnWord.isImmediate_immU d.upperImm_eq⟩ d.rd d.opcode
  | .j => .j ⟨d.immJ, InsnWord.isImmediate_immJ d.immJ_eq⟩ d.rd d.opcode

theorem read_format (d : Decoder) (f : InsnFormat) : (d.read f).format = f := by
  cases f <;> rfl

/-- The decoder reads a word as the layout of the format says. -/
theorem read_eq_decode (d : Decoder) (f : InsnFormat) : d.read f = Insn.decode d.insn f := by
  cases f with
  | r => simp only [read, Insn.decode, funct7_eq, rs2_eq, rs1_eq, funct3_eq, rd_eq, opcode_eq]
  | r4 => simp only [read, Insn.decode, rs3_eq, rs2_eq, rs1_eq, funct3_eq, rd_eq, opcode_eq]
  | i =>
    simp only [read, Insn.decode, immI_eq, rs1_eq, funct3_eq, rd_eq, opcode_eq]
    rfl
  | s =>
    simp only [read, Insn.decode, immS_eq, rs2_eq, rs1_eq, funct3_eq, opcode_eq]
    rfl
  | b =>
    simp only [read, Insn.decode, immB_eq, rs2_eq, rs1_eq, funct3_eq, opcode_eq]
    rfl
  | u => simp only [read, Insn.decode, upperImm_eq, rd_eq, opcode_eq]
  | j =>
    simp only [read, Insn.decode, immJ_eq, rd_eq, opcode_eq]
    rfl

theorem encode_read (d : Decoder) (f : InsnFormat) : (d.read f).encode = d.insn := by
  rw [read_eq_decode]
  exact Insn.encode_decode d.insn f

theorem read_of_encode (d : Decoder) {insn : Insn} (h : d.insn = insn.encode) :
    d.read insn.format = insn := by
  rw [read_eq_decode, h]
  exact Insn.decode_encode insn

end Decoder

/-- Decoding and encoding are inverse to each other, in every format, and the immediate of the
format `u` is the one that `lui` and `auipc` use. -/
theorem decoding_inverts_encoding :
    (∀ (d : Decoder) (f : InsnFormat), (d.read f).format = f ∧ (d.read f).encode = d.insn) ∧
      (∀ insn : Insn, (Decoder.mk insn.encode).read insn.format = insn) ∧
      ∀ (d : Decoder) (cpu : Cpu), Lui.lui cpu d = .ok (cpu.setReg d.rd d.upperImm) ∧
        Auipc.auipc cpu d = .ok (cpu.setReg d.rd (cpu.pc + d.upperImm)) := by
  refine ⟨?_, fun _ => Decoder.read_of_encode _ rfl, ?_⟩
  · intro d f
    exact ⟨d.read_format f, d.encode_read f⟩
  · intro d cpu
    exact ⟨rfl, rfl⟩

end Rv64gcEmu
