import Rv64gcEmu.Helper

namespace Rv64gcEmu

/-- `OpcodeType`, without the three compressed quadrants. -/
inductive OpcodeType where
  | load
  | fence
  | auipc
  | lui
  | jalr
  | jal
  | i
  | s
  | r
  | b
  | fl
  | fs
  | fmadd
  | fmsub
  | fnmadd
  | fnmsub
  | fother
  | atomic
  | i64
  | r64
  | csr
  deriving DecidableEq, Repr

def OpcodeType.code : OpcodeType → BitVec 7
  | .load => 0x03
  | .fence => 0x0f
  | .auipc => 0x17
  | .lui => 0x37
  | .jalr => 0x67
  | .jal => 0x6f
  | .i => 0x13
  | .s => 0x23
  | .r => 0x33
  | .b => 0x63
  | .fl => 0x07
  | .fs => 0x27
  | .fmadd => 0x43
  | .fmsub => 0x47
  | .fnmadd => 0x4b
  | .fnmsub => 0x4f
  | .fother => 0x53
  | .atomic => 0x2f
  | .i64 => 0x1b
  | .r64 => 0x3b
  | .csr => 0x73

def OpcodeType.all : List OpcodeType :=
  [.load, .fence, .auipc, .lui, .jalr, .jal, .i, .s, .r, .b, .fl, .fs, .fmadd, .fmsub, .fnmadd,
    .fnmsub, .fother, .atomic, .i64, .r64, .csr]

structure Decoder where
  insn : BitVec 32
  deriving DecidableEq

namespace Decoder

def opcode (d : Decoder) : BitVec 7 := (d.insn &&& 0x7f).setWidth 7

/-- The case of `OpcodeType` that the opcode is, when there is one. -/
def opcodeType (d : Decoder) : Option OpcodeType :=
  OpcodeType.all.find? fun t => t.code = d.opcode

def rd (d : Decoder) : BitVec 5 := ((d.insn >>> 7) &&& 0x1f).setWidth 5

def rs1 (d : Decoder) : BitVec 5 := ((d.insn >>> 15) &&& 0x1f).setWidth 5

def rs2 (d : Decoder) : BitVec 5 := ((d.insn >>> 20) &&& 0x1f).setWidth 5

def rs3 (d : Decoder) : BitVec 5 := ((d.insn &&& 0xf8000000) >>> 27).setWidth 5

def immI (d : Decoder) : Word := ((d.insn &&& 0xfff00000).signExtend 64).sshiftRight 20

def immS (d : Decoder) : Word :=
  ((d.insn &&& 0xfe000000).signExtend 64).sshiftRight 20 |||
    ((d.insn >>> 7) &&& 0x1f).setWidth 64

def immB (d : Decoder) : Word :=
  ((d.insn &&& 0x80000000).signExtend 64).sshiftRight 19 |||
    ((d.insn &&& 0x80) <<< 4).setWidth 64 ||| ((d.insn >>> 20) &&& 0x7e0).setWidth 64 |||
    ((d.insn >>> 7) &&& 0x1e).setWidth 64

def immJ (d : Decoder) : Word :=
  ((d.insn &&& 0x80000000).signExtend 64).sshiftRight 11 |||
    (d.insn &&& 0xff000).setWidth 64 ||| ((d.insn >>> 9) &&& 0x800).setWidth 64 |||
    ((d.insn >>> 20) &&& 0x7fe).setWidth 64

/-- `(insn & 0x03000000U) >> 25U`: of the two bits the mask keeps, one is shifted out. -/
def funct2 (d : Decoder) : BitVec 32 := (d.insn &&& 0x03000000) >>> 25

def funct3 (d : Decoder) : BitVec 3 := ((d.insn >>> 12) &&& 0x7).setWidth 3

def funct7 (d : Decoder) : BitVec 7 := ((d.insn >>> 25) &&& 0x7f).setWidth 7

def funct5 (d : Decoder) : BitVec 5 := ((d.funct7 &&& 0x7c) >>> 2).setWidth 5

def flOffset (d : Decoder) : Word := (d.insn.signExtend 64).sshiftRight 20

def fsOffset (d : Decoder) : Word :=
  (d.flOffset &&& 0xfe0) ||| ((d.insn >>> 7) &&& 0x1f).setWidth 64

def shamt (d : Decoder) : BitVec 32 := (d.immI &&& 0x3f).setWidth 32

def csr (d : Decoder) : BitVec 12 := ((d.insn &&& 0xfff00000) >>> 20).setWidth 12

def compressedOpcode (d : Decoder) : BitVec 2 := (d.insn &&& 0x03).setWidth 2

def insnSize (d : Decoder) : Word := if d.compressedOpcode = 3 then 4 else 2

theorem insnSize_cases (d : Decoder) : d.insnSize = 2 ∨ d.insnSize = 4 := by
  unfold insnSize
  split
  next => exact .inr rfl
  next => exact .inl rfl

def compressedRd (d : Decoder) : BitVec 5 := (((d.insn >>> 2) &&& 0x07) + 8).setWidth 5

def compressedRs1 (d : Decoder) : BitVec 5 := (((d.insn >>> 7) &&& 0x07) + 8).setWidth 5

def compressedRs2 (d : Decoder) : BitVec 5 := (((d.insn >>> 2) &&& 0x07) + 8).setWidth 5

def compressedShamt (d : Decoder) : BitVec 32 :=
  ((d.insn >>> 7) &&& 0x20) ||| ((d.insn >>> 2) &&& 0x1f)

def compressedFunct3 (d : Decoder) : BitVec 3 := ((d.insn >>> 13) &&& 0x07).setWidth 3

def compressedFunct2 (d : Decoder) : BitVec 2 := ((d.insn >>> 10) &&& 0x3).setWidth 2

def fpRoundingMode (d : Decoder) : BitVec 2 := ((d.insn >>> 12) &&& 0x3).setWidth 2

end Decoder

end Rv64gcEmu
