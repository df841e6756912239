import Rv64gcEmu.Immediate

/-- The formats of the instructions of 32 bits. -/
inductive InsnFormat where
  | r
  | r4
  | i
  | s
  | b
  | u
  | j
  deriving DecidableEq, Repr

/-- An instruction as the fields of its format, the upper ones first. -/
inductive Insn where
  | r (funct7 : BitVec 7) (rs2 rs1 : BitVec 5) (funct3 : BitVec 3) (rd : BitVec 5)
    (opcode : BitVec 7)
  | r4 (rs3 : BitVec 5) (fmt : BitVec 2) (rs2 rs1 : BitVec 5) (funct3 : BitVec 3)
    (rd : BitVec 5) (opcode : BitVec 7)
  | i (imm : Immediate 64 12 0) (rs1 : BitVec 5) (funct3 : BitVec 3) (rd : BitVec 5)
    (opcode : BitVec 7)
  | s (imm : Immediate 64 12 0) (rs2 rs1 : BitVec 5) (funct3 : BitVec 3) (opcode : BitVec 7)
  | b (imm : Immediate 64 13 1) (rs2 rs1 : BitVec 5) (funct3 : BitVec 3) (opcode : BitVec 7)
  | u (imm : Immediate 64 32 12) (rd : BitVec 5) (opcode : BitVec 7)
  | j (imm : Immediate 64 21 1) (rd : BitVec 5) (opcode : BitVec 7)
  deriving DecidableEq

namespace Insn

def format : Insn → InsnFormat
  | r .. => .r
  | r4 .. => .r4
  | i .. => .i
  | s .. => .s
  | b .. => .b
  | u .. => .u
  | j .. => .j

/-- The layout of the words: `imm.val.extractLsb' lo n` are the bits `lo + n - 1` to `lo` of
the immediate. -/
def encode : Insn → BitVec 32
  | r funct7 rs2 rs1 funct3 rd opcode => funct7 ++ rs2 ++ rs1 ++ funct3 ++ rd ++ opcode
  | r4 rs3 fmt rs2 rs1 funct3 rd opcode => rs3 ++ fmt ++ rs2 ++ rs1 ++ funct3 ++ rd ++ opcode
  | i imm rs1 funct3 rd opcode => imm.val.extractLsb' 0 12 ++ rs1 ++ funct3 ++ rd ++ opcode
  | s imm rs2 rs1 funct3 opcode =>
    imm.val.extractLsb' 5 7 ++ rs2 ++ rs1 ++ funct3 ++ imm.val.extractLsb' 0 5 ++ opcode
  | b imm rs2 rs1 funct3 opcode =>
    imm.val.extractLsb' 12 1 ++ imm.val.extractLsb' 5 6 ++ rs2 ++ rs1 ++ funct3 ++
      imm.val.extractLsb' 1 4 ++ imm.val.extractLsb' 11 1 ++ opcode
  | u imm rd opcode => imm.val.extractLsb' 12 20 ++ rd ++ opcode
  | j imm rd opcode =>
    imm.val.extractLsb' 20 1 ++ imm.val.extractLsb' 1 10 ++ imm.val.extractLsb' 11 1 ++
      imm.val.extractLsb' 12 8 ++ rd ++ opcode

end Insn

namespace InsnWord

open BitVec (extractLsb'_append_eq_left extractLsb'_append_eq_right extractLsb'_append_eq_of_le
  extractLsb'_append_eq_of_add_le extractLsb'_append_extractLsb'_eq_extractLsb')

section Layout

variable (w : BitVec 32)

def immI : BitVec 12 := w.extractLsb' 20 12

def immS : BitVec 12 := w.extractLsb' 25 7 ++ w.extractLsb' 7 5

def immB : BitVec 13 :=
  w.extractLsb' 31 1 ++ (w.extractLsb' 7 1 ++ (w.extractLsb' 25 6 ++ (w.extractLsb' 8 4 ++ 0#1)))

def immU : BitVec 32 := w.extractLsb' 12 20 ++ 0#12

def immJ : BitVec 21 :=
  w.extractLsb' 31 1 ++ (w.extractLsb' 12 8 ++ (w.extractLsb' 20 1 ++ (w.extractLsb' 21 10 ++ 0#1)))

end Layout

section Immediates

variable {w : BitVec 32} {x : BitVec 64}

theorem isImmediate_immI (hx : x = (immI w).signExtend 64) : IsImmediate 12 0 x :=
  .of_signExtend_zero hx (by decide)

theorem isImmediate_immS (hx : x = (immS w).signExtend 64) : IsImmediate 12 0 x :=
  .of_signExtend_zero hx (by decide)

theorem isImmediate_immB (hx : x = (immB w).signExtend 64) : IsImmediate 13 1 x := by
  refine .of_signExtend hx (by decide) (by decide) ?_
  rw [immB, extractLsb'_append_eq_of_add_le (by decide), extractLsb'_append_eq_of_add_le (by decide),
    extractLsb'_append_eq_of_add_le (by decide), extractLsb'_append_eq_right]

theorem isImmediate_immU (hx : x = (immU w).signExtend 64) : IsImmediate 32 12 x := by
  refine .of_signExtend hx (by decide) (by decide) ?_
  rw [immU, extractLsb'_append_eq_right]

theorem isImmediate_immJ (hx : x = (immJ w).signExtend 64) : IsImmediate 21 1 x := by
  refine .of_signExtend hx (by decide) (by decide) ?_
  rw [immJ, extractLsb'_append_eq_of_add_le (by decide), extractLsb'_append_eq_of_add_le (by decide),
    extractLsb'_append_eq_of_add_le (by decide), extractLsb'_append_eq_right]

end Immediates

end InsnWord

namespace Insn

/-- A word, read in a format. -/
def decode (w : BitVec 32) : InsnFormat → Insn
  | .r => r (w.extractLsb' 25 7) (w.extractLsb' 20 5) (w.extractLsb' 15 5) (w.extractLsb' 12 3)
    (w.extractLsb' 7 5) (w.extractLsb' 0 7)
  | .r4 => r4 (w.extractLsb' 27 5) (w.extractLsb' 25 2) (w.extractLsb' 20 5) (w.extractLsb' 15 5)
    (w.extractLsb' 12 3) (w.extractLsb' 7 5) (w.extractLsb' 0 7)
  | .i => i ⟨(InsnWord.immI w).signExtend 64, InsnWord.isImmediate_immI rfl⟩ (w.extractLsb' 15 5)
    (w.extractLsb' 12 3) (w.extractLsb' 7 5) (w.extractLsb' 0 7)
  | .s => s ⟨(InsnWord.immS w).signExtend 64, InsnWord.isImmediate_immS rfl⟩ (w.extractLsb' 20 5)
    (w.extractLsb' 15 5) (w.extractLsb' 12 3) (w.extractLsb' 0 7)
  | .b => b ⟨(InsnWord.immB w).signExtend 64, InsnWord.isImmediate_immB rfl⟩ (w.extractLsb' 20 5)
    (w.extractLsb' 15 5) (w.extractLsb' 12 3) (w.extractLsb' 0 7)
  | .u => u ⟨(InsnWord.immU w).signExtend 64, InsnWord.isImmediate_immU rfl⟩ (w.extractLsb' 7 5)
    (w.extractLsb' 0 7)
  | .j => j ⟨(InsnWord.immJ w).signExtend 64, InsnWord.isImmediate_immJ rfl⟩ (w.extractLsb' 7 5)
    (w.extractLsb' 0 7)

open BitVec (extractLsb'_append_eq_left extractLsb'_append_eq_right extractLsb'_append_eq_of_le
  extractLsb'_append_eq_of_add_le extractLsb'_append_extractLsb'_eq_extractLsb' extractLsb'_eq_self)
open SignedWord (extractLsb'_signExtend)
open InsnWord (immI immS immB immU immJ)

/-- The pieces of a word stand side by side, so that they join to the word. -/
theorem encode_decode (w : BitVec 32) (f : InsnFormat) : (decode w f).encode = w := by
  cases f with
  | r =>
    simp (disch := decide) only [decode, encode, extractLsb'_append_extractLsb'_eq_extractLsb']
    exact extractLsb'_eq_self
  | r4 =>
    simp (disch := decide) only [decode, encode, extractLsb'_append_extractLsb'_eq_extractLsb']
    exact extractLsb'_eq_self
  | i =>
    simp (disch := decide) only [decode, encode, immI, extractLsb'_signExtend, extractLsb'_eq_self]
    simp (disch := decide) only [extractLsb'_append_extractLsb'_eq_extractLsb']
    exact extractLsb'_eq_self
  | s =>
    simp (disch := decide) only [decode, encode, immS, extractLsb'_signExtend,
      extractLsb'_append_eq_left, extractLsb'_append_eq_right]
    simp (disch := decide) only [extractLsb'_append_extractLsb'_eq_extractLsb']
    exact extractLsb'_eq_self
  | b =>
    -- The pieces of the immediate are those of the word that it was put together from.
    simp (disch := decide) only [decode, encode, immB, extractLsb'_signExtend,
      extractLsb'_append_eq_left, extractLsb'_append_eq_of_add_le]
    simp (disch := decide) only [extractLsb'_append_extractLsb'_eq_extractLsb']
    exact extractLsb'_eq_self
  | u =>
    simp (disch := decide) only [decode, encode, immU, extractLsb'_signExtend,
      extractLsb'_append_eq_left]
    simp (disch := decide) only [extractLsb'_append_extractLsb'_eq_extractLsb']
    exact extractLsb'_eq_self
  | j =>
    simp (disch := decide) only [decode, encode, immJ, extractLsb'_signExtend,
      extractLsb'_append_eq_left, extractLsb'_append_eq_of_add_le]
    simp (disch := decide) only [extractLsb'_append_extractLsb'_eq_extractLsb']
    exact extractLsb'_eq_self

section Pieces

variable (rs2 rs1 : BitVec 5) (funct3 : BitVec 3) (rd : BitVec 5) (opcode : BitVec 7)

theorem immI_encode (imm : Immediate 64 12 0) :
    immI (encode (i imm rs1 funct3 rd opcode)) = imm.val.extractLsb' 0 12 := by
  simp (disch := decide) only [immI, encode, extractLsb'_append_eq_of_le, extractLsb'_eq_self,
    Nat.reduceSub]

theorem immS_encode (imm : Immediate 64 12 0) :
    immS (encode (s imm rs2 rs1 funct3 opcode)) = imm.val.extractLsb' 0 12 := by
  simp (disch := decide) only [immS, encode, extractLsb'_append_eq_of_le,
    extractLsb'_append_eq_right, extractLsb'_eq_self, Nat.reduceSub]
  exact extractLsb'_append_extractLsb'_eq_extractLsb' (by decide)

theorem immB_encode (imm : Immediate 64 13 1) :
    immB (encode (b imm rs2 rs1 funct3 opcode)) = imm.val.extractLsb' 0 13 := by
  simp (disch := decide) only [immB, encode, extractLsb'_append_eq_of_le,
    extractLsb'_append_eq_right, extractLsb'_eq_self, Nat.reduceSub]
  rw [← imm.2.low_eq_zero (by decide)]
  simp (disch := decide) only [extractLsb'_append_extractLsb'_eq_extractLsb']

theorem immU_encode (imm : Immediate 64 32 12) :
    immU (encode (u imm rd opcode)) = imm.val.extractLsb' 0 32 := by
  simp (disch := decide) only [immU, encode, extractLsb'_append_eq_of_le, extractLsb'_eq_self,
    Nat.reduceSub]
  rw [← imm.2.low_eq_zero (by decide)]
  exact extractLsb'_append_extractLsb'_eq_extractLsb' (by decide)

theorem immJ_encode (imm : Immediate 64 21 1) :
    immJ (encode (j imm rd opcode)) = imm.val.extractLsb' 0 21 := by
  simp (disch := decide) only [immJ, encode, extractLsb'_append_eq_of_le,
    extractLsb'_append_eq_right, extractLsb'_eq_self, Nat.reduceSub]
  rw [← imm.2.low_eq_zero (by decide)]
  simp (disch := decide) only [extractLsb'_append_extractLsb'_eq_extractLsb']

end Pieces

theorem decode_encode (insn : Insn) : decode insn.encode insn.format = insn := by
  cases insn with
  | r funct7 rs2 rs1 funct3 rd opcode =>
    simp (disch := decide) only [format, decode, encode, extractLsb'_append_eq_of_le,
      extractLsb'_append_eq_right, extractLsb'_eq_self, Nat.reduceSub]
  | r4 rs3 fmt rs2 rs1 funct3 rd opcode =>
    simp (disch := decide) only [format, decode, encode, extractLsb'_append_eq_of_le,
      extractLsb'_append_eq_right, extractLsb'_eq_self, Nat.reduceSub]
  | i imm rs1 funct3 rd opcode =>
    simp only [format, decode, immI_encode, imm.2.signExtend_low (by decide) (by decide)]
    simp (disch := decide) only [encode, extractLsb'_append_eq_of_le,
      extractLsb'_append_eq_right, Nat.reduceSub]
  | s imm rs2 rs1 funct3 opcode =>
    simp only [format, decode, immS_encode, imm.2.signExtend_low (by decide) (by decide)]
    simp (disch := decide) only [encode, extractLsb'_append_eq_of_le,
      extractLsb'_append_eq_right, Nat.reduceSub]
  | b imm rs2 rs1 funct3 opcode =>
    simp only [format, decode, immB_encode, imm.2.signExtend_low (by decide) (by decide)]
    simp (disch := decide) only [encode, extractLsb'_append_eq_of_le,
      extractLsb'_append_eq_right, Nat.reduceSub]
  | u imm rd opcode =>
    simp only [format, decode, immU_encode, imm.2.signExtend_low (by decide) (by decide)]
    simp (disch := decide) only [encode, extractLsb'_append_eq_of_le,
      extractLsb'_append_eq_right, Nat.reduceSub]
  | j imm rd opcode =>
    simp only [format, decode, immJ_encode, imm.2.signExtend_low (by decide) (by decide)]
    simp (disch := decide) only [encode, extractLsb'_append_eq_of_le,
      extractLsb'_append_eq_right, Nat.reduceSub]

-- `beq zero, zero, -4` and `jal ra, -4`.
example : encode (b ⟨-4, by decide⟩ 0 0 0 0x63) = 0xfe000ee3 := by decide
example : encode (j ⟨-4, by decide⟩ 1 0x6f) = 0xffdff0ef := by decide

end Insn
