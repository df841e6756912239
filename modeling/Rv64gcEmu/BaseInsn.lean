import Rv64gcEmu.BitField
import Rv64gcEmu.Mmu

namespace Rv64gcEmu

inductive AluOp where
  | add
  | sub
  | xor
  | or
  | and
  | addw
  | subw
  | sll
  | srl
  | sra
  deriving DecidableEq, Repr

/-- Shifts take their amount from the low six bits. -/
def AluOp.eval : AluOp → Word → Word → Word
  | .add, a, b => a + b
  | .sub, a, b => a - b
  | .xor, a, b => a ^^^ b
  | .or, a, b => a ||| b
  | .and, a, b => a &&& b
  | .addw, a, b => ((a + b).setWidth 32).signExtend 64
  | .subw, a, b => ((a - b).setWidth 32).signExtend 64
  | .sll, a, b => a <<< (b.toNat % 64)
  | .srl, a, b => a >>> (b.toNat % 64)
  | .sra, a, b => a.sshiftRight (b.toNat % 64)

/-- The base instructions that compressed ones stand for. Immediates and offsets are given as the
extended words. -/
inductive BaseInsn where
  | alu (op : AluOp) (rd rs1 rs2 : BitVec 5)
  | aluImm (op : AluOp) (rd rs1 : BitVec 5) (imm : Word)
  | lui (rd : BitVec 5) (imm : Word)
  | load (length : Width) (rd rs1 : BitVec 5) (offset : Word)
  | store (length : Width) (rs1 rs2 : BitVec 5) (offset : Word)
  | jal (rd : BitVec 5) (offset : Word)
  | beq (rs1 rs2 : BitVec 5) (offset : Word)
  | bne (rs1 rs2 : BitVec 5) (offset : Word)
  deriving DecidableEq

/-- A register other than `x0`. -/
def Cpu.writeReg (cpu : Cpu) (rd : BitVec 5) (v : Word) : Cpu :=
  if rd = 0 then cpu else cpu.setReg rd v

namespace BaseInsn

/-- One step, for an instruction of `size` bytes: the resulting `pc` is that of the
next instruction. A faulting access has no result. -/
def exec (size : Word) (cpu : Cpu) : BaseInsn → HostM Cpu
  | alu op rd rs1 rs2 =>
    .ok ((cpu.writeReg rd (op.eval (cpu.regs rs1) (cpu.regs rs2))).setPc (cpu.pc + size))
  | aluImm op rd rs1 imm =>
    .ok ((cpu.writeReg rd (op.eval (cpu.regs rs1) imm)).setPc (cpu.pc + size))
  | lui rd imm => .ok ((cpu.writeReg rd imm).setPc (cpu.pc + size))
  | load length rd rs1 offset => do
    let (v, cpu) ← Mmu.load cpu (cpu.regs rs1 + offset) length
    if cpu.excVal = none then
      .ok ((cpu.writeReg rd ((v.setWidth length.bits).signExtend 64)).setPc (cpu.pc + size))
    else .ok cpu
  | store length rs1 rs2 offset => do
    let cpu ← Mmu.store cpu (cpu.regs rs1 + offset)
      (((cpu.regs rs2).setWidth length.bits).setWidth 64) length
    if cpu.excVal = none then .ok (cpu.setPc (cpu.pc + size)) else .ok cpu
  | jal rd offset => .ok ((cpu.writeReg rd (cpu.pc + size)).setPc (cpu.pc + offset))
  | beq rs1 rs2 offset =>
    .ok (cpu.setPc (cpu.pc + if cpu.regs rs1 = cpu.regs rs2 then offset else size))
  | bne rs1 rs2 offset =>
    .ok (cpu.setPc (cpu.pc + if cpu.regs rs1 ≠ cpu.regs rs2 then offset else size))

end BaseInsn

namespace Expand

open BitField (gather)

variable (h : BitVec 16)

/-- A three-bit register field names `x8` to `x15`. -/
def creg (lo : Nat) : BitVec 5 := 1#2 ++ h.extractLsb' lo 3

def reg (lo : Nat) : BitVec 5 := h.extractLsb' lo 5

def unsigned (n : Nat) (pieces : List (Nat × Nat × Nat)) : Word := (gather h n pieces).setWidth 64

def signed (n : Nat) (pieces : List (Nat × Nat × Nat)) : Word := (gather h n pieces).signExtend 64

def imm6 : Word := signed h 6 [(5, 12, 1), (0, 2, 5)]
def shamt : Word := unsigned h 6 [(5, 12, 1), (0, 2, 5)]
def wordOffset : Word := unsigned h 7 [(6, 5, 1), (3, 10, 3), (2, 6, 1)]
def doubleOffset : Word := unsigned h 8 [(6, 5, 2), (3, 10, 3)]

def branchOffset : Word := signed h 9 [(8, 12, 1), (6, 5, 2), (5, 2, 1), (3, 10, 2), (1, 3, 2)]

def jumpOffset : Word :=
  signed h 12 [(11, 12, 1), (10, 8, 1), (8, 9, 2), (7, 6, 1), (6, 7, 1), (5, 2, 1), (4, 11, 1),
    (1, 3, 3)]

def addi4spnImm : Word := unsigned h 10 [(6, 7, 4), (4, 11, 2), (3, 5, 1), (2, 6, 1)]

def addi16spImm : Word :=
  signed h 10 [(9, 12, 1), (7, 3, 2), (6, 5, 1), (5, 2, 1), (4, 6, 1)]

def luiImm : Word := signed h 18 [(17, 12, 1), (12, 2, 5)]

def quadrant0 : Option BaseInsn :=
  match h.extractLsb' 13 3 with
  | 0 => if addi4spnImm h = 0 then none else some (.aluImm .add (creg h 2) 2 (addi4spnImm h))
  | 2 => some (.load .w32 (creg h 2) (creg h 7) (wordOffset h))
  | 3 => some (.load .w64 (creg h 2) (creg h 7) (doubleOffset h))
  | 6 => some (.store .w32 (creg h 7) (creg h 2) (wordOffset h))
  | 7 => some (.store .w64 (creg h 7) (creg h 2) (doubleOffset h))
  | _ => none

/-- The arithmetic on two of the eight registers. -/
def arith : Option AluOp :=
  if h.getLsbD 12 then
    match h.extractLsb' 5 2 with
    | 0 => some .subw
    | 1 => some .addw
    | _ => none
  else
    match h.extractLsb' 5 2 with
    | 0 => some .sub
    | 1 => some .xor
    | 2 => some .or
    | _ => some .and

def quadrant1 : Option BaseInsn :=
  match h.extractLsb' 13 3 with
  | 0 => some (.aluImm .add (reg h 7) (reg h 7) (imm6 h))
  | 1 => if reg h 7 = 0 then none else some (.aluImm .addw (reg h 7) (reg h 7) (imm6 h))
  | 2 => some (.aluImm .add (reg h 7) 0 (imm6 h))
  | 3 =>
    if imm6 h = 0 then none
    else if reg h 7 = 2 then some (.aluImm .add 2 2 (addi16spImm h))
    else some (.lui (reg h 7) (luiImm h))
  | 4 =>
    match h.extractLsb' 10 2 with
    | 0 => some (.aluImm .srl (creg h 7) (creg h 7) (shamt h))
    | 1 => some (.aluImm .sra (creg h 7) (creg h 7) (shamt h))
    | 2 => some (.aluImm .and (creg h 7) (creg h 7) (imm6 h))
    | _ => (arith h).map fun op => .alu op (creg h 7) (creg h 7) (creg h 2)
  | 5 => some (.jal 0 (jumpOffset h))
  | 6 => some (.beq (creg h 7) 0 (branchOffset h))
  | _ => some (.bne (creg h 7) 0 (branchOffset h))

def quadrant2 : Option BaseInsn :=
  match h.extractLsb' 13 3 with
  | 0 => some (.aluImm .sll (reg h 7) (reg h 7) (shamt h))
  | 2 =>
    if reg h 7 = 0 then none
    else some (.load .w32 (reg h 7) 2 (unsigned h 8 [(6, 2, 2), (5, 12, 1), (2, 4, 3)]))
  | 3 =>
    if reg h 7 = 0 then none
    else some (.load .w64 (reg h 7) 2 (unsigned h 9 [(6, 2, 3), (5, 12, 1), (3, 5, 2)]))
  | 4 =>
    if reg h 2 = 0 then none
    else if h.getLsbD 12 then some (.alu .add (reg h 7) (reg h 7) (reg h 2))
    else some (.alu .add (reg h 7) 0 (reg h 2))
  | 6 => some (.store .w32 2 (reg h 2) (unsigned h 8 [(6, 7, 2), (2, 9, 4)]))
  | 7 => some (.store .w64 2 (reg h 2) (unsigned h 9 [(6, 7, 3), (3, 10, 3)]))
  | _ => none

end Expand

/-- The instruction that a legal encoding of the integer subset is defined to be. -/
def expand (h : BitVec 16) : Option BaseInsn :=
  match h.extractLsb' 0 2 with
  | 0 => Expand.quadrant0 h
  | 1 => Expand.quadrant1 h
  | 2 => Expand.quadrant2 h
  | _ => none

end Rv64gcEmu
