import Rv64gcEmu.Cpu

namespace Rv64gcEmu

def boolWord (b : Bool) : Word := if b then 1 else 0

/-- `static_cast<int32_t>` and back: the low 32 bits. -/
abbrev low32 (v : Word) : BitVec 32 := v.setWidth 32

namespace Itype

/-- `regs[rd] = op(regs[rs1], imm)`. -/
def immOp (op : Word → Word → Word) (cpu : Cpu) (d : Decoder) : HostM Cpu :=
  .ok (cpu.setReg d.rd (op (cpu.regs d.rs1) d.immI))

def addi := immOp fun x imm => x + imm
def slti := immOp fun x imm => boolWord (x.slt imm)
def sltiu := immOp fun x imm => boolWord (x.ult imm)
def xori := immOp fun x imm => x ^^^ imm
def ori := immOp fun x imm => x ||| imm
def andi := immOp fun x imm => x &&& imm

def slli (cpu : Cpu) (d : Decoder) : HostM Cpu :=
  .ok (cpu.setReg d.rd (cpu.regs d.rs1 <<< d.shamt.toNat))

def srli (cpu : Cpu) (d : Decoder) : HostM Cpu :=
  .ok (cpu.setReg d.rd (cpu.regs d.rs1 >>> d.shamt.toNat))

/-- The amount is the whole immediate, with the bit that tells `SRAI` from `SRLI`. -/
def srai (cpu : Cpu) (d : Decoder) : HostM Cpu := do
  checkShift 64 d.immI
  .ok (cpu.setReg d.rd ((cpu.regs d.rs1).sshiftRight d.immI.toNat))

def funct3 (cpu : Cpu) (d : Decoder) : HostM Cpu :=
  match d.funct3 with
  | 0x0 => addi cpu d
  | 0x1 => slli cpu d
  | 0x2 => slti cpu d
  | 0x3 => sltiu cpu d
  | 0x4 => xori cpu d
  | 0x5 =>
    match d.funct7 >>> 1 with
    | 0x00 => srli cpu d
    | 0x10 => srai cpu d
    | _ => .ok (cpu.illegal d)
  | 0x6 => ori cpu d
  | _ => andi cpu d

end Itype

namespace I64

def addiw (cpu : Cpu) (d : Decoder) : HostM Cpu :=
  .ok (cpu.setReg d.rd (signExtendCast (cpu.regs d.rs1 + d.immI) 32))

def slliw (cpu : Cpu) (d : Decoder) : HostM Cpu :=
  .ok (cpu.setReg d.rd (signExtendCast (cpu.regs d.rs1 <<< d.shamt.toNat) 32))

def srliw (cpu : Cpu) (d : Decoder) : HostM Cpu := do
  checkShift 32 (d.shamt.setWidth 64)
  .ok (cpu.setReg d.rd (signExtendCast (low32 (cpu.regs d.rs1) >>> d.shamt.toNat) 32))

def sraiw (cpu : Cpu) (d : Decoder) : HostM Cpu := do
  checkShift 32 (d.shamt.setWidth 64)
  .ok (cpu.setReg d.rd (((low32 (cpu.regs d.rs1)).sshiftRight d.shamt.toNat).signExtend 64))

def funct3 (cpu : Cpu) (d : Decoder) : HostM Cpu :=
  match d.funct3 with
  | 0x0 => addiw cpu d
  | 0x1 => slliw cpu d
  | 0x5 =>
    match d.funct7 with
    | 0x00 => srliw cpu d
    | 0x20 => sraiw cpu d
    | _ => .ok (cpu.illegal d)
  | _ => .ok (cpu.illegal d)

end I64

namespace Rtype

/-- `regs[rd] = op(regs[rs1], regs[rs2])`, where the host may not define the result. -/
def regOp (op : Word → Word → HostM Word) (cpu : Cpu) (d : Decoder) : HostM Cpu := do
  let v ← op (cpu.regs d.rs1) (cpu.regs d.rs2)
  .ok (cpu.setReg d.rd v)

def add := regOp fun a b => .ok (a + b)
def mul := regOp fun a b => .ok (a * b)
def sub := regOp fun a b => .ok (a - b)

def sll := regOp fun a b => do
  checkShift 64 b
  .ok (a <<< b.toNat)

def mulh := regOp fun a b =>
  .ok (((a.signExtend 128 * b.signExtend 128).sshiftRight 64).setWidth 64)

def slt := regOp fun a b => .ok (boolWord (a.slt b))

def mulhsu := regOp fun a b =>
  .ok (((a.signExtend 128 * b.setWidth 128) >>> 64).setWidth 64)

def sltu := regOp fun a b => .ok (boolWord (a.ult b))

def mulhu := regOp fun a b =>
  .ok (((a.setWidth 128 * b.setWidth 128) >>> 64).setWidth 64)

def xor := regOp fun a b => .ok (a ^^^ b)

/-- The special case compares with the smallest `int32_t`. -/
def div := regOp fun a b =>
  if b = 0 then .ok (~~~0)
  else if a = (BitVec.intMin 32).signExtend 64 ∧ b = -1 then .ok a
  else do
    checkSignedDiv a b
    .ok (a.sdiv b)

def srl := regOp fun a b => do
  checkShift 64 b
  .ok (a >>> b.toNat)

def divu := regOp fun a b =>
  if b = 0 then .ok (~~~0)
  else .ok (a / b)

/-- The left operand is an `int32_t`. -/
def sra := regOp fun a b => do
  checkShift 32 b
  .ok (((low32 a).sshiftRight b.toNat).signExtend 64)

def or := regOp fun a b => .ok (a ||| b)

def rem := regOp fun a b =>
  if b = 0 then .ok a
  else if a = BitVec.intMin 64 ∧ b = -1 then .ok 0
  else do
    checkSignedDiv a b
    .ok (a.srem b)

def and := regOp fun a b => .ok (a &&& b)

def remu := regOp fun a b =>
  if b = 0 then .ok a
  else .ok (a % b)

def funct3 (cpu : Cpu) (d : Decoder) : HostM Cpu :=
  match d.funct3, d.funct7 with
  | 0x0, 0x00 => add cpu d
  | 0x0, 0x01 => mul cpu d
  | 0x0, 0x20 => sub cpu d
  | 0x1, 0x00 => sll cpu d
  | 0x1, 0x01 => mulh cpu d
  | 0x2, 0x00 => slt cpu d
  | 0x2, 0x01 => mulhsu cpu d
  | 0x3, 0x00 => sltu cpu d
  | 0x3, 0x01 => mulhu cpu d
  | 0x4, 0x00 => xor cpu d
  | 0x4, 0x01 => div cpu d
  | 0x5, 0x00 => srl cpu d
  | 0x5, 0x01 => divu cpu d
  | 0x5, 0x20 => sra cpu d
  | 0x6, 0x00 => or cpu d
  | 0x6, 0x01 => rem cpu d
  | 0x7, 0x00 => and cpu d
  | 0x7, 0x01 => remu cpu d
  | _, _ => .ok (cpu.illegal d)

end Rtype

namespace R64

open Rtype (regOp)

def addw := regOp fun a b => .ok (signExtendCast (a + b) 32)
def mulw := regOp fun a b => .ok (signExtendCast (a * b) 32)
def subw := regOp fun a b => .ok (signExtendCast (a - b) 32)

def divw := regOp fun a b =>
  if low32 b = 0 then .ok (~~~0)
  else if low32 a = BitVec.intMin 32 ∧ low32 b = -1 then .ok ((low32 a).signExtend 64)
  else do
    checkSignedDiv (low32 a) (low32 b)
    .ok (((low32 a).sdiv (low32 b)).signExtend 64)

def sllw := regOp fun a b => .ok (signExtendCast (a <<< (b &&& 0x1f).toNat) 32)

def srlw := regOp fun a b => .ok (signExtendCast (low32 a >>> (b &&& 0x1f).toNat) 32)

def divuw := regOp fun a b =>
  if low32 b = 0 then .ok (~~~0)
  else .ok (signExtendCast (low32 a / low32 b) 32)

def sraw := regOp fun a b => .ok (((low32 a).sshiftRight (b &&& 0x1f).toNat).signExtend 64)

/-- Only the dividend is cut to 32 bits, and a zero divisor is not looked for. -/
def remw := regOp fun a b => do
  let val1 := signExtendCast a 32
  checkSignedDiv val1 b
  .ok (signExtendCast (val1.srem b) 32)

/-- The remainder of the full 64-bit registers. -/
def remuw := regOp fun a b => do
  checkUnsignedDiv b
  .ok (a % b)

def funct3 (cpu : Cpu) (d : Decoder) : HostM Cpu :=
  match d.funct3 with
  | 0x0 =>
    match d.funct7 with
    | 0x00 => addw cpu d
    | 0x01 => mulw cpu d
    | 0x20 => subw cpu d
    | _ => .ok (cpu.illegal d)
  | 0x4 => divw cpu d
  | 0x1 => sllw cpu d
  | 0x5 =>
    match d.funct7 with
    | 0x00 => srlw cpu d
    | 0x01 => divuw cpu d
    | 0x20 => sraw cpu d
    | _ => .ok (cpu.illegal d)
  | 0x6 => remw cpu d
  | 0x7 => remuw cpu d
  | _ => .ok (cpu.illegal d)

end R64

end Rv64gcEmu
