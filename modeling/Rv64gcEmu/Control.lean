import Rv64gcEmu.Cpu

namespace Rv64gcEmu

namespace Btype

/-- `Cpu::loop` adds the length of the instruction, which the branch takes off beforehand. -/
def branchOp (cond : Word → Word → Bool) (cpu : Cpu) (d : Decoder) : HostM Cpu :=
  if cond (cpu.regs d.rs1) (cpu.regs d.rs2) then .ok (cpu.setPc (cpu.pc + (d.immB - 4)))
  else .ok cpu

def beq := branchOp fun a b => a = b
def bne := branchOp fun a b => a ≠ b
def blt := branchOp fun a b => a.slt b
def bge := branchOp fun a b => b.sle a
def bltu := branchOp fun a b => a.ult b
def bgeu := branchOp fun a b => b.ule a

def funct3 (cpu : Cpu) (d : Decoder) : HostM Cpu :=
  match d.funct3 with
  | 0x0 => beq cpu d
  | 0x1 => bne cpu d
  | 0x4 => blt cpu d
  | 0x5 => bge cpu d
  | 0x6 => bltu cpu d
  | 0x7 => bgeu cpu d
  | _ => .ok (cpu.illegal d)

end Btype

namespace Fence

def fence (cpu : Cpu) (_ : Decoder) : HostM Cpu := .ok cpu

end Fence

namespace Jal

def jal (cpu : Cpu) (d : Decoder) : HostM Cpu :=
  .ok ((cpu.setReg d.rd (cpu.pc + 4)).setPc (cpu.pc + (d.immJ - 4)))

end Jal

namespace Jalr

def jalr (cpu : Cpu) (d : Decoder) : HostM Cpu :=
  .ok ((cpu.setPc (((cpu.regs d.rs1 + d.immI) &&& ~~~1) - 4)).setReg d.rd (cpu.pc + 4))

end Jalr

namespace Auipc

def auipc (cpu : Cpu) (d : Decoder) : HostM Cpu :=
  .ok (cpu.setReg d.rd (cpu.pc + signExtendCast (d.insn &&& 0xfffff000) 32))

end Auipc

namespace Lui

def lui (cpu : Cpu) (d : Decoder) : HostM Cpu :=
  .ok (cpu.setReg d.rd (signExtendCast (d.insn &&& 0xfffff000) 32))

end Lui

end Rv64gcEmu
