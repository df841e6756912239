import Rv64gcEmu.Mmu

namespace Rv64gcEmu

namespace Load

/-- `ASSIGN_IF_NO_EXCEPTION`, after the load. -/
def assignIfNoException (cpu : Cpu) (rd : BitVec 5) (value : Word) : Cpu :=
  if cpu.excVal = none then cpu.setReg rd value else cpu

def loadOp (extend : Word → Word) (length : Width) (cpu : Cpu) (d : Decoder) : HostM Cpu := do
  let addr := cpu.regs d.rs1 + d.immI
  let (value, cpu) ← Mmu.load cpu addr length
  .ok (assignIfNoException cpu d.rd (extend value))

def lb := loadOp (fun v => signExtendCast v 8) .w8
def lh := loadOp (fun v => signExtendCast v 16) .w16
def lw := loadOp (fun v => signExtendCast v 32) .w32
def ld := loadOp (fun v => signExtendCast v 64) .w64
def lbu := loadOp (fun v => v) .w8
def lhu := loadOp (fun v => v) .w16
def lwu := loadOp (fun v => v) .w32

def funct3 (cpu : Cpu) (d : Decoder) : HostM Cpu :=
  match d.funct3 with
  | 0x0 => lb cpu d
  | 0x1 => lh cpu d
  | 0x2 => lw cpu d
  | 0x3 => ld cpu d
  | 0x4 => lbu cpu d
  | 0x5 => lhu cpu d
  | 0x6 => lwu cpu d
  | _ => .ok (cpu.illegal d)

end Load

namespace Stype

def storeOp (length : Width) (cpu : Cpu) (d : Decoder) : HostM Cpu :=
  Mmu.store cpu (cpu.regs d.rs1 + d.immS) (cpu.regs d.rs2) length

def sb := storeOp .w8
def sh := storeOp .w16
def sw := storeOp .w32
def sd := storeOp .w64

def funct3 (cpu : Cpu) (d : Decoder) : HostM Cpu :=
  match d.funct3 with
  | 0x0 => sb cpu d
  | 0x1 => sh cpu d
  | 0x2 => sw cpu d
  | 0x3 => sd cpu d
  | _ => .ok (cpu.illegal d)

end Stype

end Rv64gcEmu
