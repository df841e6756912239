import Rv64gcEmu.Mmu

namespace Rv64gcEmu

namespace Ctype

def sp : BitVec 5 := 2
def ra : BitVec 5 := 1

def bits (x : BitVec 32) : Word := x.setWidth 64

def immAddi4spn (d : Decoder) : Word :=
  bits (((d.insn >>> 1) &&& 0x3c0) ||| ((d.insn >>> 7) &&& 0x30) ||| ((d.insn >>> 2) &&& 0x08) |||
    ((d.insn >>> 4) &&& 0x04))

def offsetWord (d : Decoder) : Word :=
  bits (((d.insn <<< 1) &&& 0x40) ||| ((d.insn >>> 7) &&& 0x38) ||| ((d.insn >>> 4) &&& 0x04))

def offsetDouble (d : Decoder) : Word :=
  bits (((d.insn <<< 1) &&& 0xc0) ||| ((d.insn >>> 7) &&& 0x38))

/-- The six-bit immediate of the arithmetic instructions. -/
def imm6 (d : Decoder) : Word :=
  let imm := bits (((d.insn >>> 7) &&& 0x20) ||| ((d.insn >>> 2) &&& 0x1f))
  if imm &&& 0x20 ≠ 0 then signExtendCast (imm ||| 0xc0) 8 else imm

def immAddi16sp (d : Decoder) : Word :=
  let imm := bits (((d.insn >>> 3) &&& 0x200) ||| ((d.insn >>> 2) &&& 0x10) |||
    ((d.insn <<< 1) &&& 0x40) ||| ((d.insn <<< 4) &&& 0x180) ||| ((d.insn <<< 3) &&& 0x20))
  if imm &&& 0x200 ≠ 0 then signExtendCast (imm ||| 0xfc00) 16 else imm

def immLui (d : Decoder) : Word :=
  let imm := bits (((d.insn <<< 5) &&& 0x20000) ||| ((d.insn <<< 10) &&& 0x1f000))
  if imm &&& 0x20000 ≠ 0 then signExtendCast (imm ||| 0xfffc0000) 32 else imm

def immJ (d : Decoder) : Word :=
  let imm := bits (((d.insn >>> 1) &&& 0x800) ||| ((d.insn <<< 2) &&& 0x400) |||
    ((d.insn >>> 1) &&& 0x300) ||| ((d.insn <<< 1) &&& 0x80) ||| ((d.insn >>> 1) &&& 0x40) |||
    ((d.insn <<< 3) &&& 0x20) ||| ((d.insn >>> 7) &&& 0x10) ||| ((d.insn >>> 2) &&& 0xe))
  if imm &&& 0x800 ≠ 0 then signExtendCast (imm ||| 0xf000) 16 else imm

def immBranch (d : Decoder) : Word :=
  let imm := bits (((d.insn >>> 4) &&& 0x100) ||| ((d.insn <<< 1) &&& 0xc0) |||
    ((d.insn <<< 3) &&& 0x20) ||| ((d.insn >>> 7) &&& 0x18) ||| ((d.insn >>> 2) &&& 0x6))
  if imm &&& 0x100 ≠ 0 then signExtendCast (imm ||| 0xfe00) 16 else imm

def offsetLwsp (d : Decoder) : Word :=
  bits (((d.insn <<< 4) &&& 0xc0) ||| ((d.insn >>> 7) &&& 0x20) ||| ((d.insn >>> 2) &&& 0x1c))

def offsetLdsp (d : Decoder) : Word :=
  bits (((d.insn <<< 4) &&& 0x1c0) ||| ((d.insn >>> 7) &&& 0x20) ||| ((d.insn >>> 2) &&& 0x18))

def offsetSwsp (d : Decoder) : Word :=
  bits (((d.insn >>> 1) &&& 0xc0) ||| ((d.insn >>> 7) &&& 0x3c))

def offsetSdsp (d : Decoder) : Word :=
  bits (((d.insn >>> 1) &&& 0x1c0) ||| ((d.insn >>> 7) &&& 0x38))

/-- `(decoder.insn >> 2) & 0x1f`, the second register of quadrant 2. -/
def lowReg (d : Decoder) : BitVec 5 := ((d.insn >>> 2) &&& 0x1f).setWidth 5

/-- A load that writes `rd` also when it failed. -/
def loadReg (addr : Word) (length : Width) (extend : Word → Word) (rd : BitVec 5) (cpu : Cpu) :
    HostM Cpu := do
  let (value, cpu) ← Mmu.load cpu addr length
  .ok (cpu.setReg rd (extend value))

def loadFreg (addr : Word) (rd : BitVec 5) (cpu : Cpu) : HostM Cpu := do
  let (value, cpu) ← Mmu.load cpu addr .w64
  .ok (cpu.setFreg rd value)

/-- `cpu.regs[rd] op= cpu.regs[rs]` and its siblings. -/
def update (cpu : Cpu) (rd : BitVec 5) (v : Word) : HostM Cpu := .ok (cpu.setReg rd v)

def addi4spn (cpu : Cpu) (d : Decoder) : HostM Cpu :=
  update cpu d.compressedRd (cpu.regs sp + immAddi4spn d)

def fld (cpu : Cpu) (d : Decoder) : HostM Cpu :=
  loadFreg (cpu.regs d.compressedRs1 + offsetDouble d) d.compressedRd cpu

def lw (cpu : Cpu) (d : Decoder) : HostM Cpu :=
  loadReg (cpu.regs d.compressedRs1 + offsetWord d) .w32 (fun v => signExtendCast v 32)
    d.compressedRd cpu

def ld (cpu : Cpu) (d : Decoder) : HostM Cpu :=
  loadReg (cpu.regs d.compressedRs1 + offsetDouble d) .w64 (fun v => v) d.compressedRd cpu

def reserved (cpu : Cpu) (d : Decoder) : HostM Cpu := .ok (cpu.illegal d)

/-- The register stored is `rs1`, which also holds the address. -/
def fsd (cpu : Cpu) (d : Decoder) : HostM Cpu :=
  Mmu.store cpu (cpu.regs d.compressedRs1 + offsetDouble d) (cpu.fregs d.compressedRs1) .w64

def sw (cpu : Cpu) (d : Decoder) : HostM Cpu :=
  Mmu.store cpu (cpu.regs d.compressedRs1 + offsetWord d)
    (((cpu.regs d.compressedRs2).setWidth 32).setWidth 64) .w32

def sd (cpu : Cpu) (d : Decoder) : HostM Cpu :=
  Mmu.store cpu (cpu.regs d.compressedRs1 + offsetDouble d) (cpu.regs d.compressedRs2) .w64

def quadrant0 (cpu : Cpu) (d : Decoder) : HostM Cpu :=
  match d.compressedFunct3 with
  | 0x0 => addi4spn cpu d
  | 0x1 => fld cpu d
  | 0x2 => lw cpu d
  | 0x3 => ld cpu d
  | 0x4 => reserved cpu d
  | 0x5 => fsd cpu d
  | 0x6 => sw cpu d
  | _ => sd cpu d

def addi (cpu : Cpu) (d : Decoder) : HostM Cpu := update cpu d.rd (cpu.regs d.rd + imm6 d)

def addiw (cpu : Cpu) (d : Decoder) : HostM Cpu :=
  update cpu d.rd (signExtendCast (cpu.regs d.rd + imm6 d) 32)

def li (cpu : Cpu) (d : Decoder) : HostM Cpu := update cpu d.rd (imm6 d)

def addi16sp (cpu : Cpu) (d : Decoder) : HostM Cpu := update cpu sp (cpu.regs sp + immAddi16sp d)

def lui (cpu : Cpu) (d : Decoder) : HostM Cpu := update cpu d.rd (immLui d)

def srli (cpu : Cpu) (d : Decoder) : HostM Cpu :=
  update cpu d.compressedRs1 (cpu.regs d.compressedRs1 >>> d.compressedShamt.toNat)

def srai (cpu : Cpu) (d : Decoder) : HostM Cpu :=
  update cpu d.compressedRs1 ((cpu.regs d.compressedRs1).sshiftRight d.compressedShamt.toNat)

def andi (cpu : Cpu) (d : Decoder) : HostM Cpu :=
  update cpu d.compressedRs1 (cpu.regs d.compressedRs1 &&& imm6 d)

def regOp (op : Word → Word → Word) (cpu : Cpu) (d : Decoder) : HostM Cpu :=
  update cpu d.compressedRs1 (op (cpu.regs d.compressedRs1) (cpu.regs d.compressedRs2))

def sub := regOp fun a b => a - b
def xor := regOp fun a b => a ^^^ b
def or := regOp fun a b => a ||| b
def and := regOp fun a b => a &&& b
def subw := regOp fun a b => signExtendCast (a - b) 32
def addw := regOp fun a b => signExtendCast (a + b) 32

def j (cpu : Cpu) (d : Decoder) : HostM Cpu := .ok (cpu.setPc (cpu.pc + (immJ d - 2)))

def branchOp (cond : Word → Bool) (cpu : Cpu) (d : Decoder) : HostM Cpu :=
  if cond (cpu.regs d.compressedRs1) then .ok (cpu.setPc (cpu.pc + (immBranch d - 2)))
  else .ok cpu

def beqz := branchOp fun v => v = 0
def bnez := branchOp fun v => v ≠ 0

def q1op4 (cpu : Cpu) (d : Decoder) : HostM Cpu :=
  match d.compressedFunct2 with
  | 0x0 => srli cpu d
  | 0x1 => srai cpu d
  | 0x2 => andi cpu d
  | _ =>
    let val1 := (d.insn >>> 12) &&& 0x01
    let val2 := (d.insn >>> 5) &&& 0x03
    if val1 = 0 then
      if val2 = 0 then sub cpu d
      else if val2 = 1 then xor cpu d
      else if val2 = 2 then or cpu d
      else and cpu d
    else if val2 = 0 then subw cpu d
    else if val2 = 1 then addw cpu d
    else .ok (cpu.illegal d)

def quadrant1 (cpu : Cpu) (d : Decoder) : HostM Cpu :=
  match d.compressedFunct3 with
  | 0x0 => addi cpu d
  | 0x1 => addiw cpu d
  | 0x2 => li cpu d
  | 0x3 =>
    if d.rd = 0 then .ok cpu
    else if d.rd = 2 then addi16sp cpu d
    else lui cpu d
  | 0x4 => q1op4 cpu d
  | 0x5 => j cpu d
  | 0x6 => beqz cpu d
  | _ => bnez cpu d

def slli (cpu : Cpu) (d : Decoder) : HostM Cpu :=
  update cpu d.rd (cpu.regs d.rd <<< d.compressedShamt.toNat)

def fldsp (cpu : Cpu) (d : Decoder) : HostM Cpu := loadFreg (cpu.regs sp + offsetLdsp d) d.rd cpu

def lwsp (cpu : Cpu) (d : Decoder) : HostM Cpu :=
  loadReg (cpu.regs sp + offsetLwsp d) .w32 (fun v => signExtendCast v 32) d.rd cpu

def ldsp (cpu : Cpu) (d : Decoder) : HostM Cpu :=
  loadReg (cpu.regs sp + offsetLdsp d) .w64 (fun v => v) d.rd cpu

def jr (cpu : Cpu) (d : Decoder) : HostM Cpu := .ok (cpu.setPc (cpu.regs d.rd - 2))

def mv (cpu : Cpu) (d : Decoder) : HostM Cpu := update cpu d.rd (cpu.regs (lowReg d))

/-- Called from nowhere. -/
def ebreak (cpu : Cpu) (_ : Decoder) : HostM Cpu := .ok (cpu.setException .breakpoint 0)

def jalr (cpu : Cpu) (d : Decoder) : HostM Cpu :=
  .ok ((cpu.setPc (cpu.regs d.rd - 2)).setReg ra (cpu.pc + 2))

def add (cpu : Cpu) (d : Decoder) : HostM Cpu :=
  update cpu d.rd (cpu.regs d.rd + cpu.regs (lowReg d))

def fsdsp (cpu : Cpu) (d : Decoder) : HostM Cpu :=
  Mmu.store cpu (cpu.regs sp + offsetSdsp d) (cpu.fregs (lowReg d)) .w64

def swsp (cpu : Cpu) (d : Decoder) : HostM Cpu :=
  Mmu.store cpu (cpu.regs sp + offsetSwsp d)
    (((cpu.regs (lowReg d)).setWidth 32).setWidth 64) .w32

def sdsp (cpu : Cpu) (d : Decoder) : HostM Cpu :=
  Mmu.store cpu (cpu.regs sp + offsetSdsp d) (cpu.regs (lowReg d)) .w64

def quadrant2 (cpu : Cpu) (d : Decoder) : HostM Cpu :=
  match d.compressedFunct3 with
  | 0x0 => slli cpu d
  | 0x1 => fldsp cpu d
  | 0x2 => lwsp cpu d
  | 0x3 => ldsp cpu d
  | 0x4 =>
    let val1 := (d.insn >>> 12) &&& 0x01
    let val2 := (d.insn >>> 2) &&& 0x1f
    if val1 = 0 then
      if val2 = 0 then jr cpu d else mv cpu d
    else if val2 = 0 then jalr cpu d
    else add cpu d
  | 0x5 => fsdsp cpu d
  | 0x6 => swsp cpu d
  | _ => sdsp cpu d

end Ctype

end Rv64gcEmu
