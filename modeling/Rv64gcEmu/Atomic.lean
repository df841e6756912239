import Rv64gcEmu.Mmu
import Mathlib.Data.Finset.Basic

namespace Rv64gcEmu

namespace Atomic

/-- The read-modify-write of one AMO: `result` is the word given to the store. -/
def amoOp (length : Width) (n : Nat) (result : BitVec n → BitVec n → Word) (cpu : Cpu)
    (d : Decoder) : HostM Cpu := do
  let address := cpu.regs d.rs1
  let (loaded, cpu) ← Mmu.load cpu address length
  let val1 : BitVec n := loaded.setWidth n
  let val2 : BitVec n := (cpu.regs d.rs2).setWidth n
  let cpu ← Mmu.store cpu address (result val1 val2) length
  .ok (cpu.setReg d.rd (val1.signExtend 64))

def lrOp (length : Width) (n : Nat) (cpu : Cpu) (d : Decoder) : HostM Cpu := do
  let address := cpu.regs d.rs1
  let (loaded, cpu) ← Mmu.load cpu address length
  let cpu := cpu.setReg d.rd ((loaded.setWidth n : BitVec n).signExtend 64)
  .ok (cpu.setReservations (insert address cpu.reservations))

def scOp (length : Width) (n : Nat) (cpu : Cpu) (d : Decoder) : HostM Cpu := do
  let address := cpu.regs d.rs1
  let val2 : BitVec n := (cpu.regs d.rs2).setWidth n
  if address ∈ cpu.reservations then
    let cpu ← Mmu.store (cpu.setReservations (cpu.reservations.erase address)) address
      (val2.setWidth 64) length
    .ok (cpu.setReg d.rd 0)
  else .ok (cpu.setReg d.rd 1)

/-- `std::min` and `std::max` of signed and of unsigned operands. -/
def smin {n : Nat} (a b : BitVec n) : BitVec n := if b.slt a then b else a
def smax {n : Nat} (a b : BitVec n) : BitVec n := if a.slt b then b else a
def umin {n : Nat} (a b : BitVec n) : BitVec n := if b.ult a then b else a
def umax {n : Nat} (a b : BitVec n) : BitVec n := if a.ult b then b else a

def amoaddw := amoOp .w32 32 fun a b => (a + b).signExtend 64
def amoswapw := amoOp .w32 32 fun _ b => b.signExtend 64
def lrw := lrOp .w32 32
def scw := scOp .w32 32
def amoxorw := amoOp .w32 32 fun a b => (a ^^^ b).signExtend 64
def amoorw := amoOp .w32 32 fun a b => (a ||| b).signExtend 64
def amoandw := amoOp .w32 32 fun a b => (a &&& b).signExtend 64
def amominw := amoOp .w32 32 fun a b => (smin a b).signExtend 64
def amomaxw := amoOp .w32 32 fun a b => (smax a b).signExtend 64
def amominuw := amoOp .w32 32 fun a b => (umin a b).setWidth 64
def amomaxuw := amoOp .w32 32 fun a b => (umax a b).setWidth 64

def amoaddd := amoOp .w64 64 fun a b => a + b
def amoswapd := amoOp .w64 64 fun _ b => b
def lrd := lrOp .w64 64
def scd := scOp .w64 64
def amoxord := amoOp .w64 64 fun a b => a ^^^ b
def amoord := amoOp .w64 64 fun a b => a ||| b
def amoandd := amoOp .w64 64 fun a b => a &&& b
def amomind := amoOp .w64 64 fun a b => smin a b
def amomaxd := amoOp .w64 64 fun a b => smax a b
def amominud := amoOp .w64 64 fun a b => umin a b
def amomaxud := amoOp .w64 64 fun a b => umax a b

/-- A misaligned address sets an exception, and the operation goes on. -/
def amow (cpu : Cpu) (d : Decoder) : HostM Cpu :=
  let cpu :=
    if cpu.regs d.rs1 % 4 ≠ 0 then
      cpu.setException .instructionAddressMisaligned (d.insn.setWidth 64)
    else cpu
  match d.funct5 with
  | 0x00 => amoaddw cpu d
  | 0x01 => amoswapw cpu d
  | 0x02 => lrw cpu d
  | 0x03 => scw cpu d
  | 0x04 => amoxorw cpu d
  | 0x08 => amoorw cpu d
  | 0x0c => amoandw cpu d
  | 0x10 => amominw cpu d
  | 0x14 => amomaxw cpu d
  | 0x18 => amominuw cpu d
  | 0x1c => amomaxuw cpu d
  | _ => .ok (cpu.illegal d)

def amod (cpu : Cpu) (d : Decoder) : HostM Cpu :=
  let cpu := if cpu.regs d.rs1 % 8 ≠ 0 then cpu.illegal d else cpu
  match d.funct5 with
  | 0x00 => amoaddd cpu d
  | 0x01 => amoswapd cpu d
  | 0x02 => lrd cpu d
  | 0x03 => scd cpu d
  | 0x04 => amoxord cpu d
  | 0x08 => amoord cpu d
  | 0x0c => amoandd cpu d
  | 0x10 => amomind cpu d
  | 0x14 => amomaxd cpu d
  | 0x18 => amominud cpu d
  | 0x1c => amomaxud cpu d
  | _ => .ok (cpu.illegal d)

def funct3 (cpu : Cpu) (d : Decoder) : HostM Cpu :=
  match d.funct3 with
  | 0x2 => amow cpu d
  | 0x3 => amod cpu d
  | _ => .ok (cpu.illegal d)

end Atomic

end Rv64gcEmu
