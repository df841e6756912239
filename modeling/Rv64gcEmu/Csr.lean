import Rv64gcEmu.Helper

namespace Rv64gcEmu

/-- `cpu::Mode`. -/
inductive Mode where
  | user
  | supervisor
  | machine
  | invalid
  deriving DecidableEq, Repr

def Mode.code : Mode → Word
  | .user => 0
  | .supervisor => 1
  | .machine => 3
  | .invalid => 0xff

namespace Address

@[simp] def fflags : BitVec 12 := 0x1
@[simp] def frm : BitVec 12 := 0x2
@[simp] def fcsr : BitVec 12 := 0x3
@[simp] def sstatus : BitVec 12 := 0x100
@[simp] def sie : BitVec 12 := 0x104
@[simp] def stvec : BitVec 12 := 0x105
@[simp] def sepc : BitVec 12 := 0x141
@[simp] def scause : BitVec 12 := 0x142
@[simp] def stval : BitVec 12 := 0x143
@[simp] def sip : BitVec 12 := 0x144
@[simp] def satp : BitVec 12 := 0x180
@[simp] def mstatus : BitVec 12 := 0x300
@[simp] def misa : BitVec 12 := 0x301
@[simp] def medeleg : BitVec 12 := 0x302
@[simp] def mideleg : BitVec 12 := 0x303
@[simp] def mie : BitVec 12 := 0x304
@[simp] def mtvec : BitVec 12 := 0x305
@[simp] def mepc : BitVec 12 := 0x341
@[simp] def mcause : BitVec 12 := 0x342
@[simp] def mtval : BitVec 12 := 0x343
@[simp] def mip : BitVec 12 := 0x344
@[simp] def tdata1 : BitVec 12 := 0x7a1
@[simp] def cycle : BitVec 12 := 0xc00
@[simp] def time : BitVec 12 := 0xc01
@[simp] def mvendorid : BitVec 12 := 0xf11
@[simp] def marchid : BitVec 12 := 0xf12
@[simp] def mimpid : BitVec 12 := 0xf13
@[simp] def mhartid : BitVec 12 := 0xf14

end Address

namespace Mask

/-- `SIE | SPIE | UBE | SPP | FS | XS | SUM | MXR | UXL | SD`. -/
def sstatus : Word :=
  (1#64 <<< 1) ||| (1#64 <<< 5) ||| (1#64 <<< 6) ||| (1#64 <<< 8) ||| 0x6000 ||| 0x18000 |||
    (1#64 <<< 18) ||| (1#64 <<< 19) ||| 0x300000000 ||| (1#64 <<< 63)

inductive SstatusBit where
  | sie
  | spie
  | spp
  deriving DecidableEq

def SstatusBit.offset : SstatusBit → Nat
  | .sie => 1
  | .spie => 5
  | .spp => 8

inductive MstatusBit where
  | mie
  | mpie
  | mpp
  | mprv
  | sum
  | mxr
  | tvm
  | tsr
  deriving DecidableEq

def MstatusBit.offset : MstatusBit → Nat
  | .mie => 3
  | .mpie => 7
  | .mpp => 12
  | .mprv => 17
  | .sum => 18
  | .mxr => 19
  | .tvm => 20
  | .tsr => 22

def ssipBit : Nat := 1
def msipBit : Nat := 3
def stipBit : Nat := 5
def mtipBit : Nat := 7
def seipBit : Nat := 9
def meipBit : Nat := 11

def ssip : Word := 1#64 <<< ssipBit
def msip : Word := 1#64 <<< msipBit
def stip : Word := 1#64 <<< stipBit
def mtip : Word := 1#64 <<< mtipBit
def seip : Word := 1#64 <<< seipBit
def meip : Word := 1#64 <<< meipBit

end Mask

namespace FExcept

def inexact : Word := 1#64 <<< 0
def underflow : Word := 1#64 <<< 1
def overflow : Word := 1#64 <<< 2
def divByZero : Word := 1#64 <<< 3
def invalid : Word := 1#64 <<< 4

def mask : Word := inexact ||| underflow ||| overflow ||| divByZero ||| invalid

end FExcept

/-- The mask of `FPURoundigMode`: the disjunction of all its modes. -/
def roundingModeMask : Word := 0 ||| 1 ||| 2 ||| 3 ||| 4 ||| 5

/-- `csr::Csr`: 4096 cells, some of them seen through more than one address. -/
structure Csr where
  regs : BitVec 12 → Word

namespace Csr

/-- The constructor sets `misa` only. -/
def init : Csr where
  regs := Function.update (fun _ => 0) Address.misa
    ((2#64 <<< 62) ||| (1#64 <<< 0) ||| (1#64 <<< 2) ||| (1#64 <<< 5) ||| (1#64 <<< 3) |||
      (1#64 <<< 8) ||| (1#64 <<< 12) ||| (1#64 <<< 18) ||| (1#64 <<< 20))

def load (csr : Csr) (address : BitVec 12) : Word :=
  if address = Address.sstatus then csr.regs Address.mstatus &&& Mask.sstatus
  else if address = Address.sie then csr.regs Address.mie &&& csr.regs Address.mideleg
  else if address = Address.sip then csr.regs Address.mip &&& csr.regs Address.mideleg
  else if address = Address.mstatus then csr.regs Address.mstatus ||| 0x200000000
  else csr.regs address

/-- `regs[address] = value`. -/
@[simps -fullyApplied] def setCell (csr : Csr) (address : BitVec 12) (value : Word) : Csr where
  regs := Function.update csr.regs address value

def store (csr : Csr) (address : BitVec 12) (value : Word) : Csr :=
  if address = Address.sstatus then
    csr.setCell Address.mstatus
      ((csr.regs Address.mstatus &&& ~~~Mask.sstatus) ||| (value &&& Mask.sstatus))
  else if address = Address.sie then
    csr.setCell Address.mie
      ((csr.regs Address.mie &&& ~~~(csr.regs Address.mideleg)) |||
        (value &&& csr.regs Address.mideleg))
  else if address = Address.sip then
    let mask := csr.regs Address.mideleg &&& Mask.ssip
    csr.setCell Address.mip ((csr.regs Address.mip &&& ~~~mask) ||| (value &&& mask))
  else csr.setCell address value

def readBit (csr : Csr) (address : BitVec 12) (offset : Nat) : Word :=
  Helper.readBit (csr.load address) offset

def readBits (csr : Csr) (address : BitVec 12) (upperOffset lowerOffset : Nat) : Word :=
  Helper.readBits (csr.load address) upperOffset lowerOffset

def writeBit (csr : Csr) (address : BitVec 12) (offset : Nat) (value : Word) : Csr :=
  csr.store address (Helper.writeBit (csr.load address) offset value)

def writeBits (csr : Csr) (address : BitVec 12) (upperOffset lowerOffset : Nat) (value : Word) : Csr :=
  csr.store address (Helper.writeBits (csr.load address) upperOffset lowerOffset value)

def readBitMstatus (csr : Csr) (bit : Mask.MstatusBit) : Word :=
  csr.readBit Address.mstatus bit.offset

def writeBitMstatus (csr : Csr) (bit : Mask.MstatusBit) (value : Word) : Csr :=
  csr.writeBit Address.mstatus bit.offset value

def writeMppMode (csr : Csr) (mode : Mode) : Csr :=
  csr.writeBits Address.mstatus 12 11 mode.code

def readMppMode (csr : Csr) : Mode :=
  let mpp := csr.readBits Address.mstatus 12 11
  if mpp = Mode.user.code then .user
  else if mpp = Mode.supervisor.code then .supervisor
  else if mpp = Mode.machine.code then .machine
  else .invalid

def readBitSstatus (csr : Csr) (bit : Mask.SstatusBit) : Word :=
  csr.readBit Address.sstatus bit.offset

def writeBitSstatus (csr : Csr) (bit : Mask.SstatusBit) (value : Word) : Csr :=
  csr.writeBit Address.sstatus bit.offset value

def setFpuException (csr : Csr) (exception : Word) : Csr :=
  csr.setCell Address.fflags (csr.regs Address.fflags ||| exception)

def clearFpuExceptions (csr : Csr) : Csr :=
  csr.setCell Address.fflags (csr.regs Address.fflags &&& ~~~FExcept.mask)

def setFpuRm (csr : Csr) (roundMode : Word) : Csr :=
  csr.setCell Address.frm (csr.regs Address.frm ||| roundMode)

def clearFpuRm (csr : Csr) : Csr :=
  csr.setCell Address.frm (csr.regs Address.frm &&& ~~~roundingModeMask)

def getFs (csr : Csr) : Word := csr.readBits Address.mstatus 14 13

def isFpuEnabled (csr : Csr) : Bool := csr.getFs ≠ 0

theorem setCell_self (csr : Csr) (address : BitVec 12) :
    csr.setCell address (csr.regs address) = csr := by
  unfold setCell
  rw [Function.update_eq_self]

end Csr

end Rv64gcEmu
