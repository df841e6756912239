import Rv64gcEmu.Csr
import Rv64gcEmu.Decoder
import Rv64gcEmu.Ram
import Rv64gcEmu.Gpu
import Rv64gcEmu.Plic
import Rv64gcEmu.Clint
import Rv64gcEmu.Virtio
import Rv64gcEmu.Fpu
import Mathlib.Data.Finset.Insert

namespace Rv64gcEmu

/-- `exception::Exception`; `None` is the missing exception. -/
inductive Exception where
  | instructionAddressMisaligned
  | instructionAccessFault
  | illegalInstruction
  | breakpoint
  | loadAddressMisaligned
  | loadAccessFault
  | storeAddressMisaligned
  | storeAccessFault
  | ecallUMode
  | ecallSMode
  | ecallMMode
  | instructionPageFault
  | loadPageFault
  | storePageFault
  deriving DecidableEq, Repr

def Exception.code : Exception → Nat
  | .instructionAddressMisaligned => 0
  | .instructionAccessFault => 1
  | .illegalInstruction => 2
  | .breakpoint => 3
  | .loadAddressMisaligned => 4
  | .loadAccessFault => 5
  | .storeAddressMisaligned => 6
  | .storeAccessFault => 7
  | .ecallUMode => 8
  | .ecallSMode => 9
  | .ecallMMode => 11
  | .instructionPageFault => 12
  | .loadPageFault => 13
  | .storePageFault => 15

/-- `interrupt::Interrupt`. -/
inductive Interrupt where
  | userSoftware
  | supervisorSoftware
  | machineSoftware
  | userTimer
  | supervisorTimer
  | machineTimer
  | userExternal
  | supervisorExternal
  | machineExternal
  deriving DecidableEq, Repr

def Interrupt.code : Interrupt → Nat
  | .userSoftware => 0
  | .supervisorSoftware => 1
  | .machineSoftware => 3
  | .userTimer => 4
  | .supervisorTimer => 5
  | .machineTimer => 7
  | .userExternal => 8
  | .supervisorExternal => 9
  | .machineExternal => 11

/-- `Mmu::AccessType`. -/
inductive AccessType where
  | load
  | store
  | instruction
  deriving DecidableEq, Repr

structure TlbEntry where
  virtBase : Word
  physBase : Word
  pte : Word
  pteAddr : Word
  age : Word
  dirty : Bool
  accessed : Bool
  read : Bool
  write : Bool
  execute : Bool
  user : Bool
  deriving DecidableEq

/-- The fields of `mmu::Mmu`: a cache of four entries, the mode of `satp` and the
physical address of the root table in 32 bits. -/
structure Mmu where
  tlbCache : Fin 4 → TlbEntry
  mode : BitVec 4
  mppn : BitVec 32

/-- The devices of the bus. `gpu`, `virtio` and `syscon` may be missing. -/
structure Bus where
  ram : RamDevice
  gpu : Option GpuDevice
  plic : PlicDevice
  clint : ClintDevice
  virtio : Option VirtioBlkDevice
  syscon : Bool

/-- What the build fixes: `USE_TLB`, `CPU_TEST` and the arithmetic of the host. -/
structure Host where
  useTlb : Bool
  cpuTest : Bool
  fpu : Fpu

structure Cpu where
  regs : BitVec 5 → Word
  fregs : BitVec 5 → Word
  cregs : Csr
  pc : Word
  mode : Mode
  excVal : Option Exception
  excData : Word
  sleep : Bool
  reservations : Finset Word
  mmu : Mmu
  bus : Bus
  fenv : FeFlags
  host : Host

namespace Cpu

@[simps -fullyApplied] def setReg (cpu : Cpu) (r : BitVec 5) (v : Word) : Cpu :=
  { cpu with regs := Function.update cpu.regs r v }

@[simps -fullyApplied] def setFreg (cpu : Cpu) (r : BitVec 5) (v : Word) : Cpu :=
  { cpu with fregs := Function.update cpu.fregs r v }

@[simps -fullyApplied] def setPc (cpu : Cpu) (pc : Word) : Cpu := { cpu with pc := pc }

@[simps -fullyApplied] def setMode (cpu : Cpu) (mode : Mode) : Cpu := { cpu with mode := mode }

@[simps -fullyApplied] def setCregs (cpu : Cpu) (cregs : Csr) : Cpu := { cpu with cregs := cregs }

@[simps -fullyApplied] def setSleep (cpu : Cpu) (sleep : Bool) : Cpu := { cpu with sleep := sleep }

@[simps -fullyApplied] def setReservations (cpu : Cpu) (reservations : Finset Word) : Cpu :=
  { cpu with reservations := reservations }

@[simps -fullyApplied] def setMmu (cpu : Cpu) (mmu : Mmu) : Cpu := { cpu with mmu := mmu }

@[simps -fullyApplied] def setBus (cpu : Cpu) (bus : Bus) : Cpu := { cpu with bus := bus }

@[simps -fullyApplied] def setFenv (cpu : Cpu) (fenv : FeFlags) : Cpu := { cpu with fenv := fenv }

@[simps -fullyApplied] def setException (cpu : Cpu) (value : Exception) (excData : Word) : Cpu :=
  { cpu with excVal := some value, excData := excData }

@[simps -fullyApplied] def clearException (cpu : Cpu) : Cpu :=
  { cpu with excVal := none, excData := 0 }

/-- `set_exception(IllegalInstruction, decoder.insn)`. -/
def illegal (cpu : Cpu) (d : Decoder) : Cpu :=
  cpu.setException .illegalInstruction (d.insn.setWidth 64)

end Cpu

end Rv64gcEmu
