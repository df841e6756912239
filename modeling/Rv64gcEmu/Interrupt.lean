import Rv64gcEmu.Cpu

namespace Rv64gcEmu

namespace Interrupt

/-- The interrupts in the order in which they are looked for, each with its bit of `mip`. -/
def order : List (Interrupt × Nat) :=
  [(.machineExternal, Mask.meipBit), (.machineSoftware, Mask.msipBit),
    (.machineTimer, Mask.mtipBit), (.supervisorExternal, Mask.seipBit),
    (.supervisorSoftware, Mask.ssipBit), (.supervisorTimer, Mask.stipBit)]

/-- Interrupts of the own level are off, and the hart is not asleep. -/
def masked (cpu : Cpu) : Bool :=
  match cpu.mode with
  | .machine => cpu.cregs.readBitMstatus .mie = 0 && !cpu.sleep
  | .supervisor => cpu.cregs.readBitSstatus .sie = 0 && !cpu.sleep
  | _ => false

/-- The disk is asked first, then the UART. -/
def deviceIrq (cpu : Cpu) : HostM (Option Word × Cpu) :=
  match cpu.bus.virtio.bind (·.isInterrupting) with
  | some irqn => .ok (some irqn, cpu)
  | none =>
    match cpu.bus.gpu with
    | some g =>
      let (irqn, g) := g.isInterrupting
      .ok (irqn, cpu.setBus { cpu.bus with gpu := some g })
    | none => .error .undefined

def updatePending (cpu : Cpu) : HostM Cpu :=
  if cpu.host.cpuTest then .ok cpu
  else do
    let (irqn, cpu) ← deviceIrq cpu
    match irqn with
    | some irqn => do
      let plic ← cpu.bus.plic.updatePending irqn
      let cpu := cpu.setBus { cpu.bus with plic := plic }
      .ok (cpu.setCregs (cpu.cregs.writeBit Address.mip Mask.seipBit 1))
    | none => .ok cpu

def getPendingInterrupt (cpu : Cpu) : HostM (Option Interrupt × Cpu) :=
  if masked cpu then .ok (none, cpu)
  else do
    let cpu ← updatePending cpu
    let pending := cpu.cregs.load Address.mie &&& cpu.cregs.load Address.mip
    match order.find? fun p => pending &&& (1#64 <<< p.2) ≠ 0 with
    | some (i, bit) => .ok (some i, cpu.setCregs (cpu.cregs.writeBit Address.mip bit 0))
    | none => .ok (none, cpu)

end Interrupt

namespace Trap

/-- The half of `process` that goes to Supervisor mode. -/
def enterSupervisor (cpu : Cpu) (offset : Word → Word) (cause tval : Word) : Cpu :=
  let pc := cpu.pc
  let mode := cpu.mode
  let stvecVal := cpu.cregs.load Address.stvec
  let cpu := (cpu.setMode .supervisor).setPc ((stvecVal &&& ~~~3) + offset stvecVal)
  let cpu := cpu.setCregs (cpu.cregs.store Address.sepc (pc &&& ~~~1))
  let cpu := cpu.setCregs (cpu.cregs.store Address.scause cause)
  let cpu := cpu.setCregs (cpu.cregs.store Address.stval tval)
  let cpu := cpu.setCregs (cpu.cregs.writeBitSstatus .spie (cpu.cregs.readBitSstatus .sie))
  let cpu := cpu.setCregs (cpu.cregs.writeBitSstatus .sie 0)
  cpu.setCregs (cpu.cregs.writeBitSstatus .spp mode.code)

def enterMachine (cpu : Cpu) (offset : Word → Word) (cause tval : Word) : Cpu :=
  let pc := cpu.pc
  let mode := cpu.mode
  let mtvecVal := cpu.cregs.load Address.mtvec
  let cpu := (cpu.setMode .machine).setPc ((mtvecVal &&& ~~~3) + offset mtvecVal)
  let cpu := cpu.setCregs (cpu.cregs.store Address.mepc (pc &&& ~~~1))
  let cpu := cpu.setCregs (cpu.cregs.store Address.mcause cause)
  let cpu := cpu.setCregs (cpu.cregs.store Address.mtval tval)
  let cpu := cpu.setCregs (cpu.cregs.writeBitMstatus .mpie (cpu.cregs.readBitMstatus .mie))
  let cpu := cpu.setCregs (cpu.cregs.writeBitMstatus .mie 0)
  cpu.setCregs (cpu.cregs.writeMppMode mode)

/-- The choice of the level: a delegated trap from User or Supervisor mode. -/
def toSupervisor (cpu : Cpu) (deleg : Bool) : Bool :=
  deleg && (cpu.mode = .user || cpu.mode = .supervisor)

def enter (cpu : Cpu) (deleg : Bool) (offset : Word → Word) (cause tval : Word) : Cpu :=
  if toSupervisor cpu deleg then enterSupervisor cpu offset cause tval
  else enterMachine cpu offset cause tval

end Trap

namespace Interrupt

/-- The machine timer interrupt is never delegated. -/
def delegated (cpu : Cpu) (intVal : Interrupt) : Bool :=
  (cpu.cregs.load Address.mideleg).getLsbD intVal.code && intVal ≠ .machineTimer

def vtOffset (intVal : Interrupt) (tvec : Word) : Word :=
  if tvec &&& 1 ≠ 0 then BitVec.ofNat 64 intVal.code * 4 else 0

def process (cpu : Cpu) (intVal : Interrupt) : Cpu :=
  let cpu := cpu.setSleep false
  Trap.enter cpu (delegated cpu intVal) (vtOffset intVal)
    ((1#64 <<< 63) ||| BitVec.ofNat 64 intVal.code) 0

end Interrupt

namespace Exception

def delegated (cpu : Cpu) (excVal : Exception) : Bool :=
  (cpu.cregs.load Address.medeleg).getLsbD excVal.code

/-- `exception::process`, called with the pending exception. -/
def process (cpu : Cpu) (excVal : Exception) : Cpu :=
  let cpu := cpu.setSleep false
  Trap.enter cpu (delegated cpu excVal) (fun _ => 0) (BitVec.ofNat 64 excVal.code) cpu.excData

end Exception

end Rv64gcEmu
