import Rv64gcEmu.Atomic
import Rv64gcEmu.Compressed
import Rv64gcEmu.Control
import Rv64gcEmu.CsrInsn
import Rv64gcEmu.FloatInsn
import Rv64gcEmu.Integer
import Rv64gcEmu.Interrupt
import Rv64gcEmu.LoadStore
import Rv64gcEmu.VirtioDisk

namespace Rv64gcEmu

namespace Cpu

/-- The constructor. `mppn` is left uninitialised, and is not read before `update` sets it. -/
def init (ram : RamDevice) (gpu : Option GpuDevice) (virtio : Option VirtioBlkDevice)
    (syscon : Bool) (host : Host) : Cpu where
  regs := Function.update (fun _ => 0) 2 ram.endAddr
  fregs _ := 0
  cregs := Csr.init
  pc := ram.baseAddr
  mode := .machine
  excVal := none
  excData := 0
  sleep := false
  reservations := ∅
  mmu := ⟨fun _ => Mmu.emptyEntry, Mmu.bare, 0⟩
  bus := ⟨ram, gpu, PlicDevice.init, ClintDevice.init, virtio, syscon⟩
  fenv := FeFlags.clear
  host := host

def execute16 (cpu : Cpu) (d : Decoder) : HostM Cpu :=
  match d.compressedOpcode with
  | 0 => Ctype.quadrant0 cpu d
  | 1 => Ctype.quadrant1 cpu d
  | 2 => Ctype.quadrant2 cpu d
  | _ => .ok (cpu.illegal d)

def execute32 (cpu : Cpu) (d : Decoder) : HostM Cpu :=
  match d.opcodeType with
  | some .load => Load.funct3 cpu d
  | some .fence => Fence.fence cpu d
  | some .i => Itype.funct3 cpu d
  | some .s => Stype.funct3 cpu d
  | some .r => Rtype.funct3 cpu d
  | some .b => Btype.funct3 cpu d
  | some .fl => Fdtype.fl cpu d
  | some .fs => Fdtype.fs cpu d
  | some .fmadd => Fdtype.fmadd cpu d
  | some .fmsub => Fdtype.fmsub cpu d
  | some .fnmadd => Fdtype.fnmadd cpu d
  | some .fnmsub => Fdtype.fnmsub cpu d
  | some .fother => Fdtype.fother cpu d
  | some .atomic => Atomic.funct3 cpu d
  | some .i64 => I64.funct3 cpu d
  | some .r64 => R64.funct3 cpu d
  | some .auipc => Auipc.auipc cpu d
  | some .lui => Lui.lui cpu d
  | some .jal => Jal.jal cpu d
  | some .jalr => Jalr.jalr cpu d
  | some .csr => .ok (CsrInsn.funct3 cpu d)
  | none => .ok (cpu.illegal d)

/-- The instruction that was fetched, and its length. -/
def execute (cpu : Cpu) (d : Decoder) : HostM (Word × Cpu) := do
  let cpu ← if d.insnSize = 2 then execute16 cpu d else execute32 cpu d
  .ok (d.insnSize, cpu)

/-- `_loop`: the length of the instruction that was executed. -/
def _loop (cpu : Cpu) : HostM (Word × Cpu) :=
  let cpu := cpu.setReg 0 0
  if cpu.sleep then .ok (0, cpu)
  else do
    let (insn, cpu) ← Mmu.fetch cpu cpu.pc
    if cpu.excVal.isSome then .ok (4, cpu)
    else
      let d : Decoder := ⟨insn.setWidth 32⟩
      if d.insn = 0 then .ok (4, cpu.setException .illegalInstruction 0)
      else execute cpu d

/-- What the host gives to one turn of the loop: the clock and the polled input. -/
structure Env where
  milliseconds : Word
  input : HostInput

/-- `Bus::tick_devices`. -/
def tickDevices (cpu : Cpu) (env : Env) : HostM Cpu :=
  if cpu.host.cpuTest then .ok cpu
  else
    match cpu.bus.gpu with
    | none => .error .undefined
    | some g => do
      let g ← g.tick env.input
      let (clint, cregs) := cpu.bus.clint.tick cpu.cregs env.milliseconds
      let cpu := (cpu.setBus { cpu.bus with gpu := some g, clint := clint }).setCregs cregs
      if cpu.bus.virtio.isSome then VirtioBlkDevice.tick cpu else .ok cpu

/-- A pending exception is processed and, outside of the tests, cleared. -/
def finish (cpu : Cpu) (insnSize : Word) : Cpu :=
  match cpu.excVal with
  | some e =>
    let cpu := Exception.process cpu e
    if cpu.host.cpuTest then cpu else cpu.clearException
  | none => cpu.setPc (cpu.pc + insnSize)

def loop (cpu : Cpu) (env : Env) : HostM Cpu := do
  let cpu := cpu.setCregs (cpu.cregs.store Address.cycle (cpu.cregs.load Address.cycle + 1))
  let cpu ← tickDevices cpu env
  let (pendingInterrupt, cpu) ← Interrupt.getPendingInterrupt cpu
  let cpu :=
    match pendingInterrupt with
    | some i => Interrupt.process cpu i
    | none => cpu
  let (insnSize, cpu) ← _loop cpu
  .ok (finish cpu insnSize)

end Cpu

end Rv64gcEmu
