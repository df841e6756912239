import Rv64gcEmu.Mmu

namespace Rv64gcEmu

/-- What a CSR instruction computes from the old value and its operand. -/
abbrev CsrOp := Word → Word → Word

abbrev CsrHandler := Cpu → Decoder → BitVec 12 → Word → CsrOp → Cpu

namespace CsrInsn

def ecall (cpu : Cpu) (d : Decoder) : Cpu :=
  match cpu.mode with
  | .machine => cpu.setException .ecallMMode cpu.pc
  | .supervisor => cpu.setException .ecallSMode cpu.pc
  | .user => cpu.setException .ecallUMode cpu.pc
  | .invalid => cpu.illegal d

def ebreak (cpu : Cpu) (_ : Decoder) : Cpu := cpu.setException .breakpoint 0

def uret (cpu : Cpu) (d : Decoder) : Cpu := cpu.illegal d

def sret (cpu : Cpu) (d : Decoder) : Cpu :=
  if cpu.cregs.readBitMstatus .tsr = 1 ∨ cpu.mode = .user then cpu.illegal d
  else
    let cpu := cpu.setPc (cpu.cregs.load Address.sepc - 4)
    let cpu := cpu.setMode (if cpu.cregs.readBitSstatus .spp = 0 then .user else .supervisor)
    let cpu :=
      if cpu.mode = .user then cpu.setCregs (cpu.cregs.writeBitMstatus .mprv 0) else cpu
    let cpu := cpu.setCregs (cpu.cregs.writeBitSstatus .sie (cpu.cregs.readBitSstatus .spie))
    let cpu := cpu.setCregs (cpu.cregs.writeBitSstatus .spie 1)
    cpu.setCregs (cpu.cregs.writeBitSstatus .spp Mode.user.code)

def mret (cpu : Cpu) (d : Decoder) : Cpu :=
  if cpu.mode ≠ .machine then cpu.illegal d
  else
    let cpu := cpu.setPc (cpu.cregs.load Address.mepc - 4)
    let cpu := cpu.setMode cpu.cregs.readMppMode
    let cpu :=
      if cpu.mode ≠ .machine then cpu.setCregs (cpu.cregs.writeBitMstatus .mprv 0) else cpu
    let cpu := cpu.setCregs (cpu.cregs.writeBitMstatus .mie (cpu.cregs.readBitMstatus .mpie))
    let cpu := cpu.setCregs (cpu.cregs.writeBitMstatus .mpie 1)
    cpu.setCregs (cpu.cregs.writeMppMode .user)

/-- The sleep is commented out in the source. -/
def wfi (cpu : Cpu) (_ : Decoder) : Cpu := cpu

/-- The exception does not keep the update of the MMU from happening. -/
def sfencevma (cpu : Cpu) (d : Decoder) : Cpu :=
  let cpu :=
    if cpu.cregs.readBitMstatus .tvm = 1 ∨ cpu.mode = .user then cpu.illegal d else cpu
  Mmu.update cpu

def hfencevma (cpu : Cpu) (d : Decoder) : Cpu := cpu.illegal d

def hfencegvma (cpu : Cpu) (d : Decoder) : Cpu := cpu.illegal d

def environment (cpu : Cpu) (d : Decoder) : Cpu :=
  if d.funct7 = 0x09 then sfencevma cpu d
  else if d.funct7 = 0x11 then hfencevma cpu d
  else if d.funct7 = 0x51 then hfencegvma cpu d
  else
    match d.rs2 with
    | 0x00 => ecall cpu d
    | 0x01 => ebreak cpu d
    | 0x02 =>
      match d.funct7 with
      | 0x00 => uret cpu d
      | 0x08 => sret cpu d
      | 0x18 => mret cpu d
      | _ => cpu.illegal d
    | 0x05 =>
      match d.funct7 with
      | 0x08 => wfi cpu d
      | _ => cpu.illegal d
    | _ => cpu.illegal d

def csrDefaultHandler : CsrHandler := fun cpu d csr rhs op =>
  let csrVal := cpu.cregs.load csr
  (cpu.setCregs (cpu.cregs.store csr (op csrVal rhs))).setReg d.rd csrVal

def csrDefaultHandlerReadonly : CsrHandler := fun cpu d csr _ _ =>
  cpu.setReg d.rd (cpu.cregs.load csr)

def csrPrivledgedHandler : CsrHandler := fun cpu d csr rhs op =>
  if cpu.mode = .user then cpu.illegal d
  else
    let csrVal := cpu.cregs.load csr
    (cpu.setCregs (cpu.cregs.store csr (op csrVal rhs))).setReg d.rd csrVal

def csrEnforcedReadonlyHandler : CsrHandler := fun cpu d csr rhs op =>
  let csrVal := cpu.cregs.load csr
  if csrVal ≠ op csrVal rhs then cpu.illegal d
  else cpu.setReg d.rd csrVal

def csrFcsrHandler : CsrHandler := fun cpu d csr rhs op =>
  let csrVal := cpu.cregs.load csr
  let fexceptions := cpu.cregs.load Address.fflags &&& FExcept.mask
  let opVal := op (csrVal ||| fexceptions) rhs
  let cregs := (cpu.cregs.clearFpuExceptions).setFpuException (opVal &&& FExcept.mask)
  (cpu.setCregs (cregs.store Address.fcsr (opVal &&& 0xff))).setReg d.rd (csrVal &&& 0xff)

def csrFflagsHandler : CsrHandler := fun cpu d csr rhs op =>
  let csrVal := cpu.cregs.load csr
  let fexceptions := csrVal &&& FExcept.mask
  let opVal := op fexceptions rhs
  let cregs := (cpu.cregs.clearFpuExceptions).setFpuException (opVal &&& FExcept.mask)
  let fcsr := (cregs.load Address.fcsr &&& ~~~FExcept.mask) ||| (opVal &&& 0xff)
  (cpu.setCregs (cregs.store Address.fcsr fcsr)).setReg d.rd (csrVal &&& FExcept.mask)

def csrFrmHandler : CsrHandler := fun cpu d _ rhs op =>
  let csrVal := cpu.cregs.load Address.fcsr >>> 5
  let opVal := op csrVal rhs
  let cregs := (cpu.cregs.clearFpuRm).setFpuRm (opVal &&& roundingModeMask)
  let fcsr := ((cregs.load Address.fcsr &&& ~~~0xe0#64) ||| (opVal <<< 5)) &&& 0xff
  (cpu.setCregs (cregs.store Address.fcsr fcsr)).setReg d.rd (csrVal &&& roundingModeMask)

/-- The exception does not keep the write from happening. -/
def csrSatpHandler : CsrHandler := fun cpu d csr rhs op =>
  let cpu := if cpu.cregs.readBitMstatus .tvm = 1 then cpu.illegal d else cpu
  Mmu.update (csrDefaultHandler cpu d csr rhs op)

/-- `csr_handlers`, as `init_handler_array` fills it. -/
def csrHandlers (csr : BitVec 12) : CsrHandler :=
  if csr = Address.fcsr then csrFcsrHandler
  else if csr = Address.fflags then csrFflagsHandler
  else if csr = Address.frm then csrFrmHandler
  else if csr = Address.satp then csrSatpHandler
  else if csr = Address.mvendorid ∨ csr = Address.marchid ∨ csr = Address.mimpid ∨
      csr = Address.mhartid ∨ csr = Address.misa ∨ csr = Address.tdata1 then
    csrDefaultHandlerReadonly
  else if csr = Address.cycle then csrEnforcedReadonlyHandler
  else if csr = Address.mstatus then csrPrivledgedHandler
  else csrDefaultHandler

def opWrite : CsrOp := fun _ rhs => rhs
def opSet : CsrOp := fun csr rhs => csr ||| rhs
def opClear : CsrOp := fun csr rhs => csr &&& ~~~rhs

/-- The operand is the register `rs1`. -/
def regForm (op : CsrOp) (cpu : Cpu) (d : Decoder) : Cpu :=
  csrHandlers d.csr cpu d d.csr (cpu.regs d.rs1) op

/-- The operand is the number of the register `rs1`. -/
def immForm (op : CsrOp) (cpu : Cpu) (d : Decoder) : Cpu :=
  csrHandlers d.csr cpu d d.csr (d.rs1.setWidth 64) op

def csrw := regForm opWrite
def csrs := regForm opSet
def csrc := regForm opClear
def csrwi := immForm opWrite
def csrsi := immForm opSet
def csrci := immForm opClear

def funct3 (cpu : Cpu) (d : Decoder) : Cpu :=
  match d.funct3 with
  | 0x0 => environment cpu d
  | 0x1 => csrw cpu d
  | 0x2 => csrs cpu d
  | 0x3 => csrc cpu d
  | 0x5 => csrwi cpu d
  | 0x6 => csrsi cpu d
  | 0x7 => csrci cpu d
  | _ => cpu.illegal d

end CsrInsn

end Rv64gcEmu
