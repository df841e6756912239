import Rv64gcEmu.Mmu
import Rv64gcEmu.Integer

namespace Rv64gcEmu

namespace Fdimpl

/-- `T val = cpu.fregs[r]`: the low bits of the register. -/
def getF (f : Fmt) (cpu : Cpu) (r : BitVec 5) : f.Bits := (cpu.fregs r).setWidth f.width

/-- `cpu.fregs[r] = val`: the other bits become zero. -/
def setF {f : Fmt} (cpu : Cpu) (r : BitVec 5) (val : f.Bits) : Cpu := cpu.setFreg r (val.setWidth 64)

def raise (cpu : Cpu) (flags : FeFlags) : Cpu := cpu.setFenv (cpu.fenv.raise flags)

def setFpuException (cpu : Cpu) (exception : Word) : Cpu :=
  cpu.setCregs (cpu.cregs.setFpuException exception)

def invalidIf (p : Bool) (cpu : Cpu) : Cpu := if p then setFpuException cpu FExcept.invalid else cpu

def getCanonicalNan : (f : Fmt) → f.Bits
  | .single => (0x7fc00000 : BitVec 32)
  | .double => (0x7ff8000000000000 : BitVec 64)

def isCnan {f : Fmt} (val : f.Bits) : Bool := val = getCanonicalNan f

def snanRaw : (f : Fmt) → f.Bits
  | .single => (0x7f800001 : BitVec 32)
  | .double => (0x7ff0000000000001 : BitVec 64)

/-- One signalling NaN of the many. -/
def isSnan {f : Fmt} (val : f.Bits) : Bool := val = snanRaw f

/-- The mode is cut to two bits, so the dynamic one is never seen. -/
def fdround {f : Fmt} (val : f.Bits) (cpu : Cpu) (d : Decoder) : f.Bits × Cpu :=
  let (newval, flags) :=
    match d.fpRoundingMode with
    | 0 => cpu.host.fpu.round f val
    | 1 => cpu.host.fpu.trunc f val
    | 2 => cpu.host.fpu.floor f val
    | _ => cpu.host.fpu.ceil f val
  let cpu := raise cpu flags
  (newval, if Fmt.eq newval val then cpu else setFpuException cpu FExcept.inexact)

/-- The value is converted before it is checked. -/
def fdConvCheck {f : Fmt} (t : IntType) (val : f.Bits) (cpu : Cpu) : HostM (Word × Cpu) :=
  let x := Fmt.truncated val
  if Fmt.isNan val ∨ x < t.min ∨ t.max < x then .error .undefined
  else
    let low := cpu.host.fpu.limit f t.min
    let high := cpu.host.fpu.limit f t.max
    let cpu := invalidIf (Fmt.isNan val || Fmt.lt val low || Fmt.le high val) cpu
    .ok (BitVec.ofInt 64 x, raise cpu (cpu.host.fpu.castFlags f val))

def fs (f : Fmt) (cpu : Cpu) (d : Decoder) : HostM Cpu :=
  Mmu.store cpu (cpu.regs d.rs1 + d.fsOffset) (cpu.fregs d.rs2) f.length

/-- The register is written whether or not the load went through. -/
def fl (f : Fmt) (cpu : Cpu) (d : Decoder) : HostM Cpu := do
  let (value, cpu) ← Mmu.load cpu (cpu.regs d.rs1 + d.flOffset) f.length
  .ok (cpu.setFreg d.rd (if f = .single then value ||| 0xffffffff00000000 else value))

/-- An operation of the host whose result goes to `rd`; a canonical NaN is invalid. -/
def resultOp (f : Fmt) (op : Cpu → Decoder → f.Bits × FeFlags) (cpu : Cpu) (d : Decoder) :
    HostM Cpu :=
  let (result, flags) := op cpu d
  let cpu := raise cpu flags
  .ok (setF (invalidIf (isCnan result) cpu) d.rd result)

def fmadd (f : Fmt) := resultOp f fun cpu d =>
  cpu.host.fpu.mulAdd f (getF f cpu d.rs1) (getF f cpu d.rs2) (getF f cpu d.rs3)

def fmsub (f : Fmt) := resultOp f fun cpu d =>
  cpu.host.fpu.mulSub f (getF f cpu d.rs1) (getF f cpu d.rs2) (getF f cpu d.rs3)

def fnmadd (f : Fmt) := resultOp f fun cpu d =>
  cpu.host.fpu.mulAdd f (Fmt.neg (getF f cpu d.rs1)) (getF f cpu d.rs2) (getF f cpu d.rs3)

def fnmsub (f : Fmt) := resultOp f fun cpu d =>
  cpu.host.fpu.mulSub f (Fmt.neg (getF f cpu d.rs1)) (getF f cpu d.rs2) (getF f cpu d.rs3)

def fadd (f : Fmt) := resultOp f fun cpu d =>
  cpu.host.fpu.add f (getF f cpu d.rs1) (getF f cpu d.rs2)

def fsub (f : Fmt) := resultOp f fun cpu d =>
  cpu.host.fpu.sub f (getF f cpu d.rs1) (getF f cpu d.rs2)

def fmul (f : Fmt) := resultOp f fun cpu d =>
  cpu.host.fpu.mul f (getF f cpu d.rs1) (getF f cpu d.rs2)

def fdiv (f : Fmt) := resultOp f fun cpu d =>
  cpu.host.fpu.div f (getF f cpu d.rs1) (getF f cpu d.rs2)

/-- `fmin` and `fmax`: `first` says when the first of two ordered numbers wins. -/
def minMaxOp (f : Fmt) (pick : f.Bits → f.Bits → f.Bits) (cpu : Cpu) (d : Decoder) : HostM Cpu :=
  let val1 := getF f cpu d.rs1
  let val2 := getF f cpu d.rs2
  let cpu := invalidIf (isSnan val1 || isSnan val2) cpu
  .ok (setF cpu d.rd
    (if Fmt.isNan val1 && Fmt.isNan val2 then getCanonicalNan f
    else if Fmt.isNan val1 then val2
    else if Fmt.isNan val2 then val1
    else pick val1 val2))

def fmin (f : Fmt) := minMaxOp f fun val1 val2 =>
  if Fmt.lt val1 val2 then val1
  else if Fmt.lt val2 val1 then val2
  else if Fmt.sign val1 then val1 else val2

def fmax (f : Fmt) := minMaxOp f fun val1 val2 =>
  if Fmt.lt val2 val1 then val1
  else if Fmt.lt val1 val2 then val2
  else if Fmt.sign val1 then val2 else val1

def fcvt (f g : Fmt) (cpu : Cpu) (d : Decoder) : HostM Cpu :=
  let (val, flags) := cpu.host.fpu.convert g f (getF g cpu d.rs1)
  .ok (setF (raise cpu flags) d.rd (if Fmt.isNan val then getCanonicalNan f else val))

def fsqrt (f : Fmt) (cpu : Cpu) (d : Decoder) : HostM Cpu :=
  let val1 := getF f cpu d.rs1
  let (result, flags) := cpu.host.fpu.sqrt f val1
  .ok (setF (invalidIf (Fmt.lt val1 0) (raise cpu flags)) d.rd result)

def compareOp (f : Fmt) (result invalid : f.Bits → f.Bits → Bool) (cpu : Cpu) (d : Decoder) :
    HostM Cpu :=
  let val1 := getF f cpu d.rs1
  let val2 := getF f cpu d.rs2
  .ok ((invalidIf (invalid val1 val2) cpu).setReg d.rd (boolWord (result val1 val2)))

def fle (f : Fmt) := compareOp f Fmt.le fun a b => Fmt.isNan a || Fmt.isNan b
def flt (f : Fmt) := compareOp f Fmt.lt fun a b => Fmt.isNan a || Fmt.isNan b
def feq (f : Fmt) := compareOp f Fmt.eq fun a b => isSnan a || isSnan b

def signOp (f : Fmt) (op : f.Bits → f.Bits → f.Bits) (cpu : Cpu) (d : Decoder) : HostM Cpu :=
  .ok (setF cpu d.rd (op (getF f cpu d.rs1) (getF f cpu d.rs2)))

def fsgnj (f : Fmt) := signOp f Fmt.copysign
def fsgnjn (f : Fmt) := signOp f fun a b => Fmt.copysign a (Fmt.neg b)

def fsgnjx (f : Fmt) := signOp f fun a b =>
  (a &&& (Fmt.signMask f - 1)) ||| ((a &&& Fmt.signMask f) ^^^ (b &&& Fmt.signMask f))

def fcvtsd (f : Fmt) (cpu : Cpu) (d : Decoder) : HostM Cpu :=
  let (val, cpu) := fdround (getF f cpu d.rs1) cpu d
  match d.rs2 with
  | 0x00 => do
    let (v, cpu) ← fdConvCheck .int32 val cpu
    .ok (cpu.setReg d.rd (signExtendCast v 32))
  | 0x01 => do
    let (v, cpu) ← fdConvCheck .uint32 val cpu
    .ok (cpu.setReg d.rd (signExtendCast v 32))
  | 0x02 => do
    let (v, cpu) ← fdConvCheck .int64 val cpu
    .ok (cpu.setReg d.rd v)
  | 0x03 => do
    let (v, cpu) ← fdConvCheck .uint64 val cpu
    .ok (cpu.setReg d.rd v)
  | _ => .ok (cpu.illegal d)

def setInt (f : Fmt) (x : Int) (cpu : Cpu) (d : Decoder) : HostM Cpu :=
  let (result, flags) := cpu.host.fpu.ofInt f x
  .ok (setF (raise cpu flags) d.rd result)

def fcvtsdw (f : Fmt) (cpu : Cpu) (d : Decoder) : HostM Cpu :=
  let val := cpu.regs d.rs1
  match d.rs2 with
  | 0x00 => setInt f (low32 val).toInt cpu d
  | 0x01 => setInt f (low32 val).toNat cpu d
  | 0x02 => setInt f val.toInt cpu d
  | 0x03 => setInt f val.toNat cpu d
  | _ => .ok (cpu.illegal d)

def fmvxwd (f : Fmt) (cpu : Cpu) (d : Decoder) : HostM Cpu :=
  .ok (cpu.setReg d.rd ((getF f cpu d.rs1).signExtend 64))

/-- `FClass`. -/
def classOf {f : Fmt} (val : f.Bits) : Word :=
  if Fmt.isNan val then (if isSnan val then 1#64 <<< 8 else 1#64 <<< 9)
  else if Fmt.isInf val then (if Fmt.sign val then 1#64 <<< 0 else 1#64 <<< 7)
  else if Fmt.isZero val then (if Fmt.sign val then 1#64 <<< 3 else 1#64 <<< 4)
  else if Fmt.isSubnormal val then (if Fmt.sign val then 1#64 <<< 2 else 1#64 <<< 5)
  else (if Fmt.sign val then 1#64 <<< 1 else 1#64 <<< 6)

def fclass (f : Fmt) (cpu : Cpu) (d : Decoder) : HostM Cpu :=
  .ok (cpu.setReg d.rd (classOf (getF f cpu d.rs1)))

/-- All 64 bits are moved, also for a `float`. -/
def fmvx (_ : Fmt) (cpu : Cpu) (d : Decoder) : HostM Cpu :=
  .ok (cpu.setFreg d.rd (cpu.regs d.rs1))

/-- The pending exceptions of the host go to `fflags`, except `FE_INVALID`. -/
def setExceptions (cpu : Cpu) : Cpu :=
  let cpu := if cpu.fenv.divByZero then setFpuException cpu FExcept.divByZero else cpu
  let cpu := if cpu.fenv.inexact then setFpuException cpu FExcept.inexact else cpu
  let cpu := if cpu.fenv.overflow then setFpuException cpu FExcept.overflow else cpu
  let cpu := if cpu.fenv.underflow then setFpuException cpu FExcept.underflow else cpu
  cpu.setFenv FeFlags.clear

/-- `check_fs`, the instruction itself, `set_exceptions`. -/
def checked (body : Cpu → Decoder → HostM Cpu) (cpu : Cpu) (d : Decoder) : HostM Cpu :=
  if cpu.cregs.isFpuEnabled then do
    let cpu ← body cpu d
    .ok (setExceptions cpu)
  else .ok (cpu.setException .illegalInstruction 0)

end Fdimpl

namespace Fdtype

open Fdimpl (checked)

def fs := checked fun cpu d =>
  match d.funct3 with
  | 0x2 => Fdimpl.fs .single cpu d
  | 0x3 => Fdimpl.fs .double cpu d
  | _ => .ok (cpu.illegal d)

def fl := checked fun cpu d =>
  match d.funct3 with
  | 0x2 => Fdimpl.fl .single cpu d
  | 0x3 => Fdimpl.fl .double cpu d
  | _ => .ok (cpu.illegal d)

def fused (op : Fmt → Cpu → Decoder → HostM Cpu) := checked fun cpu d =>
  if d.funct2 = 0x00 then op .single cpu d
  else if d.funct2 = 0x01 then op .double cpu d
  else .ok (cpu.illegal d)

def fmadd := fused Fdimpl.fmadd
def fmsub := fused Fdimpl.fmsub
def fnmadd := fused Fdimpl.fnmadd
def fnmsub := fused Fdimpl.fnmsub

def fsgnjBy (f : Fmt) (cpu : Cpu) (d : Decoder) : HostM Cpu :=
  match d.funct3 with
  | 0x0 => Fdimpl.fsgnj f cpu d
  | 0x1 => Fdimpl.fsgnjn f cpu d
  | 0x2 => Fdimpl.fsgnjx f cpu d
  | _ => .ok (cpu.illegal d)

def fminmaxBy (f : Fmt) (cpu : Cpu) (d : Decoder) : HostM Cpu :=
  match d.funct3 with
  | 0x0 => Fdimpl.fmin f cpu d
  | 0x1 => Fdimpl.fmax f cpu d
  | _ => .ok (cpu.illegal d)

def fcBy (f : Fmt) (cpu : Cpu) (d : Decoder) : HostM Cpu :=
  match d.funct3 with
  | 0x0 => Fdimpl.fle f cpu d
  | 0x1 => Fdimpl.flt f cpu d
  | 0x2 => Fdimpl.feq f cpu d
  | _ => .ok (cpu.illegal d)

def fmvBy (f : Fmt) (cpu : Cpu) (d : Decoder) : HostM Cpu :=
  match d.funct3 with
  | 0x0 => Fdimpl.fmvxwd f cpu d
  | 0x1 => Fdimpl.fclass f cpu d
  | _ => .ok (cpu.illegal d)

/-- The instruction that a value of `funct7` stands for. -/
def fotherOp (funct7 : BitVec 7) : Option (Cpu → Decoder → HostM Cpu) :=
  match funct7 with
  | 0x00 => some (Fdimpl.fadd .single)
  | 0x01 => some (Fdimpl.fadd .double)
  | 0x04 => some (Fdimpl.fsub .single)
  | 0x05 => some (Fdimpl.fsub .double)
  | 0x08 => some (Fdimpl.fmul .single)
  | 0x09 => some (Fdimpl.fmul .double)
  | 0x0c => some (Fdimpl.fdiv .single)
  | 0x0d => some (Fdimpl.fdiv .double)
  | 0x10 => some (fsgnjBy .single)
  | 0x11 => some (fsgnjBy .double)
  | 0x14 => some (fminmaxBy .single)
  | 0x15 => some (fminmaxBy .double)
  | 0x20 => some (Fdimpl.fcvt .single .double)
  | 0x21 => some (Fdimpl.fcvt .double .single)
  | 0x2c => some (Fdimpl.fsqrt .single)
  | 0x2d => some (Fdimpl.fsqrt .double)
  | 0x50 => some (fcBy .single)
  | 0x51 => some (fcBy .double)
  | 0x60 => some (Fdimpl.fcvtsd .single)
  | 0x61 => some (Fdimpl.fcvtsd .double)
  | 0x68 => some (Fdimpl.fcvtsdw .single)
  | 0x69 => some (Fdimpl.fcvtsdw .double)
  | 0x70 => some (fmvBy .single)
  | 0x71 => some (fmvBy .double)
  | 0x78 => some (Fdimpl.fmvx .single)
  | 0x79 => some (Fdimpl.fmvx .double)
  | _ => none

def fother := checked fun cpu d =>
  match fotherOp d.funct7 with
  | some op => op cpu d
  | none => .ok (cpu.illegal d)

end Fdtype

end Rv64gcEmu
