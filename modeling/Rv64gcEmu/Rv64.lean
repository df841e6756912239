import Rv64gcEmu.ByteMemory
import Rv64gcEmu.InsnFormat
import Rv64gcEmu.WordDivision

namespace Rv64

/-- The registers. `x0` is zero. -/
@[ext] structure Regs where
  get : BitVec 5 → BitVec 64
  get_zero : get 0 = 0

def Regs.zero : Regs where
  get _ := 0
  get_zero := rfl

/-- A write to `x0` is lost. -/
def Regs.set (regs : Regs) (rd : BitVec 5) (v : BitVec 64) : Regs where
  get r := if r = rd ∧ r ≠ 0 then v else regs.get r
  get_zero := by
    rw [if_neg fun h => h.2 rfl]
    exact regs.get_zero

theorem Regs.set_zero (regs : Regs) (v : BitVec 64) : regs.set 0 v = regs :=
  Regs.ext (funext fun _ => if_neg fun h => h.2 h.1)

structure Hart where
  pc : BitVec 64
  regs : Regs
  mem : ByteMemory 64

/-- The operations on two operands. -/
inductive Op where
  | add
  | sub
  | sll
  | slt
  | sltu
  | xor
  | srl
  | sra
  | or
  | and
  | addw
  | subw
  | sllw
  | srlw
  | sraw
  | mul
  | mulh
  | mulhsu
  | mulhu
  | mulw
  | divide (op : WordDivision.Op)
  | dividew (op : WordDivision.Op)
  deriving DecidableEq

namespace Op

/-- The lower half of a register, and the operation on it. -/
def low (a : BitVec 64) : BitVec 32 := a.setWidth 32

def flag (b : Bool) : BitVec 64 := if b then 1 else 0

/-- A shift takes its amount from the low bits of the second operand. -/
def eval (op : Op) (a b : BitVec 64) : BitVec 64 :=
  match op with
  | add => a + b
  | sub => a - b
  | sll => a <<< (b.toNat % 64)
  | slt => flag (a.slt b)
  | sltu => flag (a.ult b)
  | xor => a ^^^ b
  | srl => a >>> (b.toNat % 64)
  | sra => a.sshiftRight (b.toNat % 64)
  | or => a ||| b
  | and => a &&& b
  | addw => (low a + low b).signExtend 64
  | subw => (low a - low b).signExtend 64
  | sllw => (low a <<< (b.toNat % 32)).signExtend 64
  | srlw => (low a >>> (b.toNat % 32)).signExtend 64
  | sraw => ((low a).sshiftRight (b.toNat % 32)).signExtend 64
  | mul => a * b
  | mulh => ((a.signExtend 128 * b.signExtend 128) >>> 64).setWidth 64
  | mulhsu => ((a.signExtend 128 * b.setWidth 128) >>> 64).setWidth 64
  | mulhu => ((a.setWidth 128 * b.setWidth 128) >>> 64).setWidth 64
  | mulw => (low a * low b).signExtend 64
  | divide op => op.result a b
  | dividew op => (op.result (low a) (low b)).signExtend 64

end Op

/-- The comparisons of the branches. -/
inductive Cond where
  | eq
  | ne
  | lt
  | ge
  | ltu
  | geu
  deriving DecidableEq

def Cond.holds (cond : Cond) (a b : BitVec 64) : Bool :=
  match cond with
  | eq => a = b
  | ne => a ≠ b
  | lt => a.slt b
  | ge => b.sle a
  | ltu => a.ult b
  | geu => b.ule a

/-- The atomic operations on memory. -/
inductive Amo where
  | swap
  | add
  | xor
  | and
  | or
  | min
  | max
  | minu
  | maxu
  deriving DecidableEq

/-- What is left in memory. -/
def Amo.combine {n : Nat} (amo : Amo) (old operand : BitVec n) : BitVec n :=
  match amo with
  | swap => operand
  | add => old + operand
  | xor => old ^^^ operand
  | and => old &&& operand
  | or => old ||| operand
  | min => if operand.slt old then operand else old
  | max => if old.slt operand then operand else old
  | minu => if operand.ult old then operand else old
  | maxu => if old.ult operand then operand else old

/-- The instructions of RV64IM, with the atomic operations on memory. Immediates and offsets are given
as the extended words, and accesses by their number of bytes. -/
inductive Instr where
  | op (op : Op) (rd rs1 rs2 : BitVec 5)
  | opImm (op : Op) (rd rs1 : BitVec 5) (imm : BitVec 64)
  | lui (rd : BitVec 5) (imm : BitVec 64)
  | auipc (rd : BitVec 5) (imm : BitVec 64)
  | load (n : Nat) (signed : Bool) (rd rs1 : BitVec 5) (offset : BitVec 64)
  | store (n : Nat) (rs1 rs2 : BitVec 5) (offset : BitVec 64)
  | amo (amo : Amo) (n : Nat) (rd rs1 rs2 : BitVec 5)
  | branch (cond : Cond) (rs1 rs2 : BitVec 5) (offset : BitVec 64)
  | jal (rd : BitVec 5) (offset : BitVec 64)
  | jalr (rd rs1 : BitVec 5) (offset : BitVec 64)
  | fence
  deriving DecidableEq

namespace Hart

/-- The hart with a result in `rd`, at the address `pc`. -/
def next (h : Hart) (rd : BitVec 5) (v pc : BitVec 64) : Hart :=
  { h with regs := h.regs.set rd v, pc := pc }

def jump (h : Hart) (pc : BitVec 64) : Hart := { h with pc := pc }

theorem next_zero (h : Hart) (v pc : BitVec 64) : h.next 0 v pc = h.jump pc := by
  unfold next jump
  rw [Regs.set_zero]

end Hart

/-- The number in the bytes of an access. -/
def extend {n : Nat} (signed : Bool) (v : BitVec n) : BitVec 64 :=
  if signed then v.signExtend 64 else v.setWidth 64

/-- One instruction of `size` bytes. An access outside of the memory has no result, nor has an
atomic operation on a misaligned word. -/
def Instr.exec (size : BitVec 64) (h : Hart) : Instr → Option Hart
  | op f rd rs1 rs2 => some (h.next rd (f.eval (h.regs.get rs1) (h.regs.get rs2)) (h.pc + size))
  | opImm f rd rs1 imm => some (h.next rd (f.eval (h.regs.get rs1) imm) (h.pc + size))
  | lui rd imm => some (h.next rd imm (h.pc + size))
  | auipc rd imm => some (h.next rd (h.pc + imm) (h.pc + size))
  | load n signed rd rs1 offset => do
    let v ← h.mem.load (h.regs.get rs1 + offset) n
    some (h.next rd (extend signed v) (h.pc + size))
  | store n rs1 rs2 offset => do
    let mem ← h.mem.store (h.regs.get rs1 + offset) n (h.regs.get rs2)
    some { h with mem := mem, pc := h.pc + size }
  | amo f n rd rs1 rs2 =>
    let address := h.regs.get rs1
    if address.toNat % n = 0 then do
      let old ← h.mem.load address n
      let mem ← h.mem.store address n (f.combine old ((h.regs.get rs2).setWidth (8 * n)))
      some ({ h with mem := mem }.next rd (old.signExtend 64) (h.pc + size))
    else none
  | branch cond rs1 rs2 offset =>
    some (h.jump (h.pc + if cond.holds (h.regs.get rs1) (h.regs.get rs2) then offset else size))
  | jal rd offset => some (h.next rd (h.pc + size) (h.pc + offset))
  | jalr rd rs1 offset => some (h.next rd (h.pc + size) ((h.regs.get rs1 + offset) &&& ~~~1))
  | fence => some (h.jump (h.pc + size))

/-- The opcode, `funct7` and `funct3` of an operation on two registers. -/
def Op.code : Op → BitVec 7 × BitVec 7 × BitVec 3
  | add => (0x33, 0x00, 0)
  | sub => (0x33, 0x20, 0)
  | sll => (0x33, 0x00, 1)
  | slt => (0x33, 0x00, 2)
  | sltu => (0x33, 0x00, 3)
  | xor => (0x33, 0x00, 4)
  | srl => (0x33, 0x00, 5)
  | sra => (0x33, 0x20, 5)
  | or => (0x33, 0x00, 6)
  | and => (0x33, 0x00, 7)
  | addw => (0x3b, 0x00, 0)
  | subw => (0x3b, 0x20, 0)
  | sllw => (0x3b, 0x00, 1)
  | srlw => (0x3b, 0x00, 5)
  | sraw => (0x3b, 0x20, 5)
  | mul => (0x33, 0x01, 0)
  | mulh => (0x33, 0x01, 1)
  | mulhsu => (0x33, 0x01, 2)
  | mulhu => (0x33, 0x01, 3)
  | mulw => (0x3b, 0x01, 0)
  | divide .div => (0x33, 0x01, 4)
  | divide .divu => (0x33, 0x01, 5)
  | divide .rem => (0x33, 0x01, 6)
  | divide .remu => (0x33, 0x01, 7)
  | dividew .div => (0x3b, 0x01, 4)
  | dividew .divu => (0x3b, 0x01, 5)
  | dividew .rem => (0x3b, 0x01, 6)
  | dividew .remu => (0x3b, 0x01, 7)

def Op.all : List Op :=
  [add, sub, sll, slt, sltu, xor, srl, sra, or, and, addw, subw, sllw, srlw, sraw, mul, mulh,
    mulhsu, mulhu, mulw] ++ [WordDivision.Op.div, .divu, .rem, .remu].map divide ++
    [WordDivision.Op.div, .divu, .rem, .remu].map dividew

/-- The `funct3` of a branch. -/
def Cond.code : Cond → BitVec 3
  | eq => 0
  | ne => 1
  | lt => 4
  | ge => 5
  | ltu => 6
  | geu => 7

def Cond.all : List Cond := [eq, ne, lt, ge, ltu, geu]

/-- The upper five bits of an atomic operation. -/
def Amo.code : Amo → BitVec 5
  | swap => 0x01
  | add => 0x00
  | xor => 0x04
  | and => 0x0c
  | or => 0x08
  | min => 0x10
  | max => 0x14
  | minu => 0x18
  | maxu => 0x1c

def Amo.all : List Amo := [swap, add, xor, and, or, min, max, minu, maxu]

section Decode

variable (w : BitVec 32)

def immI : BitVec 64 := (InsnWord.immI w).signExtend 64

/-- The operation with an immediate, and the immediate: of a shift by its low bits alone. -/
def decodeImm : Option (Op × BitVec 64) :=
  match w.extractLsb' 12 3 with
  | 0 => some (.add, immI w)
  | 2 => some (.slt, immI w)
  | 3 => some (.sltu, immI w)
  | 4 => some (.xor, immI w)
  | 6 => some (.or, immI w)
  | 7 => some (.and, immI w)
  | 1 =>
    match w.extractLsb' 26 6 with
    | 0x00 => some (.sll, (w.extractLsb' 20 6).setWidth 64)
    | _ => none
  | _ =>
    match w.extractLsb' 26 6 with
    | 0x00 => some (.srl, (w.extractLsb' 20 6).setWidth 64)
    | 0x10 => some (.sra, (w.extractLsb' 20 6).setWidth 64)
    | _ => none

def decodeImmWord : Option (Op × BitVec 64) :=
  match w.extractLsb' 12 3, w.extractLsb' 25 7 with
  | 0, _ => some (.addw, immI w)
  | 1, 0x00 => some (.sllw, (w.extractLsb' 20 5).setWidth 64)
  | 5, 0x00 => some (.srlw, (w.extractLsb' 20 5).setWidth 64)
  | 5, 0x20 => some (.sraw, (w.extractLsb' 20 5).setWidth 64)
  | _, _ => none

/-- The number of bytes that a load reads, and whether it extends their sign. -/
def decodeLoad : Option (Nat × Bool) :=
  match w.extractLsb' 12 3 with
  | 0 => some (1, true)
  | 1 => some (2, true)
  | 2 => some (4, true)
  | 3 => some (8, true)
  | 4 => some (1, false)
  | 5 => some (2, false)
  | 6 => some (4, false)
  | _ => none

def decodeStore : Option Nat :=
  match w.extractLsb' 12 3 with
  | 0 => some 1
  | 1 => some 2
  | 2 => some 4
  | 3 => some 8
  | _ => none

def decodeAmo : Option (Amo × Nat) := do
  let f ← Amo.all.find? fun f => f.code = w.extractLsb' 27 5
  match w.extractLsb' 12 3 with
  | 2 => some (f, 4)
  | 3 => some (f, 8)
  | _ => none

/-- The instruction that a word stands for. -/
def decode : Option Instr :=
  let rd := w.extractLsb' 7 5
  let rs1 := w.extractLsb' 15 5
  let rs2 := w.extractLsb' 20 5
  match w.extractLsb' 0 7 with
  | 0x03 => (decodeLoad w).map fun p => .load p.1 p.2 rd rs1 (immI w)
  | 0x0f => if w.extractLsb' 12 3 = 0 ∨ w.extractLsb' 12 3 = 1 then some .fence else none
  | 0x13 => (decodeImm w).map fun p => .opImm p.1 rd rs1 p.2
  | 0x17 => some (.auipc rd ((InsnWord.immU w).signExtend 64))
  | 0x1b => (decodeImmWord w).map fun p => .opImm p.1 rd rs1 p.2
  | 0x23 => (decodeStore w).map fun n => .store n rs1 rs2 ((InsnWord.immS w).signExtend 64)
  | 0x2f => (decodeAmo w).map fun p => .amo p.1 p.2 rd rs1 rs2
  | 0x37 => some (.lui rd ((InsnWord.immU w).signExtend 64))
  | 0x63 => (Cond.all.find? fun c => c.code = w.extractLsb' 12 3).map fun c =>
    .branch c rs1 rs2 ((InsnWord.immB w).signExtend 64)
  | 0x67 => if w.extractLsb' 12 3 = 0 then some (.jalr rd rs1 (immI w)) else none
  | 0x6f => some (.jal rd ((InsnWord.immJ w).signExtend 64))
  | opcode => (Op.all.find? fun f => f.code = (opcode, w.extractLsb' 25 7, w.extractLsb' 12 3)).map
    fun f => .op f rd rs1 rs2

end Decode

-- `addi x5, x6, -1`, `mulhsu x5, x6, x7` and `amomaxu.d x5, x7, (x6)`.
example : decode 0xfff30293 = some (.opImm .add 5 6 (-1)) := by decide
example : decode 0x027322b3 = some (.op .mulhsu 5 6 7) := by decide
example : decode 0xe07332af = some (.amo .maxu 8 5 6 7) := by decide

/-- An instruction with its number of bytes. -/
structure Sized where
  size : BitVec 64
  instr : Instr
  deriving DecidableEq

/-- One step of a hart, by a decoder that is given the four bytes from the `pc` on. -/
structure Step (decoder : BitVec 32 → Option Sized) (h : Hart) (i : Sized) (h' : Hart) : Prop where
  decode : (h.mem.load h.pc 4).bind decoder = some i
  exec : i.instr.exec i.size h = some h'

end Rv64
