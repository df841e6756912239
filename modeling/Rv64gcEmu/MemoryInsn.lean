import Rv64gcEmu.DecoderFields
import Rv64gcEmu.LoopCases

namespace Rv64gcEmu

/-- `LB`, `LH`, `LW`, `LD`, `LBU`, `LHU`, `LWU`; `SB`, `SH`, `SW`, `SD`. -/
inductive MemoryInsn where
  | load (length : Width) (signed : Bool)
  | store (length : Width)
  deriving DecidableEq

namespace MemoryInsn

/-- The instruction of a word, by its opcode and its `funct3`. -/
def of (d : Decoder) : Option MemoryInsn :=
  match d.opcodeType with
  | some .load =>
    match d.funct3 with
    | 0 => some (.load .w8 true)
    | 1 => some (.load .w16 true)
    | 2 => some (.load .w32 true)
    | 3 => some (.load .w64 true)
    | 4 => some (.load .w8 false)
    | 5 => some (.load .w16 false)
    | 6 => some (.load .w32 false)
    | _ => none
  | some .s =>
    match d.funct3 with
    | 0 => some (.store .w8)
    | 1 => some (.store .w16)
    | 2 => some (.store .w32)
    | 3 => some (.store .w64)
    | _ => none
  | _ => none

def length : MemoryInsn → Width
  | load length _ => length
  | store length => length

def accessType : MemoryInsn → AccessType
  | load .. => .load
  | store _ => .store

/-- The immediate of the I format, and that of the S format. -/
def offset (d : Decoder) : MemoryInsn → Word
  | load .. => (d.insn.extractLsb' 20 12).signExtend 64
  | store _ => d.storeImm.signExtend 64

/-- The number that the bits of an access stand for, in a register. -/
def extend {n : Nat} (signed : Bool) (v : BitVec n) : Word :=
  if signed then v.signExtend 64 else v.setWidth 64

/-- What a load makes of the number that it gets. -/
def cast (length : Width) (signed : Bool) (v : Word) : Word :=
  if signed then signExtendCast v length.bits else v

variable {d : Decoder} {length : Width} {signed : Bool}

theorem execute_load (cpu : Cpu) (h : of d = some (.load length signed)) : cpu.execute d =
    (Load.loadOp (cast length signed) length cpu d >>= fun c => .ok (4, c)) := by
  unfold of at h
  split at h
  next ht =>
    have hbody : cpu.execute32 d = Load.loadOp (cast length signed) length cpu d := by
      split at h
      all_goals cases h
      all_goals
        rename_i h3
        rw [Cpu.execute32, ht]
        simp only [Load.funct3]
        rw [h3]
        rfl
    rw [Cpu.execute_of_type ht, hbody]
  next =>
    split at h
    all_goals cases h
  next => cases h

theorem execute_store (cpu : Cpu) (h : of d = some (.store length)) : cpu.execute d =
    (Mmu.store cpu (cpu.regs d.rs1 + d.immS) (cpu.regs d.rs2) length >>= fun c => .ok (4, c)) := by
  unfold of at h
  split at h
  next =>
    split at h
    all_goals cases h
  next ht =>
    have hbody : cpu.execute32 d =
        Mmu.store cpu (cpu.regs d.rs1 + d.immS) (cpu.regs d.rs2) length := by
      split at h
      all_goals cases h
      all_goals
        rename_i h3
        rw [Cpu.execute32, ht]
        simp only [Stype.funct3]
        rw [h3]
        rfl
    rw [Cpu.execute_of_type ht, hbody]
  next => cases h

end MemoryInsn

end Rv64gcEmu
