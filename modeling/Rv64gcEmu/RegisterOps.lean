import Rv64gcEmu.DecoderFields
import Rv64gcEmu.LoopCases
import Rv64gcEmu.SignedWord

namespace Rv64gcEmu

/-- The instruction with this opcode, `funct3` and `funct7`. -/
def Decoder.Names (d : Decoder) (t : OpcodeType) (funct3 : BitVec 3) (funct7 : BitVec 7) : Prop :=
  d.opcodeType = some t ∧ d.funct3 = funct3 ∧ d.funct7 = funct7

instance (d : Decoder) (t : OpcodeType) (funct3 : BitVec 3) (funct7 : BitVec 7) :
    Decidable (d.Names t funct3 funct7) :=
  inferInstanceAs (Decidable (_ ∧ _))

namespace Cpu

variable {cpu : Cpu} {d : Decoder} {t : OpcodeType} {v : Word}

/-- The instruction is executed, and all it does is to leave `v` in `rd`. -/
def Writes (cpu : Cpu) (d : Decoder) (v : Word) : Prop :=
  cpu.execute d = .ok (4, cpu.setReg d.rd v)

theorem setReg_inj {r : BitVec 5} {v v' : Word} : cpu.setReg r v = cpu.setReg r v' ↔ v = v' := by
  constructor
  · intro h
    have hr := congrFun (congrArg Cpu.regs h) r
    simpa using hr
  · rintro rfl
    rfl

theorem writes_iff (ht : d.opcodeType = some t) :
    cpu.Writes d v ↔ cpu.execute32 d = .ok (cpu.setReg d.rd v) := by
  unfold Writes
  rw [execute_of_type ht]
  cases cpu.execute32 d with
  | error e => simp [bind, Except.bind]
  | ok c => simp [bind, Except.bind]

/-- A processor with `a` in `x6` and `b` in `x7`. -/
def ofOperands (a b : Word) : Cpu :=
  let cpu := init (RamDevice.init 0x80000000 0x1000) none none false ⟨true, true, default⟩
  (cpu.setReg 6 a).setReg 7 b

end Cpu

theorem Rtype.regOp_eq_ok_iff {op : Word → Word → HostM Word} {cpu : Cpu} {d : Decoder} {v : Word} :
    regOp op cpu d = .ok (cpu.setReg d.rd v) ↔ op (cpu.regs d.rs1) (cpu.regs d.rs2) = .ok v := by
  unfold regOp
  cases op (cpu.regs d.rs1) (cpu.regs d.rs2) with
  | error e => simp [bind, Except.bind]
  | ok u => simp [bind, Except.bind, Cpu.setReg_inj]

/-- A computation that stops on `p` and gives `x` otherwise. -/
theorem ite_undefined_eq_ok_iff {p : Prop} [Decidable p] {x v : Word} :
    ((if p then .error .undefined else .ok () : HostM Unit) >>= fun _ => .ok x) = .ok v ↔
      ¬p ∧ x = v := by
  by_cases hp : p
  · simp [hp, bind, Except.bind]
  · simp [hp, bind, Except.bind]

theorem low32_range (a : Word) : -2 ^ 31 ≤ (low32 a).toInt ∧ (low32 a).toInt < 2 ^ 31 :=
  ⟨BitVec.le_toInt (low32 a), BitVec.toInt_lt⟩

theorem low32_congr (b : Word) : ∃ k, (low32 b).toInt - b.toInt = 2 ^ 32 * k :=
  SignedWord.dvd_toInt_setWidth_sub b (by decide)

theorem signExtendCast_word (x : BitVec 32) : signExtendCast x 32 = x.signExtend 64 := by
  rw [signExtendCast, BitVec.setWidth_eq]

end Rv64gcEmu
