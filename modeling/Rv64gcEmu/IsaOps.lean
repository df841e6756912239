import Rv64gcEmu.DivideInsn
import Rv64gcEmu.HartView
import Rv64gcEmu.Multiply
import Rv64gcEmu.Shifts

namespace Rv64gcEmu

open Rv64 (Op)

/-- The operands for which the handler of an operation on two registers gives its result. -/
def OpExact (op : Op) (a b : Word) : Prop :=
  match op with
  | .sll => b.toNat < 64
  | .srl => b.toNat < 64
  | .sra => b.toNat < 32 ∧ a = (low32 a).signExtend 64
  | .divide .div => ¬Rtype.DivSlips a b
  | .dividew .rem => RemwExact a b
  | .dividew .remu => RemuwExact a b
  | _ => True

namespace Decoder

/-- The instruction that the fields of a word name. -/
theorem names_of_code {d : Decoder} {op : Op}
    (h : op.code = (d.insn.extractLsb' 0 7, d.insn.extractLsb' 25 7, d.insn.extractLsb' 12 3))
    (t : OpcodeType) {funct7 : BitVec 7} {funct3 : BitVec 3}
    (hcode : op.code = (t.code, funct7, funct3)) : d.Names t funct3 funct7 := by
  obtain ⟨hop, h⟩ := Prod.mk.inj (hcode.symm.trans h)
  obtain ⟨h7, h3⟩ := Prod.mk.inj h
  exact ⟨opcodeType_of_opcode hop.symm, d.funct3_eq.trans h3.symm, d.funct7_eq.trans h7.symm⟩

end Decoder

namespace Cpu

variable {cpu : Cpu} {d : Decoder} {op : Op} {funct3 : BitVec 3} {funct7 : BitVec 7}

theorem writes_rtype {v : Word} (h : d.Names .r funct3 funct7)
    (hx : Rtype.funct3 cpu d = .ok (cpu.setReg d.rd v)) : cpu.Writes d v := by
  rw [writes_iff h.1, execute32, h.1]
  exact hx

theorem writes_r64 {v : Word} (h : d.Names .r64 funct3 funct7)
    (hx : R64.funct3 cpu d = .ok (cpu.setReg d.rd v)) : cpu.Writes d v := by
  rw [writes_iff h.1, execute32, h.1]
  exact hx

/-- The low half of a sum is the sum of the low halves. -/
theorem cast_add (a b : Word) : signExtendCast (a + b) 32 = (low32 a + low32 b).signExtend 64 := by
  rw [signExtendCast, BitVec.setWidth_add _ _ (by decide)]

theorem cast_sub (a b : Word) : signExtendCast (a - b) 32 = (low32 a - low32 b).signExtend 64 := by
  have hsub : (a - b).setWidth 32 = low32 a - low32 b := by
    rw [BitVec.sub_eq_add_neg, BitVec.sub_eq_add_neg, BitVec.setWidth_add _ _ (by decide),
      BitVec.setWidth_neg_of_le (by decide)]
  rw [signExtendCast, hsub]

theorem cast_mul (a b : Word) : signExtendCast (a * b) 32 = (low32 a * low32 b).signExtend 64 := by
  rw [signExtendCast, BitVec.setWidth_mul _ _ (by decide)]

theorem writes_divide {o : WordDivision.Op} (h : d.Names .r (divideFunct3 o) 1)
    (he : OpExact (.divide o) (cpu.regs d.rs1) (cpu.regs d.rs2)) :
    cpu.Writes d (o.result (cpu.regs d.rs1) (cpu.regs d.rs2)) := by
  refine writes_rtype h ?_
  obtain ⟨_, h3, h7⟩ := h
  simp only [Rtype.funct3, h3, h7]
  cases o with
  | div => exact Rtype.div_iff.mpr he
  | divu => exact Rtype.divu_eq
  | rem => exact Rtype.rem_eq
  | remu => exact Rtype.remu_eq

theorem writes_dividew {o : WordDivision.Op} (h : d.Names .r64 (divideFunct3 o) 1)
    (he : OpExact (.dividew o) (cpu.regs d.rs1) (cpu.regs d.rs2)) :
    cpu.Writes d ((o.result (low32 (cpu.regs d.rs1)) (low32 (cpu.regs d.rs2))).signExtend 64) := by
  refine writes_r64 h ?_
  obtain ⟨_, h3, h7⟩ := h
  simp only [R64.funct3, h3, h7]
  cases o with
  | div => exact R64.divw_eq
  | divu => exact R64.divuw_eq
  | rem => exact R64.remw_iff.mpr he
  | remu => exact R64.remuw_iff.mpr he

/-- The handler that a word names gives the result of its operation. -/
theorem writes_op
    (h : op.code = (d.insn.extractLsb' 0 7, d.insn.extractLsb' 25 7, d.insn.extractLsb' 12 3))
    (he : OpExact op (cpu.regs d.rs1) (cpu.regs d.rs2)) :
    cpu.Writes d (op.eval (cpu.regs d.rs1) (cpu.regs d.rs2)) := by
  have names := Decoder.names_of_code h
  cases op with
  | add | sub | slt | sltu | xor | or | and =>
    have hn := names .r rfl
    refine writes_rtype hn ?_
    simp only [Rtype.funct3, hn.2.1, hn.2.2]
    rfl
  | sll =>
    have hn : d.Names .r ShiftOp.sll.funct3 ShiftOp.sll.funct7 := names .r rfl
    have hw := (writes_iff hn.1).mpr ((ShiftForm.reg_iff hn).mpr he)
    exact hw
  | srl =>
    have hn : d.Names .r ShiftOp.srl.funct3 ShiftOp.srl.funct7 := names .r rfl
    have hw := (writes_iff hn.1).mpr ((ShiftForm.reg_iff hn).mpr he)
    exact hw
  | sra =>
    have hn : d.Names .r ShiftOp.sra.funct3 ShiftOp.sra.funct7 := names .r rfl
    have hw := (writes_iff hn.1).mpr ((ShiftForm.reg_iff hn).mpr he)
    exact hw
  | addw =>
    have hn := names .r64 rfl
    refine writes_r64 hn ?_
    simp only [R64.funct3, hn.2.1, hn.2.2]
    exact Rtype.regOp_eq_ok_iff.mpr (congrArg Except.ok (cast_add _ _))
  | subw =>
    have hn := names .r64 rfl
    refine writes_r64 hn ?_
    simp only [R64.funct3, hn.2.1, hn.2.2]
    exact Rtype.regOp_eq_ok_iff.mpr (congrArg Except.ok (cast_sub _ _))
  | mulw =>
    have hn := names .r64 rfl
    refine writes_r64 hn ?_
    simp only [R64.funct3, hn.2.1, hn.2.2]
    exact Rtype.regOp_eq_ok_iff.mpr (congrArg Except.ok (cast_mul _ _))
  | sllw =>
    have hn : d.Names .r64 ShiftOp.sll.funct3 ShiftOp.sll.funct7 := names .r64 rfl
    have hw := (writes_iff hn.1).mpr (@ShiftForm.regWord_eq cpu d .sll hn)
    exact hw
  | srlw =>
    have hn : d.Names .r64 ShiftOp.srl.funct3 ShiftOp.srl.funct7 := names .r64 rfl
    have hw := (writes_iff hn.1).mpr (@ShiftForm.regWord_eq cpu d .srl hn)
    exact hw
  | sraw =>
    have hn : d.Names .r64 ShiftOp.sra.funct3 ShiftOp.sra.funct7 := names .r64 rfl
    have hw := (writes_iff hn.1).mpr (@ShiftForm.regWord_eq cpu d .sra hn)
    exact hw
  | mul => exact mul_writes (names .r rfl)
  | mulh =>
    have hw := @mulHigh_writes cpu d .mulh (names .r rfl)
    simp only [MulOp.wideLeft, MulOp.wideRight] at hw
    exact hw
  | mulhsu =>
    have hw := @mulHigh_writes cpu d .mulhsu (names .r rfl)
    simp only [MulOp.wideLeft, MulOp.wideRight] at hw
    exact hw
  | mulhu =>
    have hw := @mulHigh_writes cpu d .mulhu (names .r rfl)
    simp only [MulOp.wideLeft, MulOp.wideRight] at hw
    exact hw
  | divide o =>
    refine writes_divide (names .r ?_) he
    cases o <;> rfl
  | dividew o =>
    refine writes_dividew (names .r64 ?_) he
    cases o <;> rfl

/-- The amount of a shift is in the lowest bits of the immediate. -/
theorem toNat_amount {n : Nat} (x : BitVec n) (hn : n ≤ 64) :
    (x.setWidth 64).toNat % 2 ^ n = x.toNat := by
  have hlt := x.isLt
  have hpow : 2 ^ n ≤ 2 ^ 64 := Nat.pow_le_pow_right (by decide) hn
  rw [BitVec.toNat_setWidth, Nat.mod_eq_of_lt (by omega : x.toNat < 2 ^ 64), Nat.mod_eq_of_lt hlt]

/-- The upper six bits of `funct7`, which a shift by an immediate has. -/
theorem funct7_shift (d : Decoder) : d.funct7 >>> 1 = (d.insn.extractLsb' 26 6).setWidth 7 := by
  apply BitVec.eq_of_getLsbD_eq
  intro i hi
  rw [Decoder.funct7_eq, BitVec.getLsbD_ushiftRight, BitVec.getLsbD_extractLsb',
    BitVec.getLsbD_setWidth, BitVec.getLsbD_extractLsb']
  have hadd : 25 + (1 + i) = 26 + i := by omega
  have hlt : (1 + i < 7) = (i < 6) := by rw [eq_iff_iff]; omega
  simp only [hadd, hlt, hi, decide_true, Bool.true_and]

theorem writes_shift {s : ShiftOp} (ht : d.opcodeType = some .i) (hs : s ≠ .sra)
    (h3 : d.insn.extractLsb' 12 3 = s.funct3)
    (h6 : (d.insn.extractLsb' 26 6).setWidth 7 = s.funct7 >>> 1) :
    cpu.Writes d (s.shift (cpu.regs d.rs1) (((d.insn.extractLsb' 20 6).setWidth 64).toNat % 64)) := by
  have hn : d.NamesShift s .imm :=
    ⟨ht, d.funct3_eq.trans h3, (funct7_shift d).trans h6⟩
  have he : ShiftForm.Exact .imm s (cpu.regs d.rs1) (cpu.regs d.rs2) := by
    cases s with
    | sll => trivial
    | srl => trivial
    | sra => exact absurd rfl hs
  have hw := (writes_iff ht).mpr ((ShiftForm.imm_iff hn).mpr he)
  have hamount : _ % 64 = _ := toNat_amount (d.insn.extractLsb' 20 6) (by decide)
  rw [hamount]
  exact hw

theorem writes_shiftWord {s : ShiftOp} (hn : d.Names .i64 s.funct3 s.funct7) :
    cpu.Writes d ((s.shift (low32 (cpu.regs d.rs1))
      (((d.insn.extractLsb' 20 5).setWidth 64).toNat % 32)).signExtend 64) := by
  have hw := (writes_iff hn.1).mpr (@ShiftForm.immWord_eq cpu d s hn)
  have hamount : _ % 32 = _ := toNat_amount (d.insn.extractLsb' 20 5) (by decide)
  rw [hamount]
  exact hw

theorem writes_imm {imm : Word} (hop : d.insn.extractLsb' 0 7 = 0x13)
    (h : Rv64.decodeImm d.insn = some (op, imm)) (hs : op ≠ .sra) :
    cpu.Writes d (op.eval (cpu.regs d.rs1) imm) := by
  have ht : d.opcodeType = some .i := Decoder.opcodeType_of_opcode hop
  have himm : Rv64.immI d.insn = d.immI := d.immI_eq.symm
  have hf := d.funct3_eq
  unfold Rv64.decodeImm at h
  split at h
  iterate 6
    next h3 =>
      obtain ⟨rfl, rfl⟩ := Prod.mk.inj (Option.some.inj h)
      rw [writes_iff ht, execute32, ht]
      simp only [Itype.funct3, hf, h3, himm]
      rfl
  next h3 =>
    split at h
    next h6 =>
      obtain ⟨rfl, rfl⟩ := Prod.mk.inj (Option.some.inj h)
      have hw := @writes_shift cpu d .sll ht (by decide) h3 (by rw [h6]; rfl)
      exact hw
    next => cases h
  next h0 h1 h2 h3 h4 h5 h6 =>
    have hf5 : d.insn.extractLsb' 12 3 = 5 := by
      generalize d.insn.extractLsb' 12 3 = f at h0 h1 h2 h3 h4 h5 h6
      revert f
      decide
    split at h
    next h6 =>
      obtain ⟨rfl, rfl⟩ := Prod.mk.inj (Option.some.inj h)
      have hw := @writes_shift cpu d .srl ht (by decide) hf5 (by rw [h6]; rfl)
      exact hw
    next =>
      obtain ⟨rfl, -⟩ := Prod.mk.inj (Option.some.inj h)
      exact absurd rfl hs
    next => cases h

theorem writes_immWord {imm : Word} (hop : d.insn.extractLsb' 0 7 = 0x1b)
    (h : Rv64.decodeImmWord d.insn = some (op, imm)) :
    cpu.Writes d (op.eval (cpu.regs d.rs1) imm) := by
  have ht : d.opcodeType = some .i64 := Decoder.opcodeType_of_opcode hop
  have himm : Rv64.immI d.insn = d.immI := d.immI_eq.symm
  unfold Rv64.decodeImmWord at h
  split at h
  next h3 =>
    obtain ⟨rfl, rfl⟩ := Prod.mk.inj (Option.some.inj h)
    rw [writes_iff ht, execute32, ht]
    simp only [I64.funct3, d.funct3_eq, h3, himm]
    exact congrArg (fun v => Except.ok (cpu.setReg d.rd v)) (cast_add _ _)
  next h3 h7 =>
    obtain ⟨rfl, rfl⟩ := Prod.mk.inj (Option.some.inj h)
    have hw := @writes_shiftWord cpu d .sll ⟨ht, d.funct3_eq.trans h3, d.funct7_eq.trans h7⟩
    exact hw
  next h3 h7 =>
    obtain ⟨rfl, rfl⟩ := Prod.mk.inj (Option.some.inj h)
    have hw := @writes_shiftWord cpu d .srl ⟨ht, d.funct3_eq.trans h3, d.funct7_eq.trans h7⟩
    exact hw
  next h3 h7 =>
    obtain ⟨rfl, rfl⟩ := Prod.mk.inj (Option.some.inj h)
    have hw := @writes_shiftWord cpu d .sra ⟨ht, d.funct3_eq.trans h3, d.funct7_eq.trans h7⟩
    exact hw
  next => cases h

end Cpu

end Rv64gcEmu
