import Rv64gcEmu.BaseInsn
import Rv64gcEmu.CompressedImm
import Rv64gcEmu.LoopCases

namespace Rv64gcEmu

open BitField (gather_append)
open BitVec (extractLsb'_append_eq_of_add_le)

/-- The state after a handler of two-byte instructions agrees with the state after a base
instruction: `pc` still lacks the length, and `x0` may have been written. -/
structure StepsLike (after spec : Cpu) : Prop where
  regs : ∀ r, r ≠ 0 → after.regs r = spec.regs r
  pc : after.pc + 2 = spec.pc
  rest : { after with regs := spec.regs, pc := spec.pc } = spec

namespace StepsLike

theorem writeReg_regs {cpu : Cpu} {rd r : BitVec 5} {v : Word} (hr : r ≠ 0) :
    (cpu.setReg rd v).regs r = (cpu.writeReg rd v).regs r := by
  unfold Cpu.writeReg
  split
  next h =>
    subst h
    exact Function.update_of_ne hr _ _
  next => rfl

theorem setReg {cpu : Cpu} (rd : BitVec 5) (v : Word) :
    StepsLike (cpu.setReg rd v) ((cpu.writeReg rd v).setPc (cpu.pc + 2)) where
  regs _ hr := writeReg_regs hr
  pc := rfl
  rest := by unfold Cpu.writeReg; split <;> rfl

theorem nop {cpu : Cpu} (v : Word) : StepsLike cpu ((cpu.writeReg 0 v).setPc (cpu.pc + 2)) where
  regs _ _ := rfl
  pc := rfl
  rest := rfl

theorem setPc {cpu : Cpu} (offset : Word) :
    StepsLike (cpu.setPc (cpu.pc + (offset - 2))) (cpu.setPc (cpu.pc + offset)) where
  regs _ _ := rfl
  pc := by
    simp only [Cpu.setPc_pc]
    rw [BitVec.add_assoc, BitVec.sub_add_cancel]
  rest := rfl

theorem branch {cpu : Cpu} (p : Prop) [Decidable p] (offset : Word) :
    StepsLike (if p then cpu.setPc (cpu.pc + (offset - 2)) else cpu)
      (cpu.setPc (cpu.pc + if p then offset else 2)) := by
  split
  next => exact .setPc offset
  next => exact ⟨fun _ _ => rfl, rfl, rfl⟩

theorem fallThrough (cpu : Cpu) : StepsLike cpu (cpu.setPc (cpu.pc + 2)) := ⟨fun _ _ => rfl, rfl, rfl⟩

end StepsLike

section Fields

variable (hi h : BitVec 16)

/-- The word that is decoded: the encoding with whatever follows it in memory. -/
abbrev wordOf : Decoder := ⟨hi ++ h⟩

theorem wordOf_opcode : (wordOf hi h).compressedOpcode = h.extractLsb' 0 2 := by
  rw [Decoder.compressedOpcode_eq, extractLsb'_append_eq_of_add_le (by omega)]

theorem wordOf_funct3 : (wordOf hi h).compressedFunct3 = h.extractLsb' 13 3 := by
  rw [Decoder.compressedFunct3_eq, extractLsb'_append_eq_of_add_le (by omega)]

theorem wordOf_funct2 : (wordOf hi h).compressedFunct2 = h.extractLsb' 10 2 := by
  rw [Decoder.compressedFunct2_eq, extractLsb'_append_eq_of_add_le (by omega)]

theorem wordOf_rd : (wordOf hi h).rd = Expand.reg h 7 := by
  rw [Decoder.rd_eq, extractLsb'_append_eq_of_add_le (by omega)]
  rfl

theorem wordOf_lowReg : Ctype.lowReg (wordOf hi h) = Expand.reg h 2 := by
  rw [Ctype.lowReg_eq, extractLsb'_append_eq_of_add_le (by omega)]
  rfl

theorem creg_of_field {f : BitVec 32} {g : BitVec 3} (hf : f = g.setWidth 32) :
    (f + 8).setWidth 5 = 1#2 ++ g := by
  subst hf
  revert g
  decide

theorem field3_eq (w : BitVec 32) (lo : Nat) :
    (w >>> lo) &&& 0x07 = (w.extractLsb' lo 3).setWidth 32 :=
  BitField.field_eq_of_setWidth w lo 3

theorem wordOf_compressedRd : (wordOf hi h).compressedRd = Expand.creg h 2 := by
  unfold Decoder.compressedRd
  rw [creg_of_field (field3_eq _ 2), extractLsb'_append_eq_of_add_le (by omega)]
  rfl

theorem wordOf_compressedRs2 : (wordOf hi h).compressedRs2 = Expand.creg h 2 :=
  wordOf_compressedRd hi h

theorem wordOf_compressedRs1 : (wordOf hi h).compressedRs1 = Expand.creg h 7 := by
  unfold Decoder.compressedRs1
  rw [creg_of_field (field3_eq _ 7), extractLsb'_append_eq_of_add_le (by omega)]
  rfl

theorem wordOf_bit12 : ((hi ++ h) >>> 12 &&& 0x01 = 0) ↔ h.getLsbD 12 = false := by
  have hb : (hi ++ h).getLsbD 12 = h.getLsbD 12 := by
    rw [BitVec.getLsbD_append, if_pos (by omega)]
  rw [← hb]
  exact BitField.field_one_eq_zero_iff _ 12

theorem wordOf_imm6 : Ctype.imm6 (wordOf hi h) = Expand.imm6 h := by
  rw [Ctype.imm6_eq, gather_append _ _ _ (by decide)]
  rfl

theorem wordOf_immBranch : Ctype.immBranch (wordOf hi h) = Expand.branchOffset h := by
  rw [Ctype.immBranch_eq, gather_append _ _ _ (by decide)]
  rfl

theorem wordOf_offsetWord : Ctype.offsetWord (wordOf hi h) = Expand.wordOffset h := by
  rw [Ctype.offsetWord_eq, gather_append _ _ _ (by decide)]
  rfl

theorem wordOf_offsetDouble : Ctype.offsetDouble (wordOf hi h) = Expand.doubleOffset h := by
  rw [Ctype.offsetDouble_eq, gather_append _ _ _ (by decide)]
  rfl

theorem wordOf_immAddi4spn : Ctype.immAddi4spn (wordOf hi h) = Expand.addi4spnImm h := by
  rw [Ctype.immAddi4spn_eq, gather_append _ _ _ (by decide)]
  rfl

theorem wordOf_immAddi16sp : Ctype.immAddi16sp (wordOf hi h) = Expand.addi16spImm h := by
  rw [Ctype.immAddi16sp_eq, gather_append _ _ _ (by decide)]
  rfl

theorem wordOf_immLui : Ctype.immLui (wordOf hi h) = Expand.luiImm h := by
  rw [Ctype.immLui_eq, gather_append _ _ _ (by decide)]
  rfl

theorem wordOf_immJ : Ctype.immJ (wordOf hi h) = Expand.jumpOffset h := by
  rw [Ctype.immJ_eq, gather_append _ _ _ (by decide)]
  rfl

theorem wordOf_offsetLwsp : Ctype.offsetLwsp (wordOf hi h) =
    Expand.unsigned h 8 [(6, 2, 2), (5, 12, 1), (2, 4, 3)] := by
  rw [Ctype.offsetLwsp_eq, gather_append _ _ _ (by decide)]
  rfl

theorem wordOf_offsetLdsp : Ctype.offsetLdsp (wordOf hi h) =
    Expand.unsigned h 9 [(6, 2, 3), (5, 12, 1), (3, 5, 2)] := by
  rw [Ctype.offsetLdsp_eq, gather_append _ _ _ (by decide)]
  rfl

theorem wordOf_offsetSwsp : Ctype.offsetSwsp (wordOf hi h) =
    Expand.unsigned h 8 [(6, 7, 2), (2, 9, 4)] := by
  rw [Ctype.offsetSwsp_eq, gather_append _ _ _ (by decide)]
  rfl

theorem wordOf_offsetSdsp : Ctype.offsetSdsp (wordOf hi h) =
    Expand.unsigned h 9 [(6, 7, 3), (3, 10, 3)] := by
  rw [Ctype.offsetSdsp_eq, gather_append _ _ _ (by decide)]
  rfl

/-- A field of the encoding, as the source cuts it out of the whole word. -/
theorem wordOf_field {lo n : Nat} (hn : lo + n ≤ 16) :
    (hi ++ h) >>> lo &&& BitVec.ofNat 32 (2 ^ n - 1) = (h.extractLsb' lo n).setWidth 32 := by
  have hlow : (hi ++ h).extractLsb' lo n = h.extractLsb' lo n :=
    extractLsb'_append_eq_of_add_le hn
  rw [← hlow]
  exact BitField.field_eq_of_setWidth (hi ++ h) lo n

theorem branchOp_eq (cond : Word → Bool) (cpu : Cpu) :
    Ctype.branchOp cond cpu (wordOf hi h) =
      .ok (if cond (cpu.regs (Expand.creg h 7)) then
        cpu.setPc (cpu.pc + (Expand.branchOffset h - 2)) else cpu) := by
  unfold Ctype.branchOp
  rw [wordOf_compressedRs1, wordOf_immBranch]
  split <;> rfl

theorem wordOf_compressedShamt :
    (wordOf hi h).compressedShamt.toNat = (Expand.shamt h).toNat % 64 := by
  have hw : (wordOf hi h).compressedShamt =
      (BitField.gather (wordOf hi h).insn 6 [(5, 12, 1), (0, 2, 5)]).setWidth 32 := by
    rw [BitField.gather_setWidth _ 32 (by decide : 6 ≤ 32) (by decide), BitVec.setWidth_eq]
    exact Ctype.gather_cons (BitField.shiftRight_piece rfl)
      (Ctype.gather_last (BitField.shiftRight_piece rfl))
  rw [hw, gather_append _ _ _ (by decide), Expand.shamt, Expand.unsigned]
  have hlt := (BitField.gather h 6 [(5, 12, 1), (0, 2, 5)]).isLt
  simp only [BitVec.toNat_setWidth]
  omega

end Fields

theorem loadReg_like {cpu spec : Cpu} {length : Width} {rd rs1 : BitVec 5} {offset : Word}
    {extend : Word → Word} (hext : ∀ v, extend v = (v.setWidth length.bits).signExtend 64)
    (hs : (BaseInsn.load length rd rs1 offset).exec 2 cpu = .ok spec) (hexc : spec.excVal = none) :
    ∃ after, Ctype.loadReg (cpu.regs rs1 + offset) length extend rd cpu = .ok after ∧
      StepsLike after spec := by
  obtain ⟨⟨v, c⟩, hl, hs⟩ := Except.bind_eq_ok_iff.mp hs
  simp only at hs
  split at hs
  next =>
    cases Except.ok.inj hs
    refine ⟨c.setReg rd (extend v), ?_, ?_⟩
    · unfold Ctype.loadReg
      rw [hl]
      rfl
    · rw [hext]
      exact .setReg rd _
  next hne =>
    cases Except.ok.inj hs
    exact absurd hexc hne

theorem store_like {cpu spec : Cpu} {length : Width} {rs1 rs2 : BitVec 5} {offset value : Word}
    (hv : value = ((cpu.regs rs2).setWidth length.bits).setWidth 64)
    (hs : (BaseInsn.store length rs1 rs2 offset).exec 2 cpu = .ok spec) (hexc : spec.excVal = none) :
    ∃ after, Mmu.store cpu (cpu.regs rs1 + offset) value length = .ok after ∧
      StepsLike after spec := by
  subst hv
  obtain ⟨c, hl, hs⟩ := Except.bind_eq_ok_iff.mp hs
  split at hs
  next =>
    cases Except.ok.inj hs
    exact ⟨c, hl, .fallThrough c⟩
  next hne =>
    cases Except.ok.inj hs
    exact absurd hexc hne

theorem zero_add_word (v : Word) : 0 + v = v := BitVec.zero_add v

theorem quadrant0_like {cpu spec : Cpu} (hi : BitVec 16) {h : BitVec 16} {insn : BaseInsn}
    (hx : Expand.quadrant0 h = some insn) (hs : insn.exec 2 cpu = .ok spec)
    (hexc : spec.excVal = none) :
    ∃ after, Ctype.quadrant0 cpu (wordOf hi h) = .ok after ∧ StepsLike after spec := by
  unfold Expand.quadrant0 at hx
  split at hx
  next hf =>
    split at hx
    next => cases hx
    next =>
      cases Option.some.inj hx
      cases Except.ok.inj hs
      refine ⟨_, ?_, .setReg _ _⟩
      simp only [Ctype.quadrant0, wordOf_funct3, hf, Ctype.addi4spn, Ctype.update,
        wordOf_compressedRd, wordOf_immAddi4spn, Ctype.sp, AluOp.eval]
  next hf =>
    cases Option.some.inj hx
    simp only [Ctype.quadrant0, wordOf_funct3, hf, Ctype.lw, wordOf_compressedRs1,
      wordOf_compressedRd, wordOf_offsetWord]
    exact loadReg_like (fun _ => rfl) hs hexc
  next hf =>
    cases Option.some.inj hx
    simp only [Ctype.quadrant0, wordOf_funct3, hf, Ctype.ld, wordOf_compressedRs1,
      wordOf_compressedRd, wordOf_offsetDouble]
    exact loadReg_like (fun _ => by simp [Width.bits, Width.bytes]) hs hexc
  next hf =>
    cases Option.some.inj hx
    simp only [Ctype.quadrant0, wordOf_funct3, hf, Ctype.sw, wordOf_compressedRs1,
      wordOf_compressedRs2, wordOf_offsetWord]
    exact store_like rfl hs hexc
  next hf =>
    cases Option.some.inj hx
    simp only [Ctype.quadrant0, wordOf_funct3, hf, Ctype.sd, wordOf_compressedRs1,
      wordOf_compressedRs2, wordOf_offsetDouble]
    exact store_like (by simp [Width.bits, Width.bytes]) hs hexc
  next => cases hx

/-- The arithmetic on two of the eight registers. -/
theorem arith_like {cpu : Cpu} (hi : BitVec 16) {h : BitVec 16} {op : AluOp}
    (hf : h.extractLsb' 10 2 = 3) (hx : Expand.arith h = some op) :
    Ctype.q1op4 cpu (wordOf hi h) =
      .ok (cpu.setReg (Expand.creg h 7)
        (op.eval (cpu.regs (Expand.creg h 7)) (cpu.regs (Expand.creg h 2)))) := by
  have hsel : (hi ++ h) >>> 5 &&& 0x03 = (h.extractLsb' 5 2).setWidth 32 :=
    @wordOf_field hi h 5 2 (by omega)
  unfold Expand.arith at hx
  simp only [Ctype.q1op4, wordOf_funct2, hf, wordOf_bit12, hsel]
  split at hx
  next hb =>
    simp only [hb, Bool.true_eq_false, if_false]
    split at hx
    next h5 =>
      cases Option.some.inj hx
      simp [h5, Ctype.subw, Ctype.regOp, Ctype.update, wordOf_compressedRs1, wordOf_compressedRs2,
        AluOp.eval, signExtendCast]
    next h5 =>
      cases Option.some.inj hx
      simp [h5, Ctype.addw, Ctype.regOp, Ctype.update, wordOf_compressedRs1, wordOf_compressedRs2,
        AluOp.eval, signExtendCast]
    next => cases hx
  next hb =>
    have hb' : h.getLsbD 12 = false := by simpa using hb
    simp only [hb', if_true]
    split at hx
    next h5 =>
      cases Option.some.inj hx
      simp [h5, Ctype.sub, Ctype.regOp, Ctype.update, wordOf_compressedRs1, wordOf_compressedRs2,
        AluOp.eval]
    next h5 =>
      cases Option.some.inj hx
      simp [h5, Ctype.xor, Ctype.regOp, Ctype.update, wordOf_compressedRs1, wordOf_compressedRs2,
        AluOp.eval]
    next h5 =>
      cases Option.some.inj hx
      simp [h5, Ctype.or, Ctype.regOp, Ctype.update, wordOf_compressedRs1, wordOf_compressedRs2,
        AluOp.eval]
    next h0 h1 h2 =>
      cases Option.some.inj hx
      have h3 : h.extractLsb' 5 2 = 3 := by
        generalize h.extractLsb' 5 2 = f at h0 h1 h2
        revert f
        decide
      simp [h3, Ctype.and, Ctype.regOp, Ctype.update, wordOf_compressedRs1, wordOf_compressedRs2,
        AluOp.eval]

theorem quadrant1_like {cpu spec : Cpu} (hi : BitVec 16) {h : BitVec 16} {insn : BaseInsn}
    (hzero : cpu.regs 0 = 0) (hx : Expand.quadrant1 h = some insn)
    (hs : insn.exec 2 cpu = .ok spec) :
    ∃ after, Ctype.quadrant1 cpu (wordOf hi h) = .ok after ∧ StepsLike after spec := by
  unfold Expand.quadrant1 at hx
  split at hx
  next hf =>
    cases Option.some.inj hx
    cases Except.ok.inj hs
    refine ⟨_, ?_, .setReg _ _⟩
    simp only [Ctype.quadrant1, wordOf_funct3, hf, Ctype.addi, Ctype.update, wordOf_rd, wordOf_imm6,
      AluOp.eval]
  next hf =>
    split at hx
    next => cases hx
    next =>
      cases Option.some.inj hx
      cases Except.ok.inj hs
      refine ⟨_, ?_, .setReg _ _⟩
      simp only [Ctype.quadrant1, wordOf_funct3, hf, Ctype.addiw, Ctype.update, wordOf_rd,
        wordOf_imm6, AluOp.eval, signExtendCast]
  next hf =>
    cases Option.some.inj hx
    cases Except.ok.inj hs
    refine ⟨_, ?_, .setReg _ _⟩
    simp only [Ctype.quadrant1, wordOf_funct3, hf, Ctype.li, Ctype.update, wordOf_rd, wordOf_imm6,
      AluOp.eval, hzero, zero_add_word]
  next hf =>
    split at hx
    next => cases hx
    next =>
      split at hx
      next hrd =>
        cases Option.some.inj hx
        cases Except.ok.inj hs
        refine ⟨_, ?_, .setReg _ _⟩
        simp only [Ctype.quadrant1, wordOf_funct3, hf, wordOf_rd, hrd, Ctype.addi16sp, Ctype.update,
          wordOf_immAddi16sp, Ctype.sp, AluOp.eval]
        rfl
      next hrd =>
        cases Option.some.inj hx
        cases Except.ok.inj hs
        by_cases hr0 : Expand.reg h 7 = 0
        · rw [hr0]
          refine ⟨_, ?_, .nop _⟩
          simp only [Ctype.quadrant1, wordOf_funct3, hf, wordOf_rd, hr0, if_true]
        · refine ⟨_, ?_, .setReg _ _⟩
          simp only [Ctype.quadrant1, wordOf_funct3, hf, wordOf_rd, hrd, hr0, if_false, Ctype.lui,
            Ctype.update, wordOf_immLui]
  next hf =>
    split at hx
    next hg =>
      cases Option.some.inj hx
      cases Except.ok.inj hs
      refine ⟨_, ?_, .setReg _ _⟩
      simp only [Ctype.quadrant1, wordOf_funct3, hf, Ctype.q1op4, wordOf_funct2, hg, Ctype.srli,
        Ctype.update, wordOf_compressedRs1, wordOf_compressedShamt, AluOp.eval]
    next hg =>
      cases Option.some.inj hx
      cases Except.ok.inj hs
      refine ⟨_, ?_, .setReg _ _⟩
      simp only [Ctype.quadrant1, wordOf_funct3, hf, Ctype.q1op4, wordOf_funct2, hg, Ctype.srai,
        Ctype.update, wordOf_compressedRs1, wordOf_compressedShamt, AluOp.eval]
    next hg =>
      cases Option.some.inj hx
      cases Except.ok.inj hs
      refine ⟨_, ?_, .setReg _ _⟩
      simp only [Ctype.quadrant1, wordOf_funct3, hf, Ctype.q1op4, wordOf_funct2, hg, Ctype.andi,
        Ctype.update, wordOf_compressedRs1, wordOf_imm6, AluOp.eval]
    next hg0 hg1 hg2 =>
      have hg : h.extractLsb' 10 2 = 3 := by
        generalize h.extractLsb' 10 2 = f at hg0 hg1 hg2
        revert f
        decide
      obtain ⟨op, ha, rfl⟩ := Option.map_eq_some_iff.mp hx
      cases Except.ok.inj hs
      refine ⟨_, ?_, .setReg _ _⟩
      simp only [Ctype.quadrant1, wordOf_funct3, hf]
      exact arith_like hi hg ha
  next hf =>
    cases Option.some.inj hx
    cases Except.ok.inj hs
    refine ⟨_, ?_, .setPc _⟩
    simp only [Ctype.quadrant1, wordOf_funct3, hf, Ctype.j, wordOf_immJ]
    rfl
  next hf =>
    cases Option.some.inj hx
    cases Except.ok.inj hs
    refine ⟨_, ?_, .branch (cpu.regs (Expand.creg h 7) = cpu.regs 0) _⟩
    simp only [Ctype.quadrant1, wordOf_funct3, hf, Ctype.beqz, branchOp_eq, hzero, decide_eq_true_eq]
  next h0 h1 h2 h3 h4 h5 h6 =>
    have hf : h.extractLsb' 13 3 = 7 := by
      generalize h.extractLsb' 13 3 = f at h0 h1 h2 h3 h4 h5 h6
      revert f
      decide
    cases Option.some.inj hx
    cases Except.ok.inj hs
    refine ⟨_, ?_, .branch (cpu.regs (Expand.creg h 7) ≠ cpu.regs 0) _⟩
    simp only [Ctype.quadrant1, wordOf_funct3, hf, Ctype.bnez, branchOp_eq, hzero, decide_eq_true_eq]
    rfl

theorem quadrant2_like {cpu spec : Cpu} (hi : BitVec 16) {h : BitVec 16} {insn : BaseInsn}
    (hzero : cpu.regs 0 = 0) (hx : Expand.quadrant2 h = some insn)
    (hs : insn.exec 2 cpu = .ok spec) (hexc : spec.excVal = none) :
    ∃ after, Ctype.quadrant2 cpu (wordOf hi h) = .ok after ∧ StepsLike after spec := by
  have hlow : (hi ++ h) >>> 2 &&& 0x1f = 0 ↔ Expand.reg h 2 = 0 := by
    have he := BitField.field_eq_zero_iff_extract (hi ++ h) 2 5
    rw [extractLsb'_append_eq_of_add_le (by omega)] at he
    exact he
  unfold Expand.quadrant2 at hx
  split at hx
  next hf =>
    cases Option.some.inj hx
    cases Except.ok.inj hs
    refine ⟨_, ?_, .setReg _ _⟩
    simp only [Ctype.quadrant2, wordOf_funct3, hf, Ctype.slli, Ctype.update, wordOf_rd,
      wordOf_compressedShamt, AluOp.eval]
  next hf =>
    split at hx
    next => cases hx
    next =>
      cases Option.some.inj hx
      simp only [Ctype.quadrant2, wordOf_funct3, hf, Ctype.lwsp, wordOf_rd, wordOf_offsetLwsp,
        Ctype.sp]
      exact loadReg_like (fun _ => rfl) hs hexc
  next hf =>
    split at hx
    next => cases hx
    next =>
      cases Option.some.inj hx
      simp only [Ctype.quadrant2, wordOf_funct3, hf, Ctype.ldsp, wordOf_rd, wordOf_offsetLdsp,
        Ctype.sp]
      exact loadReg_like (fun _ => by simp [Width.bits, Width.bytes]) hs hexc
  next hf =>
    split at hx
    next => cases hx
    next hr =>
      split at hx
      next hb =>
        cases Option.some.inj hx
        cases Except.ok.inj hs
        refine ⟨_, ?_, .setReg _ _⟩
        simp only [Ctype.quadrant2, wordOf_funct3, hf, wordOf_bit12, hb, Bool.true_eq_false, hlow,
          hr, if_false, Ctype.add, Ctype.update, wordOf_rd, wordOf_lowReg, AluOp.eval]
      next hb =>
        have hb' : h.getLsbD 12 = false := by simpa using hb
        cases Option.some.inj hx
        cases Except.ok.inj hs
        refine ⟨_, ?_, .setReg _ _⟩
        simp only [Ctype.quadrant2, wordOf_funct3, hf, wordOf_bit12, hb', if_true, hlow, hr, if_false,
          Ctype.mv, Ctype.update, wordOf_rd, wordOf_lowReg, AluOp.eval, hzero,
          zero_add_word]
  next hf =>
    cases Option.some.inj hx
    simp only [Ctype.quadrant2, wordOf_funct3, hf, Ctype.swsp, wordOf_lowReg, wordOf_offsetSwsp,
      Ctype.sp]
    exact store_like rfl hs hexc
  next hf =>
    cases Option.some.inj hx
    simp only [Ctype.quadrant2, wordOf_funct3, hf, Ctype.sdsp, wordOf_lowReg, wordOf_offsetSdsp,
      Ctype.sp]
    exact store_like (by simp [Width.bits, Width.bytes]) hs hexc
  next => cases hx

/-- A legal compressed integer instruction, with any halfword behind it, does what the base
instruction does that it is defined to expand to, as an instruction of two bytes. -/
theorem loop_eq_expansion {before fetched spec : Cpu} {hi h : BitVec 16} {insn : BaseInsn}
    (hf : before.Fetched fetched ⟨hi ++ h⟩) (hx : expand h = some insn)
    (hs : insn.exec 2 fetched = .ok spec) (hexc : spec.excVal = none) :
    ∃ after, before._loop = .ok (2, after) ∧ StepsLike after spec := by
  have hop := wordOf_opcode hi h
  have hex : ∃ after, fetched.execute16 ⟨hi ++ h⟩ = .ok after ∧ StepsLike after spec := by
    unfold expand at hx
    split at hx
    next hq =>
      rw [hq] at hop
      simp only [Cpu.execute16, hop]
      exact quadrant0_like hi hx hs hexc
    next hq =>
      rw [hq] at hop
      simp only [Cpu.execute16, hop]
      exact quadrant1_like hi hf.regs_zero hx hs
    next hq =>
      rw [hq] at hop
      simp only [Cpu.execute16, hop]
      exact quadrant2_like hi hf.regs_zero hx hs hexc
    next => cases hx
  have hne : h.extractLsb' 0 2 ≠ 3 := by
    intro hq
    simp [expand, hq] at hx
  have hsize : (wordOf hi h).insnSize = 2 := by
    unfold Decoder.insnSize
    rw [hop, if_neg hne]
  have hz : (wordOf hi h).insn ≠ 0 := by
    intro hz
    have hh : ∀ lo n, lo + n ≤ 16 → h.extractLsb' lo n = 0 := by
      intro lo n hn
      have hlow : (hi ++ h).extractLsb' lo n = h.extractLsb' lo n :=
        extractLsb'_append_eq_of_add_le hn
      rw [← hlow, show hi ++ h = (0 : BitVec 32) from hz]
      simp
    have h0 : Expand.addi4spnImm h = 0 := by
      simp [Expand.addi4spnImm, Expand.unsigned, BitField.gather, hh]
    simp [expand, hh 0 2, Expand.quadrant0, hh 13 3, h0] at hx
  obtain ⟨after, he, hlike⟩ := hex
  refine ⟨after, ?_, hlike⟩
  rw [Cpu.loop_of_fetched hf hz, Cpu.execute, hsize, if_pos rfl, he]
  rfl

/-- `c.li x5, 1` in front of a `nop`. -/
def loadImmediate : Cpu := Cpu.ofImage [0x85, 0x42, 0x13, 0x00] (by decide)

theorem loop_eq_expansion_loadImmediate : ∃ after, loadImmediate._loop = .ok (2, after) ∧
    StepsLike after ((((loadImmediate.setReg 0 0).writeReg 5 1)).setPc 0x80000002) :=
  @loop_eq_expansion loadImmediate (loadImmediate.setReg 0 0) _ 0x0013 0x4285 (.aluImm .add 5 0 1)
    ⟨rfl, ⟨_, rfl, rfl⟩, rfl⟩ rfl rfl rfl

end Rv64gcEmu
