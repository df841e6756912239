import Rv64gcEmu.RegisterOps
import Rv64gcEmu.Turns

namespace Rv64gcEmu

inductive BranchOp where
  | beq
  | bne
  | blt
  | bge
  | bltu
  | bgeu
  deriving DecidableEq, Repr

namespace BranchOp

def funct3 : BranchOp → BitVec 3
  | beq => 0
  | bne => 1
  | blt => 4
  | bge => 5
  | bltu => 6
  | bgeu => 7

/-- The comparison that the name of the branch says. -/
def Taken (op : BranchOp) (a b : Word) : Prop :=
  match op with
  | beq => a = b
  | bne => a ≠ b
  | blt => a.toInt < b.toInt
  | bge => b.toInt ≤ a.toInt
  | bltu => a.toNat < b.toNat
  | bgeu => b.toNat ≤ a.toNat

instance (op : BranchOp) (a b : Word) : Decidable (op.Taken a b) := by
  cases op <;> unfold Taken <;> infer_instance

end BranchOp

/-- The instructions of 32 bits that leave the straight line. -/
inductive ControlInsn where
  | branch (op : BranchOp)
  | jal
  | jalr
  deriving DecidableEq, Repr

/-- What an instruction finds in a register: `x0` is cleared before each fetch. -/
def Cpu.operand (cpu : Cpu) (r : BitVec 5) : Word := if r = 0 then 0 else cpu.regs r

namespace ControlInsn

/-- The legal encodings. -/
def Encodes (w : BitVec 32) : ControlInsn → Prop
  | branch op => w.extractLsb' 0 7 = 0x63 ∧ w.extractLsb' 12 3 = op.funct3
  | jal => w.extractLsb' 0 7 = 0x6f
  | jalr => w.extractLsb' 0 7 = 0x67 ∧ w.extractLsb' 12 3 = 0

/-- The immediates of the B, J and I formats. -/
def offset (w : BitVec 32) : ControlInsn → Word
  | branch _ => (w.extractLsb' 31 1 ++ (w.extractLsb' 7 1 ++ (w.extractLsb' 25 6 ++
      (w.extractLsb' 8 4 ++ 0#1)))).signExtend 64
  | jal => (w.extractLsb' 31 1 ++ (w.extractLsb' 12 8 ++ (w.extractLsb' 20 1 ++
      (w.extractLsb' 21 10 ++ 0#1)))).signExtend 64
  | jalr => (w.extractLsb' 20 12).signExtend 64

/-- Where the hart goes on. -/
def target (w : BitVec 32) (cpu : Cpu) (insn : ControlInsn) : Word :=
  let a := cpu.operand (w.extractLsb' 15 5)
  let b := cpu.operand (w.extractLsb' 20 5)
  match insn with
  | branch op => if op.Taken a b then cpu.pc + insn.offset w else cpu.pc + 4
  | jal => cpu.pc + insn.offset w
  | jalr => (a + insn.offset w) &&& ~~~1

def links : ControlInsn → Bool
  | branch _ => false
  | jal => true
  | jalr => true

/-- The hart goes on at the target, with the address behind the jump in its link register. -/
structure Transfers (insn : ControlInsn) (w : BitVec 32) (before after : Cpu) : Prop where
  pc : after.pc = insn.target w before
  link : insn.links = true → w.extractLsb' 7 5 ≠ 0 → after.regs (w.extractLsb' 7 5) = before.pc + 4
  regs : ∀ r ≠ 0, (insn.links = true → r ≠ w.extractLsb' 7 5) → after.regs r = before.regs r
  fregs : after.fregs = before.fregs

variable {before polled c cpu : Cpu} {env : Cpu.Env} {pending : Option Interrupt} {d : Decoder}
  {op : BranchOp} {insn : ControlInsn}

theorem branchOp_eq {cond : Word → Word → Bool} (cpu : Cpu) (d : Decoder) :
    Btype.branchOp cond cpu d = .ok (cpu.setPc ((if cond (cpu.regs d.rs1) (cpu.regs d.rs2) then
      cpu.pc + d.immB else cpu.pc + 4) - 4)) := by
  unfold Btype.branchOp
  split
  next => rw [BitVec.sub_eq_add_neg, BitVec.sub_eq_add_neg, BitVec.add_assoc]
  next =>
    rw [BitVec.add_sub_cancel]
    rfl

theorem funct3_eq (h : d.funct3 = op.funct3) : Btype.funct3 cpu d = .ok (cpu.setPc
    ((if op.Taken (cpu.regs d.rs1) (cpu.regs d.rs2) then cpu.pc + d.immB else cpu.pc + 4) - 4)) := by
  unfold Btype.funct3
  rw [h]
  cases op with
  | beq =>
    change Btype.beq cpu d = _
    rw [Btype.beq, branchOp_eq]
    simp only [decide_eq_true_eq, BranchOp.Taken]
  | bne =>
    change Btype.bne cpu d = _
    rw [Btype.bne, branchOp_eq]
    simp only [decide_eq_true_eq, BranchOp.Taken]
  | blt =>
    change Btype.blt cpu d = _
    rw [Btype.blt, branchOp_eq]
    simp only [BitVec.slt_iff_toInt_lt, BranchOp.Taken]
  | bge =>
    change Btype.bge cpu d = _
    rw [Btype.bge, branchOp_eq]
    simp only [BitVec.sle_iff_toInt_le, BranchOp.Taken]
  | bltu =>
    change Btype.bltu cpu d = _
    rw [Btype.bltu, branchOp_eq]
    simp only [BitVec.ult_iff_lt, BitVec.lt_def, BranchOp.Taken]
  | bgeu =>
    change Btype.bgeu cpu d = _
    rw [Btype.bgeu, branchOp_eq]
    simp only [BitVec.ule_iff_le, BitVec.le_def, BranchOp.Taken]

/-- The state behind the instruction, before its length is added. -/
def executed (insn : ControlInsn) (cpu : Cpu) (d : Decoder) : Cpu :=
  let cpu' := cpu.setPc (insn.target d.insn cpu - 4)
  if insn.links then cpu'.setReg d.rd (cpu.pc + 4) else cpu'

theorem setPc_setReg (cpu : Cpu) (r : BitVec 5) (v pc : Word) :
    (cpu.setReg r v).setPc pc = (cpu.setPc pc).setReg r v := rfl

theorem operand_eq (h0 : cpu.regs 0 = 0) (r : BitVec 5) : cpu.operand r = cpu.regs r := by
  unfold Cpu.operand
  split
  next hr => rw [hr, h0]
  next => rfl

theorem execute32_eq (h0 : cpu.regs 0 = 0) (h : insn.Encodes d.insn) :
    cpu.execute32 d = .ok (insn.executed cpu d) := by
  unfold executed target
  rw [operand_eq h0, operand_eq h0, ← Decoder.rs1_eq, ← Decoder.rs2_eq]
  cases insn with
  | branch op =>
    obtain ⟨hop, h3⟩ := h
    have ht : d.opcodeType = some .b := Decoder.opcodeType_of_opcode hop
    have hoff : (branch op).offset d.insn = d.immB := d.immB_eq.symm
    simp only [Cpu.execute32, ht, hoff, links, Bool.false_eq_true, if_false]
    exact funct3_eq (d.funct3_eq.trans h3)
  | jal =>
    have ht : d.opcodeType = some .jal := Decoder.opcodeType_of_opcode h
    have hoff : jal.offset d.insn = d.immJ := d.immJ_eq.symm
    simp only [Cpu.execute32, ht, hoff, links, if_true]
    rw [BitVec.sub_eq_add_neg, BitVec.add_assoc, ← BitVec.sub_eq_add_neg]
    exact congrArg Except.ok (setPc_setReg _ _ _ _)
  | jalr =>
    obtain ⟨hop, h3⟩ := h
    have ht : d.opcodeType = some .jalr := Decoder.opcodeType_of_opcode hop
    have hoff : jalr.offset d.insn = d.immI := d.immI_eq.symm
    simp only [Cpu.execute32, ht, hoff, links, if_true]
    unfold Jalr.jalr
    exact congrArg Except.ok rfl

theorem opcodeType_of_encodes (h : insn.Encodes d.insn) : ∃ t, d.opcodeType = some t := by
  cases insn with
  | branch op => exact ⟨.b, Decoder.opcodeType_of_opcode h.1⟩
  | jal => exact ⟨.jal, Decoder.opcodeType_of_opcode h⟩
  | jalr => exact ⟨.jalr, Decoder.opcodeType_of_opcode h.1⟩

theorem executed_pc (insn : ControlInsn) (cpu : Cpu) (d : Decoder) :
    (insn.executed cpu d).pc = insn.target d.insn cpu - 4 := by
  unfold executed
  simp only
  split <;> rfl

theorem executed_regs (insn : ControlInsn) (cpu : Cpu) (d : Decoder) (r : BitVec 5) :
    (insn.executed cpu d).regs r =
      if insn.links = true ∧ r = d.rd then cpu.pc + 4 else cpu.regs r := by
  unfold executed
  simp only
  cases insn.links with
  | false => simp
  | true =>
    simp only [if_true, true_and, Cpu.setReg_regs, Cpu.setPc_regs, Function.update_apply]

theorem executed_frame (insn : ControlInsn) (cpu : Cpu) (d : Decoder) :
    (insn.executed cpu d).excVal = cpu.excVal ∧ (insn.executed cpu d).fregs = cpu.fregs := by
  unfold executed
  simp only
  split <;> exact ⟨rfl, rfl⟩

theorem target_of_fetched (hf : before.Fetched c d) (insn : ControlInsn) (w : BitVec 32) :
    insn.target w c = insn.target w before := by
  have hread : ∀ r, c.operand r = before.operand r := by
    intro r
    unfold Cpu.operand
    split
    next => rfl
    next hr => exact hf.regs hr
  have hpc : c.pc = before.pc := hf.coreEq.pc
  unfold target
  rw [hread, hread, hpc]

/-- A turn of `_loop` that fetches the instruction. -/
theorem loop_transfers (hf : before.Fetched c d) (h : insn.Encodes d.insn) :
    before._loop = .ok (4, insn.executed c d) ∧
      insn.Transfers d.insn before ((insn.executed c d).finish 4) := by
  obtain ⟨t, ht⟩ := opcodeType_of_encodes h
  have hz : d.insn ≠ 0 := by
    intro hz
    have hs := Decoder.insnSize_of_type ht
    rw [Decoder.insnSize, Decoder.compressedOpcode_eq, hz] at hs
    exact absurd hs (by decide)
  obtain ⟨hexc, hfregs⟩ := insn.executed_frame c d
  have hpc : c.pc = before.pc := hf.coreEq.pc
  constructor
  · rw [Cpu.loop_of_fetched hf hz, Cpu.execute_of_type ht, execute32_eq hf.regs_zero h]
    rfl
  · rw [Cpu.finish_of_none (hexc.trans hf.exc)]
    refine ⟨?_, fun hl hrd => ?_, fun r hr hne => ?_, hfregs.trans hf.coreEq.fregs⟩
    · rw [Cpu.setPc_pc, executed_pc, BitVec.sub_add_cancel, target_of_fetched hf]
    · rw [Cpu.setPc_regs, executed_regs, if_pos ⟨hl, d.rd_eq.symm⟩, hpc]
    · rw [Cpu.setPc_regs, executed_regs, if_neg fun hx => hne hx.1 (hx.2.trans d.rd_eq), hf.regs hr]

/-- Every branch and jump, in a turn of `loop`: `before` is polled for an interrupt, and the
instruction is the one at the `pc` that the poll has left. -/
theorem loop_control {before polled c : Cpu} {env : Cpu.Env} {pending : Option Interrupt}
    {d : Decoder} {insn : ControlInsn} (hp : before.poll env = .ok (pending, polled))
    (hf : (polled.interrupted pending).Fetched c d) (h : insn.Encodes d.insn) :
    ∃ after, before.loop env = .ok after ∧
      insn.Transfers d.insn (polled.interrupted pending) after ∧
      (polled.interrupted pending).regs = before.regs ∧
      (pending = none → (polled.interrupted pending).pc = before.pc) := by
  obtain ⟨hloop, ht⟩ := loop_transfers hf h
  have hpolled := Cpu.poll_polled hp
  refine ⟨_, Cpu.loop_phases.mpr ⟨_, _, _, _, hp, hloop, rfl⟩, ht, ?_, ?_⟩
  · exact (Cpu.interrupted_frame _ _).regs.trans hpolled.regs
  · rintro rfl
    exact hpolled.pc

/-- `jalr x5, -1(x5)`, to the address behind it. -/
def selfLink : Cpu :=
  (Cpu.ofImage [0xe7, 0x82, 0xf2, 0xff] (by decide)).setReg 5 0x80000006

theorem loop_control_selfLink : ∃ after, selfLink.loop ⟨0, .idle⟩ = .ok after ∧
    after.pc = 0x80000004 ∧ after.regs 5 = 0x80000004 := by
  have hp : ∃ polled, selfLink.poll ⟨0, .idle⟩ = .ok (none, polled) ∧
      polled.Fetched (polled.setReg 0 0) ⟨0xfff282e7⟩ := ⟨_, rfl, rfl, ⟨_, rfl, rfl⟩, rfl⟩
  obtain ⟨polled, hp, hf⟩ := hp
  obtain ⟨after, hl, ht, hregs, hpc⟩ :=
    @loop_control selfLink polled _ ⟨0, .idle⟩ none ⟨0xfff282e7⟩ .jalr hp hf ⟨by decide, by decide⟩
  refine ⟨after, hl, ?_, ?_⟩
  · rw [ht.pc]
    unfold target Cpu.operand
    rw [hregs]
    rfl
  · have hlink := ht.link rfl (by decide)
    rw [hpc rfl] at hlink
    exact hlink

end ControlInsn

end Rv64gcEmu
