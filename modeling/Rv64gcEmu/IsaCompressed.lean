import Rv64gcEmu.CompressedStep
import Rv64gcEmu.IndirectJump
import Rv64gcEmu.IsaExecute

namespace Rv64gcEmu

open Rv64 (Hart Instr Sized)

def AluOp.op : AluOp → Rv64.Op
  | .add => .add
  | .sub => .sub
  | .xor => .xor
  | .or => .or
  | .and => .and
  | .addw => .addw
  | .subw => .subw
  | .sll => .sll
  | .srl => .srl
  | .sra => .sra

theorem AluOp.eval_op (op : AluOp) (a b : Word) : op.op.eval a b = op.eval a b := by
  cases op with
  | addw => exact (Cpu.cast_add a b).symm
  | subw => exact (Cpu.cast_sub a b).symm
  | add | sub | xor | or | and | sll | srl | sra => rfl

namespace BaseInsn

/-- The same instruction of the instruction set. -/
def instr : BaseInsn → Instr
  | alu op rd rs1 rs2 => .op op.op rd rs1 rs2
  | aluImm op rd rs1 imm => .opImm op.op rd rs1 imm
  | lui rd imm => .lui rd imm
  | load length rd rs1 offset => .load length.bytes true rd rs1 offset
  | store length rs1 rs2 offset => .store length.bytes rs1 rs2 offset
  | jal rd offset => .jal rd offset
  | beq rs1 rs2 offset => .branch .eq rs1 rs2 offset
  | bne rs1 rs2 offset => .branch .ne rs1 rs2 offset

end BaseInsn

open MemoryView (hart_reg hart_setPc hart_setReg)

namespace Cpu

variable {view : MemoryView} {cpu spec : Cpu} {size : Word} {h' : Hart}

theorem hart_writeReg (cpu : Cpu) (rd : BitVec 5) (v pc : Word) :
    view.hart ((cpu.writeReg rd v).setPc pc) = (view.hart cpu).next rd v pc := by
  unfold writeReg
  split
  next hrd =>
    subst hrd
    rw [hart_setPc]
    exact ((view.hart cpu).next_zero v pc).symm
  next => exact hart_setReg cpu rd v pc

theorem SameSystem.writeReg (a : Cpu) (rd : BitVec 5) (v : Word) : SameSystem a (a.writeReg rd v) := by
  unfold Cpu.writeReg
  split
  next => exact .refl a
  next => exact .setReg a rd v

theorem SameMemory.writeReg (a : Cpu) (rd : BitVec 5) (v : Word) :
    SameMemory a (a.writeReg rd v) := by
  unfold Cpu.writeReg
  split
  next => exact ⟨rfl, rfl, rfl, rfl, rfl⟩
  next => exact .setReg a rd v

/-- The processor after a base instruction. -/
structure Arrives (view : MemoryView) (cpu : Cpu) (h : Hart) (spec : Cpu) : Prop where
  same : SameSystem cpu spec
  holds : view.Holds spec
  hart : view.hart spec = h

theorem Arrives.of_kept {c : Cpu} {h : Hart} (hk : view.Kept cpu c) (ha : Arrives view c h spec) :
    Arrives view cpu h spec := ⟨hk.same.trans ha.same, ha.holds, ha.hart⟩

theorem Arrives.setPc (hv : view.Holds cpu) (pc : Word) :
    Arrives view cpu ((view.hart cpu).jump pc) (cpu.setPc pc) :=
  ⟨.setPc cpu pc, (view.keep (.setPc cpu pc)).2 hv, hart_setPc cpu pc⟩

theorem Arrives.writeReg (hv : view.Holds cpu) (rd : BitVec 5) (v pc : Word) :
    Arrives view cpu ((view.hart cpu).next rd v pc) ((cpu.writeReg rd v).setPc pc) where
  same := (SameSystem.writeReg cpu rd v).trans (.setPc _ pc)
  holds := (view.keep (.setPc _ pc)).2 ((view.keep (.writeReg cpu rd v)).2 hv)
  hart := hart_writeReg cpu rd v pc

/-- The state that the base instruction leaves stands for the hart after it. -/
theorem exec_of_instr {insn : BaseInsn} (hq : cpu.excVal = none) (hv : view.Holds cpu)
    (h0 : cpu.regs 0 = 0) (hr : view.Reaches (view.hart cpu) insn.instr)
    (hx : insn.instr.exec size (view.hart cpu) = some h') :
    ∃ spec, insn.exec size cpu = .ok spec ∧ Arrives view cpu h' spec := by
  cases insn with
  | alu op rd rs1 rs2 =>
    cases Option.some.inj hx
    refine ⟨_, rfl, ?_⟩
    rw [hart_reg h0, hart_reg h0, AluOp.eval_op]
    exact .writeReg hv rd _ _
  | aluImm op rd rs1 imm =>
    cases Option.some.inj hx
    refine ⟨_, rfl, ?_⟩
    rw [hart_reg h0, AluOp.eval_op]
    exact .writeReg hv rd _ _
  | lui rd imm =>
    cases Option.some.inj hx
    exact ⟨_, rfl, .writeReg hv rd _ _⟩
  | load length rd rs1 offset =>
    obtain ⟨x, hl, hx⟩ := Option.bind_eq_some_iff.mp hx
    cases Option.some.inj hx
    have hr : view.Reach .load ((view.hart cpu).regs.get rs1 + offset) length.bytes := hr
    rw [hart_reg h0] at hl hr
    obtain ⟨v, c, hload, hk, hlow, -⟩ := @loads_of_hart view cpu _ length true x hq hv hr hl
    have hexec : (BaseInsn.load length rd rs1 offset).exec size cpu =
        .ok ((c.writeReg rd (x.signExtend 64)).setPc (c.pc + size)) := by
      unfold BaseInsn.exec
      simp only [hload, Except.ok_bind, hk.same.excVal.trans hq, if_true]
      exact congrArg (fun y : BitVec (8 * length.bytes) =>
        Except.ok ((c.writeReg rd (y.signExtend 64)).setPc (c.pc + size))) hlow
    refine ⟨_, hexec, .of_kept hk ?_⟩
    rw [← hk.hart]
    exact .writeReg hk.holds rd _ _
  | store length rs1 rs2 offset =>
    obtain ⟨m, hs, hx⟩ := Option.bind_eq_some_iff.mp hx
    cases Option.some.inj hx
    have hr : view.Reach .store ((view.hart cpu).regs.get rs1 + offset) length.bytes := hr
    rw [hart_reg h0] at hs hr
    rw [hart_reg h0] at hs
    have hbytes : ∀ k < length.bytes,
        LittleEndian.byteOf (((cpu.regs rs2).setWidth length.bits).setWidth 64) k =
          LittleEndian.byteOf (cpu.regs rs2) k := by
      intro k hk
      have hle := length.bits_le
      have hbits : 8 * k + 8 ≤ length.bits := by unfold Width.bits; omega
      rw [← byteOf_setWidth _ hbits, BitVec.setWidth_setWidth_of_le _ (by exact hle),
        BitVec.setWidth_eq, byteOf_setWidth _ hbits]
    obtain ⟨c, hstore, hsame, hholds, hm⟩ := stores_of_hart hq hv hr hs hbytes
    have hexec : (BaseInsn.store length rs1 rs2 offset).exec size cpu =
        .ok (c.setPc (c.pc + size)) := by
      unfold BaseInsn.exec
      simp only [hstore, Except.ok_bind, hsame.excVal.trans hq, if_true]
    have hb := MemoryView.Becomes.of_stored hsame hholds hm size
    exact ⟨_, hexec, hsame.trans (.setPc c _), (view.keep (.setPc c _)).2 hholds, hb.hart⟩
  | jal rd offset =>
    cases Option.some.inj hx
    exact ⟨_, rfl, .writeReg hv rd _ _⟩
  | beq rs1 rs2 offset =>
    cases Option.some.inj hx
    refine ⟨_, rfl, ?_⟩
    rw [hart_reg h0, hart_reg h0]
    simp only [Rv64.Cond.holds, decide_eq_true_eq]
    exact .setPc hv _
  | bne rs1 rs2 offset =>
    cases Option.some.inj hx
    refine ⟨_, rfl, ?_⟩
    rw [hart_reg h0, hart_reg h0]
    simp only [Rv64.Cond.holds, decide_eq_true_eq]
    exact .setPc hv _

/-- So does the handler of the compressed instruction. -/
theorem becomes_of_like {after : Cpu} (hl : StepsLike after spec) (ha : Arrives view cpu h' spec) :
    view.Becomes cpu 2 h' after := by
  have hfield : ∀ {α : Type} (f : Cpu → α), f { after with regs := spec.regs, pc := spec.pc } = f spec :=
    fun f => congrArg f hl.rest
  have hsame := ha.same
  have hmem : SameMemory spec after :=
    ⟨hfield fun c => c.bus.ram, hfield Cpu.mmu, hfield Cpu.mode,
      hfield fun c => c.cregs.regs Address.mstatus, hfield Cpu.host⟩
  refine ⟨⟨?_, ?_, ?_, ?_, ?_, ?_, ?_, ?_⟩, (view.keep hmem).2 ha.holds, ?_⟩
  · exact (hfield Cpu.excVal).trans hsame.excVal
  · exact (hfield Cpu.cregs).trans hsame.cregs
  · exact (hfield Cpu.mode).trans hsame.mode
  · exact (hfield Cpu.sleep).trans hsame.sleep
  · have hmmu : after.mmu = spec.mmu := hfield Cpu.mmu
    rw [hmmu]
    exact hsame.root
  · exact (hfield fun c => c.bus.gpu).trans hsame.gpu
  · exact (hfield fun c => c.bus.virtio).trans hsame.virtio
  · exact (hfield Cpu.host).trans hsame.host
  · rw [← ha.hart]
    refine MemoryView.hart_congr hl.pc hl.regs ?_
    exact (view.keep (.setPc after _)).1.trans (view.keep hmem).1

end Cpu

/-- The instruction of two bytes at the lower end of a word. -/
def compressedInstr (w : BitVec 32) : Option Instr :=
  match expand (w.extractLsb' 0 16) with
  | some insn => some insn.instr
  | none =>
    match IndirectForm.ofWord w with
    | some (.jr r) => some (.jalr 0 r 0)
    | some (.jalr r) => some (.jalr Ctype.ra r 0)
    | _ => none

/-- The instruction that four bytes begin with. -/
def isaDecode (w : BitVec 32) : Option Sized :=
  if w.extractLsb' 0 2 = 3 then (Rv64.decode w).map fun i => ⟨4, i⟩
  else (compressedInstr w).map fun i => ⟨2, i⟩

namespace Cpu

variable {view : MemoryView} {cpu : Cpu} {d : Decoder} {h' : Hart}

theorem insnSize_two (h : d.insn.extractLsb' 0 2 ≠ 3) : d.insnSize = 2 := by
  unfold Decoder.insnSize
  rw [d.compressedOpcode_eq, if_neg h]

theorem execute_two (h : d.insn.extractLsb' 0 2 ≠ 3) :
    cpu.execute d = cpu.execute16 d >>= fun c => .ok (2, c) := by
  unfold execute
  rw [insnSize_two h]
  rfl

theorem execute_expanded {insn : BaseInsn} (hq : cpu.excVal = none) (hv : view.Holds cpu)
    (h0 : cpu.regs 0 = 0) (hx : expand (d.insn.extractLsb' 0 16) = some insn)
    (hr : view.Reaches (view.hart cpu) insn.instr)
    (hs : insn.instr.exec 2 (view.hart cpu) = some h') :
    ∃ after, cpu.execute16 d = .ok after ∧ view.Becomes cpu 2 h' after := by
  obtain ⟨spec, hspec, ha⟩ := exec_of_instr hq hv h0 hr hs
  have hexc := ha.same.excVal.trans hq
  have hw : d = wordOf (d.insn.extractLsb' 16 16) (d.insn.extractLsb' 0 16) := by
    have hword : d.insn = d.insn.extractLsb' 16 16 ++ d.insn.extractLsb' 0 16 := by
      rw [BitVec.extractLsb'_append_extractLsb'_eq_extractLsb' (by decide)]
      exact BitVec.extractLsb'_eq_self.symm
    exact congrArg Decoder.mk hword
  have hop := wordOf_opcode (d.insn.extractLsb' 16 16) (d.insn.extractLsb' 0 16)
  rw [← hw] at hop
  have hex : ∃ after, cpu.execute16 d = .ok after ∧ StepsLike after spec := by
    unfold execute16
    unfold expand at hx
    split at hx
    next hq =>
      rw [hop, hq, hw]
      exact quadrant0_like _ hx hspec hexc
    next hq =>
      rw [hop, hq, hw]
      exact quadrant1_like _ h0 hx hspec
    next hq =>
      rw [hop, hq, hw]
      exact quadrant2_like _ h0 hx hspec hexc
    next => cases hx
  obtain ⟨after, hrun, hlike⟩ := hex
  exact ⟨after, hrun, becomes_of_like hlike ha⟩

/-- A jump through a register, to an address that is even. -/
theorem execute_indirect {form : IndirectForm} {link r : BitVec 5} (hv : view.Holds cpu)
    (h0 : cpu.regs 0 = 0)
    (hform : IndirectForm.ofWord d.insn = some form)
    (hr : form = .jr r ∧ link = 0 ∨ form = .jalr r ∧ link = Ctype.ra)
    (heven : ((view.hart cpu).regs.get r).getLsbD 0 = false) :
    ∃ after, cpu.execute16 d = .ok after ∧ view.Becomes cpu 2
      ((view.hart cpu).next link ((view.hart cpu).pc + 2) (((view.hart cpu).regs.get r + 0) &&& ~~~1)) after := by
  have htarget : ((view.hart cpu).regs.get r + 0) &&& ~~~1 = cpu.regs r := by
    have hzero : (view.hart cpu).regs.get r + 0 = (view.hart cpu).regs.get r := BitVec.add_zero _
    rw [hzero, ← (and_not_one_eq_self_iff _).mpr heven, hart_reg h0]
  rw [htarget]
  unfold IndirectForm.ofWord at hform
  split at hform
  next h =>
    obtain ⟨hq, h3, hs⟩ := h
    have hrun : cpu.execute16 d = if d.insn.getLsbD 12 then Ctype.jalr cpu d else Ctype.jr cpu d := by
      unfold execute16
      rw [d.compressedOpcode_eq, hq]
      exact Ctype.quadrant2_of_zero_rs2 cpu h3 hs
    rw [hrun]
    simp only at hform
    split at hform
    next hb =>
      rw [if_pos hb]
      split at hform
      next =>
        cases Option.some.inj hform
        rcases hr with ⟨hf, -⟩ | ⟨hf, -⟩ <;> cases hf
      next =>
        cases Option.some.inj hform
        rcases hr with ⟨hf, -⟩ | ⟨hf, rfl⟩
        · cases hf
        · cases hf
          rw [← d.rd_eq]
          exact ⟨_, rfl, .link hv 2 _ _ _⟩
    next hb =>
      rw [if_neg hb]
      split at hform
      next => cases hform
      next =>
        cases Option.some.inj hform
        rcases hr with ⟨hf, rfl⟩ | ⟨hf, -⟩
        · cases hf
          rw [← d.rd_eq, Hart.next_zero]
          exact ⟨_, rfl, .setPc hv 2 _⟩
        · cases hf
  next => cases hform

/-- Every instruction that the decoder finds is executed as the instruction set has it. -/
theorem execute_isa {i : Sized} (hq : cpu.excVal = none) (hv : view.Holds cpu)
    (h0 : cpu.regs 0 = 0) (hd : isaDecode d.insn = some i)
    (hx : i.instr.exec i.size (view.hart cpu) = some h')
    (hr : view.Reaches (view.hart cpu) i.instr) (he : InstrExact i.size (view.hart cpu) i.instr) :
    ∃ after, cpu.execute d = .ok (i.size, after) ∧ view.Becomes cpu i.size h' after := by
  unfold isaDecode at hd
  split at hd
  next =>
    obtain ⟨instr, hdec, rfl⟩ := Option.map_eq_some_iff.mp hd
    exact execute_decoded hq hv h0 hdec hx hr he
  next hsize =>
    obtain ⟨instr, hdec, rfl⟩ := Option.map_eq_some_iff.mp hd
    have htwo : ∀ {h}, (∃ after, cpu.execute16 d = .ok after ∧ view.Becomes cpu 2 h after) →
        ∃ after, cpu.execute d = .ok (2, after) ∧ view.Becomes cpu 2 h after := by
      rintro h ⟨after, hrun, hb⟩
      refine ⟨after, ?_, hb⟩
      rw [execute_two hsize, hrun]
      rfl
    unfold compressedInstr at hdec
    split at hdec
    next insn hexp =>
      cases Option.some.inj hdec
      exact htwo (execute_expanded hq hv h0 hexp hr hx)
    next =>
      split at hdec
      next r hform =>
        cases Option.some.inj hdec
        cases Option.some.inj hx
        exact htwo (execute_indirect hv h0 hform (.inl ⟨rfl, rfl⟩) (he rfl))
      next r hform =>
        cases Option.some.inj hdec
        cases Option.some.inj hx
        exact htwo (execute_indirect hv h0 hform (.inr ⟨rfl, rfl⟩) (he rfl))
      next => cases hdec

end Cpu

end Rv64gcEmu
