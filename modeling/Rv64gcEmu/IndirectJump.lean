import Rv64gcEmu.DecoderFields
import Rv64gcEmu.LoopCases

namespace Rv64gcEmu

/-- The instructions that share the slot with a zero `rs2` field. -/
inductive IndirectForm where
  | jr (r : BitVec 5)
  | jalr (r : BitVec 5)
  | ebreak
  deriving DecidableEq

namespace IndirectForm

/-- The form of an instruction word, by the fields of the CR format. -/
def ofWord (w : BitVec 32) : Option IndirectForm :=
  if w.extractLsb' 0 2 = 2 ∧ w.extractLsb' 13 3 = 4 ∧ w.extractLsb' 2 5 = 0 then
    let r := w.extractLsb' 7 5
    if w.getLsbD 12 then (if r = 0 then some .ebreak else some (.jalr r))
    else if r = 0 then none
    else some (.jr r)
  else none

/-- What the three instructions are specified to do in one turn of `_loop`. -/
def Meets (form : IndirectForm) (before after : Cpu) (size : Word) : Prop :=
  match form with
  | jr r => after.excVal = none ∧ after.pc + size = before.regs r &&& ~~~1 ∧
      (∀ x, x ≠ 0 → after.regs x = before.regs x) ∧ after.fregs = before.fregs
  | jalr r => after.excVal = none ∧ after.pc + size = before.regs r &&& ~~~1 ∧
      after.regs Ctype.ra = before.pc + 2 ∧
      (∀ x, x ≠ 0 → x ≠ Ctype.ra → after.regs x = before.regs x) ∧ after.fregs = before.fregs
  | ebreak => after.excVal = some .breakpoint ∧ after.pc = before.pc ∧
      (∀ x, x ≠ 0 → after.regs x = before.regs x) ∧ after.fregs = before.fregs

/-- The target needs no clearing of bit 0; no state is right for a breakpoint. -/
def EvenTarget (form : IndirectForm) (before : Cpu) : Prop :=
  match form with
  | jr r => (before.regs r).getLsbD 0 = false
  | jalr r => (before.regs r).getLsbD 0 = false
  | ebreak => False

end IndirectForm

theorem Ctype.quadrant2_of_zero_rs2 (cpu : Cpu) {d : Decoder} (hf : d.insn.extractLsb' 13 3 = 4)
    (hs : d.insn.extractLsb' 2 5 = 0) :
    Ctype.quadrant2 cpu d =
      if d.insn.getLsbD 12 then Ctype.jalr cpu d else Ctype.jr cpu d := by
  have h1 : (d.insn >>> 12 &&& 0x01 = 0) ↔ d.insn.getLsbD 12 = false :=
    BitField.field_one_eq_zero_iff d.insn 12
  have h2 : d.insn >>> 2 &&& 0x1f = 0 := (BitField.field_eq_zero_iff_extract d.insn 2 5).mpr hs
  unfold Ctype.quadrant2
  rw [Decoder.compressedFunct3_eq, hf]
  simp only [h1, h2, if_true]
  cases d.insn.getLsbD 12 <;> simp

theorem Decoder.insnSize_of_quadrant2 {d : Decoder} (h : d.insn.extractLsb' 0 2 = 2) :
    d.insnSize = 2 := by
  unfold Decoder.insnSize
  rw [Decoder.compressedOpcode_eq, h]
  rfl

/-- One turn of `_loop` in the slot: a jump through the register field, linking when bit 12 is set. -/
theorem loop_of_zero_rs2 {before fetched : Cpu} {d : Decoder} (hf : before.Fetched fetched d)
    (hq : d.insn.extractLsb' 0 2 = 2) (h3 : d.insn.extractLsb' 13 3 = 4)
    (hs : d.insn.extractLsb' 2 5 = 0) :
    before._loop = .ok (2, if d.insn.getLsbD 12 then
      (fetched.setPc (fetched.regs d.rd - 2)).setReg Ctype.ra (fetched.pc + 2)
      else fetched.setPc (fetched.regs d.rd - 2)) := by
  have hz : d.insn ≠ 0 := by
    intro h
    simp [h] at hq
  rw [Cpu.loop_of_fetched hf hz]
  unfold Cpu.execute Cpu.execute16
  rw [Decoder.insnSize_of_quadrant2 hq, Decoder.compressedOpcode_eq, hq, if_pos rfl]
  simp only [Ctype.quadrant2_of_zero_rs2 fetched h3 hs]
  cases d.insn.getLsbD 12 <;> rfl

theorem indirect_iff {before fetched : Cpu} {d : Decoder} {form : IndirectForm}
    (hf : before.Fetched fetched d) (hform : IndirectForm.ofWord d.insn = some form) :
    ∃ size after, before._loop = .ok (size, after) ∧
      (form.Meets before after size ↔ form.EvenTarget before) := by
  unfold IndirectForm.ofWord at hform
  split at hform
  next h =>
    obtain ⟨hq, h3, hs⟩ := h
    have hloop := loop_of_zero_rs2 hf hq h3 hs
    refine ⟨_, _, hloop, ?_⟩
    have hrd := d.rd_eq
    have hpc : fetched.pc = before.pc := hf.coreEq.pc
    have hfr : fetched.fregs = before.fregs := hf.coreEq.fregs
    simp only at hform
    split at hform
    next hb =>
      simp only [hb, if_true]
      split at hform
      next hr =>
        cases Option.some.inj hform
        simp [IndirectForm.Meets, IndirectForm.EvenTarget, hf.exc]
      next hr =>
        cases Option.some.inj hform
        rw [← hrd] at hr ⊢
        simp only [IndirectForm.Meets, IndirectForm.EvenTarget, Cpu.setReg_excVal, Cpu.setReg_pc,
          Cpu.setPc_pc, Cpu.setPc_excVal, hf.exc, true_and, BitVec.sub_add_cancel, hf.regs hr,
          and_not_one_eq_self_iff]
        constructor
        · exact fun h => h.1
        · intro h
          refine ⟨h, ?_, fun x hx hra => ?_, hfr⟩
          · simp [hpc]
          · simp only [Cpu.setReg_regs, Cpu.setPc_regs, Function.update_of_ne hra, hf.regs hx]
    next hb =>
      have hb' : d.insn.getLsbD 12 = false := by simpa using hb
      simp only [hb', Bool.false_eq_true, if_false]
      split at hform
      next => cases hform
      next hr =>
        cases Option.some.inj hform
        rw [← hrd] at hr ⊢
        simp only [IndirectForm.Meets, IndirectForm.EvenTarget, Cpu.setPc_pc, Cpu.setPc_excVal,
          hf.exc, true_and, BitVec.sub_add_cancel, hf.regs hr, and_not_one_eq_self_iff]
        exact ⟨fun h => h.1, fun h => ⟨h, fun x hx => hf.regs hx, hfr⟩⟩
  next => cases hform

/-- `c.jr x5` with an odd address in the register. -/
def oddJump : Cpu := (Cpu.ofImage [0x82, 0x82] (by decide)).setReg 5 7

theorem oddJump_fetched : oddJump.Fetched (oddJump.setReg 0 0) ⟨0x8282⟩ :=
  ⟨rfl, ⟨_, rfl, rfl⟩, rfl⟩

theorem indirect_iff_oddJump : ∃ size after, oddJump._loop = .ok (size, after) ∧
    ((IndirectForm.jr 5).Meets oddJump after size ↔ (IndirectForm.jr 5).EvenTarget oddJump) :=
  indirect_iff oddJump_fetched rfl

theorem oddJump_keeps_bit_zero : ¬ ∀ (before fetched after : Cpu) (d : Decoder)
    (form : IndirectForm) (size : Word), before.Fetched fetched d →
    IndirectForm.ofWord d.insn = some form → before._loop = .ok (size, after) →
    form.Meets before after size := by
  intro h
  have hm := h oddJump _ _ _ (.jr 5) 2 oddJump_fetched rfl rfl
  exact absurd hm.2.1 (by decide)

end Rv64gcEmu
