import Rv64gcEmu.SystemEffect

namespace Rv64gcEmu

open BitField (getLsbD_zero_add getLsbD_zero_sub getLsbD_zero_sshiftRight)

theorem getLsbD_zero_signExtendCast {v : Word} {n : Nat} (hn : 0 < n) :
    (signExtendCast v n).getLsbD 0 = v.getLsbD 0 := by
  unfold signExtendCast
  rw [BitVec.getLsbD_signExtend, BitVec.getLsbD_setWidth]
  simp [hn]

theorem Decoder.immB_even (d : Decoder) : d.immB.getLsbD 0 = false := by
  unfold immB
  simp only [BitVec.getLsbD_or]
  rw [getLsbD_zero_sshiftRight (by decide), BitVec.getLsbD_signExtend]
  simp

theorem Decoder.immJ_even (d : Decoder) : d.immJ.getLsbD 0 = false := by
  unfold immJ
  simp only [BitVec.getLsbD_or]
  rw [getLsbD_zero_sshiftRight (by decide), BitVec.getLsbD_signExtend]
  simp

theorem Ctype.immJ_even (d : Decoder) : (immJ d).getLsbD 0 = false := by
  unfold immJ
  simp only
  split
  next =>
    rw [getLsbD_zero_signExtendCast (by decide)]
    simp [bits]
  next => simp [bits]

theorem Ctype.immBranch_even (d : Decoder) : (immBranch d).getLsbD 0 = false := by
  unfold immBranch
  simp only
  split
  next =>
    rw [getLsbD_zero_signExtendCast (by decide)]
    simp [bits]
  next => simp [bits]

/-- A jump by an even distance, from which the even length of the instruction has been taken off. -/
theorem jump_even {pc imm size : Word} (hi : imm.getLsbD 0 = false) (hs : size.getLsbD 0 = false) :
    (pc + (imm - size)).getLsbD 0 = pc.getLsbD 0 := by
  rw [getLsbD_zero_add, getLsbD_zero_sub, hi, hs, Bool.xor_false, Bool.xor_false]

namespace Cpu

/-- No floating-point state is touched, and `pc` keeps its lowest bit. -/
structure Integral (a b : Cpu) : Prop where
  fregs : b.fregs = a.fregs
  cregs : b.cregs = a.cregs
  pc : b.pc.getLsbD 0 = a.pc.getLsbD 0

namespace Integral

theorem refl (a : Cpu) : Integral a a := ⟨rfl, rfl, rfl⟩

theorem trans {a b c : Cpu} (h : Integral a b) (h' : Integral b c) : Integral a c :=
  ⟨h'.fregs.trans h.fregs, h'.cregs.trans h.cregs, h'.pc.trans h.pc⟩

theorem of_coreEq {a b : Cpu} (h : CoreEq a b) : Integral a b :=
  ⟨h.fregs, h.cregs, congrArg (fun pc => pc.getLsbD 0) h.pc⟩

theorem of_frame {a b : Cpu} (h : Atomic.Frame a b) : Integral a b :=
  ⟨h.fregs, h.cregs, congrArg (fun pc => pc.getLsbD 0) h.pc⟩

theorem setReg (a : Cpu) (r : BitVec 5) (v : Word) : Integral a (a.setReg r v) := ⟨rfl, rfl, rfl⟩

theorem setPc (a : Cpu) {pc : Word} (h : pc.getLsbD 0 = a.pc.getLsbD 0) : Integral a (a.setPc pc) :=
  ⟨rfl, rfl, h⟩

variable {cpu after : Cpu} {d : Decoder}

theorem of_illegal (h : .ok (cpu.illegal d) = (.ok after : HostM Cpu)) : Integral cpu after := by
  cases Except.ok.inj h
  exact ⟨rfl, rfl, rfl⟩

theorem of_setReg {r : BitVec 5} {v : Word} (h : .ok (cpu.setReg r v) = (.ok after : HostM Cpu)) :
    Integral cpu after := by
  cases Except.ok.inj h
  exact setReg cpu r v

theorem of_assigned (h : Assigned cpu d after) : Integral cpu after := by
  cases h with
  | setReg r v => exact setReg cpu r v
  | illegal => exact ⟨rfl, rfl, rfl⟩

theorem of_branch {p : Prop} [Decidable p] {pc : Word} (hpc : pc.getLsbD 0 = cpu.pc.getLsbD 0)
    (h : (if p then .ok (cpu.setPc pc) else .ok cpu) = (.ok after : HostM Cpu)) :
    Integral cpu after := by
  split at h
  next =>
    cases Except.ok.inj h
    exact setPc cpu hpc
  next =>
    cases Except.ok.inj h
    exact refl cpu

theorem of_store {address value : Word} {length : Width}
    (h : Mmu.store cpu address value length = .ok after) : Integral cpu after :=
  of_coreEq (Mmu.store_coreEq h)

end Integral

end Cpu

open Cpu (Integral)

section Base

variable {cpu after : Cpu} {d : Decoder}

theorem Btype.funct3_integral (h : Btype.funct3 cpu d = .ok after) : Integral cpu after := by
  have hpc : (cpu.pc + (d.immB - 4)).getLsbD 0 = cpu.pc.getLsbD 0 := jump_even d.immB_even rfl
  unfold Btype.funct3 at h
  split at h
  case h_7 => exact .of_illegal h
  all_goals exact .of_branch hpc h

theorem Jal.jal_integral (h : Jal.jal cpu d = .ok after) : Integral cpu after := by
  cases Except.ok.inj h
  exact (Integral.setReg cpu _ _).trans (.setPc _ (jump_even d.immJ_even rfl))

/-- The 32-bit `JALR` clears bit 0 of its target. -/
theorem Jalr.jalr_pc (h : Jalr.jalr cpu d = .ok after) :
    after.fregs = cpu.fregs ∧ after.cregs = cpu.cregs ∧ after.pc.getLsbD 0 = false := by
  cases Except.ok.inj h
  refine ⟨rfl, rfl, ?_⟩
  change (((cpu.regs d.rs1 + d.immI) &&& ~~~1) - 4).getLsbD 0 = false
  rw [getLsbD_zero_sub, BitVec.getLsbD_and]
  simp

theorem Load.funct3_integral (h : Load.funct3 cpu d = .ok after) : Integral cpu after := by
  have hload : ∀ {extend : Word → Word} {length : Width},
      loadOp extend length cpu d = .ok after → Integral cpu after := by
    intro extend length h
    obtain ⟨⟨v, c⟩, hl, h⟩ := Except.bind_eq_ok_iff.mp h
    have hc := Integral.of_coreEq (Mmu.load_coreEq hl)
    cases Except.ok.inj h
    unfold assignIfNoException
    split
    next => exact hc.trans (.setReg c _ _)
    next => exact hc
  unfold Load.funct3 at h
  split at h
  case h_8 => exact .of_illegal h
  all_goals exact hload h

theorem Stype.funct3_integral (h : Stype.funct3 cpu d = .ok after) : Integral cpu after := by
  unfold Stype.funct3 at h
  split at h
  case h_5 => exact .of_illegal h
  all_goals exact .of_store h

end Base

section Compressed

variable {cpu after : Cpu} {d : Decoder}

theorem Ctype.loadReg_integral {addr : Word} {length : Width} {extend : Word → Word} {rd : BitVec 5}
    (h : Ctype.loadReg addr length extend rd cpu = .ok after) : Integral cpu after := by
  obtain ⟨⟨v, c⟩, hl, h⟩ := Except.bind_eq_ok_iff.mp h
  cases Except.ok.inj h
  exact (Integral.of_coreEq (Mmu.load_coreEq hl)).trans (.setReg c _ _)

theorem Ctype.quadrant0_integral (hf : d.compressedFunct3 ≠ 1)
    (h : Ctype.quadrant0 cpu d = .ok after) : Integral cpu after := by
  unfold Ctype.quadrant0 at h
  split at h
  next => exact .of_setReg h
  next h1 => exact absurd h1 hf
  next => exact loadReg_integral h
  next => exact loadReg_integral h
  next => exact .of_illegal h
  next => exact .of_store h
  next => exact .of_store h
  next => exact .of_store h

theorem Ctype.quadrant1_integral (h : Ctype.quadrant1 cpu d = .ok after) : Integral cpu after := by
  have hbranch : (cpu.pc + (immBranch d - 2)).getLsbD 0 = cpu.pc.getLsbD 0 :=
    jump_even (immBranch_even d) rfl
  unfold Ctype.quadrant1 at h
  split at h
  case h_4 =>
    split at h
    next =>
      cases Except.ok.inj h
      exact .refl cpu
    next =>
      split at h
      next => exact .of_setReg h
      next => exact .of_setReg h
  case h_5 => exact .of_assigned (q1op4_assigned h)
  case h_6 =>
    cases Except.ok.inj h
    exact .setPc cpu (jump_even (immJ_even d) rfl)
  case h_7 => exact .of_branch hbranch h
  case h_8 => exact .of_branch hbranch h
  all_goals exact .of_setReg h

end Compressed

namespace Decoder

/-- `C.FLD` and `C.FLDSP`. -/
def isFloatLoad16 (d : Decoder) : Bool :=
  d.insnSize = 2 && d.compressedFunct3 = 1 && (d.compressedOpcode = 0 || d.compressedOpcode = 2)

/-- The register that `C.JR` and `C.JALR` jump through. -/
def jumpReg (d : Decoder) : Option (BitVec 5) :=
  if d.insnSize = 2 ∧ d.compressedOpcode = 2 ∧ d.compressedFunct3 = 4 ∧ (d.insn >>> 2) &&& 0x1f = 0 then
    some d.rd
  else none

end Decoder

section Execute16

variable {cpu after : Cpu} {d : Decoder}

theorem Ctype.quadrant2_integral (hs : d.insnSize = 2) (hq : d.compressedOpcode = 2)
    (hf : d.compressedFunct3 ≠ 1) (hj : d.jumpReg = none) (h : Ctype.quadrant2 cpu d = .ok after) :
    Integral cpu after := by
  unfold Ctype.quadrant2 at h
  split at h
  next => exact .of_setReg h
  next h1 => exact absurd h1 hf
  next => exact loadReg_integral h
  next => exact loadReg_integral h
  next h4 =>
    have hz : ¬(d.insn >>> 2) &&& 0x1f = 0 := by
      intro hz
      have hsome : d.jumpReg = some d.rd := if_pos ⟨hs, hq, h4, hz⟩
      rw [hsome] at hj
      cases hj
    simp only [if_neg hz] at h
    split at h
    next => exact .of_setReg h
    next => exact .of_setReg h
  next => exact .of_store h
  next => exact .of_store h
  next => exact .of_store h

theorem Ctype.quadrant2_jump {r : BitVec 5} (hj : d.jumpReg = some r)
    (h : Ctype.quadrant2 cpu d = .ok after) :
    after.pc = cpu.regs r - 2 ∧ after.fregs = cpu.fregs ∧ after.cregs = cpu.cregs ∧
      after.excVal = cpu.excVal := by
  unfold Decoder.jumpReg at hj
  split at hj
  next hd =>
    obtain ⟨_, _, h4, hz⟩ := hd
    obtain rfl := Option.some.inj hj
    have heq : Ctype.quadrant2 cpu d =
        if (d.insn >>> 12) &&& 0x01 = 0 then Ctype.jr cpu d else Ctype.jalr cpu d := by
      unfold Ctype.quadrant2
      rw [h4]
      simp only [hz, if_true]
      rfl
    rw [heq] at h
    split at h
    next =>
      cases Except.ok.inj h
      exact ⟨rfl, rfl, rfl, rfl⟩
    next =>
      cases Except.ok.inj h
      exact ⟨rfl, rfl, rfl, rfl⟩
  next => cases hj

theorem execute16_integral (hs : d.insnSize = 2) (hl : d.isFloatLoad16 = false)
    (hj : d.jumpReg = none) (h : cpu.execute16 d = .ok after) : Integral cpu after := by
  have hf : d.compressedOpcode = 0 ∨ d.compressedOpcode = 2 → d.compressedFunct3 ≠ 1 := by
    rintro hq h1
    rcases hq with hq | hq
    · simp [Decoder.isFloatLoad16, hs, h1, hq] at hl
    · simp [Decoder.isFloatLoad16, hs, h1, hq] at hl
  unfold Cpu.execute16 at h
  split at h
  next hq => exact Ctype.quadrant0_integral (hf (.inl hq)) h
  next => exact Ctype.quadrant1_integral h
  next hq => exact Ctype.quadrant2_integral hs hq (hf (.inr hq)) hj h
  next => exact .of_illegal h

theorem execute16_jump {r : BitVec 5} (hj : d.jumpReg = some r) (h : cpu.execute16 d = .ok after) :
    after.pc = cpu.regs r - 2 ∧ after.fregs = cpu.fregs ∧ after.cregs = cpu.cregs ∧
      after.excVal = cpu.excVal := by
  have hq : d.compressedOpcode = 2 := by
    unfold Decoder.jumpReg at hj
    split at hj
    next hd => exact hd.2.1
    next => cases hj
  unfold Cpu.execute16 at h
  rw [hq] at h
  exact Ctype.quadrant2_jump hj h

/-- A compressed load of a floating-point register writes it, and nothing else. -/
theorem execute16_floatLoad (hl : d.isFloatLoad16 = true) (h : cpu.execute16 d = .ok after) :
    ∃ address rd v c, Mmu.load cpu address .w64 = .ok (v, c) ∧ after = c.setFreg rd v := by
  have hload : ∀ {addr : Word} {rd : BitVec 5}, Ctype.loadFreg addr rd cpu = .ok after →
      ∃ address rd v c, Mmu.load cpu address .w64 = .ok (v, c) ∧ after = c.setFreg rd v := by
    intro addr rd h
    obtain ⟨⟨v, c⟩, hl, h⟩ := Except.bind_eq_ok_iff.mp h
    exact ⟨addr, rd, v, c, hl, (Except.ok.inj h).symm⟩
  simp only [Decoder.isFloatLoad16, Bool.and_eq_true, Bool.or_eq_true, decide_eq_true_eq] at hl
  obtain ⟨⟨_, h1⟩, hq⟩ := hl
  unfold Cpu.execute16 at h
  rcases hq with hq | hq
  · rw [hq] at h
    simp only [Ctype.quadrant0, h1] at h
    exact hload h
  · rw [hq] at h
    simp only [Ctype.quadrant2, h1] at h
    exact hload h

end Execute16

end Rv64gcEmu
