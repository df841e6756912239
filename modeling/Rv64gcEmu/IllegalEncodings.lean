import Rv64gcEmu.AtomicFaults
import Rv64gcEmu.Encodings
import Rv64gcEmu.IllegalFloat
import Rv64gcEmu.TrappedSystem

namespace Rv64gcEmu

open BitField (setWidth_field)
open Cpu (FlagsOnly)
open Encoding (isOpImm isOpImm32 isOp isOp32 isAmo isSystem isValid)

namespace Decoder

variable (d : Decoder)

theorem encoding_opcode : Encoding.opcode d.insn = d.opcode := d.opcode_eq.symm

theorem encoding_funct3 : Encoding.funct3 d.insn = d.funct3 := d.funct3_eq.symm

theorem encoding_rs2 : Encoding.rs2 d.insn = d.rs2 := d.rs2_eq.symm

theorem encoding_funct7 : Encoding.funct7 d.insn = d.funct7 := d.funct7_eq.symm

theorem encoding_funct6 : Encoding.funct6 d.insn = (d.funct7 >>> 1).setWidth 6 := by
  rw [← encoding_funct7]
  apply BitVec.eq_of_getLsbD_eq
  intro i hi
  rw [BitVec.getLsbD_setWidth, BitVec.getLsbD_ushiftRight]
  simp only [Encoding.funct6, Encoding.funct7, BitVec.getLsbD_extractLsb', hi, decide_true,
    Bool.true_and]
  rw [decide_eq_true (by omega : 1 + i < 7), Bool.true_and, ← Nat.add_assoc]

theorem encoding_funct5 : Encoding.funct5 d.insn = d.funct5 := by
  unfold funct5
  rw [← encoding_funct7]
  have hfield : ∀ f : BitVec 7, ((f &&& 0x7c) >>> 2).setWidth 5 = f.extractLsb' 2 5 := by decide
  rw [hfield]
  apply BitVec.eq_of_getLsbD_eq
  intro i hi
  simp only [Encoding.funct5, Encoding.funct7, BitVec.getLsbD_extractLsb', hi, decide_true,
    Bool.true_and]
  rw [decide_eq_true (by omega : 2 + i < 7), Bool.true_and, ← Nat.add_assoc]

/-- The field of two bits has lost its upper one. -/
theorem funct2_cases : d.funct2 = 0 ∨ d.funct2 = 1 := by
  have hle : d.funct2.toNat < 2 := by
    unfold funct2
    rw [BitVec.toNat_ushiftRight]
    have h : (d.insn &&& 0x03000000).toNat ≤ 0x03000000 := by
      rw [BitVec.toNat_and]
      exact Nat.and_le_right
    rw [Nat.shiftRight_eq_div_pow]
    omega
  by_cases hz : d.funct2.toNat = 0
  · exact .inl (BitVec.eq_of_toNat_eq hz)
  · exact .inr (BitVec.eq_of_toNat_eq (by omega : d.funct2.toNat = 1))

end Decoder

section Dispatchers

variable {cpu c : Cpu} {d : Decoder}

/-- What ends without an exception is no rejection. -/
theorem not_rejects_ok (he : cpu.excVal = none) (hc : c.excVal = cpu.excVal) :
    ¬cpu.Rejects (.ok c) := by
  refine not_rejects he fun after h => ?_
  cases Except.ok.inj h
  exact hc

theorem Load.rejects (hv : d.funct3 = 7) : cpu.Rejects (Load.funct3 cpu d) := by
  unfold Load.funct3
  rw [hv]
  exact rejects_illegal cpu d

theorem Stype.rejects (hv : ¬(d.funct3 = 0 ∨ d.funct3 = 1 ∨ d.funct3 = 2 ∨ d.funct3 = 3)) :
    cpu.Rejects (Stype.funct3 cpu d) := by
  unfold Stype.funct3
  split
  case h_5 => exact rejects_illegal cpu d
  all_goals
    rename d.funct3 = _ => h3
    simp [h3] at hv

theorem Btype.rejects (hv : d.funct3 = 2 ∨ d.funct3 = 3) : cpu.Rejects (Btype.funct3 cpu d) := by
  unfold Btype.funct3
  rcases hv with h3 | h3
  · rw [h3]
    exact rejects_illegal cpu d
  · rw [h3]
    exact rejects_illegal cpu d

theorem Rtype.rejects (hv : isOp d.insn = false) : cpu.Rejects (Rtype.funct3 cpu d) := by
  unfold isOp at hv
  rw [d.encoding_funct7, d.encoding_funct3] at hv
  unfold Rtype.funct3
  split
  case h_19 => exact rejects_illegal cpu d
  all_goals
    rename d.funct3 = _ => h3
    rename d.funct7 = _ => h7
    simp [h3, h7] at hv

/-- `SLLI` is executed whatever stands above its amount. -/
theorem Itype.rejects_iff (he : cpu.excVal = none) (hv : isOpImm d.insn = false) :
    cpu.Rejects (Itype.funct3 cpu d) ↔ d.funct3 ≠ 1 := by
  unfold isOpImm at hv
  rw [d.encoding_funct6, d.encoding_funct3] at hv
  split at hv
  next h3 =>
    unfold Itype.funct3
    rw [h3]
    exact iff_of_false (not_rejects_ok he rfl) (by simp)
  next h3 =>
    unfold Itype.funct3
    simp only [h3]
    refine iff_of_true ?_ (by simp)
    split
    next h7 => simp [h7] at hv
    next h7 => simp [h7] at hv
    next => exact rejects_illegal cpu d
  next => cases hv

theorem I64.rejects_iff (he : cpu.excVal = none) (hv : isOpImm32 d.insn = false) :
    cpu.Rejects (I64.funct3 cpu d) ↔ d.funct3 ≠ 1 := by
  unfold isOpImm32 at hv
  rw [d.encoding_funct7, d.encoding_funct3] at hv
  split at hv
  next => cases hv
  next h3 =>
    unfold I64.funct3
    rw [h3]
    exact iff_of_false (not_rejects_ok he rfl) (by simp)
  next h3 =>
    unfold I64.funct3
    simp only [h3]
    refine iff_of_true ?_ (by simp)
    split
    next h7 => simp [h7] at hv
    next h7 => simp [h7] at hv
    next => exact rejects_illegal cpu d
  next h0 h1 h5 =>
    refine iff_of_true ?_ h1
    unfold I64.funct3
    split
    next h3 => exact absurd h3 h0
    next h3 => exact absurd h3 h1
    next h3 => exact absurd h3 h5
    next => exact rejects_illegal cpu d

theorem regOp_not_rejects {op : Word → Word → HostM Word} (he : cpu.excVal = none) :
    ¬cpu.Rejects (Rtype.regOp op cpu d) := by
  refine not_rejects he fun after h => ?_
  obtain ⟨v, _, h⟩ := Except.bind_eq_ok_iff.mp h
  cases Except.ok.inj h
  rfl

/-- Of the operations on 32 bits, the ones that share their `funct3` with another are checked. -/
theorem R64.rejects_iff (he : cpu.excVal = none) (hv : isOp32 d.insn = false) :
    cpu.Rejects (R64.funct3 cpu d) ↔
      d.funct3 ≠ 1 ∧ d.funct3 ≠ 4 ∧ d.funct3 ≠ 6 ∧ d.funct3 ≠ 7 := by
  unfold isOp32 at hv
  rw [d.encoding_funct7, d.encoding_funct3] at hv
  unfold R64.funct3
  split
  case h_2 h3 | h_3 h3 | h_5 h3 | h_6 h3 =>
    rw [h3]
    exact iff_of_false (regOp_not_rejects he) (by simp)
  case h_1 h3 =>
    refine iff_of_true ?_ (by simp [h3])
    split
    case h_4 => exact rejects_illegal cpu d
    all_goals
      rename d.funct7 = _ => h7
      simp [h3, h7] at hv
  case h_4 h3 =>
    refine iff_of_true ?_ (by simp [h3])
    split
    case h_4 => exact rejects_illegal cpu d
    all_goals
      rename d.funct7 = _ => h7
      simp [h3, h7] at hv
  case h_7 h0 h4 h1 h5 h6 h7 => exact iff_of_true (rejects_illegal cpu d) ⟨h1, h4, h6, h7⟩

theorem Jalr.not_rejects (he : cpu.excVal = none) : ¬cpu.Rejects (Jalr.jalr cpu d) :=
  not_rejects_ok he rfl

namespace Fdtype

open Fdimpl

theorem access_rejects_iff {op2 op3 : Cpu → Decoder → HostM Cpu} (he : cpu.excVal = none)
    (h2 : d.funct3 ≠ 2) (h3 : d.funct3 ≠ 3) :
    cpu.Rejects (checked (fun cpu d =>
      match d.funct3 with
      | 0x2 => op2 cpu d
      | 0x3 => op3 cpu d
      | _ => .ok (cpu.illegal d)) cpu d) ↔
        cpu.cregs.isFpuEnabled = false ∨ cpu.cregs.Records cpu.fenv.word := by
  have ho : Outcome cpu d cpu.fenv.word
      (match d.funct3 with
      | 0x2 => op2 cpu d
      | 0x3 => op3 cpu d
      | _ => .ok (cpu.illegal d)) true := by
    split
    next h => exact absurd h h2
    next h => exact absurd h h3
    next => exact .illegal rfl
  rw [ho.checked_iff he]
  simp only [true_and]

/-- The format of a fused instruction is never found to be wrong. -/
theorem fused_rejects_iff {op : (f : Fmt) → Cpu → Decoder → f.Bits × FeFlags}
    (he : cpu.excVal = none) :
    cpu.Rejects (fused (fun f => resultOp f (op f)) cpu d) ↔ cpu.cregs.isFpuEnabled = false := by
  have ho : Outcome cpu d 0
      (if d.funct2 = 0x00 then resultOp .single (op .single) cpu d
        else if d.funct2 = 0x01 then resultOp .double (op .double) cpu d
        else .ok (cpu.illegal d)) false := by
    rcases d.funct2_cases with h2 | h2
    · rw [if_pos h2]
      exact .ok ((FlagsOnly.setFenv cpu _).trans (.invalidIf _ _)) rfl
    · rw [h2]
      exact .ok ((FlagsOnly.setFenv cpu _).trans (.invalidIf _ _)) rfl
  unfold fused
  rw [ho.checked_iff he]
  simp

theorem fother_rejects_iff (he : cpu.excVal = none) :
    cpu.Rejects (fother cpu d) ↔ cpu.cregs.isFpuEnabled = false ∨
      (refuses d = true ∧ cpu.cregs.Records (refusedFlags cpu d)) :=
  (fotherOp_outcome cpu d).checked_iff he

end Fdtype

namespace Atomic

/-- When the check of the address stands in for the operand that an `LR` does not have: the load
finds it pending, and the 0 in its place goes to a register that is 0. -/
def LrRefused (cpu : Cpu) (d : Decoder) : Prop :=
  d.funct3 = 3 ∧ ¬Aligned cpu d .w64 ∧ cpu.regs d.rd = 0 ∧
    ∃ p c, Mmu.translate (cpu.illegal d) (cpu.regs d.rs1) .load = .ok (p, c) ∧
      c.excVal = some .illegalInstruction ∧ c.bus = cpu.bus

theorem lrd_rejects_iff :
    cpu.Rejects (lrOp .w64 64 (cpu.illegal d) d) ↔ cpu.regs d.rd = 0 ∧
      ∃ p c, Mmu.translate (cpu.illegal d) (cpu.regs d.rs1) .load = .ok (p, c) ∧
        c.excVal = some .illegalInstruction ∧ c.bus = cpu.bus := by
  constructor
  · rintro ⟨after, h, hr⟩
    obtain ⟨⟨v, b⟩, hl, h⟩ := Except.bind_eq_ok_iff.mp h
    cases Except.ok.inj h
    obtain ⟨p, c, ht, ⟨_, rfl, rfl⟩ | ⟨hc, _⟩⟩ := Mmu.load_cases hl
    · refine ⟨?_, p, b, ht, hr.exc, hr.bus⟩
      have hrd := congrFun hr.regs d.rd
      simp only [Cpu.setReservations_regs, Cpu.setReg_regs, Function.update_self] at hrd
      exact hrd.symm
    · exact absurd hc (Mmu.translate_pending ht (by simp [Cpu.illegal]))
  · rintro ⟨hrd, p, c, ht, hexc, hbus⟩
    have hcore := (Mmu.translate_coreEq ht).1
    have hl : Mmu.load (cpu.illegal d) (cpu.regs d.rs1) .w64 = .ok (0, c) := by
      unfold Mmu.load
      rw [ht]
      change (if c.excVal.isSome = true then _ else _) = _
      rw [hexc]
      rfl
    have hx : lrOp .w64 64 (cpu.illegal d) d =
        .ok ((c.setReg d.rd 0).setReservations (insert (cpu.regs d.rs1) c.reservations)) := by
      unfold lrOp
      change (Mmu.load (cpu.illegal d) (cpu.regs d.rs1) .w64 >>= _) = _
      rw [hl]
      rfl
    refine ⟨_, hx, hexc, ?_, hcore.fregs, hcore.cregs, hbus, hcore.pc⟩
    rw [Cpu.setReservations_regs, Cpu.setReg_regs, hcore.regs, ← hrd]
    exact Function.update_eq_self d.rd cpu.regs

theorem lrOp_not_rejects {length : Width} {n : Nat} (hc : c.excVal ≠ some .illegalInstruction) :
    ¬cpu.Rejects (lrOp length n c d) := by
  rintro ⟨after, h, hr⟩
  obtain ⟨⟨v, b⟩, hl, h⟩ := Except.bind_eq_ok_iff.mp h
  cases Except.ok.inj h
  exact KeepsLegal.load hl hc hr.exc

/-- An `LR` with an operand is executed, unless the check of its address stands in for that of the
operand. -/
theorem lr_rejects_iff {length : Width} (he : cpu.excVal = none) (hd : d.IsAtomicOp .lr length) :
    cpu.Rejects (funct3 cpu d) ↔ LrRefused cpu d := by
  rw [funct3_lr cpu hd]
  have hlegal : cpu.excVal ≠ some .illegalInstruction := by simp [he]
  rcases hd.length with ⟨hf, rfl⟩ | ⟨hf, rfl⟩
  · have hcheck : (checkAlign cpu d .w32).excVal ≠ some .illegalInstruction := by
      change (if cpu.regs d.rs1 % 4 ≠ 0 then _ else cpu).excVal ≠ _
      split
      next => simp
      next => exact hlegal
    refine iff_of_false (lrOp_not_rejects hcheck) fun h => ?_
    rw [h.1] at hf
    cases hf
  · by_cases ha : Aligned cpu d .w64
    · rw [checkAlign_of_aligned hd ha]
      exact iff_of_false (lrOp_not_rejects hlegal) fun h => h.2.1 ha
    · have hz : ¬cpu.regs d.rs1 % 8 = 0 := fun hz => ha (congrArg BitVec.toNat hz)
      have hcheck : checkAlign cpu d .w64 = cpu.illegal d := if_pos hz
      rw [hcheck]
      exact lrd_rejects_iff.trans ⟨fun h => ⟨hf, ha, h⟩, fun h => h.2.2⟩

theorem rejects_checked {p : Prop} [Decidable p] {e : Exception} {x : Word} :
    cpu.Rejects (.ok ((if p then cpu.setException e x else cpu).illegal d)) := by
  split
  next => exact ⟨_, rfl, rfl, rfl, rfl, rfl, rfl, rfl⟩
  next => exact rejects_illegal cpu d

/-- Of the words that are no atomics only those of the `LR` are executed. -/
theorem rejects_iff (he : cpu.excVal = none) (hs : d.insnSize = 4)
    (ht : d.opcodeType = some .atomic) (hv : isAmo d.insn = false) :
    cpu.Rejects (funct3 cpu d) ↔
      (d.funct5 = 2 ∧ (d.funct3 = 2 ∨ d.funct3 = 3) → LrRefused cpu d) := by
  unfold isAmo at hv
  rw [d.encoding_funct5, d.encoding_funct3, d.encoding_rs2] at hv
  by_cases h5 : d.funct5 = 2
  · by_cases h23 : d.funct3 = 2 ∨ d.funct3 = 3
    · have hlr : cpu.Rejects (funct3 cpu d) ↔ LrRefused cpu d := by
        rcases h23 with h3 | h3
        · exact lr_rejects_iff he ⟨hs, ht, h5, .inl ⟨h3, rfl⟩⟩
        · exact lr_rejects_iff he ⟨hs, ht, h5, .inr ⟨h3, rfl⟩⟩
      exact hlr.trans ⟨fun h _ => h, fun h => h ⟨h5, h23⟩⟩
    · refine iff_of_true ?_ fun h => absurd h.2 h23
      unfold funct3
      split
      next h => exact absurd (.inl h) h23
      next h => exact absurd (.inr h) h23
      next => exact rejects_illegal cpu d
  · refine iff_of_true ?_ fun h => absurd h.1 h5
    unfold funct3
    split
    case h_3 => exact rejects_illegal cpu d
    case h_1 h3 =>
      unfold amow
      simp only
      split
      case h_12 => exact rejects_checked
      all_goals
        rename d.funct5 = _ => h
        first | exact absurd h h5 | simp [h3, h] at hv
    case h_2 h3 =>
      unfold amod
      simp only
      split
      case h_12 => exact rejects_checked
      all_goals
        rename d.funct5 = _ => h
        first | exact absurd h h5 | simp [h3, h] at hv

end Atomic

namespace CsrInsn

/-- The word is not executed as `SFENCE.VMA`, `ECALL`, `EBREAK`, `SRET`, `MRET` or `WFI`, as far as
`funct7` and `rs2` tell, or the mode does not allow it. -/
def EnvironmentRefused (cpu : Cpu) (d : Decoder) : Prop :=
  if d.funct7 = 0x09 then cpu.cregs.readBitMstatus .tvm = 1 ∨ cpu.mode = .user
  else
    d.funct7 = 0x11 ∨ d.funct7 = 0x51 ∨
      (d.rs2 = 0x00 → cpu.mode = .invalid) ∧ d.rs2 ≠ 0x01 ∧
        (d.rs2 = 0x02 → d.funct7 = 0x08 → cpu.cregs.status 22 = true ∨ cpu.mode = .user) ∧
        (d.rs2 = 0x02 → d.funct7 = 0x18 → cpu.mode ≠ .machine) ∧
        (d.rs2 = 0x05 → d.funct7 ≠ 0x08)

theorem sfencevma_rejects_iff (he : cpu.excVal = none) :
    cpu.Rejects (.ok (sfencevma cpu d)) ↔
      cpu.cregs.readBitMstatus .tvm = 1 ∨ cpu.mode = .user := by
  constructor
  · rintro ⟨after, h, hr⟩
    cases Except.ok.inj h
    by_contra ht
    have hexc := hr.exc
    rw [sfencevma_excVal he, if_neg ht] at hexc
    cases hexc
  · intro ht
    unfold sfencevma
    rw [if_pos ht]
    exact ⟨_, rfl, rfl, rfl, rfl, rfl, rfl, rfl⟩

theorem ecall_rejects_iff : cpu.Rejects (.ok (ecall cpu d)) ↔ cpu.mode = .invalid := by
  unfold ecall
  split
  case h_4 hm => exact iff_of_true (rejects_illegal cpu d) hm
  all_goals
    rename cpu.mode = _ => hm
    refine iff_of_false ?_ (by simp [hm])
    rintro ⟨after, h, hr⟩
    cases Except.ok.inj h
    cases hr.exc

theorem sret_rejects_iff (he : cpu.excVal = none) :
    cpu.Rejects (.ok (sret cpu d)) ↔ cpu.cregs.status 22 = true ∨ cpu.mode = .user := by
  rcases sret_cases cpu d with ⟨hx, hc⟩ | ⟨hx, hs, hm⟩
  · rw [hx]
    exact iff_of_true (rejects_illegal cpu d) hc
  · exact iff_of_false (not_rejects_ok he hx.excVal) (by simp [hs, hm])

theorem mret_rejects_iff (he : cpu.excVal = none) :
    cpu.Rejects (.ok (mret cpu d)) ↔ cpu.mode ≠ .machine := by
  rcases mret_cases cpu d with ⟨hx, hc⟩ | ⟨hx, hm⟩
  · rw [hx]
    exact iff_of_true (rejects_illegal cpu d) hc
  · exact iff_of_false (not_rejects_ok he hx.excVal) (not_not.mpr hm)

theorem environment_rejects_iff (he : cpu.excVal = none) :
    cpu.Rejects (.ok (environment cpu d)) ↔ EnvironmentRefused cpu d := by
  have hill : cpu.Rejects (.ok (cpu.illegal d)) := rejects_illegal cpu d
  unfold environment EnvironmentRefused
  by_cases h9 : d.funct7 = 0x09
  · rw [if_pos h9, if_pos h9]
    exact sfencevma_rejects_iff he
  · rw [if_neg h9, if_neg h9]
    by_cases h11 : d.funct7 = 0x11
    · rw [if_pos h11]
      exact iff_of_true hill (.inl h11)
    · by_cases h51 : d.funct7 = 0x51
      · rw [if_neg h11, if_pos h51]
        exact iff_of_true hill (.inr (.inl h51))
      · rw [if_neg h11, if_neg h51, or_iff_right h11, or_iff_right h51]
        split
        next h2 => simpa [h2] using ecall_rejects_iff
        next h2 =>
          refine iff_of_false ?_ (by simp [h2])
          rintro ⟨after, h, hr⟩
          cases Except.ok.inj h
          cases hr.exc
        next h2 =>
          split
          next h7 => exact iff_of_true hill (by simp [h2, h7])
          next h7 => simpa [h2, h7] using sret_rejects_iff he
          next h7 => simpa [h2, h7] using mret_rejects_iff he
          next h0 h8 h18 =>
            exact iff_of_true hill (by simpa [h2] using ⟨fun h => (h8 h).elim, fun h => (h18 h).elim⟩)
        next h2 =>
          split
          next h7 => exact iff_of_false (not_rejects_ok he rfl) (by simp [h2, h7])
          next h7 => exact iff_of_true hill (by simpa [h2] using h7)
        next h0 h1 h2 h5 =>
          exact iff_of_true hill ⟨fun h => (h0 h).elim, h1, fun h => (h2 h).elim,
            fun h => (h2 h).elim, fun h => (h5 h).elim⟩

theorem rejects_iff (he : cpu.excVal = none) (hv : isSystem d.insn = false) :
    cpu.Rejects (.ok (funct3 cpu d)) ↔ (d.funct3 = 0 → EnvironmentRefused cpu d) := by
  unfold isSystem at hv
  rw [d.encoding_funct3] at hv
  split at hv
  next h3 =>
    unfold funct3
    rw [h3]
    exact (environment_rejects_iff he).trans ⟨fun h _ => h, fun h => h rfl⟩
  next h3 =>
    unfold funct3
    rw [h3]
    exact iff_of_true (rejects_illegal cpu d) (by simp)
  next => cases hv

end CsrInsn

end Dispatchers

/-- When a word that is no encoding is refused, by the dispatcher that gets it. -/
def Cpu.RefusesWord (cpu : Cpu) (d : Decoder) : Prop :=
  match d.opcodeType with
  | some .fence => False
  | some .jalr => False
  | some .i => d.funct3 ≠ 1
  | some .i64 => d.funct3 ≠ 1
  | some .r64 => d.funct3 ≠ 1 ∧ d.funct3 ≠ 4 ∧ d.funct3 ≠ 6 ∧ d.funct3 ≠ 7
  | some .fl => cpu.cregs.isFpuEnabled = false ∨ cpu.cregs.Records cpu.fenv.word
  | some .fs => cpu.cregs.isFpuEnabled = false ∨ cpu.cregs.Records cpu.fenv.word
  | some .fmadd => cpu.cregs.isFpuEnabled = false
  | some .fmsub => cpu.cregs.isFpuEnabled = false
  | some .fnmadd => cpu.cregs.isFpuEnabled = false
  | some .fnmsub => cpu.cregs.isFpuEnabled = false
  | some .fother => cpu.cregs.isFpuEnabled = false ∨
      (Fdtype.refuses d = true ∧ cpu.cregs.Records (Fdtype.refusedFlags cpu d))
  | some .atomic => d.funct5 = 2 ∧ (d.funct3 = 2 ∨ d.funct3 = 3) → Atomic.LrRefused cpu d
  | some .csr => d.funct3 = 0 → CsrInsn.EnvironmentRefused cpu d
  | _ => True

/-- With nothing pending, a word that is no encoding is rejected exactly under that condition. -/
theorem Cpu.rejectsIllegal_iff (cpu : Cpu) (w : BitVec 32) (he : cpu.excVal = none)
    (hw : w.extractLsb' 0 2 = 3) (hv : isValid w = false) :
    cpu.Rejects (cpu.execute32 ⟨w⟩) ↔ cpu.RefusesWord ⟨w⟩ := by
  generalize hd : (⟨w⟩ : Decoder) = d
  obtain rfl : w = d.insn := congrArg Decoder.insn hd
  unfold execute32 RefusesWord
  unfold isValid at hv
  rw [d.encoding_opcode] at hv
  have hsize : d.insnSize = 4 := if_pos (d.compressedOpcode_eq.trans hw)
  have hfloat : (decide (Encoding.funct3 d.insn = 2) || decide (Encoding.funct3 d.insn = 3)) =
      false → d.funct3 ≠ 2 ∧ d.funct3 ≠ 3 := by
    intro h3
    rw [d.encoding_funct3] at h3
    simpa using h3
  cases ht : d.opcodeType with
  | none => exact iff_of_true (rejects_illegal cpu d) trivial
  | some t =>
    rw [Decoder.opcode_of_type ht] at hv
    cases t with
    | auipc => cases hv
    | lui => cases hv
    | jal => cases hv
    | load =>
      have h3 : decide (Encoding.funct3 d.insn ≠ 7) = false := hv
      rw [d.encoding_funct3] at h3
      exact iff_of_true (Load.rejects (by simpa using h3)) trivial
    | fence => exact iff_of_false (not_rejects_ok he rfl) id
    | jalr => exact iff_of_false (Jalr.not_rejects he) id
    | i => exact Itype.rejects_iff he hv
    | s =>
      have h3 : (decide (Encoding.funct3 d.insn = 0) || decide (Encoding.funct3 d.insn = 1) ||
        decide (Encoding.funct3 d.insn = 2) || decide (Encoding.funct3 d.insn = 3)) = false := hv
      rw [d.encoding_funct3] at h3
      exact iff_of_true (Stype.rejects (by simpa [or_assoc, and_assoc] using h3)) trivial
    | r => exact iff_of_true (Rtype.rejects hv) trivial
    | b =>
      have h3 : (decide (Encoding.funct3 d.insn ≠ 2) && decide (Encoding.funct3 d.insn ≠ 3)) =
        false := hv
      rw [d.encoding_funct3] at h3
      exact iff_of_true (Btype.rejects (by simpa [Decidable.or_iff_not_imp_left] using h3)) trivial
    | fl => exact Fdtype.access_rejects_iff he (hfloat hv).1 (hfloat hv).2
    | fs => exact Fdtype.access_rejects_iff he (hfloat hv).1 (hfloat hv).2
    | fmadd => exact Fdtype.fused_rejects_iff he
    | fmsub => exact Fdtype.fused_rejects_iff he
    | fnmadd => exact Fdtype.fused_rejects_iff he
    | fnmsub => exact Fdtype.fused_rejects_iff he
    | fother => exact Fdtype.fother_rejects_iff he
    | atomic => exact Atomic.rejects_iff he hsize ht hv
    | i64 => exact I64.rejects_iff he hv
    | r64 => exact R64.rejects_iff he hv
    | csr => exact CsrInsn.rejects_iff he hv

/-- `jalr x1, 0(x0)` with a `funct3` of 1 in memory. -/
def strayCpu : Cpu := Cpu.ofImage [0xe7, 0x10, 0x00, 0x00] (by decide)

theorem rejectsIllegal_iff_strayCpu : ¬strayCpu.Rejects (strayCpu.execute32 ⟨0x000010e7⟩) :=
  fun h => (Cpu.rejectsIllegal_iff strayCpu 0x000010e7 rfl (by decide) (by decide)).mp h

theorem strayCpu_jumps : ¬∀ (cpu : Cpu) (w : BitVec 32), cpu.excVal = none →
    w.extractLsb' 0 2 = 3 → isValid w = false → cpu.Rejects (cpu.execute32 ⟨w⟩) := by
  intro h
  have hx : strayCpu.execute32 ⟨0x000010e7⟩ = Jalr.jalr strayCpu ⟨0x000010e7⟩ := rfl
  have hr := h strayCpu 0x000010e7 rfl (by decide) (by decide)
  rw [hx] at hr
  exact Jalr.not_rejects rfl hr

end Rv64gcEmu
