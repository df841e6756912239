import Rv64gcEmu.RegisterOps

namespace Rv64gcEmu

inductive ShiftOp where
  | sll
  | srl
  | sra
  deriving DecidableEq, Repr

def ShiftOp.shift {w : Nat} (op : ShiftOp) (x : BitVec w) (n : Nat) : BitVec w :=
  match op with
  | .sll => x <<< n
  | .srl => x >>> n
  | .sra => x.sshiftRight n

def ShiftOp.funct3 : ShiftOp → BitVec 3
  | .sll => 1
  | .srl => 5
  | .sra => 5

def ShiftOp.funct7 : ShiftOp → BitVec 7
  | .sll => 0x00
  | .srl => 0x00
  | .sra => 0x20

/-- Where the amount comes from, and the width of what is shifted. -/
inductive ShiftForm where
  | reg
  | imm
  | regWord
  | immWord
  deriving DecidableEq, Repr

/-- The legal encodings: an immediate amount of six bits takes the lowest bit of `funct7`. -/
def Decoder.NamesShift (d : Decoder) (op : ShiftOp) : ShiftForm → Prop
  | .reg => d.Names .r op.funct3 op.funct7
  | .imm => d.opcodeType = some .i ∧ d.funct3 = op.funct3 ∧ d.funct7 >>> 1 = op.funct7 >>> 1
  | .regWord => d.Names .r64 op.funct3 op.funct7
  | .immWord => d.Names .i64 op.funct3 op.funct7

/-- What the instruction set has the shift leave in `rd`. -/
def ShiftForm.result (form : ShiftForm) (op : ShiftOp) (cpu : Cpu) (d : Decoder) : Word :=
  let a := cpu.regs d.rs1
  let b := cpu.regs d.rs2
  match form with
  | .reg => op.shift a (b.toNat % 64)
  | .imm => op.shift a (d.insn.extractLsb' 20 6).toNat
  | .regWord => (op.shift (low32 a) (b.toNat % 32)).signExtend 64
  | .immWord => (op.shift (low32 a) (d.insn.extractLsb' 20 5).toNat).signExtend 64

/-- The shifts that the handler gets right, for the operands `a` and `b`: only the `W` forms cut the
amount in a register down, and `SRA` shifts the low word. -/
def ShiftForm.Exact (form : ShiftForm) (op : ShiftOp) (a b : Word) : Prop :=
  match form, op with
  | .reg, .sll => b.toNat < 64
  | .reg, .srl => b.toNat < 64
  | .reg, .sra => b.toNat < 32 ∧ a = (low32 a).signExtend 64
  | .imm, .sra => False
  | _, _ => True

section Amounts

variable {d : Decoder}

theorem checkShift_eq_ok_iff {width : Nat} {amount x v : Word} :
    (checkShift width amount >>= fun _ => .ok x) = .ok v ↔ amount.toNat < width ∧ x = v := by
  unfold checkShift
  by_cases h : amount.toNat < width
  · simp [h, bind, Except.bind]
  · simp [h, bind, Except.bind]

theorem toNat_and_five (b : Word) : (b &&& 0x1f).toNat = b.toNat % 32 := by
  rw [BitVec.toNat_and]
  exact Nat.and_two_pow_sub_one_eq_mod b.toNat 5

/-- In the `W` forms the sixth bit of the amount is a bit of `funct7`. -/
theorem shamt_word {op : ShiftOp} (h : d.funct7 = op.funct7) :
    d.shamt.toNat = (d.insn.extractLsb' 20 5).toNat := by
  have hbit : d.insn.getLsbD 25 = false := by
    have h7 := congrArg (BitVec.getLsbD · 0) h
    simp only [Decoder.funct7_eq, BitVec.getLsbD_extractLsb'] at h7
    cases op <;> simpa [ShiftOp.funct7] using h7
  have hcut : d.insn.extractLsb' 20 6 = (d.insn.extractLsb' 20 5).setWidth 6 := by
    apply BitVec.eq_of_getLsbD_eq
    intro i hi
    rw [BitVec.getLsbD_setWidth, BitVec.getLsbD_extractLsb', BitVec.getLsbD_extractLsb']
    by_cases h5 : i < 5
    · simp [hi, h5]
    · have he : i = 5 := by omega
      rw [he, hbit]
      rfl
  have hlt := (d.insn.extractLsb' 20 5).isLt
  rw [Decoder.toNat_shamt, hcut, BitVec.toNat_setWidth, Nat.mod_eq_of_lt (by omega)]

/-- The immediate of `SRAI` is at least 1024. -/
theorem immI_of_srai (h : d.funct7 >>> 1 = ShiftOp.funct7 .sra >>> 1) : ¬d.immI.toNat < 64 := by
  have hbit : d.insn.getLsbD 30 = true := by
    have h7 := congrArg (BitVec.getLsbD · 4) h
    simp only [Decoder.funct7_eq, BitVec.getLsbD_ushiftRight, BitVec.getLsbD_extractLsb'] at h7
    simpa [ShiftOp.funct7] using h7
  have himm : d.immI.getLsbD 10 = true := by
    rw [Decoder.immI_eq, BitVec.getLsbD_signExtend, BitVec.getLsbD_extractLsb']
    simpa using hbit
  have hge := Nat.ge_two_pow_of_testBit himm
  omega

end Amounts

section Values

variable {a b : Word}

theorem signExtendCast_shiftLeft (a : Word) (n : Nat) :
    signExtendCast (a <<< n) 32 = (low32 a <<< n).signExtend 64 := by
  rw [signExtendCast, BitVec.setWidth_shiftLeft_of_le (by decide)]

/-- `SRA` shifts the low word: the result is that of the whole register when nothing is lost. -/
theorem sshiftRight_low32_iff {n : Nat} (hn : n < 32) :
    ((low32 a).sshiftRight n).signExtend 64 = a.sshiftRight n ↔ a = (low32 a).signExtend 64 := by
  rw [SignedWord.toInt_eq_iff_signExtend (by decide), eq_comm,
    SignedWord.toInt_eq_iff_signExtend (by decide), BitVec.toInt_sshiftRight,
    BitVec.toInt_sshiftRight]
  constructor
  · intro h
    obtain ⟨k, hk⟩ := low32_congr a
    have hpow : ((2 ^ 32 : Nat) : Int) = (2 ^ n : Nat) * (2 ^ (32 - n) : Nat) := by
      rw [← Nat.cast_mul, ← Nat.pow_add, Nat.add_sub_cancel' (Nat.le_of_lt hn)]
    have hpos : ((2 ^ n : Nat) : Int) ≠ 0 := Int.natCast_ne_zero.mpr (Nat.two_pow_pos n).ne'
    have hlow : (low32 a).toInt = a.toInt + (2 ^ n : Nat) * ((2 ^ (32 - n) : Nat) * k) := by
      rw [← Int.mul_assoc, ← hpow]
      omega
    rw [Int.shiftRight_eq_div_pow, Int.shiftRight_eq_div_pow, hlow,
      Int.add_mul_ediv_left _ _ hpos] at h
    have hz : ((2 ^ (32 - n) : Nat) : Int) * k = 0 := by omega
    rw [hz, Int.mul_zero, Int.add_zero] at hlow
    exact hlow.symm
  · intro h
    rw [h]

end Values

namespace ShiftForm

variable {cpu : Cpu} {d : Decoder} {op : ShiftOp}

theorem ok_setReg_iff {v v' : Word} :
    (.ok (cpu.setReg d.rd v) : HostM Cpu) = .ok (cpu.setReg d.rd v') ↔ v = v' := by
  rw [Except.ok.injEq, Cpu.setReg_inj]

/-- What a handler that checks the amount and writes `x` leaves. -/
theorem checked_iff {width : Nat} {amount x v : Word} :
    (checkShift width amount >>= fun _ => .ok (cpu.setReg d.rd x)) = .ok (cpu.setReg d.rd v) ↔
      amount.toNat < width ∧ x = v := by
  unfold checkShift
  by_cases h : amount.toNat < width
  · simp [h, bind, Except.bind, Cpu.setReg_inj]
  · simp [h, bind, Except.bind]

theorem reg_iff (h : d.Names .r op.funct3 op.funct7) :
    cpu.execute32 d = .ok (cpu.setReg d.rd (result .reg op cpu d)) ↔
      Exact .reg op (cpu.regs d.rs1) (cpu.regs d.rs2) := by
  obtain ⟨ht, h3, h7⟩ := h
  unfold result Exact
  simp only [Cpu.execute32, ht]
  cases op with
  | sll =>
    simp only [Rtype.funct3, h3, h7, ShiftOp.funct3, ShiftOp.funct7, ShiftOp.shift]
    change Rtype.sll cpu d = _ ↔ _
    rw [Rtype.sll, Rtype.regOp_eq_ok_iff, checkShift_eq_ok_iff]
    refine and_iff_left_of_imp fun hlt => ?_
    rw [Nat.mod_eq_of_lt hlt]
  | srl =>
    simp only [Rtype.funct3, h3, h7, ShiftOp.funct3, ShiftOp.funct7, ShiftOp.shift]
    change Rtype.srl cpu d = _ ↔ _
    rw [Rtype.srl, Rtype.regOp_eq_ok_iff, checkShift_eq_ok_iff]
    refine and_iff_left_of_imp fun hlt => ?_
    rw [Nat.mod_eq_of_lt hlt]
  | sra =>
    simp only [Rtype.funct3, h3, h7, ShiftOp.funct3, ShiftOp.funct7, ShiftOp.shift]
    change Rtype.sra cpu d = _ ↔ _
    rw [Rtype.sra, Rtype.regOp_eq_ok_iff, checkShift_eq_ok_iff]
    refine and_congr_right fun hlt => ?_
    rw [Nat.mod_eq_of_lt (by omega)]
    exact sshiftRight_low32_iff hlt

theorem imm_iff (h : d.NamesShift op .imm) :
    cpu.execute32 d = .ok (cpu.setReg d.rd (result .imm op cpu d)) ↔
      Exact .imm op (cpu.regs d.rs1) (cpu.regs d.rs2) := by
  obtain ⟨ht, h3, h7⟩ := h
  unfold result Exact
  simp only [Cpu.execute32, ht]
  cases op with
  | sll =>
    simp only [Itype.funct3, h3, ShiftOp.funct3, ShiftOp.shift]
    change Itype.slli cpu d = _ ↔ _
    rw [Itype.slli, ok_setReg_iff, Decoder.toNat_shamt]
    exact iff_of_true rfl trivial
  | srl =>
    simp only [Itype.funct3, h3, h7, ShiftOp.funct3, ShiftOp.funct7, ShiftOp.shift]
    change Itype.srli cpu d = _ ↔ _
    rw [Itype.srli, ok_setReg_iff, Decoder.toNat_shamt]
    exact iff_of_true rfl trivial
  | sra =>
    have hbig := immI_of_srai h7
    simp only [Itype.funct3, h3, h7, ShiftOp.funct3, ShiftOp.funct7, ShiftOp.shift]
    change Itype.srai cpu d = _ ↔ _
    rw [Itype.srai, checked_iff]
    exact iff_of_false (fun hv => hbig hv.1) id

theorem regWord_eq (h : d.Names .r64 op.funct3 op.funct7) :
    cpu.execute32 d = .ok (cpu.setReg d.rd (result .regWord op cpu d)) := by
  obtain ⟨ht, h3, h7⟩ := h
  unfold result
  simp only [Cpu.execute32, ht]
  cases op with
  | sll =>
    simp only [R64.funct3, h3, ShiftOp.funct3, ShiftOp.shift]
    change R64.sllw cpu d = _
    rw [R64.sllw, Rtype.regOp_eq_ok_iff, signExtendCast_shiftLeft, toNat_and_five]
  | srl =>
    simp only [R64.funct3, h3, h7, ShiftOp.funct3, ShiftOp.funct7, ShiftOp.shift]
    change R64.srlw cpu d = _
    rw [R64.srlw, Rtype.regOp_eq_ok_iff, signExtendCast_word, toNat_and_five]
  | sra =>
    simp only [R64.funct3, h3, h7, ShiftOp.funct3, ShiftOp.funct7, ShiftOp.shift]
    change R64.sraw cpu d = _
    rw [R64.sraw, Rtype.regOp_eq_ok_iff, toNat_and_five]

theorem immWord_eq (h : d.Names .i64 op.funct3 op.funct7) :
    cpu.execute32 d = .ok (cpu.setReg d.rd (result .immWord op cpu d)) := by
  obtain ⟨ht, h3, h7⟩ := h
  have hamount := shamt_word h7
  have hlt := (d.insn.extractLsb' 20 5).isLt
  have hwidth : (d.shamt.setWidth 64).toNat < 32 := by
    rw [BitVec.toNat_setWidth, hamount]
    omega
  unfold result
  simp only [Cpu.execute32, ht]
  cases op with
  | sll =>
    simp only [I64.funct3, h3, ShiftOp.funct3, ShiftOp.shift]
    change I64.slliw cpu d = _
    rw [I64.slliw, ok_setReg_iff, signExtendCast_shiftLeft, hamount]
  | srl =>
    simp only [I64.funct3, h3, h7, ShiftOp.funct3, ShiftOp.funct7, ShiftOp.shift]
    change I64.srliw cpu d = _
    rw [I64.srliw, checked_iff, signExtendCast_word, hamount]
    exact ⟨hwidth, rfl⟩
  | sra =>
    simp only [I64.funct3, h3, h7, ShiftOp.funct3, ShiftOp.funct7, ShiftOp.shift]
    change I64.sraiw cpu d = _
    rw [I64.sraiw, checked_iff, hamount]
    exact ⟨hwidth, rfl⟩

end ShiftForm

/-- Which shifts are right: all that have the amount in the encoding, but `SRAI`, and the `W` forms;
of the others those whose amount is below the width. -/
theorem shift_iff {cpu : Cpu} {d : Decoder} {op : ShiftOp} {form : ShiftForm}
    (h : d.NamesShift op form) :
    cpu.Writes d (form.result op cpu d) ↔ form.Exact op (cpu.regs d.rs1) (cpu.regs d.rs2) := by
  cases form with
  | reg => exact (Cpu.writes_iff h.1).trans (ShiftForm.reg_iff h)
  | imm => exact (Cpu.writes_iff h.1).trans (ShiftForm.imm_iff h)
  | regWord =>
    refine (Cpu.writes_iff h.1).trans (iff_of_true (ShiftForm.regWord_eq h) ?_)
    cases op <;> trivial
  | immWord =>
    refine (Cpu.writes_iff h.1).trans (iff_of_true (ShiftForm.immWord_eq h) ?_)
    cases op <;> trivial

/-- `sra x5, x6, x7` of -8 by 1. -/
theorem shift_iff_eight : (Cpu.ofOperands (-8) 1).Writes ⟨0x407352b3⟩
    (ShiftForm.result .reg .sra (Cpu.ofOperands (-8) 1) ⟨0x407352b3⟩) := by
  have hiff := @shift_iff (Cpu.ofOperands (-8) 1) ⟨0x407352b3⟩ .sra .reg
    (by unfold Decoder.NamesShift; decide)
  exact hiff.mpr ⟨by decide, by decide⟩

/-- `srai x5, x6, 1`. -/
theorem not_shift : ¬∀ (cpu : Cpu) (d : Decoder) (op : ShiftOp) (form : ShiftForm),
    d.NamesShift op form → cpu.Writes d (form.result op cpu d) := by
  intro h
  have hv := h (Cpu.ofOperands 8 0) ⟨0x40135293⟩ .sra .imm
    (by unfold Decoder.NamesShift; decide)
  have hx : (Cpu.ofOperands 8 0).execute ⟨0x40135293⟩ = .error .undefined := rfl
  rw [Cpu.Writes, hx] at hv
  cases hv

end Rv64gcEmu
