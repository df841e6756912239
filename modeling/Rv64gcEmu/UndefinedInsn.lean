import Rv64gcEmu.DivideInsn
import Rv64gcEmu.FloatConversion
import Rv64gcEmu.Shifts
import Rv64gcEmu.VirtioRegisters

namespace Rv64gcEmu

open Fdimpl (getF fdround fdConvCheck)
open VirtioBlkDevice (Total total_ok)
open WordDivision (Overflows)

/-- The amounts that a shift by a register is defined for: `SRA` shifts an `int32_t`. -/
def ShiftOp.amounts : ShiftOp → Nat
  | .sll => 64
  | .srl => 64
  | .sra => 32

/-- The number without its fraction is one of the type. -/
def IntType.Casts {f : Fmt} (t : IntType) (x : f.Bits) : Prop :=
  Fmt.isNan x = false ∧ t.min ≤ Fmt.truncated x ∧ Fmt.truncated x ≤ t.max

/-- The instruction asks for an operation of the host that is undefined for its operands. Signed
overflow is left out: the sums, differences and products of `ADD`, `SUB`, `MUL`, `JALR`, `AMOADD.W`
and `AMOADD.D` are taken to wrap. The floating-point arithmetic is that of IEC 60559. -/
inductive Cpu.Undefined (cpu : Cpu) (d : Decoder) : Prop
  | srai (hd : d.NamesShift .sra .imm)
  | shift {op : ShiftOp} (hd : d.NamesShift op .reg) (amount : op.amounts ≤ (cpu.regs d.rs2).toNat)
  | div (hd : d.Names .r 4 1) (overflow : Overflows (cpu.regs d.rs1) (cpu.regs d.rs2))
  | rem (hd : d.opcodeType = some .r64) (op : d.funct3 = 6 ∨ d.funct3 = 7)
      (zero : cpu.regs d.rs2 = 0)
  | cast {f : Fmt} {t : IntType} (enabled : cpu.cregs.isFpuEnabled = true) (hd : IsFcvt f t d)
      (range : ¬t.Casts (fdround (getF f cpu d.rs1) cpu d).1)

section Results

variable {α β : Type} {x : HostM α}

theorem total_bind_ok_iff {g : α → β} : Total (x >>= fun a => .ok (g a)) ↔ Total x := by
  constructor
  · rintro ⟨b, hb⟩
    obtain ⟨a, ha, _⟩ := Except.bind_eq_ok_iff.mp hb
    exact ⟨a, ha⟩
  · rintro ⟨a, rfl⟩
    exact ⟨g a, rfl⟩

theorem not_total_error (e : Halt) : ¬Total (.error e : HostM α) := by
  rintro ⟨_, h⟩
  cases h

theorem checkShift_total_iff {width : Nat} {amount : Word} {a : α} :
    Total (checkShift width amount >>= fun _ => .ok a : HostM α) ↔ amount.toNat < width := by
  rw [@total_bind_ok_iff _ _ _ fun _ => a]
  unfold checkShift
  split
  next h => exact iff_of_true (total_ok _) h
  next h => exact iff_of_false (not_total_error _) h

theorem checkSignedDiv_total_iff {w : Nat} {n m : BitVec w} {a : α} :
    Total (checkSignedDiv n m >>= fun _ => .ok a : HostM α) ↔ ¬(m = 0 ∨ Overflows n m) := by
  rw [@total_bind_ok_iff _ _ _ fun _ => a]
  unfold checkSignedDiv
  split
  next h => exact iff_of_false (not_total_error _) (not_not.mpr h)
  next h => exact iff_of_true (total_ok _) h

theorem checkUnsignedDiv_total_iff {w : Nat} {m : BitVec w} {a : α} :
    Total (checkUnsignedDiv m >>= fun _ => .ok a : HostM α) ↔ ¬m = 0 := by
  rw [@total_bind_ok_iff _ _ _ fun _ => a]
  unfold checkUnsignedDiv
  split
  next h => exact iff_of_false (not_total_error _) (not_not.mpr h)
  next h => exact iff_of_true (total_ok _) h

theorem fdConvCheck_total_iff {fmt : Fmt} {t : IntType} {val : fmt.Bits} {cpu : Cpu} :
    Total (fdConvCheck t val cpu) ↔ t.Casts val := by
  unfold fdConvCheck IntType.Casts
  simp only
  split
  next h =>
    refine iff_of_false (not_total_error _) fun hc => ?_
    obtain hn | hl | hh := h
    · exact absurd hc.1 (by simp [hn])
    · exact absurd hc.2.1 (not_le.mpr hl)
    · exact absurd hc.2.2 (not_le.mpr hh)
  next h =>
    obtain ⟨hn, h⟩ := not_or.mp h
    obtain ⟨hl, hh⟩ := not_or.mp h
    exact iff_of_true (total_ok _) ⟨by simpa using hn, not_lt.mp hl, not_lt.mp hh⟩

end Results

section Registers

variable {cpu : Cpu} {d : Decoder}

theorem Cpu.Undefined.type (h : cpu.Undefined d) : d.opcodeType = some .i ∨ d.opcodeType = some .r ∨
    d.opcodeType = some .r64 ∨ d.opcodeType = some .fother := by
  cases h with
  | srai hd => exact .inl hd.1
  | shift hd => exact .inr (.inl hd.1)
  | div hd => exact .inr (.inl hd.1)
  | rem hd => exact .inr (.inr (.inl hd))
  | cast _ hd => exact .inr (.inr (.inr hd.1))

theorem Cpu.Undefined.insn_ne_zero (h : cpu.Undefined d) : d.insn ≠ 0 := by
  intro hz
  have hd : d = ⟨0⟩ := congrArg Decoder.mk hz
  subst hd
  obtain ht | ht | ht | ht := h.type
  all_goals exact absurd ht (by decide)

theorem undefined_i_iff (ht : d.opcodeType = some .i) :
    cpu.Undefined d ↔ d.funct3 = 5 ∧ d.funct7 >>> 1 = 0x10 := by
  constructor
  · rintro (hd | ⟨hd, _⟩ | ⟨hd, _⟩ | ⟨hd, _⟩ | ⟨_, hd, _⟩)
    · exact hd.2
    · exact absurd (ht.symm.trans hd.1) (by simp)
    · exact absurd (ht.symm.trans hd.1) (by simp)
    · exact absurd (ht.symm.trans hd) (by simp)
    · exact absurd (ht.symm.trans hd.1) (by simp)
  · exact fun h => .srai ⟨ht, h⟩

theorem undefined_r_iff (ht : d.opcodeType = some .r) : cpu.Undefined d ↔
    (∃ op : ShiftOp, (d.funct3 = op.funct3 ∧ d.funct7 = op.funct7) ∧
      op.amounts ≤ (cpu.regs d.rs2).toNat) ∨
    (d.funct3 = 4 ∧ d.funct7 = 1) ∧ Overflows (cpu.regs d.rs1) (cpu.regs d.rs2) := by
  constructor
  · rintro (hd | ⟨hd, ha⟩ | ⟨hd, ho⟩ | ⟨hd, _⟩ | ⟨_, hd, _⟩)
    · exact absurd (ht.symm.trans hd.1) (by simp)
    · exact .inl ⟨_, hd.2, ha⟩
    · exact .inr ⟨hd.2, ho⟩
    · exact absurd (ht.symm.trans hd) (by simp)
    · exact absurd (ht.symm.trans hd.1) (by simp)
  · rintro (⟨op, hd, ha⟩ | ⟨hd, ho⟩)
    · exact .shift ⟨ht, hd⟩ ha
    · exact .div ⟨ht, hd⟩ ho

theorem undefined_r64_iff (ht : d.opcodeType = some .r64) :
    cpu.Undefined d ↔ (d.funct3 = 6 ∨ d.funct3 = 7) ∧ cpu.regs d.rs2 = 0 := by
  constructor
  · rintro (hd | ⟨hd, _⟩ | ⟨hd, _⟩ | ⟨_, hop, hz⟩ | ⟨_, hd, _⟩)
    · exact absurd (ht.symm.trans hd.1) (by simp)
    · exact absurd (ht.symm.trans hd.1) (by simp)
    · exact absurd (ht.symm.trans hd.1) (by simp)
    · exact ⟨hop, hz⟩
    · exact absurd (ht.symm.trans hd.1) (by simp)
  · exact fun h => .rem ht h.1 h.2

theorem Itype.funct3_total_iff (ht : d.opcodeType = some .i) :
    Total (funct3 cpu d) ↔ ¬cpu.Undefined d := by
  rw [undefined_i_iff ht]
  unfold funct3
  split
  case h_6 h5 =>
    split
    next h7 => exact iff_of_true (total_ok _) (by simp [h7])
    next h7 =>
      refine iff_of_false (fun h => ?_) (not_not.mpr ⟨h5, h7⟩)
      exact immI_of_srai h7 (checkShift_total_iff.mp h)
    next h7 => exact iff_of_true (total_ok _) fun h => h7 h.2
  case h_8 h5 _ => exact iff_of_true (total_ok _) fun h => h5 h.1
  all_goals
    rename d.funct3 = _ => h3
    exact iff_of_true (total_ok _) (by simp [h3])

/-- The amount of the `W` forms has the bit clear that tells their `funct7`. -/
theorem shamt_word_lt {op : ShiftOp} (h : d.funct7 = op.funct7) :
    (d.shamt.setWidth 64).toNat < 32 := by
  have hlt := (d.insn.extractLsb' 20 5).isLt
  have hamount := shamt_word h
  rw [BitVec.toNat_setWidth]
  omega

theorem I64.funct3_total : Total (funct3 cpu d) := by
  unfold funct3
  split
  next => exact total_ok _
  next => exact total_ok _
  next =>
    split
    next h7 => exact checkShift_total_iff.mpr (@shamt_word_lt _ .srl h7)
    next h7 => exact checkShift_total_iff.mpr (@shamt_word_lt _ .sra h7)
    next => exact total_ok _
  next => exact total_ok _

namespace Rtype

theorem regOp_total_iff {op : Word → Word → HostM Word} :
    Total (regOp op cpu d) ↔ Total (op (cpu.regs d.rs1) (cpu.regs d.rs2)) :=
  total_bind_ok_iff

theorem div_total_iff : Total (div cpu d) ↔ ¬Overflows (cpu.regs d.rs1) (cpu.regs d.rs2) := by
  unfold div
  rw [regOp_total_iff]
  generalize cpu.regs d.rs1 = a
  generalize cpu.regs d.rs2 = b
  split
  next hb => exact iff_of_true (total_ok _) fun h => h.ne_zero (by decide) hb
  next hb =>
    split
    next ha =>
      refine iff_of_true (total_ok _) fun h => ?_
      exact absurd (ha.1.symm.trans h.1) (by decide)
    next => rw [checkSignedDiv_total_iff, or_iff_right hb]

theorem rem_total : Total (rem cpu d) := by
  unfold rem
  rw [regOp_total_iff]
  split
  next => exact total_ok _
  next hb =>
    split
    next => exact total_ok _
    next ho => exact checkSignedDiv_total_iff.mpr (not_or.mpr ⟨hb, ho⟩)

theorem defined_of_names (ht : d.opcodeType = some .r)
    (hs : ∀ op : ShiftOp, ¬(d.funct3 = op.funct3 ∧ d.funct7 = op.funct7))
    (hd : ¬(d.funct3 = 4 ∧ d.funct7 = 1)) : ¬cpu.Undefined d := by
  rw [undefined_r_iff ht]
  rintro (⟨op, hop, _⟩ | ⟨hop, _⟩)
  · exact hs op hop
  · exact hd hop

/-- A shift is defined up to its amounts. -/
theorem undefined_shift_iff {op : ShiftOp} (ht : d.opcodeType = some .r)
    (h : d.funct3 = op.funct3 ∧ d.funct7 = op.funct7) :
    cpu.Undefined d ↔ op.amounts ≤ (cpu.regs d.rs2).toNat := by
  rw [undefined_r_iff ht]
  constructor
  · rintro (⟨op', hop, ha⟩ | ⟨hop, _⟩)
    · have hsame : op' = op := by
        have h3 := hop.1.symm.trans h.1
        have h7 := hop.2.symm.trans h.2
        revert h3 h7
        cases op <;> cases op' <;> decide
      exact hsame ▸ ha
    · exact absurd (hop.1.symm.trans h.1) (by cases op <;> decide)
  · exact fun ha => .inl ⟨op, h, ha⟩

theorem funct3_total_iff (ht : d.opcodeType = some .r) :
    Total (funct3 cpu d) ↔ ¬cpu.Undefined d := by
  have hshift : ∀ {op : ShiftOp} {x : Word}, d.funct3 = op.funct3 → d.funct7 = op.funct7 →
      (Total (checkShift op.amounts (cpu.regs d.rs2) >>= fun _ => .ok x : HostM Word) ↔
        ¬cpu.Undefined d) := fun h3 h7 => by
    rw [checkShift_total_iff, undefined_shift_iff ht ⟨h3, h7⟩, not_le]
  have hnames : ∀ {f3 : BitVec 3} {f7 : BitVec 7}, d.funct3 = f3 → d.funct7 = f7 →
      (∀ op : ShiftOp, ¬(f3 = op.funct3 ∧ f7 = op.funct7)) → ¬(f3 = 4 ∧ f7 = 1) →
        ¬cpu.Undefined d := by
    rintro _ _ rfl rfl hs hd
    exact defined_of_names ht hs hd
  unfold funct3
  split
  case h_4 h3 h7 => exact regOp_total_iff.trans (@hshift .sll _ h3 h7)
  case h_11 h3 h7 =>
    rw [div_total_iff, undefined_r_iff ht, or_iff_right, and_iff_right ⟨h3, h7⟩]
    rintro ⟨op, hop, _⟩
    exact absurd (h3.symm.trans hop.1) (by cases op <;> decide)
  case h_12 h3 h7 => exact regOp_total_iff.trans (@hshift .srl _ h3 h7)
  case h_14 h3 h7 => exact regOp_total_iff.trans (@hshift .sra _ h3 h7)
  case h_19 =>
    refine iff_of_true (total_ok _) (defined_of_names ht (fun op hop => ?_) fun hop => ?_)
    · cases op with
      | sll => exact ‹d.funct3 = 0x1 → d.funct7 = 0x00 → False› hop.1 hop.2
      | srl => exact ‹d.funct3 = 0x5 → d.funct7 = 0x00 → False› hop.1 hop.2
      | sra => exact ‹d.funct3 = 0x5 → d.funct7 = 0x20 → False› hop.1 hop.2
    · exact ‹d.funct3 = 0x4 → d.funct7 = 0x01 → False› hop.1 hop.2
  all_goals
    rename d.funct3 = _ => h3
    rename d.funct7 = _ => h7
    refine iff_of_true ?_ (hnames h3 h7 (fun op => by cases op <;> decide) (by decide))
  case h_13 | h_18 =>
    refine regOp_total_iff.mpr ?_
    split <;> exact total_ok _
  case h_16 => exact rem_total
  all_goals exact ⟨_, rfl⟩

end Rtype

namespace R64

/-- A word is never the dividend whose quotient by -1 is out of range. -/
theorem not_overflows_word (a b : Word) : ¬Overflows (signExtendCast a 32) b := by
  rintro ⟨h, _⟩
  have hword : (low32 a).toInt = (BitVec.intMin 64).toInt := by
    rw [← h, signExtendCast, BitVec.toInt_signExtend_of_le (by decide)]
  have hmin : (BitVec.intMin 64).toInt = -2 ^ 63 := by decide
  have hrange := low32_range a
  omega

theorem funct3_total_iff (ht : d.opcodeType = some .r64) :
    Total (funct3 cpu d) ↔ ¬cpu.Undefined d := by
  rw [undefined_r64_iff ht]
  unfold funct3
  split
  case h_1 h3 =>
    refine iff_of_true ?_ (by simp [h3])
    split
    case h_4 => exact total_ok _
    all_goals exact ⟨_, rfl⟩
  case h_2 h3 => exact iff_of_true ⟨_, divw_eq⟩ (by simp [h3])
  case h_3 h3 => exact iff_of_true ⟨_, rfl⟩ (by simp [h3])
  case h_4 h3 =>
    refine iff_of_true ?_ (by simp [h3])
    split
    case h_2 => exact ⟨_, divuw_eq⟩
    case h_4 => exact total_ok _
    all_goals exact ⟨_, rfl⟩
  case h_5 h3 =>
    unfold remw
    rw [Rtype.regOp_total_iff, checkSignedDiv_total_iff, or_iff_left (not_overflows_word _ _)]
    simp [h3]
  case h_6 h3 =>
    unfold remuw
    rw [Rtype.regOp_total_iff, checkUnsignedDiv_total_iff]
    simp [h3]
  case h_7 h6 h7 => exact iff_of_true (total_ok _) fun h => h.1.elim h6 h7

end R64

theorem Btype.funct3_total : Total (funct3 cpu d) := by
  have hbranch : ∀ cond, Total (branchOp cond cpu d) := by
    intro cond
    unfold branchOp
    split <;> exact total_ok _
  unfold funct3
  split
  case h_7 => exact total_ok _
  all_goals exact hbranch _

theorem Ctype.quadrant1_total : Total (quadrant1 cpu d) := by
  have hbranch : ∀ cond, Total (branchOp cond cpu d) := by
    intro cond
    unfold branchOp
    split <;> exact total_ok _
  unfold quadrant1
  split
  case h_4 =>
    split
    next => exact total_ok _
    next => split <;> exact total_ok _
  case h_5 =>
    unfold q1op4
    split
    case h_4 =>
      simp only
      repeat' split
      all_goals exact total_ok _
    all_goals exact total_ok _
  case h_7 | h_8 => exact hbranch _
  all_goals exact total_ok _

end Registers

section Float

variable {cpu : Cpu} {d : Decoder} {f : Fmt} {t : IntType}

theorem IntType.code_inj {t' : IntType} (h : t.code = t'.code) : t = t' := by
  revert h
  cases t <;> cases t' <;> decide

theorem IsFcvt.fmt_eq {f' : Fmt} {t' : IntType} (h : IsFcvt f t d) (h' : IsFcvt f' t' d) :
    f = f' := by
  have h7 := h.2.2.symm.trans h'.2.2
  revert h7
  cases f <;> cases f' <;> decide

namespace Fdimpl

theorem fcvtsd_total_iff : Total (fcvtsd f cpu d) ↔
    ∀ t : IntType, d.rs2 = t.code → t.Casts (fdround (getF f cpu d.rs1) cpu d).1 := by
  by_cases hcode : ∃ t : IntType, d.rs2 = t.code
  · obtain ⟨t, ht⟩ := hcode
    have hresult := @total_bind_ok_iff _ _
      (fdConvCheck t (fdround (getF f cpu d.rs1) cpu d).1 (fdround (getF f cpu d.rs1) cpu d).2)
      fun r => r.2.setReg d.rd (t.result r.1)
    rw [fcvtsd_eq ht, hresult, fdConvCheck_total_iff]
    constructor
    · intro h t' ht'
      obtain rfl := IntType.code_inj (ht.symm.trans ht')
      exact h
    · exact fun h => h t ht
  · refine iff_of_true ?_ fun t ht => absurd ⟨t, ht⟩ hcode
    unfold fcvtsd
    simp only
    split
    case h_1 h => exact absurd ⟨.int32, h⟩ hcode
    case h_2 h => exact absurd ⟨.uint32, h⟩ hcode
    case h_3 h => exact absurd ⟨.int64, h⟩ hcode
    case h_4 h => exact absurd ⟨.uint64, h⟩ hcode
    case h_5 => exact total_ok _

theorem fcvtsdw_total : Total (fcvtsdw f cpu d) := by
  unfold fcvtsdw
  simp only
  split <;> exact ⟨_, rfl⟩

theorem checked_total_iff {body : Cpu → Decoder → HostM Cpu} : Total (checked body cpu d) ↔
    (cpu.cregs.isFpuEnabled = true → Total (body cpu d)) := by
  unfold checked
  split
  next he => exact (@total_bind_ok_iff _ _ (body cpu d) setExceptions).trans (by simp [he])
  next he => exact iff_of_true (total_ok _) fun h => absurd h he

end Fdimpl

namespace Fdtype

open Fdimpl

theorem fused_total {op : Fmt → Cpu → Decoder → HostM Cpu} (hop : ∀ f, Total (op f cpu d)) :
    Total (fused op cpu d) := by
  refine checked_total_iff.mpr fun _ => ?_
  split
  next => exact hop _
  next =>
    split
    next => exact hop _
    next => exact total_ok _

/-- Of the operations in `funct7`, only the conversions to an integer may be undefined. -/
theorem fotherOp_total {op : Cpu → Decoder → HostM Cpu} (hop : fotherOp d.funct7 = some op) :
    (∃ f, (∀ t, d.opcodeType = some .fother → d.rs2 = t.code → IsFcvt f t d) ∧ op = fcvtsd f) ∨
      (∀ f t, ¬IsFcvt f t d) ∧ Total (op cpu d) := by
  unfold fotherOp at hop
  split at hop
  case h_27 => cases hop
  all_goals
    rename d.funct7 = _ => h7
    cases Option.some.inj hop
  case h_19 => exact .inl ⟨.single, fun t ht hr => ⟨ht, hr, h7⟩, rfl⟩
  case h_20 => exact .inl ⟨.double, fun t ht hr => ⟨ht, hr, h7⟩, rfl⟩
  all_goals
    refine .inr ⟨fun f t h => absurd (h7.symm.trans h.2.2) (by cases f <;> decide), ?_⟩
  case h_9 | h_10 =>
    unfold fsgnjBy
    split <;> exact ⟨_, rfl⟩
  case h_11 | h_12 =>
    unfold fminmaxBy
    split <;> exact ⟨_, rfl⟩
  case h_17 | h_18 =>
    unfold fcBy
    split <;> exact ⟨_, rfl⟩
  case h_21 | h_22 => exact fcvtsdw_total
  case h_23 | h_24 =>
    unfold fmvBy
    split <;> exact ⟨_, rfl⟩
  all_goals exact ⟨_, rfl⟩

theorem undefined_fother_iff (ht : d.opcodeType = some .fother) : cpu.Undefined d ↔
    cpu.cregs.isFpuEnabled = true ∧
      ∃ f t, IsFcvt f t d ∧ ¬t.Casts (fdround (getF f cpu d.rs1) cpu d).1 := by
  constructor
  · rintro (hd | ⟨hd, _⟩ | ⟨hd, _⟩ | ⟨hd, _⟩ | ⟨he, hd, hr⟩)
    · exact absurd (ht.symm.trans hd.1) (by simp)
    · exact absurd (ht.symm.trans hd.1) (by simp)
    · exact absurd (ht.symm.trans hd.1) (by simp)
    · exact absurd (ht.symm.trans hd) (by simp)
    · exact ⟨he, _, _, hd, hr⟩
  · rintro ⟨he, f, t, hd, hr⟩
    exact .cast he hd hr

theorem fother_total_iff (ht : d.opcodeType = some .fother) :
    Total (fother cpu d) ↔ ¬cpu.Undefined d := by
  rw [undefined_fother_iff ht, not_and]
  refine checked_total_iff.trans (imp_congr_right fun _ => ?_)
  split
  next op hop =>
    obtain ⟨f, hf, rfl⟩ | ⟨hf, htotal⟩ := @fotherOp_total cpu d op hop
    · rw [fcvtsd_total_iff]
      constructor
      · rintro h ⟨f', t, hd, hr⟩
        obtain rfl := (hf t ht hd.2.1).fmt_eq hd
        exact hr (h t hd.2.1)
      · intro h t hr
        exact by_contra fun hn => h ⟨f, t, hf t ht hr, hn⟩
    · exact iff_of_true htotal fun ⟨f, t, hd, _⟩ => hf f t hd
  next hop =>
    refine iff_of_true (total_ok _) fun ⟨f, t, hd, _⟩ => ?_
    rw [hd.2.2] at hop
    cases f <;> cases hop

end Fdtype

end Float

/-- A property of the processor that its accesses to memory keep, and under which they are served. -/
structure Serves (P : Cpu → Prop) : Prop where
  load {cpu : Cpu} (h : P cpu) (address : Word) (length : Width) :
    ∃ v c, Mmu.load cpu address length = .ok (v, c) ∧ P c
  store {cpu : Cpu} (h : P cpu) (address value : Word) (length : Width) :
    Total (Mmu.store cpu address value length)
  setException {cpu : Cpu} (h : P cpu) (e : Exception) (x : Word) : P (cpu.setException e x)
  setReservations {cpu : Cpu} (h : P cpu) (r : Finset Word) : P (cpu.setReservations r)

namespace Serves

variable {P : Cpu → Prop} {cpu : Cpu} {d : Decoder} {address : Word} {length : Width} {n : Nat}

theorem bind_load {α : Type} (hs : Serves P) (h : P cpu) {f : Word × Cpu → HostM α}
    (hf : ∀ v c, P c → Total (f (v, c))) : Total (Mmu.load cpu address length >>= f) := by
  obtain ⟨v, c, hl, hc⟩ := hs.load h address length
  rw [hl]
  exact hf v c hc

theorem loadOp (hs : Serves P) (h : P cpu) {extend : Word → Word} :
    Total (Load.loadOp extend length cpu d) :=
  hs.bind_load h fun _ _ _ => total_ok _

theorem loadReg (hs : Serves P) (h : P cpu) {extend : Word → Word} {rd : BitVec 5} :
    Total (Ctype.loadReg address length extend rd cpu) :=
  hs.bind_load h fun _ _ _ => total_ok _

theorem loadFreg (hs : Serves P) (h : P cpu) {rd : BitVec 5} :
    Total (Ctype.loadFreg address rd cpu) :=
  hs.bind_load h fun _ _ _ => total_ok _

theorem fl (hs : Serves P) (h : P cpu) {f : Fmt} : Total (Fdimpl.fl f cpu d) :=
  hs.bind_load h fun _ _ _ => total_ok _

theorem amoOp (hs : Serves P) (h : P cpu) {result : BitVec n → BitVec n → Word} :
    Total (Atomic.amoOp length n result cpu d) :=
  hs.bind_load h fun _ _ hc => total_bind_ok_iff.mpr (hs.store hc _ _ _)

theorem lrOp (hs : Serves P) (h : P cpu) : Total (Atomic.lrOp length n cpu d) :=
  hs.bind_load h fun _ _ _ => total_ok _

theorem scOp (hs : Serves P) (h : P cpu) : Total (Atomic.scOp length n cpu d) := by
  unfold Atomic.scOp
  simp only
  split
  next => exact total_bind_ok_iff.mpr (hs.store (hs.setReservations h _) _ _ _)
  next => exact total_ok _

theorem load_funct3 (hs : Serves P) (h : P cpu) : Total (Load.funct3 cpu d) := by
  unfold Load.funct3
  split
  case h_8 => exact total_ok _
  all_goals exact hs.loadOp h

theorem stype_funct3 (hs : Serves P) (h : P cpu) : Total (Stype.funct3 cpu d) := by
  unfold Stype.funct3
  split
  case h_5 => exact total_ok _
  all_goals exact hs.store h _ _ _

/-- The operation goes on after a misaligned address. -/
theorem atomic_funct3 (hs : Serves P) (h : P cpu) : Total (Atomic.funct3 cpu d) := by
  have hexc : ∀ {p : Prop} [Decidable p] (e : Exception) (x : Word),
      P (if p then cpu.setException e x else cpu) := by
    intro p _ e x
    split
    next => exact hs.setException h e x
    next => exact h
  unfold Atomic.funct3
  split
  next =>
    unfold Atomic.amow
    simp only
    split
    case h_3 => exact hs.lrOp (hexc _ _)
    case h_4 => exact hs.scOp (hexc _ _)
    case h_12 => exact total_ok _
    all_goals exact hs.amoOp (hexc _ _)
  next =>
    unfold Atomic.amod
    simp only
    split
    case h_3 => exact hs.lrOp (hexc _ _)
    case h_4 => exact hs.scOp (hexc _ _)
    case h_12 => exact total_ok _
    all_goals exact hs.amoOp (hexc _ _)
  next => exact total_ok _

theorem fdtype_fl (hs : Serves P) (h : P cpu) : Total (Fdtype.fl cpu d) := by
  refine Fdimpl.checked_total_iff.mpr fun _ => ?_
  split
  case h_3 => exact total_ok _
  all_goals exact hs.fl h

theorem fdtype_fs (hs : Serves P) (h : P cpu) : Total (Fdtype.fs cpu d) := by
  refine Fdimpl.checked_total_iff.mpr fun _ => ?_
  split
  case h_3 => exact total_ok _
  all_goals exact hs.store h _ _ _

theorem quadrant0 (hs : Serves P) (h : P cpu) : Total (Ctype.quadrant0 cpu d) := by
  unfold Ctype.quadrant0
  split
  case h_1 => exact total_ok _
  case h_2 => exact hs.loadFreg h
  case h_3 | h_4 => exact hs.loadReg h
  case h_5 => exact total_ok _
  all_goals exact hs.store h _ _ _

theorem quadrant2 (hs : Serves P) (h : P cpu) : Total (Ctype.quadrant2 cpu d) := by
  unfold Ctype.quadrant2
  split
  case h_1 => exact total_ok _
  case h_2 => exact hs.loadFreg h
  case h_3 | h_4 => exact hs.loadReg h
  case h_5 =>
    simp only
    split <;> split <;> exact total_ok _
  all_goals exact hs.store h _ _ _

theorem execute16 (hs : Serves P) (h : P cpu) : Total (cpu.execute16 d) := by
  unfold Cpu.execute16
  split
  next => exact hs.quadrant0 h
  next => exact Ctype.quadrant1_total
  next => exact hs.quadrant2 h
  next => exact total_ok _

/-- When its accesses are served, the host carries out every instruction but those whose arithmetic
is undefined. -/
theorem execute32_iff (hs : Serves P) (h : P cpu) : Total (cpu.execute32 d) ↔ ¬cpu.Undefined d := by
  have hother : ∀ {t : Option OpcodeType}, d.opcodeType = t → t ≠ some .i → t ≠ some .r →
      t ≠ some .r64 → t ≠ some .fother → ¬cpu.Undefined d := by
    rintro _ rfl hi hr hr64 hf hu
    obtain ht | ht | ht | ht := hu.type
    · exact hi ht
    · exact hr ht
    · exact hr64 ht
    · exact hf ht
  unfold Cpu.execute32
  split
  case h_3 ht => exact Itype.funct3_total_iff ht
  case h_5 ht => exact Rtype.funct3_total_iff ht
  case h_13 ht => exact Fdtype.fother_total_iff ht
  case h_16 ht => exact R64.funct3_total_iff ht
  all_goals
    rename d.opcodeType = _ => ht
    refine iff_of_true ?_ (hother ht (by simp) (by simp) (by simp) (by simp))
  case h_1 => exact hs.load_funct3 h
  case h_4 => exact hs.stype_funct3 h
  case h_6 => exact Btype.funct3_total
  case h_7 => exact hs.fdtype_fl h
  case h_8 => exact hs.fdtype_fs h
  case h_9 | h_10 | h_11 | h_12 => exact Fdtype.fused_total fun _ => ⟨_, rfl⟩
  case h_14 => exact hs.atomic_funct3 h
  case h_15 => exact I64.funct3_total
  all_goals exact ⟨_, rfl⟩

theorem execute_iff (hs : Serves P) (h : P cpu) : Total (cpu.execute d) ↔ ¬cpu.Undefined d := by
  obtain hsize | hsize := d.insnSize_cases
  · have heq : cpu.execute d = (cpu.execute16 d >>= fun c => .ok (d.insnSize, c)) := by
      unfold Cpu.execute
      rw [if_pos hsize]
    rw [heq]
    refine iff_of_true (total_bind_ok_iff.mpr (hs.execute16 h)) fun hu => ?_
    have hlong : ∀ {t : OpcodeType}, d.opcodeType ≠ some t := fun ht =>
      absurd (hsize.symm.trans (Decoder.insnSize_of_type ht)) (by decide)
    obtain ht | ht | ht | ht := hu.type
    · exact hlong ht
    · exact hlong ht
    · exact hlong ht
    · exact hlong ht
  · have heq : cpu.execute d = (cpu.execute32 d >>= fun c => .ok (d.insnSize, c)) := by
      unfold Cpu.execute
      rw [if_neg (by rw [hsize]; decide)]
    rw [heq, total_bind_ok_iff]
    exact hs.execute32_iff h

end Serves

end Rv64gcEmu
