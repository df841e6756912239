import Rv64gcEmu.FloatMemory

namespace Rv64gcEmu

open Fdimpl (getF setExceptions setFpuException invalidIf isSnan snanRaw classOf)

namespace Fmt

variable {f : Fmt}

def exponentField (x : f.Bits) : BitVec f.expBits := x.extractLsb' f.fracBits f.expBits

def fractionField (x : f.Bits) : BitVec f.fracBits := x.extractLsb' 0 f.fracBits

/-- A NaN whose top fraction bit is clear. -/
def Signaling (x : f.Bits) : Prop :=
  exponentField x = BitVec.allOnes f.expBits ∧ fractionField x ≠ 0 ∧
    x.getLsbD (f.fracBits - 1) = false

instance (x : f.Bits) : Decidable (Signaling x) := inferInstanceAs (Decidable (_ ∧ _))

theorem exponent_eq (x : f.Bits) : exponent x = (exponentField x).toNat := by
  unfold exponent exponentField
  rw [BitVec.extractLsb'_toNat, Nat.shiftRight_eq_div_pow]

theorem fraction_eq (x : f.Bits) : fraction x = (fractionField x).toNat := by
  unfold fraction fractionField
  rw [BitVec.extractLsb'_toNat, Nat.shiftRight_zero]

theorem isSpecial_iff (x : f.Bits) :
    isSpecial x = true ↔ exponentField x = BitVec.allOnes f.expBits := by
  unfold isSpecial
  rw [decide_eq_true_iff, exponent_eq, ← BitVec.toNat_inj, BitVec.toNat_allOnes]

theorem toNat_eq_zero_iff {w : Nat} (x : BitVec w) : x.toNat = 0 ↔ x = 0 := by
  have hz : (0 : BitVec w).toNat = 0 := BitVec.toNat_zero
  rw [← BitVec.toNat_inj, hz]

theorem fraction_eq_zero_iff (x : f.Bits) : fraction x = 0 ↔ fractionField x = 0 := by
  rw [fraction_eq, toNat_eq_zero_iff]

theorem exponent_eq_zero_iff (x : f.Bits) : exponent x = 0 ↔ exponentField x = 0 := by
  rw [exponent_eq, toNat_eq_zero_iff]

end Fmt

/-- The classes in the order of their bits. -/
inductive FloatClass where
  | negInf
  | negNormal
  | negSubnormal
  | negZero
  | posZero
  | posSubnormal
  | posNormal
  | posInf
  | signalingNan
  | quietNan
  deriving DecidableEq

namespace FloatClass

def bit : FloatClass → Word
  | negInf => 0x1
  | negNormal => 0x2
  | negSubnormal => 0x4
  | negZero => 0x8
  | posZero => 0x10
  | posSubnormal => 0x20
  | posNormal => 0x40
  | posInf => 0x80
  | signalingNan => 0x100
  | quietNan => 0x200

/-- The class by sign, exponent and fraction. -/
def of {f : Fmt} (x : f.Bits) : FloatClass :=
  let negative := x.getLsbD (f.width - 1)
  if Fmt.exponentField x = BitVec.allOnes f.expBits then
    if Fmt.fractionField x = 0 then (if negative then negInf else posInf)
    else if x.getLsbD (f.fracBits - 1) then quietNan else signalingNan
  else if Fmt.exponentField x = 0 then
    if Fmt.fractionField x = 0 then (if negative then negZero else posZero)
    else (if negative then negSubnormal else posSubnormal)
  else (if negative then negNormal else posNormal)

theorem bit_injective : Function.Injective bit := by
  intro a b h
  cases a <;> cases b <;> first | rfl | exact absurd h (by decide)

variable {f : Fmt}

theorem of_signaling {x : f.Bits} (h : Fmt.Signaling x) : of x = signalingNan := by
  unfold of
  rw [if_pos h.1, if_neg h.2.1, h.2.2]
  rfl

theorem signaling_snanRaw (f : Fmt) : Fmt.Signaling (snanRaw f) := by
  cases f <;> decide

theorem isSnan_iff (x : f.Bits) : isSnan x = true ↔ x = snanRaw f := decide_eq_true_iff

/-- The code gives every class but that of the signaling NaNs, of which it knows one. -/
theorem classOf_eq (x : f.Bits) : classOf x =
    if Fmt.Signaling x ∧ x ≠ snanRaw f then quietNan.bit else (of x).bit := by
  by_cases hs : Fmt.Signaling x
  · have hnan : Fmt.isNan x = true := by
      unfold Fmt.isNan
      rw [Bool.and_eq_true, decide_eq_true_iff]
      exact ⟨(Fmt.isSpecial_iff x).mpr hs.1, fun h0 => hs.2.1 ((Fmt.fraction_eq_zero_iff x).mp h0)⟩
    unfold classOf
    rw [if_pos hnan, of_signaling hs]
    by_cases hx : x = snanRaw f
    · rw [if_pos ((isSnan_iff x).mpr hx), if_neg fun h => h.2 hx]
      rfl
    · rw [if_neg fun h => hx ((isSnan_iff x).mp h), if_pos ⟨hs, hx⟩]
      rfl
  · rw [if_neg fun h => hs h.1]
    have hsnan : isSnan x = false := by
      rw [← Bool.not_eq_true, isSnan_iff]
      rintro rfl
      exact hs (signaling_snanRaw f)
    unfold classOf of Fmt.isNan Fmt.isInf Fmt.isZero Fmt.isSubnormal Fmt.sign
    simp only [hsnan, Bool.and_eq_true, decide_eq_true_eq, Fmt.isSpecial_iff, ne_eq,
      Fmt.fraction_eq_zero_iff, Fmt.exponent_eq_zero_iff, Bool.false_eq_true, if_false]
    by_cases he : Fmt.exponentField x = BitVec.allOnes f.expBits
    · simp only [he, true_and, if_true]
      by_cases hm : Fmt.fractionField x = 0
      · simp only [hm, not_true_eq_false, if_false, if_true]
        cases x.getLsbD (f.width - 1) <;> rfl
      · have hquiet : x.getLsbD (f.fracBits - 1) = true := by
          rw [← Bool.not_eq_false]
          exact fun hq => hs ⟨he, hm, hq⟩
        simp only [hm, not_false_eq_true, if_true, if_false, hquiet]
        rfl
    · simp only [he, false_and, if_false]
      by_cases hz : Fmt.exponentField x = 0
      · simp only [hz, true_and, if_true]
        by_cases hm : Fmt.fractionField x = 0
        · simp only [hm, if_true]
          cases x.getLsbD (f.width - 1) <;> rfl
        · simp only [hm, if_false, not_false_eq_true, if_true]
          cases x.getLsbD (f.width - 1) <;> rfl
      · simp only [hz, false_and, if_false]
        cases x.getLsbD (f.width - 1) <;> rfl

theorem classOf_right_iff (x : f.Bits) :
    classOf x = (of x).bit ↔ (Fmt.Signaling x → x = snanRaw f) := by
  rw [classOf_eq]
  split
  next h =>
    rw [of_signaling h.1]
    exact iff_of_false (by decide) fun he => h.2 (he h.1)
  next h =>
    refine iff_of_true rfl fun hs => ?_
    by_contra hne
    exact h ⟨hs, hne⟩

theorem classOf_unique (x : f.Bits) : ∃! c, classOf x = bit c := by
  have hex : ∃ c, classOf x = bit c := by
    rw [classOf_eq]
    split
    next => exact ⟨_, rfl⟩
    next => exact ⟨_, rfl⟩
  obtain ⟨c, hc⟩ := hex
  exact ⟨c, hc, fun c' hc' => bit_injective (hc'.symm.trans hc)⟩

theorem isSnan_right_iff (x : f.Bits) :
    (isSnan x = true ↔ Fmt.Signaling x) ↔ (Fmt.Signaling x → x = snanRaw f) := by
  rw [isSnan_iff]
  constructor
  · intro h hs
    exact h.mpr hs
  · intro h
    refine ⟨?_, h⟩
    rintro rfl
    exact signaling_snanRaw f

end FloatClass

section Instructions

variable {cpu : Cpu} {d : Decoder} {f : Fmt}

/-- `FCLASS`. -/
def IsFclass (f : Fmt) (d : Decoder) : Prop :=
  d.opcodeType = some .fother ∧ d.funct3 = 1 ∧ d.funct7 =
    match f with
    | .single => 0x70
    | .double => 0x71

/-- `FEQ`, `FMIN` and `FMAX`. -/
def AsksSnan (f : Fmt) (d : Decoder) : Prop :=
  d.opcodeType = some .fother ∧
    ((d.funct3 = 2 ∧ d.funct7 =
      match f with
      | .single => 0x50
      | .double => 0x51) ∨
    ((d.funct3 = 0 ∨ d.funct3 = 1) ∧ d.funct7 =
      match f with
      | .single => 0x14
      | .double => 0x15))

/-- The Invalid flag in `fflags`. -/
def Cpu.invalidFlag (cpu : Cpu) : Bool := (cpu.cregs.regs Address.fflags).getLsbD 4

theorem execute_fclass (hfs : cpu.cregs.isFpuEnabled = true) (hd : IsFclass f d) :
    cpu.execute d = .ok (4, setExceptions (cpu.setReg d.rd (classOf (getF f cpu d.rs1)))) := by
  obtain ⟨ht, h3, h7⟩ := hd
  have hop : Fdtype.fotherOp d.funct7 = some (Fdtype.fmvBy f) := by
    rw [h7]
    cases f <;> rfl
  rw [execute_fother _ hfs ht hop, Fdtype.fmvBy, h3]
  rfl

theorem invalidFlag_setFpuException (c : Cpu) (e : Word) : (setFpuException c e).invalidFlag =
    (c.invalidFlag || e.getLsbD 4) := by
  unfold Cpu.invalidFlag setFpuException Csr.setFpuException
  rw [Cpu.setCregs_cregs, Csr.setCell_regs, Function.update_self, BitVec.getLsbD_or]

theorem invalidFlag_setExceptions (c : Cpu) : (setExceptions c).invalidFlag = c.invalidFlag := by
  have hother : ∀ (p : Prop) [Decidable p] (e : Word), e.getLsbD 4 = false → ∀ c : Cpu,
      (if p then setFpuException c e else c).invalidFlag = c.invalidFlag := by
    intro p _ e he c
    split
    next => rw [invalidFlag_setFpuException, he, Bool.or_false]
    next => rfl
  have hfenv : ∀ (c : Cpu) (flags : FeFlags), (c.setFenv flags).invalidFlag = c.invalidFlag :=
    fun _ _ => rfl
  unfold setExceptions
  simp only [hfenv]
  rw [hother _ FExcept.underflow (by decide), hother _ FExcept.overflow (by decide),
    hother _ FExcept.inexact (by decide), hother _ FExcept.divByZero (by decide)]

theorem invalidFlag_invalidIf (p : Bool) (c : Cpu) :
    (invalidIf p c).invalidFlag = (c.invalidFlag || p) := by
  unfold invalidIf
  cases p with
  | true => rw [if_pos rfl, invalidFlag_setFpuException]; rfl
  | false => rw [if_neg (by decide), Bool.or_false]

theorem execute_asksSnan (hfs : cpu.cregs.isFpuEnabled = true) (hd : AsksSnan f d) :
    ∃ after, cpu.execute d = .ok (4, after) ∧ after.invalidFlag =
      (cpu.invalidFlag || (isSnan (getF f cpu d.rs1) || isSnan (getF f cpu d.rs2))) := by
  obtain ⟨ht, ⟨h3, h7⟩ | ⟨h3, h7⟩⟩ := hd
  · have hop : Fdtype.fotherOp d.funct7 = some (Fdtype.fcBy f) := by
      rw [h7]
      cases f <;> rfl
    rw [execute_fother _ hfs ht hop, Fdtype.fcBy, h3]
    refine ⟨_, rfl, ?_⟩
    rw [invalidFlag_setExceptions]
    exact invalidFlag_invalidIf _ _
  · have hop : Fdtype.fotherOp d.funct7 = some (Fdtype.fminmaxBy f) := by
      rw [h7]
      cases f <;> rfl
    rw [execute_fother _ hfs ht hop, Fdtype.fminmaxBy]
    rcases h3 with h3 | h3
    · rw [h3]
      refine ⟨_, rfl, ?_⟩
      rw [invalidFlag_setExceptions]
      exact invalidFlag_invalidIf _ _
    · rw [h3]
      refine ⟨_, rfl, ?_⟩
      rw [invalidFlag_setExceptions]
      exact invalidFlag_invalidIf _ _

/-- `FCLASS` gives the class, and `is_snan` and the flag it raises are right, but for the signaling
NaNs other than one. -/
theorem classes_iff (hfs : cpu.cregs.isFpuEnabled = true) :
    (∀ d, IsFclass f d → ∃ after, cpu.execute d = .ok (4, after) ∧
      (∃! c, after.regs d.rd = FloatClass.bit c) ∧
      (after.regs d.rd = (FloatClass.of (getF f cpu d.rs1)).bit ↔
        (Fmt.Signaling (getF f cpu d.rs1) → getF f cpu d.rs1 = snanRaw f))) ∧
    (∀ x : f.Bits, (isSnan x = true ↔ Fmt.Signaling x) ↔ (Fmt.Signaling x → x = snanRaw f)) ∧
    ∀ d, AsksSnan f d → ∃ after, cpu.execute d = .ok (4, after) ∧
      ((after.invalidFlag = true ↔ cpu.invalidFlag = true ∨
          Fmt.Signaling (getF f cpu d.rs1) ∨ Fmt.Signaling (getF f cpu d.rs2)) ↔
        (Fmt.Signaling (getF f cpu d.rs1) ∨ Fmt.Signaling (getF f cpu d.rs2) →
          cpu.invalidFlag = true ∨ getF f cpu d.rs1 = snanRaw f ∨ getF f cpu d.rs2 = snanRaw f)) := by
  refine ⟨fun d hd => ⟨_, execute_fclass hfs hd, ?_⟩, FloatClass.isSnan_right_iff, fun d hd => ?_⟩
  · have hrd : (setExceptions (cpu.setReg d.rd (classOf (getF f cpu d.rs1)))).regs d.rd =
        classOf (getF f cpu d.rs1) := by
      rw [(Cpu.FlagsOnly.setExceptions _).regs]
      exact Function.update_self ..
    rw [hrd]
    exact ⟨FloatClass.classOf_unique _, FloatClass.classOf_right_iff _⟩
  · obtain ⟨after, hx, hflag⟩ := execute_asksSnan hfs hd
    refine ⟨after, hx, ?_⟩
    rw [hflag, Bool.or_eq_true, Bool.or_eq_true, FloatClass.isSnan_iff, FloatClass.isSnan_iff]
    have hraw : ∀ x : f.Bits, x = snanRaw f → Fmt.Signaling x := by
      rintro _ rfl
      exact FloatClass.signaling_snanRaw f
    constructor
    · intro h hs
      exact h.mpr (.inr hs)
    · intro h
      refine ⟨fun hr => hr.imp_right (Or.imp (hraw _) (hraw _)), fun hr => ?_⟩
      exact hr.elim .inl h

end Instructions

/-- `fclass.d x5, f7` and `fclass.s x5, f7` of a number. -/
theorem classes_iff_number :
    (∃ after, floatCpu.execute ⟨0xe20392d3⟩ = .ok (4, after) ∧
      ∃! c, after.regs 5 = FloatClass.bit c) ∧
    ∃ after, floatCpu.execute ⟨0xe00392d3⟩ = .ok (4, after) ∧
      ∃! c, after.regs 5 = FloatClass.bit c := by
  have hd := (@classes_iff floatCpu .double (by decide)).1 ⟨0xe20392d3⟩ ⟨rfl, rfl, rfl⟩
  have hs := (@classes_iff floatCpu .single (by decide)).1 ⟨0xe00392d3⟩ ⟨rfl, rfl, rfl⟩
  obtain ⟨a, ha, hua, _⟩ := hd
  obtain ⟨b, hb, hub, _⟩ := hs
  exact ⟨⟨a, ha, hua⟩, b, hb, hub⟩

/-- `0x7f800002` is a signaling NaN. -/
theorem signaling_taken_for_quiet : ¬∀ (f : Fmt) (x : f.Bits),
    classOf x = (FloatClass.of x).bit ∧ (isSnan x = true ↔ Fmt.Signaling x) := by
  intro h
  have hx := (h .single (0x7f800002 : BitVec 32)).1
  exact absurd hx (by decide)

end Rv64gcEmu
