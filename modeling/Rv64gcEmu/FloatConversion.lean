import Rv64gcEmu.FcsrViews
import Rv64gcEmu.FloatMemory
import Rv64gcEmu.FloatValue

namespace Rv64gcEmu

open Fdimpl (getF setExceptions fdround fdConvCheck)

namespace IntType

/-- The `rs2` field of the conversions to the type. -/
def code : IntType → BitVec 5
  | int32 => 0
  | uint32 => 1
  | int64 => 2
  | uint64 => 3

def clamp (t : IntType) (n : ℤ) : ℤ := Max.max t.min (Min.min n t.max)

/-- The numbers of 32 bits are sign-extended. -/
def extended (t : IntType) (n : ℤ) : Word :=
  match t with
  | int32 => (BitVec.ofInt 32 n).signExtend 64
  | uint32 => (BitVec.ofInt 32 n).signExtend 64
  | int64 => BitVec.ofInt 64 n
  | uint64 => BitVec.ofInt 64 n

/-- What the handler makes of a converted number. -/
def result (t : IntType) (v : Word) : Word :=
  match t with
  | int32 => signExtendCast v 32
  | uint32 => signExtendCast v 32
  | int64 => v
  | uint64 => v

variable {t : IntType} {n m : ℤ}

theorem min_nonpos (t : IntType) : t.min ≤ 0 := by cases t <;> decide

theorem max_nonneg (t : IntType) : 0 ≤ t.max := by cases t <;> decide

theorem bounds_lt (t : IntType) : -2 ^ 64 < t.min ∧ t.max < 2 ^ 64 := by cases t <;> decide

theorem clamp_of_mem (h : t.min ≤ n ∧ n ≤ t.max) : t.clamp n = n := by
  unfold clamp
  rw [min_eq_left h.2, max_eq_right h.1]

theorem clamp_mem (t : IntType) (n : ℤ) : t.min ≤ t.clamp n ∧ t.clamp n ≤ t.max := by
  have := t.min_nonpos
  have := t.max_nonneg
  unfold clamp
  omega

theorem result_ofInt (t : IntType) (n : ℤ) : t.result (BitVec.ofInt 64 n) = t.extended n := by
  have hlow : (BitVec.ofInt 64 n).setWidth 32 = BitVec.ofInt 32 n := by
    apply BitVec.eq_of_toNat_eq
    rw [BitVec.toNat_setWidth, BitVec.toNat_ofInt, BitVec.toNat_ofInt]
    omega
  unfold result extended signExtendCast
  rw [hlow]

theorem extended_inj (hn : t.min ≤ n ∧ n ≤ t.max) (hm : t.min ≤ m ∧ m ≤ t.max)
    (h : t.extended n = t.extended m) : n = m := by
  have hword : ∀ w, BitVec.ofInt w n = BitVec.ofInt w m → n % 2 ^ w = m % 2 ^ w := by
    intro w hw
    have hw' := congrArg (fun v : BitVec w => (v.toNat : Int)) hw
    simp only [BitVec.toNat_ofInt] at hw'
    have hpos : (0 : Int) < 2 ^ w := by positivity
    have hn0 := Int.emod_nonneg n hpos.ne'
    have hm0 := Int.emod_nonneg m hpos.ne'
    push_cast at hw'
    omega
  have hext : ∀ a b : BitVec 32, a.signExtend 64 = b.signExtend 64 → a = b := by
    intro a b hab
    have hint := congrArg BitVec.toInt hab
    rw [BitVec.toInt_signExtend_of_le (by decide), BitVec.toInt_signExtend_of_le (by decide)] at hint
    exact BitVec.eq_of_toInt_eq hint
  unfold extended at h
  cases t with
  | int32 =>
    have := hword 32 (hext _ _ h)
    simp only [min, max] at hn hm
    omega
  | uint32 =>
    have := hword 32 (hext _ _ h)
    simp only [min, max] at hn hm
    omega
  | int64 =>
    have := hword 64 h
    simp only [min, max] at hn hm
    omega
  | uint64 =>
    have := hword 64 h
    simp only [min, max] at hn hm
    omega

end IntType

namespace FloatValue

/-- Rounded, and clamped to the range of the type. -/
def converted (t : IntType) (m : Rounding) : FloatValue → ℤ
  | nan => t.max
  | infinite negative => if negative then t.min else t.max
  | finite v => t.clamp (m.toInt v)

end FloatValue

section Conversion

variable {cpu c after : Cpu} {d : Decoder} {f : Fmt} {t : IntType} {x : f.Bits} {v : ℚ}

/-- `FCVT.W`, `FCVT.WU`, `FCVT.L` and `FCVT.LU`. -/
def IsFcvt (f : Fmt) (t : IntType) (d : Decoder) : Prop :=
  d.opcodeType = some .fother ∧ d.rs2 = t.code ∧ d.funct7 =
    match f with
    | .single => 0x60
    | .double => 0x61

/-- The mode that two bits of `rm` stand for. -/
def lowRounding (bits : BitVec 2) : Rounding :=
  match bits with
  | 0 => .nearestAway
  | 1 => .towardZero
  | 2 => .down
  | _ => .up

def Decoder.hostRounding (d : Decoder) : Rounding := lowRounding d.fpRoundingMode

theorem low_cases (m : BitVec 2) : m = 0 ∨ m = 1 ∨ m = 2 ∨ m = 3 := by
  revert m
  decide

theorem fdround_value (cpu : Cpu) (d : Decoder) (x : f.Bits) :
    Fmt.value (fdround x cpu d).1 = (Fmt.value x).rounded d.hostRounding := by
  have h := cpu.host.fpu.roundsAt x
  unfold fdround Decoder.hostRounding
  rcases low_cases d.fpRoundingMode with hm | hm | hm | hm
  · simp only [hm]
    exact h.round
  · simp only [hm]
    exact h.trunc
  · simp only [hm]
    exact h.floor
  · simp only [hm]
    exact h.ceil

theorem Fmt.value_eq_finite (h : Fmt.value x = .finite v) : Fmt.isNan x = false ∧ Fmt.toRat x = v := by
  unfold Fmt.value at h
  split at h
  next => cases h
  next hn =>
    split at h
    next => cases h
    next => exact ⟨Bool.not_eq_true _ ▸ hn, FloatValue.finite.inj h⟩

theorem fdConvCheck_ok (hx : Fmt.value x = .finite v)
    (hv : t.min ≤ Rounding.truncate v ∧ Rounding.truncate v ≤ t.max) :
    ∃ after, fdConvCheck t x c = .ok (BitVec.ofInt 64 (Rounding.truncate v), after) := by
  obtain ⟨hn, rfl⟩ := Fmt.value_eq_finite hx
  unfold fdConvCheck
  simp only [Fmt.truncated_eq]
  rw [if_neg]
  · exact ⟨_, rfl⟩
  · rw [hn]
    simp only [Bool.false_eq_true, false_or, not_or, not_lt]
    exact hv

theorem fdConvCheck_value {r : Word × Cpu} (h : fdConvCheck t x c = .ok r) :
    ∃ v, Fmt.value x = .finite v ∧ t.min ≤ Rounding.truncate v ∧ Rounding.truncate v ≤ t.max := by
  unfold fdConvCheck at h
  simp only at h
  split at h
  next => cases h
  next hr =>
    obtain ⟨hn, hr⟩ := not_or.mp hr
    obtain ⟨hlo, hhi⟩ := not_or.mp hr
    have hlo := not_lt.mp hlo
    have hhi := not_lt.mp hhi
    have hb := t.bounds_lt
    have hinf : ¬Fmt.isInf x = true := by
      intro hi
      rcases Fmt.truncated_infinite hi with h' | h'
      · omega
      · omega
    refine ⟨Fmt.toRat x, ?_, ?_⟩
    · unfold Fmt.value
      rw [if_neg hn, if_neg hinf]
    · rw [← Fmt.truncated_eq]
      exact ⟨hlo, hhi⟩

theorem fcvtsd_eq (hd : d.rs2 = t.code) : Fdimpl.fcvtsd f cpu d =
    (fdConvCheck t (fdround (getF f cpu d.rs1) cpu d).1 (fdround (getF f cpu d.rs1) cpu d).2 >>=
      fun r => .ok (r.2.setReg d.rd (t.result r.1))) := by
  unfold Fdimpl.fcvtsd
  simp only [hd]
  cases t <;> rfl

theorem execute_fcvt (hfs : cpu.cregs.isFpuEnabled = true) (hd : IsFcvt f t d) :
    cpu.execute d = (Fdimpl.fcvtsd f cpu d >>= fun c => .ok (4, setExceptions c)) := by
  refine execute_fother _ hfs hd.1 ?_
  rw [hd.2.2]
  cases f <;> rfl

theorem execute_fcvt_ok (hfs : cpu.cregs.isFpuEnabled = true) (hd : IsFcvt f t d)
    (hx : Fmt.value (getF f cpu d.rs1) = .finite v)
    (hv : t.min ≤ d.hostRounding.toInt v ∧ d.hostRounding.toInt v ≤ t.max) :
    ∃ after, cpu.execute d = .ok (4, after) ∧ after.excVal = cpu.excVal ∧
      after.regs d.rd = t.extended (d.hostRounding.toInt v) := by
  have hround := fdround_value cpu d (getF f cpu d.rs1)
  rw [hx] at hround
  rw [← Rounding.truncate_intCast (K := ℚ) (d.hostRounding.toInt v)] at hv
  obtain ⟨c, hc⟩ := fdConvCheck_ok (c := (fdround (getF f cpu d.rs1) cpu d).2) hround hv
  rw [Rounding.truncate_intCast] at hc
  have hflags := (Cpu.FlagsOnly.fdround (getF f cpu d.rs1) cpu d).trans (.fdConvCheck hc)
  rw [execute_fcvt hfs hd, fcvtsd_eq hd.2.1, hc]
  refine ⟨_, rfl, ?_, ?_⟩
  · exact (Cpu.FlagsOnly.setExceptions _).excVal.trans hflags.excVal
  · rw [(Cpu.FlagsOnly.setExceptions _).regs]
    exact (Function.update_self ..).trans (t.result_ofInt _)

theorem execute_fcvt_value {r : Word × Cpu} (hfs : cpu.cregs.isFpuEnabled = true)
    (hd : IsFcvt f t d) (h : cpu.execute d = .ok r) :
    ∃ v, Fmt.value (getF f cpu d.rs1) = .finite v ∧ t.min ≤ d.hostRounding.toInt v ∧
      d.hostRounding.toInt v ≤ t.max := by
  rw [execute_fcvt hfs hd, fcvtsd_eq hd.2.1] at h
  obtain ⟨_, hb, _⟩ := Except.bind_eq_ok_iff.mp h
  obtain ⟨_, hc, _⟩ := Except.bind_eq_ok_iff.mp hb
  obtain ⟨v, hv, hm⟩ := fdConvCheck_value hc
  rw [fdround_value] at hv
  cases hx : Fmt.value (getF f cpu d.rs1) with
  | nan => rw [hx] at hv; cases hv
  | infinite => rw [hx] at hv; cases hv
  | finite u =>
    rw [hx] at hv
    cases hv
    rw [Rounding.truncate_intCast] at hm
    exact ⟨u, rfl, hm⟩

/-- The mode of a static `rm` field, or of `frm`. -/
def fieldRounding (rm : BitVec 3) : Option Rounding :=
  match rm with
  | 0 => some .nearestEven
  | 1 => some .towardZero
  | 2 => some .down
  | 3 => some .up
  | 4 => some .nearestAway
  | _ => none

def rmRounding (rm frm : BitVec 3) : Option Rounding :=
  if rm = 7 then fieldRounding frm else fieldRounding rm

/-- The value is rounded in the mode, clamped and sign-extended; without a mode the instruction is
illegal. -/
def ConvertsAsRm (f : Fmt) (t : IntType) (cpu : Cpu) (d : Decoder) : Prop :=
  ∃ after, cpu.execute d = .ok (4, after) ∧
    match rmRounding d.funct3 ((FpCsr.frm.read cpu).setWidth 3) with
    | some m => after.regs d.rd = t.extended ((Fmt.value (getF f cpu d.rs1)).converted t m)
    | none => after.excVal = some .illegalInstruction

/-- The numbers that two bits of the mode round into the range of the type. -/
def RoundsInto (t : IntType) (rm : BitVec 3) (v : ℚ) : Prop :=
  match rm.setWidth 2 with
  | (0 : BitVec 2) => t.min - 1 / 2 < v ∧ v < t.max + 1 / 2
  | 1 => t.min - 1 < v ∧ v < t.max + 1
  | 2 => t.min ≤ v ∧ v < t.max + 1
  | _ => t.min - 1 < v ∧ v ≤ t.max

/-- The numbers that they round as the mode does: all but some ties, and in the dynamic mode those
that it rounds up. -/
def RoundsAsRm (t : IntType) (rm frm : BitVec 3) (v : ℚ) : Prop :=
  match rm with
  | 0 => ∀ k : ℕ, |v| ≠ 2 * k + 1 / 2
  | 5 => False
  | 6 => False
  | 7 => ∃ m, fieldRounding frm = some m ∧ (v < t.min ∨ m.toInt v = ⌈v⌉)
  | _ => True

theorem hostRounding_eq (d : Decoder) : d.hostRounding = lowRounding (d.funct3.setWidth 2) := by
  have hbits : d.fpRoundingMode = d.funct3.setWidth 2 := by
    unfold Decoder.fpRoundingMode Decoder.funct3
    apply BitVec.eq_of_getLsbD_eq
    intro i hi
    have hcases : i = 0 ∨ i = 1 := by omega
    rcases hcases with rfl | rfl <;> simp
  rw [Decoder.hostRounding, hbits]

theorem lowRounding_mem_iff (rm : BitVec 3) :
    (t.min ≤ (lowRounding (rm.setWidth 2)).toInt v ∧
      (lowRounding (rm.setWidth 2)).toInt v ≤ t.max) ↔ RoundsInto t rm v := by
  unfold RoundsInto
  rcases low_cases (rm.setWidth 2) with hm | hm | hm | hm
  · rw [hm]
    exact Rounding.nearestAway_mem_iff t.min_nonpos t.max_nonneg
  · rw [hm]
    exact Rounding.truncate_mem_iff t.min_nonpos t.max_nonneg
  · rw [hm]
    exact and_congr Int.le_floor Int.floor_le_iff
  · rw [hm]
    exact and_congr Int.le_ceil_iff Int.ceil_le

theorem hostRounding_mem_iff (d : Decoder) :
    (t.min ≤ d.hostRounding.toInt v ∧ d.hostRounding.toInt v ≤ t.max) ↔ RoundsInto t d.funct3 v := by
  rw [hostRounding_eq]
  exact lowRounding_mem_iff d.funct3

/-- A mode that rounds down gives the clamped ceiling only at the lower end of the range. -/
theorem clamp_eq_ceil_iff (m : Rounding) (hv : t.min ≤ ⌈v⌉ ∧ ⌈v⌉ ≤ t.max) :
    t.clamp (m.toInt v) = ⌈v⌉ ↔ v < t.min ∨ m.toInt v = ⌈v⌉ := by
  by_cases hup : m.toInt v = ⌈v⌉
  · rw [hup]
    exact iff_of_true (IntType.clamp_of_mem hv) (.inr rfl)
  rw [or_iff_left hup]
  have hdown := (m.toInt_eq_floor_or_ceil v).resolve_right hup
  have hceil : ⌈v⌉ = ⌊v⌋ + 1 := by
    rcases Rounding.ceil_cases v with ⟨hc, _⟩ | ⟨hc, _⟩
    · exact absurd (hdown.trans hc.symm) hup
    · exact hc
  rw [hdown, ← Int.floor_lt]
  constructor
  · intro hc
    by_contra hlo
    rw [IntType.clamp_of_mem ⟨by omega, by omega⟩] at hc
    omega
  · intro hlo
    unfold IntType.clamp
    omega

theorem roundsAsRm_iff {rm : BitVec 3} (frm : BitVec 3) (hv : RoundsInto t rm v) :
    (∃ m, rmRounding rm frm = some m ∧
      t.clamp (m.toInt v) = (lowRounding (rm.setWidth 2)).toInt v) ↔ RoundsAsRm t rm frm v := by
  have hmem := (lowRounding_mem_iff rm).mpr hv
  have hcases : ∀ m : BitVec 3, m = 0 ∨ m = 1 ∨ m = 2 ∨ m = 3 ∨ m = 4 ∨ m = 5 ∨ m = 6 ∨ m = 7 := by
    decide
  have hsome : ∀ {a : Rounding} {p : Rounding → Prop}, (∃ m, some a = some m ∧ p m) ↔ p a := by
    simp
  have hnone : ∀ {p : Rounding → Prop}, ¬∃ m, none = some m ∧ p m := by simp
  rcases hcases rm with rfl | rfl | rfl | rfl | rfl | rfl | rfl | rfl
  · refine hsome.trans (Iff.trans (iff_of_eq ?_) Rounding.nearestEven_eq_nearestAway_iff)
    rw [IntType.clamp_of_mem (Rounding.nearestEven_mem t.min_nonpos t.max_nonneg hmem)]
    rfl
  · exact iff_of_true (hsome.mpr (IntType.clamp_of_mem hmem)) trivial
  · exact iff_of_true (hsome.mpr (IntType.clamp_of_mem hmem)) trivial
  · exact iff_of_true (hsome.mpr (IntType.clamp_of_mem hmem)) trivial
  · exact iff_of_true (hsome.mpr (IntType.clamp_of_mem hmem)) trivial
  · exact iff_of_false hnone id
  · exact iff_of_false hnone id
  · exact exists_congr fun m => and_congr_right fun _ => clamp_eq_ceil_iff m hmem

/-- The conversion is as the mode says for the numbers that two bits of the mode round into the range,
and round as it does. -/
theorem fcvt_converts_iff (hfs : cpu.cregs.isFpuEnabled = true) (he : cpu.excVal = none)
    (hd : IsFcvt f t d) : ConvertsAsRm f t cpu d ↔ ∃ v, Fmt.value (getF f cpu d.rs1) = .finite v ∧
      RoundsInto t d.funct3 v ∧ RoundsAsRm t d.funct3 ((FpCsr.frm.read cpu).setWidth 3) v := by
  constructor
  · rintro ⟨after, hx, hm⟩
    obtain ⟨v, hv, hmem⟩ := execute_fcvt_value hfs hd hx
    have hinto := (hostRounding_mem_iff d).mp hmem
    refine ⟨v, hv, hinto, (roundsAsRm_iff _ hinto).mp ?_⟩
    obtain ⟨after', hx', hexc, hreg⟩ := execute_fcvt_ok hfs hd hv hmem
    obtain ⟨_, rfl⟩ := Prod.mk.inj (Except.ok.inj (hx.symm.trans hx'))
    cases ho : rmRounding d.funct3 ((FpCsr.frm.read cpu).setWidth 3) with
    | none =>
      rw [ho] at hm
      rw [hm, he] at hexc
      cases hexc
    | some m =>
      rw [ho, hreg, hv] at hm
      refine ⟨m, rfl, ?_⟩
      rw [← hostRounding_eq]
      exact (IntType.extended_inj hmem (t.clamp_mem _) hm).symm
  · rintro ⟨v, hv, hinto, has⟩
    have hmem := (hostRounding_mem_iff d).mpr hinto
    obtain ⟨m, ho, hc⟩ := (roundsAsRm_iff _ hinto).mpr has
    rw [← hostRounding_eq] at hc
    obtain ⟨after, hx, _, hreg⟩ := execute_fcvt_ok hfs hd hv hmem
    refine ⟨after, hx, ?_⟩
    rw [ho, hreg, hv]
    exact congrArg t.extended hc.symm

end Conversion

/-- `fcvt.l.s x5, f7, rdn`. -/
theorem fcvt_converts_iff_integer : ConvertsAsRm .single .int64 floatCpu ⟨0xc023a2d3⟩ := by
  refine (@fcvt_converts_iff floatCpu ⟨0xc023a2d3⟩ .single .int64 (by decide) rfl
    ⟨by decide, by decide, by decide⟩).mpr ⟨_, rfl, ?_, trivial⟩
  change (IntType.int64.min : ℚ) ≤ _ ∧ _ < (IntType.int64.max : ℚ) + 1
  decide +kernel

/-- `fcvt.w.s x5, f6, rne` of one half. -/
theorem half_rounded_away : ¬∀ (f : Fmt) (t : IntType) (cpu : Cpu) (d : Decoder),
    cpu.cregs.isFpuEnabled = true → cpu.excVal = none → IsFcvt f t d →
      ConvertsAsRm f t cpu d := by
  intro h
  let cpu := floatCpu.setFreg 6 0x3f000000
  have hd : IsFcvt .single .int32 ⟨0xc00302d3⟩ := ⟨by decide, by decide, by decide⟩
  have hv : Fmt.value (getF .single cpu 6) = .finite (1 / 2) := by decide +kernel
  obtain ⟨after, hx, hm⟩ := h .single .int32 cpu ⟨0xc00302d3⟩ (by decide) rfl hd
  obtain ⟨after', hx', _, hreg⟩ := @execute_fcvt_ok cpu _ _ _ _ (by decide) hd hv
    (by decide +kernel)
  obtain ⟨_, rfl⟩ := Prod.mk.inj (Except.ok.inj (hx.symm.trans hx'))
  have hrm : rmRounding (Decoder.funct3 ⟨0xc00302d3⟩) ((FpCsr.frm.read cpu).setWidth 3) =
      some .nearestEven := rfl
  rw [hrm] at hm
  exact absurd (hreg.symm.trans hm) (by decide +kernel)

end Rv64gcEmu
