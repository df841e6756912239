import Rv64gcEmu.ReservedCompressed

namespace Rv64gcEmu

/-- A word is executed, is illegal, and has changed nothing. -/
def Cpu.Rejects (cpu : Cpu) (x : HostM Cpu) : Prop := ∃ after, x = .ok after ∧ Rejected cpu after

section Reject

variable {cpu : Cpu} {x : HostM Cpu}

theorem rejects_illegal (cpu : Cpu) (d : Decoder) : cpu.Rejects (.ok (cpu.illegal d)) :=
  ⟨_, rfl, rejected_illegal cpu _⟩

/-- What keeps the exceptions as they were is no rejection. -/
theorem not_rejects (he : cpu.excVal = none)
    (h : ∀ after, x = .ok after → after.excVal = cpu.excVal) : ¬cpu.Rejects x := by
  rintro ⟨after, hx, hr⟩
  have hexc := hr.exc
  rw [h after hx, he] at hexc
  cases hexc

end Reject

namespace FeFlags

/-- The flags as `set_exceptions` passes them to `fflags`. -/
def word (flags : FeFlags) : Word :=
  (if flags.divByZero then FExcept.divByZero else 0) |||
    (if flags.inexact then FExcept.inexact else 0) |||
    (if flags.overflow then FExcept.overflow else 0) |||
    (if flags.underflow then FExcept.underflow else 0)

end FeFlags

/-- The flags are set in `fflags`. -/
def Csr.Records (csr : Csr) (e : Word) : Prop := csr.regs Address.fflags ||| e = csr.regs Address.fflags

namespace Csr

theorem setFpuException_eq_self_iff (csr : Csr) (e : Word) :
    csr.setFpuException e = csr ↔ csr.Records e := by
  constructor
  · intro h
    have hcell := congrArg (fun c => c.regs Address.fflags) h
    simp only [setFpuException, setCell, Function.update_self] at hcell
    exact hcell
  · intro h
    unfold Records at h
    unfold setFpuException
    rw [h, setCell_self]

theorem ite_setFpuException (p : Bool) (csr : Csr) (e : Word) :
    (if p then csr.setFpuException e else csr) = csr.setFpuException (if p then e else 0) := by
  cases p with
  | true => rfl
  | false => exact (csr.setFpuException_zero).symm

end Csr

namespace Fdimpl

open Cpu (FlagsOnly)

theorem ite_setFpuException_cregs (p : Bool) (cpu : Cpu) (e : Word) :
    (if p then setFpuException cpu e else cpu).cregs =
      cpu.cregs.setFpuException (if p then e else 0) := by
  rw [← Csr.ite_setFpuException]
  cases p <;> rfl

theorem setExceptions_cregs (cpu : Cpu) :
    (setExceptions cpu).cregs = cpu.cregs.setFpuException cpu.fenv.word := by
  have hfenv : ∀ (p : Bool) (c : Cpu) (e : Word),
      (if p then setFpuException c e else c).fenv = c.fenv := by
    intro p c e
    cases p <;> rfl
  unfold setExceptions FeFlags.word
  simp only [Cpu.setFenv_cregs, ite_setFpuException_cregs, hfenv, Csr.setFpuException_or]

/-- The flags of a conversion to an integer that is refused after the rounding. -/
def roundFlags (f : Fmt) (cpu : Cpu) (d : Decoder) : Word :=
  let val := getF f cpu d.rs1
  let (newval, c) := fdround val cpu d
  (if Fmt.eq newval val then 0 else FExcept.inexact) ||| c.fenv.word

theorem fdround_flags (f : Fmt) (cpu : Cpu) (d : Decoder) :
    (setExceptions (fdround (getF f cpu d.rs1) cpu d).2).cregs =
      cpu.cregs.setFpuException (roundFlags f cpu d) := by
  rw [setExceptions_cregs]
  unfold roundFlags fdround
  simp only
  generalize getF f cpu d.rs1 = val
  have hround : ∀ (newval : f.Bits) (flags : FeFlags) (c : Cpu),
      c = (if Fmt.eq newval val then raise cpu flags
        else setFpuException (raise cpu flags) FExcept.inexact) →
      c.cregs.setFpuException c.fenv.word = cpu.cregs.setFpuException
        ((if Fmt.eq newval val then 0 else FExcept.inexact) ||| c.fenv.word) := by
    rintro newval flags c rfl
    cases Fmt.eq newval val with
    | true => simp [raise]
    | false => simp [raise, setFpuException, Csr.setFpuException_or]
  split <;> exact hround _ _ _ rfl

/-- What one of the instructions does: it is refused, with the flags `e`, or leaves the exceptions
alone. -/
inductive Outcome (cpu : Cpu) (d : Decoder) (e : Word) (x : HostM Cpu) : Bool → Prop
  | refused {c : Cpu} (hx : x = .ok (c.illegal d)) (hc : cpu.FlagsOnly c)
      (he : (setExceptions c).cregs = cpu.cregs.setFpuException e) : Outcome cpu d e x true
  | executed (h : ∀ after, x = .ok after → after.excVal = cpu.excVal) : Outcome cpu d e x false

section Outcomes

variable {cpu c : Cpu} {d : Decoder} {e : Word} {f : Fmt} {refused : Bool}

theorem Outcome.ok (hc : cpu.FlagsOnly c) {after : Cpu} (ha : after.excVal = c.excVal) :
    Outcome cpu d e (.ok after) false := by
  refine .executed fun b hb => ?_
  cases Except.ok.inj hb
  exact ha.trans hc.excVal

theorem Outcome.illegal (hr : refused = true) :
    Outcome cpu d cpu.fenv.word (.ok (cpu.illegal d)) refused := by
  rw [hr]
  exact .refused rfl (.refl cpu) (setExceptions_cregs cpu)

theorem Outcome.bind {c : Cpu} {t : IntType} {val : f.Bits} {g : Word × Cpu → Cpu}
    (hc : cpu.FlagsOnly c) (hg : ∀ r, (g r).excVal = r.2.excVal) :
    Outcome cpu d e (fdConvCheck t val c >>= fun r => .ok (g r)) false := by
  refine .executed fun after h => ?_
  obtain ⟨⟨v, c'⟩, hv, h⟩ := Except.bind_eq_ok_iff.mp h
  cases Except.ok.inj h
  exact (hg _).trans (hc.trans (.fdConvCheck hv)).excVal

theorem fcvtsd_outcome : Outcome cpu d (roundFlags f cpu d) (fcvtsd f cpu d)
    (d.rs2 ≠ 0 && d.rs2 ≠ 1 && d.rs2 ≠ 2 && d.rs2 ≠ 3) := by
  have hround := FlagsOnly.fdround (getF f cpu d.rs1) cpu d
  unfold fcvtsd
  simp only
  split
  case h_5 h0 h1 h2 h3 =>
    have hr : (d.rs2 ≠ 0 && d.rs2 ≠ 1 && d.rs2 ≠ 2 && d.rs2 ≠ 3) = true := by
      simpa using ⟨⟨⟨h0, h1⟩, h2⟩, h3⟩
    rw [hr]
    exact .refused rfl hround (fdround_flags f cpu d)
  all_goals
    rename d.rs2 = _ => h2
    rw [h2]
    exact .bind hround fun _ => rfl

theorem fcvtsdw_outcome : Outcome cpu d cpu.fenv.word (fcvtsdw f cpu d)
    (d.rs2 ≠ 0 && d.rs2 ≠ 1 && d.rs2 ≠ 2 && d.rs2 ≠ 3) := by
  unfold fcvtsdw
  simp only
  split
  case h_5 h0 h1 h2 h3 => exact .illegal (by simpa using ⟨⟨⟨h0, h1⟩, h2⟩, h3⟩)
  all_goals
    rename d.rs2 = _ => h2
    rw [h2]
    exact .ok (.refl cpu) rfl

/-- Around an instruction: refused ones change nothing only when their flags are set already. -/
theorem Outcome.checked_iff {body : Cpu → Decoder → HostM Cpu}
    (ho : Outcome cpu d e (body cpu d) refused) (he : cpu.excVal = none) :
    cpu.Rejects (checked body cpu d) ↔
      cpu.cregs.isFpuEnabled = false ∨ (refused = true ∧ cpu.cregs.Records e) := by
  cases hfs : cpu.cregs.isFpuEnabled with
  | false =>
    rw [checked_off hfs]
    exact iff_of_true ⟨_, rfl, rejected_illegal cpu 0⟩ (.inl rfl)
  | true =>
    have hx : checked body cpu d = (body cpu d >>= fun c => .ok (setExceptions c)) := by
      unfold checked
      rw [hfs]
      rfl
    rw [hx]
    cases ho with
    | @refused c hb hc hf =>
      rw [hb]
      have hcregs : (setExceptions (c.illegal d)).cregs = cpu.cregs.setFpuException e := by
        rw [← hf, setExceptions_cregs, setExceptions_cregs]
        rfl
      have hall := FlagsOnly.setExceptions (c.illegal d)
      constructor
      · rintro ⟨after, ha, hr⟩
        cases Except.ok.inj ha
        exact .inr ⟨rfl, (Csr.setFpuException_eq_self_iff _ _).mp (hcregs.symm.trans hr.cregs)⟩
      · rintro (h | ⟨_, h⟩)
        · cases h
        · exact ⟨_, rfl, hall.excVal, hall.regs.trans hc.regs, hall.fregs.trans hc.fregs,
            hcregs.trans ((Csr.setFpuException_eq_self_iff _ _).mpr h), hall.bus.trans hc.bus,
            hall.pc.trans hc.pc⟩
    | executed h =>
      refine iff_of_false (not_rejects he fun after ha => ?_) (by simp)
      obtain ⟨c, hb, ha⟩ := Except.bind_eq_ok_iff.mp ha
      cases Except.ok.inj ha
      exact (FlagsOnly.setExceptions c).excVal.trans (h c hb)

end Outcomes

end Fdimpl

namespace Fdtype

open Cpu (FlagsOnly)
open Fdimpl

/-- The words under the opcode `fother` that no instruction is found for. -/
def refuses (d : Decoder) : Bool :=
  match d.funct7 with
  | 0x10 | 0x11 | 0x50 | 0x51 => d.funct3 ≠ 0 && d.funct3 ≠ 1 && d.funct3 ≠ 2
  | 0x14 | 0x15 | 0x70 | 0x71 => d.funct3 ≠ 0 && d.funct3 ≠ 1
  | 0x60 | 0x61 | 0x68 | 0x69 => d.rs2 ≠ 0 && d.rs2 ≠ 1 && d.rs2 ≠ 2 && d.rs2 ≠ 3
  | _ => (fotherOp d.funct7).isNone

/-- The flags that are recorded though the word is refused. -/
def refusedFlags (cpu : Cpu) (d : Decoder) : Word :=
  match d.funct7 with
  | 0x60 => roundFlags .single cpu d
  | 0x61 => roundFlags .double cpu d
  | _ => cpu.fenv.word

section Outcomes

variable {cpu : Cpu} {d : Decoder} {f : Fmt}

theorem fsgnjBy_outcome : Outcome cpu d cpu.fenv.word (fsgnjBy f cpu d)
    (d.funct3 ≠ 0 && d.funct3 ≠ 1 && d.funct3 ≠ 2) := by
  unfold fsgnjBy
  split
  case h_4 h0 h1 h2 => exact .illegal (by simpa using ⟨⟨h0, h1⟩, h2⟩)
  all_goals
    rename d.funct3 = _ => h3
    rw [h3]
    exact .ok (.refl cpu) rfl

theorem fcBy_outcome : Outcome cpu d cpu.fenv.word (fcBy f cpu d)
    (d.funct3 ≠ 0 && d.funct3 ≠ 1 && d.funct3 ≠ 2) := by
  unfold fcBy
  split
  case h_4 h0 h1 h2 => exact .illegal (by simpa using ⟨⟨h0, h1⟩, h2⟩)
  all_goals
    rename d.funct3 = _ => h3
    rw [h3]
    exact .ok (.invalidIf _ cpu) rfl

theorem fminmaxBy_outcome : Outcome cpu d cpu.fenv.word (fminmaxBy f cpu d)
    (d.funct3 ≠ 0 && d.funct3 ≠ 1) := by
  unfold fminmaxBy
  split
  case h_3 h0 h1 => exact .illegal (by simpa using ⟨h0, h1⟩)
  all_goals
    rename d.funct3 = _ => h3
    rw [h3]
    exact .ok (.invalidIf _ cpu) rfl

theorem fmvBy_outcome : Outcome cpu d cpu.fenv.word (fmvBy f cpu d)
    (d.funct3 ≠ 0 && d.funct3 ≠ 1) := by
  unfold fmvBy
  split
  case h_3 h0 h1 => exact .illegal (by simpa using ⟨h0, h1⟩)
  all_goals
    rename d.funct3 = _ => h3
    rw [h3]
    exact .ok (.refl cpu) rfl

theorem refuses_of_isNone (h : fotherOp d.funct7 = none) : refuses d = true := by
  unfold refuses
  split
  case h_13 =>
    rw [h]
    rfl
  all_goals
    next hk =>
      rw [hk] at h
      cases h

/-- What the instructions under `fother` do, without the checks around them. -/
theorem fotherOp_outcome (cpu : Cpu) (d : Decoder) :
    Outcome cpu d (refusedFlags cpu d)
      (match fotherOp d.funct7 with
        | some op => op cpu d
        | none => .ok (cpu.illegal d)) (refuses d) := by
  cases hop : fotherOp d.funct7 with
  | none =>
    have hf : refusedFlags cpu d = cpu.fenv.word := by
      unfold refusedFlags
      split
      case h_3 => rfl
      all_goals
        next hk =>
          rw [hk] at hop
          cases hop
    rw [hf]
    exact .illegal (refuses_of_isNone hop)
  | some op =>
    unfold fotherOp at hop
    unfold refusedFlags refuses
    split at hop
    case h_27 => cases hop
    all_goals
      rename d.funct7 = _ => hk
      rw [hk]
      cases hop
    case h_1 | h_2 | h_3 | h_4 | h_5 | h_6 | h_7 | h_8 | h_15 | h_16 =>
      exact .ok ((FlagsOnly.setFenv cpu _).trans (.invalidIf _ _)) rfl
    case h_9 | h_10 => exact fsgnjBy_outcome
    case h_11 | h_12 => exact fminmaxBy_outcome
    case h_13 | h_14 => exact .ok (.refl cpu) rfl
    case h_17 | h_18 => exact fcBy_outcome
    case h_19 | h_20 => exact fcvtsd_outcome
    case h_21 | h_22 => exact fcvtsdw_outcome
    case h_23 | h_24 => exact fmvBy_outcome
    case h_25 | h_26 => exact .ok (.refl cpu) rfl

end Outcomes

end Fdtype

end Rv64gcEmu
