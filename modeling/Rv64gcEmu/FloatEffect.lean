import Rv64gcEmu.IntegerEffect

namespace Rv64gcEmu

namespace FExcept

/-- A set of exception flags. -/
def IsFlags (e : Word) : Prop := e &&& ~~~mask = 0

theorem isFlags_zero : IsFlags 0 := rfl
theorem isFlags_inexact : IsFlags inexact := rfl
theorem isFlags_underflow : IsFlags underflow := rfl
theorem isFlags_overflow : IsFlags overflow := rfl
theorem isFlags_divByZero : IsFlags divByZero := rfl
theorem isFlags_invalid : IsFlags invalid := rfl

theorem IsFlags.or {e e' : Word} (h : IsFlags e) (h' : IsFlags e') : IsFlags (e ||| e') := by
  unfold IsFlags at *
  apply BitVec.eq_of_getLsbD_eq
  intro i hi
  have hb := congrArg (fun v => v.getLsbD i) h
  have hb' := congrArg (fun v => v.getLsbD i) h'
  simp only [BitVec.getLsbD_and] at hb hb'
  rw [BitVec.getLsbD_and, BitVec.getLsbD_or, Bool.and_or_distrib_right, hb, hb']
  simp

end FExcept

namespace Csr

theorem setFpuException_zero (csr : Csr) : csr.setFpuException 0 = csr := by
  have h : csr.regs Address.fflags ||| 0 = csr.regs Address.fflags := BitVec.or_zero
  unfold setFpuException
  rw [h, setCell_self]

theorem setFpuException_or (csr : Csr) (e e' : Word) :
    (csr.setFpuException e).setFpuException e' = csr.setFpuException (e ||| e') := by
  unfold setFpuException
  simp only [setCell, Function.update_self, Function.update_idem, BitVec.or_assoc]

end Csr

namespace Cpu

open FExcept

/-- Of the CSRs, only flags are raised in `fflags`; `pc` stays. -/
structure FloatOnly (a b : Cpu) : Prop where
  flags : ∃ e, IsFlags e ∧ b.cregs = a.cregs.setFpuException e
  pc : b.pc = a.pc

namespace FloatOnly

theorem of_cregs {a b : Cpu} (hc : b.cregs = a.cregs) (hp : b.pc = a.pc) : FloatOnly a b :=
  ⟨⟨0, isFlags_zero, hc.trans a.cregs.setFpuException_zero.symm⟩, hp⟩

theorem refl (a : Cpu) : FloatOnly a a := of_cregs rfl rfl

theorem trans {a b c : Cpu} (h : FloatOnly a b) (h' : FloatOnly b c) : FloatOnly a c := by
  obtain ⟨e, he, hb⟩ := h.flags
  obtain ⟨e', he', hc⟩ := h'.flags
  refine ⟨⟨e ||| e', he.or he', ?_⟩, h'.pc.trans h.pc⟩
  rw [hc, hb, Csr.setFpuException_or]

theorem of_coreEq {a b : Cpu} (h : CoreEq a b) : FloatOnly a b := of_cregs h.cregs h.pc

theorem setReg (a : Cpu) (r : BitVec 5) (v : Word) : FloatOnly a (a.setReg r v) := of_cregs rfl rfl

theorem setFreg (a : Cpu) (r : BitVec 5) (v : Word) : FloatOnly a (a.setFreg r v) := of_cregs rfl rfl

theorem setFenv (a : Cpu) (flags : FeFlags) : FloatOnly a (a.setFenv flags) := of_cregs rfl rfl

theorem setException (a : Cpu) (e : Exception) (x : Word) : FloatOnly a (a.setException e x) :=
  of_cregs rfl rfl

theorem setFpuException (a : Cpu) {e : Word} (he : IsFlags e) :
    FloatOnly a (Fdimpl.setFpuException a e) := ⟨⟨e, he, rfl⟩, rfl⟩

theorem ite_setFpuException (p : Prop) [Decidable p] (a : Cpu) {e : Word} (he : IsFlags e) :
    FloatOnly a (if p then Fdimpl.setFpuException a e else a) := by
  split
  next => exact setFpuException a he
  next => exact refl a

theorem invalidIf (p : Bool) (a : Cpu) : FloatOnly a (Fdimpl.invalidIf p a) :=
  ite_setFpuException _ a isFlags_invalid

theorem setExceptions (a : Cpu) : FloatOnly a (Fdimpl.setExceptions a) := by
  unfold Fdimpl.setExceptions
  exact (ite_setFpuException _ _ isFlags_divByZero).trans
    ((ite_setFpuException _ _ isFlags_inexact).trans
      ((ite_setFpuException _ _ isFlags_overflow).trans
        ((ite_setFpuException _ _ isFlags_underflow).trans (setFenv _ _))))

theorem fdround {f : Fmt} (val : f.Bits) (a : Cpu) (d : Decoder) :
    FloatOnly a (Fdimpl.fdround val a d).2 := by
  unfold Fdimpl.fdround
  simp only
  split
  all_goals
    split
    next => exact setFenv a _
    next => exact (setFenv a _).trans (setFpuException _ isFlags_inexact)

theorem fdConvCheck {f : Fmt} {t : IntType} {val : f.Bits} {a b : Cpu} {v : Word}
    (h : Fdimpl.fdConvCheck t val a = .ok (v, b)) : FloatOnly a b := by
  unfold Fdimpl.fdConvCheck at h
  simp only at h
  split at h
  next => cases h
  next =>
    obtain ⟨_, rfl⟩ := Prod.mk.inj (Except.ok.inj h)
    exact (invalidIf _ a).trans (setFenv _ _)

variable {cpu after c : Cpu} {d : Decoder}

theorem of_illegal (h : .ok (cpu.illegal d) = (.ok after : HostM Cpu)) : FloatOnly cpu after := by
  cases Except.ok.inj h
  exact setException cpu _ _

theorem of_setF {f : Fmt} (hc : FloatOnly cpu c) {r : BitVec 5} {val : f.Bits}
    (h : .ok (Fdimpl.setF c r val) = (.ok after : HostM Cpu)) : FloatOnly cpu after := by
  cases Except.ok.inj h
  exact hc.trans (setFreg c _ _)

theorem of_setReg (hc : FloatOnly cpu c) {r : BitVec 5} {v : Word}
    (h : .ok (c.setReg r v) = (.ok after : HostM Cpu)) : FloatOnly cpu after := by
  cases Except.ok.inj h
  exact hc.trans (setReg c _ _)

end FloatOnly

end Cpu

open Cpu (FloatOnly)

variable {cpu after : Cpu} {d : Decoder} {f : Fmt}

namespace Fdimpl

theorem resultOp_floatOnly {op : Cpu → Decoder → f.Bits × FeFlags}
    (h : resultOp f op cpu d = .ok after) : FloatOnly cpu after :=
  .of_setF ((FloatOnly.setFenv cpu _).trans (.invalidIf _ _)) h

theorem minMaxOp_floatOnly {pick : f.Bits → f.Bits → f.Bits}
    (h : minMaxOp f pick cpu d = .ok after) : FloatOnly cpu after := .of_setF (.invalidIf _ cpu) h

theorem fcvt_floatOnly {g : Fmt} (h : fcvt f g cpu d = .ok after) : FloatOnly cpu after :=
  .of_setF (.setFenv cpu _) h

theorem fsqrt_floatOnly (h : fsqrt f cpu d = .ok after) : FloatOnly cpu after :=
  .of_setF ((FloatOnly.setFenv cpu _).trans (.invalidIf _ _)) h

theorem compareOp_floatOnly {result invalid : f.Bits → f.Bits → Bool}
    (h : compareOp f result invalid cpu d = .ok after) : FloatOnly cpu after :=
  .of_setReg (.invalidIf _ cpu) h

theorem signOp_floatOnly {op : f.Bits → f.Bits → f.Bits} (h : signOp f op cpu d = .ok after) :
    FloatOnly cpu after := .of_setF (.refl cpu) h

theorem setInt_floatOnly {x : Int} (h : setInt f x cpu d = .ok after) : FloatOnly cpu after :=
  .of_setF (.setFenv cpu _) h

theorem fcvtsd_floatOnly (h : fcvtsd f cpu d = .ok after) : FloatOnly cpu after := by
  have hr := FloatOnly.fdround (getF f cpu d.rs1) cpu d
  unfold fcvtsd at h
  simp only at h
  split at h
  case h_5 => exact hr.trans (.of_illegal h)
  all_goals
    obtain ⟨⟨v, c⟩, hc, h⟩ := Except.bind_eq_ok_iff.mp h
    exact .of_setReg (hr.trans (.fdConvCheck hc)) h

theorem fcvtsdw_floatOnly (h : fcvtsdw f cpu d = .ok after) : FloatOnly cpu after := by
  unfold fcvtsdw at h
  simp only at h
  split at h
  case h_5 => exact .of_illegal h
  all_goals exact setInt_floatOnly h

theorem checked_floatOnly {body : Cpu → Decoder → HostM Cpu}
    (hbody : ∀ c, body cpu d = .ok c → FloatOnly cpu c) (h : checked body cpu d = .ok after) :
    FloatOnly cpu after := by
  unfold checked at h
  split at h
  next =>
    obtain ⟨c, hb, h⟩ := Except.bind_eq_ok_iff.mp h
    cases Except.ok.inj h
    exact (hbody c hb).trans (.setExceptions c)
  next =>
    cases Except.ok.inj h
    exact .setException cpu _ _

end Fdimpl

namespace Fdtype

open Fdimpl

theorem fused_floatOnly {op : Fmt → Cpu → Decoder → HostM Cpu}
    (hop : ∀ f c, op f cpu d = .ok c → FloatOnly cpu c) (h : fused op cpu d = .ok after) :
    FloatOnly cpu after := by
  refine checked_floatOnly (fun c hb => ?_) h
  split at hb
  next => exact hop _ _ hb
  next =>
    split at hb
    next => exact hop _ _ hb
    next => exact .of_illegal hb

theorem fsgnjBy_floatOnly (h : fsgnjBy f cpu d = .ok after) : FloatOnly cpu after := by
  unfold fsgnjBy at h
  split at h
  case h_4 => exact .of_illegal h
  all_goals exact signOp_floatOnly h

theorem fminmaxBy_floatOnly (h : fminmaxBy f cpu d = .ok after) : FloatOnly cpu after := by
  unfold fminmaxBy at h
  split at h
  case h_3 => exact .of_illegal h
  all_goals exact minMaxOp_floatOnly h

theorem fcBy_floatOnly (h : fcBy f cpu d = .ok after) : FloatOnly cpu after := by
  unfold fcBy at h
  split at h
  case h_4 => exact .of_illegal h
  all_goals exact compareOp_floatOnly h

theorem fmvBy_floatOnly (h : fmvBy f cpu d = .ok after) : FloatOnly cpu after := by
  unfold fmvBy at h
  split at h
  case h_3 => exact .of_illegal h
  all_goals exact .of_setReg (.refl cpu) h

theorem fotherOp_floatOnly {op : Cpu → Decoder → HostM Cpu} (hop : fotherOp d.funct7 = some op)
    (h : op cpu d = .ok after) : FloatOnly cpu after := by
  unfold fotherOp at hop
  split at hop
  case h_27 => cases hop
  all_goals cases Option.some.inj hop
  case h_1 | h_2 | h_3 | h_4 | h_5 | h_6 | h_7 | h_8 => exact resultOp_floatOnly h
  case h_9 | h_10 => exact fsgnjBy_floatOnly h
  case h_11 | h_12 => exact fminmaxBy_floatOnly h
  case h_13 | h_14 => exact fcvt_floatOnly h
  case h_15 | h_16 => exact fsqrt_floatOnly h
  case h_17 | h_18 => exact fcBy_floatOnly h
  case h_19 | h_20 => exact fcvtsd_floatOnly h
  case h_21 | h_22 => exact fcvtsdw_floatOnly h
  case h_23 | h_24 => exact fmvBy_floatOnly h
  case h_25 | h_26 =>
    cases Except.ok.inj h
    exact .setFreg _ _ _

theorem fother_floatOnly (h : fother cpu d = .ok after) : FloatOnly cpu after := by
  refine checked_floatOnly (fun c hb => ?_) h
  split at hb
  next hop => exact fotherOp_floatOnly hop hb
  next => exact .of_illegal hb

theorem fl_floatOnly (h : fl cpu d = .ok after) : FloatOnly cpu after := by
  have hload : ∀ {f : Fmt} {c : Cpu}, Fdimpl.fl f cpu d = .ok c → FloatOnly cpu c := by
    intro f c hb
    obtain ⟨⟨v, c'⟩, hl, hb⟩ := Except.bind_eq_ok_iff.mp hb
    cases Except.ok.inj hb
    exact (FloatOnly.of_coreEq (Mmu.load_coreEq hl)).trans (.setFreg c' _ _)
  refine checked_floatOnly (fun c hb => ?_) h
  split at hb
  next => exact hload hb
  next => exact hload hb
  next => exact .of_illegal hb

theorem fs_floatOnly (h : fs cpu d = .ok after) : FloatOnly cpu after := by
  refine checked_floatOnly (fun c hb => ?_) h
  split at hb
  next => exact .of_coreEq (Mmu.store_coreEq hb)
  next => exact .of_coreEq (Mmu.store_coreEq hb)
  next => exact .of_illegal hb

end Fdtype

/-- The seven opcodes of the F and D extensions. -/
def OpcodeType.isFloat : OpcodeType → Bool
  | .fl | .fs | .fmadd | .fmsub | .fnmadd | .fnmsub | .fother => true
  | _ => false

def Decoder.isFloat32 (d : Decoder) : Bool :=
  d.insnSize = 4 && d.opcodeType.any OpcodeType.isFloat

theorem execute32_floatOnly (hf : d.opcodeType.any OpcodeType.isFloat = true)
    (h : cpu.execute32 d = .ok after) : FloatOnly cpu after := by
  unfold Cpu.execute32 at h
  split at h
  case h_7 => exact Fdtype.fl_floatOnly h
  case h_8 => exact Fdtype.fs_floatOnly h
  case h_9 | h_10 | h_11 | h_12 =>
    exact Fdtype.fused_floatOnly (fun _ _ hb => Fdimpl.resultOp_floatOnly hb) h
  case h_13 => exact Fdtype.fother_floatOnly h
  all_goals
    rename d.opcodeType = _ => ht
    rw [ht] at hf
    simp [OpcodeType.isFloat] at hf

/-- The 32-bit `JALR` aside, an integer instruction of 32 bits keeps the lowest bit of `pc`. -/
theorem execute32_integral (hf : d.opcodeType.any OpcodeType.isFloat = false)
    (hcsr : d.opcodeType ≠ some .csr) (hjalr : d.opcodeType ≠ some .jalr)
    (h : cpu.execute32 d = .ok after) : Cpu.Integral cpu after := by
  unfold Cpu.execute32 at h
  split at h
  case h_1 => exact Load.funct3_integral h
  case h_2 =>
    cases Except.ok.inj h
    exact .refl cpu
  case h_3 => exact .of_assigned (Itype.funct3_assigned h)
  case h_4 => exact Stype.funct3_integral h
  case h_5 => exact .of_assigned (Rtype.funct3_assigned h)
  case h_6 => exact Btype.funct3_integral h
  case h_14 => exact .of_frame (Atomic.funct3_frame h)
  case h_15 => exact .of_assigned (I64.funct3_assigned h)
  case h_16 => exact .of_assigned (R64.funct3_assigned h)
  case h_17 => exact .of_setReg h
  case h_18 => exact .of_setReg h
  case h_19 => exact Jal.jal_integral h
  case h_20 ht => exact absurd ht hjalr
  case h_21 ht => exact absurd ht hcsr
  case h_22 => exact .of_illegal h
  all_goals
    rename d.opcodeType = _ => ht
    rw [ht] at hf
    simp [OpcodeType.isFloat] at hf

end Rv64gcEmu
