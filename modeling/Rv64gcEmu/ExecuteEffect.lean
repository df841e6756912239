import Rv64gcEmu.InsnEffect

namespace Rv64gcEmu

open Cpu (FlagsOnly Quiet)

/-- What an instruction on integer registers leaves behind. -/
inductive Assigned (cpu : Cpu) (d : Decoder) : Cpu → Prop
  | setReg (r : BitVec 5) (v : Word) : Assigned cpu d (cpu.setReg r v)
  | illegal : Assigned cpu d (cpu.illegal d)

namespace Assigned

variable {cpu after : Cpu} {d : Decoder}

theorem of_illegal (h : .ok (cpu.illegal d) = (.ok after : HostM Cpu)) : Assigned cpu d after := by
  cases Except.ok.inj h
  exact illegal

theorem of_setReg {r : BitVec 5} {v : Word} (h : .ok (cpu.setReg r v) = (.ok after : HostM Cpu)) :
    Assigned cpu d after := by
  cases Except.ok.inj h
  exact setReg r v

/-- An instruction whose host operation may be undefined. -/
theorem of_bind_setReg {α : Type} {r : BitVec 5} {x : HostM α} {f : α → Word}
    (h : (x >>= fun a => .ok (cpu.setReg r (f a))) = (.ok after : HostM Cpu)) :
    Assigned cpu d after := by
  obtain ⟨_, _, h⟩ := Except.bind_eq_ok_iff.mp h
  exact of_setReg h

end Assigned

section Registers

variable {cpu after : Cpu} {d : Decoder}

theorem Itype.funct3_assigned (h : Itype.funct3 cpu d = .ok after) : Assigned cpu d after := by
  unfold Itype.funct3 at h
  split at h
  case h_6 =>
    split at h
    next => exact .of_setReg h
    next => exact .of_bind_setReg h
    next => exact .of_illegal h
  all_goals exact .of_setReg h

theorem I64.funct3_assigned (h : I64.funct3 cpu d = .ok after) : Assigned cpu d after := by
  unfold I64.funct3 at h
  split at h
  next => exact .of_setReg h
  next => exact .of_setReg h
  next =>
    split at h
    next => exact .of_bind_setReg h
    next => exact .of_bind_setReg h
    next => exact .of_illegal h
  next => exact .of_illegal h

theorem Rtype.funct3_assigned (h : Rtype.funct3 cpu d = .ok after) : Assigned cpu d after := by
  unfold Rtype.funct3 at h
  split at h
  case h_19 => exact .of_illegal h
  all_goals exact .of_bind_setReg h

theorem R64.funct3_assigned (h : R64.funct3 cpu d = .ok after) : Assigned cpu d after := by
  unfold R64.funct3 at h
  split at h
  case h_1 | h_4 =>
    split at h
    case h_4 => exact .of_illegal h
    all_goals exact .of_bind_setReg h
  case h_7 => exact .of_illegal h
  all_goals exact .of_bind_setReg h

theorem Ctype.q1op4_assigned (h : Ctype.q1op4 cpu d = .ok after) : Assigned cpu d after := by
  unfold Ctype.q1op4 at h
  split at h
  case h_4 =>
    simp only at h
    repeat' split at h
    case isFalse.isFalse.isFalse => exact .of_illegal h
    all_goals exact .of_setReg h
  all_goals exact .of_setReg h

end Registers

namespace Effect

variable {cpu after : Cpu} {d : Decoder}

theorem illegal : Effect cpu (cpu.illegal d) none := .refused (.refl cpu) (.refl _)

theorem setReg (r : BitVec 5) (v : Word) : Effect cpu (cpu.setReg r v) none := .quiet (.setReg _ _ _)

theorem setPc (pc : Word) : Effect cpu (cpu.setPc pc) none := .quiet (.setPc _ _)

theorem of_illegal (h : .ok (cpu.illegal d) = (.ok after : HostM Cpu)) : Effect cpu after none := by
  cases Except.ok.inj h
  exact illegal

theorem of_setReg {r : BitVec 5} {v : Word} (h : .ok (cpu.setReg r v) = (.ok after : HostM Cpu)) :
    Effect cpu after none := by
  cases Except.ok.inj h
  exact setReg r v

theorem of_branch {p : Prop} [Decidable p] {pc : Word}
    (h : (if p then .ok (cpu.setPc pc) else .ok cpu) = (.ok after : HostM Cpu)) :
    Effect cpu after none := by
  split at h
  next =>
    cases Except.ok.inj h
    exact setPc pc
  next =>
    cases Except.ok.inj h
    exact .quiet (.refl cpu)

theorem of_assigned (h : Assigned cpu d after) : Effect cpu after none := by
  cases h with
  | setReg r v => exact setReg r v
  | illegal => exact illegal

end Effect

section Integer

variable {cpu after : Cpu} {d : Decoder}

theorem Btype.funct3_effect (h : Btype.funct3 cpu d = .ok after) : Effect cpu after none := by
  unfold Btype.funct3 at h
  split at h
  case h_7 => exact .of_illegal h
  all_goals exact .of_branch h

theorem Jal.jal_effect (h : Jal.jal cpu d = .ok after) : Effect cpu after none := by
  cases Except.ok.inj h
  exact .quiet ((Quiet.setReg cpu _ _).trans (.setPc _ _))

theorem Jalr.jalr_effect (h : Jalr.jalr cpu d = .ok after) : Effect cpu after none := by
  cases Except.ok.inj h
  exact .quiet ((Quiet.setPc cpu _).trans (.setReg _ _ _))

end Integer

/-- The last of the eight cases of a `switch` over three bits. -/
theorem funct3_seven {f : BitVec 3} (h0 : f ≠ 0) (h1 : f ≠ 1) (h2 : f ≠ 2) (h3 : f ≠ 3) (h4 : f ≠ 4)
    (h5 : f ≠ 5) (h6 : f ≠ 6) : f = 7 := by
  bv_omega

section Memory

variable {cpu after : Cpu} {d : Decoder}

theorem Load.loadOp_effect {extend : Word → Word} {length : Width}
    (h : Load.loadOp extend length cpu d = .ok after) :
    Effect cpu after (some (.load (cpu.regs d.rs1 + d.immI) length (.reg d.rd) true)) := by
  obtain ⟨⟨v, c⟩, hl, h⟩ := Except.bind_eq_ok_iff.mp h
  exact .loaded hl (Except.ok.inj h).symm

theorem Load.funct3_effect (ht : d.opcodeType = some .load) (h : Load.funct3 cpu d = .ok after) :
    Effect cpu after (access32 cpu d) := by
  unfold Load.funct3 at h
  unfold access32
  rw [ht]
  split at h
  case h_8 h0 h1 h2 h3 h4 h5 h6 =>
    rw [funct3_seven h0 h1 h2 h3 h4 h5 h6]
    exact .of_illegal h
  all_goals
    next hf =>
      rw [hf]
      exact Load.loadOp_effect h

theorem Stype.funct3_effect (ht : d.opcodeType = some .s) (h : Stype.funct3 cpu d = .ok after) :
    Effect cpu after (access32 cpu d) := by
  unfold Stype.funct3 at h
  unfold access32
  rw [ht]
  split at h
  case h_5 h0 h1 h2 h3 =>
    have h4 : ¬d.funct3 < 4 := by
      generalize d.funct3 = f at *
      revert f
      decide
    simp only [h4, if_false]
    exact .of_illegal h
  all_goals
    next hf =>
      rw [hf]
      exact .stored h (.refl _)

end Memory

section Compressed

variable {cpu after : Cpu} {d : Decoder}

theorem Ctype.loadReg_effect {addr : Word} {length : Width} {extend : Word → Word} {rd : BitVec 5}
    (hz : extend 0 = 0) (h : Ctype.loadReg addr length extend rd cpu = .ok after) :
    Effect cpu after (some (.load addr length (.reg rd) false)) := by
  obtain ⟨⟨v, c⟩, hl, h⟩ := Except.bind_eq_ok_iff.mp h
  cases Except.ok.inj h
  exact .loadedUnchecked hl (by rintro rfl; exact hz) (.refl _)

theorem Ctype.loadFreg_effect {addr : Word} {rd : BitVec 5}
    (h : Ctype.loadFreg addr rd cpu = .ok after) :
    Effect cpu after (some (.load addr .w64 (.freg rd 0) false)) := by
  obtain ⟨⟨v, c⟩, hl, h⟩ := Except.bind_eq_ok_iff.mp h
  cases Except.ok.inj h
  exact .loadedUnchecked hl (fun hv => hv) (.refl _)

theorem Ctype.quadrant0_effect (hq : d.compressedOpcode = 0)
    (h : Ctype.quadrant0 cpu d = .ok after) : Effect cpu after (access16 cpu d) := by
  unfold Ctype.quadrant0 at h
  unfold access16
  rw [hq]
  split at h
  next hf =>
    rw [hf]
    exact .of_setReg h
  next hf =>
    rw [hf]
    exact loadFreg_effect h
  next hf =>
    rw [hf]
    exact loadReg_effect rfl h
  next hf =>
    rw [hf]
    exact loadReg_effect rfl h
  next hf =>
    rw [hf]
    exact .of_illegal h
  next hf =>
    rw [hf]
    exact .stored h (.refl _)
  next hf =>
    rw [hf]
    exact .stored h (.refl _)
  next h0 h1 h2 h3 h4 h5 h6 =>
    rw [funct3_seven h0 h1 h2 h3 h4 h5 h6]
    exact .stored h (.refl _)

theorem Ctype.quadrant1_effect (hq : d.compressedOpcode = 1)
    (h : Ctype.quadrant1 cpu d = .ok after) : Effect cpu after (access16 cpu d) := by
  have ha : access16 cpu d = none := by
    unfold access16
    rw [hq]
    simp
  rw [ha]
  unfold Ctype.quadrant1 at h
  split at h
  case h_4 =>
    split at h
    next =>
      cases Except.ok.inj h
      exact .quiet (.refl cpu)
    next =>
      split at h
      next => exact .of_setReg h
      next => exact .of_setReg h
  case h_5 => exact .of_assigned (q1op4_assigned h)
  case h_6 =>
    cases Except.ok.inj h
    exact .setPc _
  case h_7 => exact .of_branch h
  case h_8 => exact .of_branch h
  all_goals exact .of_setReg h

theorem Ctype.quadrant2_effect (hq : d.compressedOpcode = 2)
    (h : Ctype.quadrant2 cpu d = .ok after) : Effect cpu after (access16 cpu d) := by
  unfold Ctype.quadrant2 at h
  unfold access16
  rw [hq]
  split at h
  next hf =>
    rw [hf]
    exact .of_setReg h
  next hf =>
    rw [hf]
    exact loadFreg_effect h
  next hf =>
    rw [hf]
    exact loadReg_effect rfl h
  next hf =>
    rw [hf]
    exact loadReg_effect rfl h
  next hf =>
    rw [hf]
    simp only at h
    split at h
    next =>
      split at h
      next =>
        cases Except.ok.inj h
        exact .setPc _
      next => exact .of_setReg h
    next =>
      split at h
      next =>
        cases Except.ok.inj h
        exact .quiet ((Quiet.setPc cpu _).trans (.setReg _ _ _))
      next => exact .of_setReg h
  next hf =>
    rw [hf]
    exact .stored h (.refl _)
  next hf =>
    rw [hf]
    exact .stored h (.refl _)
  next h0 h1 h2 h3 h4 h5 h6 =>
    rw [funct3_seven h0 h1 h2 h3 h4 h5 h6]
    exact .stored h (.refl _)

theorem execute16_effect (hs : d.insnSize = 2) (h : Cpu.execute16 cpu d = .ok after) :
    Effect cpu after (access16 cpu d) := by
  unfold Cpu.execute16 at h
  split at h
  next hq => exact Ctype.quadrant0_effect hq h
  next hq => exact Ctype.quadrant1_effect hq h
  next hq => exact Ctype.quadrant2_effect hq h
  next h0 h1 h2 =>
    exfalso
    have hq : d.compressedOpcode = 3 := by
      generalize d.compressedOpcode = f at *
      revert f
      decide
    simp [Decoder.insnSize, hq] at hs

end Compressed

section Float

variable {cpu after : Cpu} {d : Decoder} {f : Fmt}

/-- The bookkeeping after a floating-point instruction. -/
theorem Effect.flags {c : Cpu} {access : Option Access} (h : Effect cpu c access)
    (hf : c.FlagsOnly after) (ha : ∀ a l r, access ≠ some (.load a l r true)) :
    Effect cpu after access := by
  cases h with
  | quiet h => exact .quiet (h.trans hf.quiet)
  | refused flags eq => exact .refused flags (eq.trans hf)
  | loaded => exact absurd rfl (ha _ _ _)
  | loadedUnchecked load fault eq => exact .loadedUnchecked load fault (eq.trans hf)
  | stored store eq => exact .stored store (eq.trans hf)

/-- A result in a register, after changes of the flags. -/
theorem Effect.of_flags_setF {c : Cpu} (hc : cpu.FlagsOnly c) {r : BitVec 5} {val : f.Bits}
    (h : .ok (Fdimpl.setF c r val) = (.ok after : HostM Cpu)) : Effect cpu after none := by
  cases Except.ok.inj h
  exact .quiet (hc.quiet.trans (.setFreg _ _ _))

theorem Effect.of_flags_setReg {c : Cpu} (hc : cpu.FlagsOnly c) {r : BitVec 5} {v : Word}
    (h : .ok (c.setReg r v) = (.ok after : HostM Cpu)) : Effect cpu after none := by
  cases Except.ok.inj h
  exact .quiet (hc.quiet.trans (.setReg _ _ _))

namespace Fdimpl

theorem resultOp_effect {op : Cpu → Decoder → f.Bits × FeFlags}
    (h : resultOp f op cpu d = .ok after) : Effect cpu after none :=
  .of_flags_setF ((FlagsOnly.setFenv cpu _).trans (.invalidIf _ _)) h

theorem minMaxOp_effect {pick : f.Bits → f.Bits → f.Bits}
    (h : minMaxOp f pick cpu d = .ok after) : Effect cpu after none :=
  .of_flags_setF (.invalidIf _ cpu) h

theorem fcvt_effect {g : Fmt} (h : fcvt f g cpu d = .ok after) : Effect cpu after none :=
  .of_flags_setF (.setFenv cpu _) h

theorem fsqrt_effect (h : fsqrt f cpu d = .ok after) : Effect cpu after none :=
  .of_flags_setF ((FlagsOnly.setFenv cpu _).trans (.invalidIf _ _)) h

theorem compareOp_effect {result invalid : f.Bits → f.Bits → Bool}
    (h : compareOp f result invalid cpu d = .ok after) : Effect cpu after none :=
  .of_flags_setReg (.invalidIf _ cpu) h

theorem signOp_effect {op : f.Bits → f.Bits → f.Bits} (h : signOp f op cpu d = .ok after) :
    Effect cpu after none := .of_flags_setF (.refl cpu) h

theorem setInt_effect {x : Int} (h : setInt f x cpu d = .ok after) : Effect cpu after none :=
  .of_flags_setF (.setFenv cpu _) h

theorem fcvtsd_effect (h : fcvtsd f cpu d = .ok after) : Effect cpu after none := by
  have hr := FlagsOnly.fdround (getF f cpu d.rs1) cpu d
  unfold fcvtsd at h
  simp only at h
  split at h
  case h_5 =>
    cases Except.ok.inj h
    exact .refused hr (.refl _)
  all_goals
    obtain ⟨⟨v, c⟩, hc, h⟩ := Except.bind_eq_ok_iff.mp h
    exact .of_flags_setReg (hr.trans (.fdConvCheck hc)) h

theorem fcvtsdw_effect (h : fcvtsdw f cpu d = .ok after) : Effect cpu after none := by
  unfold fcvtsdw at h
  simp only at h
  split at h
  case h_5 => exact .of_illegal h
  all_goals exact setInt_effect h

theorem checked_effect {body : Cpu → Decoder → HostM Cpu} {access : Option Access}
    (ha : ∀ a l r, access ≠ some (.load a l r true))
    (hoff : cpu.cregs.isFpuEnabled = false → access = none)
    (hbody : ∀ c, cpu.cregs.isFpuEnabled = true → body cpu d = .ok c → Effect cpu c access)
    (h : checked body cpu d = .ok after) : Effect cpu after access := by
  unfold checked at h
  split at h
  next he =>
    obtain ⟨c, hb, h⟩ := Except.bind_eq_ok_iff.mp h
    cases Except.ok.inj h
    exact (hbody c he hb).flags (.setExceptions c) ha
  next he =>
    rw [hoff (by simpa using he)]
    cases Except.ok.inj h
    exact .refused (.refl cpu) (.refl _)

end Fdimpl

namespace Fdtype

open Fdimpl

theorem fused_effect {op : Fmt → Cpu → Decoder → HostM Cpu}
    (hop : ∀ f c, op f cpu d = .ok c → Effect cpu c none) (h : fused op cpu d = .ok after) :
    Effect cpu after none := by
  refine checked_effect (by simp) (fun _ => rfl) (fun c _ hb => ?_) h
  split at hb
  next => exact hop _ _ hb
  next =>
    split at hb
    next => exact hop _ _ hb
    next => exact .of_illegal hb

theorem fsgnjBy_effect (h : fsgnjBy f cpu d = .ok after) : Effect cpu after none := by
  unfold fsgnjBy at h
  split at h
  case h_4 => exact .of_illegal h
  all_goals exact signOp_effect h

theorem fminmaxBy_effect (h : fminmaxBy f cpu d = .ok after) : Effect cpu after none := by
  unfold fminmaxBy at h
  split at h
  case h_3 => exact .of_illegal h
  all_goals exact minMaxOp_effect h

theorem fcBy_effect (h : fcBy f cpu d = .ok after) : Effect cpu after none := by
  unfold fcBy at h
  split at h
  case h_4 => exact .of_illegal h
  all_goals exact compareOp_effect h

theorem fmvBy_effect (h : fmvBy f cpu d = .ok after) : Effect cpu after none := by
  unfold fmvBy at h
  split at h
  case h_3 => exact .of_illegal h
  all_goals exact .of_setReg h

theorem fotherOp_effect {op : Cpu → Decoder → HostM Cpu} (hop : fotherOp d.funct7 = some op)
    (h : op cpu d = .ok after) : Effect cpu after none := by
  unfold fotherOp at hop
  split at hop
  case h_27 => cases hop
  all_goals cases Option.some.inj hop
  case h_1 | h_2 | h_3 | h_4 | h_5 | h_6 | h_7 | h_8 => exact resultOp_effect h
  case h_9 | h_10 => exact fsgnjBy_effect h
  case h_11 | h_12 => exact fminmaxBy_effect h
  case h_13 | h_14 => exact fcvt_effect h
  case h_15 | h_16 => exact fsqrt_effect h
  case h_17 | h_18 => exact fcBy_effect h
  case h_19 | h_20 => exact fcvtsd_effect h
  case h_21 | h_22 => exact fcvtsdw_effect h
  case h_23 | h_24 => exact fmvBy_effect h
  case h_25 | h_26 =>
    cases Except.ok.inj h
    exact .quiet (.setFreg _ _ _)

theorem fother_effect (h : fother cpu d = .ok after) : Effect cpu after none := by
  refine checked_effect (by simp) (fun _ => rfl) (fun c _ hb => ?_) h
  split at hb
  next hop => exact fotherOp_effect hop hb
  next => exact .of_illegal hb

theorem fl_effect (ht : d.opcodeType = some .fl) (h : fl cpu d = .ok after) :
    Effect cpu after (access32 cpu d) := by
  have ha : access32 cpu d = if cpu.cregs.isFpuEnabled ∧ (d.funct3 = 2 ∨ d.funct3 = 3) then
      some (.load (cpu.regs d.rs1 + d.flOffset) (widthOf d.funct3)
        (.freg d.rd (if d.funct3 = 2 then 0xffffffff00000000 else 0)) false) else none := by
    unfold access32
    rw [ht]
  rw [ha]
  refine checked_effect ?_ (fun he => by simp [he]) (fun c he hb => ?_) h
  · intro a l r
    split <;> simp
  · split at hb
    next hf =>
      obtain ⟨⟨v, c'⟩, hl, hb⟩ := Except.bind_eq_ok_iff.mp hb
      cases Except.ok.inj hb
      have hp : cpu.cregs.isFpuEnabled ∧ (d.funct3 = 2 ∨ d.funct3 = 3) := ⟨he, .inl hf⟩
      rw [if_pos hp, hf]
      exact .loadedUnchecked hl (by rintro rfl; rfl) (.refl _)
    next hf =>
      obtain ⟨⟨v, c'⟩, hl, hb⟩ := Except.bind_eq_ok_iff.mp hb
      cases Except.ok.inj hb
      have hp : cpu.cregs.isFpuEnabled ∧ (d.funct3 = 2 ∨ d.funct3 = 3) := ⟨he, .inr hf⟩
      rw [if_pos hp, hf]
      exact .loadedUnchecked hl (by rintro rfl; rfl) (.refl _)
    next h2 h3 =>
      rw [if_neg fun h => h.2.elim h2 h3]
      exact .of_illegal hb

theorem fs_effect (ht : d.opcodeType = some .fs) (h : fs cpu d = .ok after) :
    Effect cpu after (access32 cpu d) := by
  have ha : access32 cpu d = if cpu.cregs.isFpuEnabled ∧ (d.funct3 = 2 ∨ d.funct3 = 3) then
      some (.store (cpu.regs d.rs1 + d.fsOffset) (cpu.fregs d.rs2) (widthOf d.funct3))
      else none := by
    unfold access32
    rw [ht]
  rw [ha]
  refine checked_effect ?_ (fun he => by simp [he]) (fun c he hb => ?_) h
  · intro a l r
    split <;> simp
  · split at hb
    next hf =>
      rw [if_pos ⟨he, .inl hf⟩, hf]
      exact .stored hb (.refl _)
    next hf =>
      rw [if_pos ⟨he, .inr hf⟩, hf]
      exact .stored hb (.refl _)
    next h2 h3 =>
      rw [if_neg fun h => h.2.elim h2 h3]
      exact .of_illegal hb

end Fdtype

end Float

section Execute

variable {cpu after : Cpu} {d : Decoder} {size : Word}

theorem access32_none {t : Option OpcodeType} (ht : d.opcodeType = t) (hl : t ≠ some .load)
    (hs : t ≠ some .s) (hfl : t ≠ some .fl) (hfs : t ≠ some .fs) : access32 cpu d = none := by
  unfold access32
  rw [ht]
  cases t with
  | none => rfl
  | some t =>
    cases t with
    | load => exact absurd rfl hl
    | s => exact absurd rfl hs
    | fl => exact absurd rfl hfl
    | fs => exact absurd rfl hfs
    | _ => rfl

theorem execute32_effect (hamo : d.opcodeType ≠ some .atomic) (hcsr : d.opcodeType ≠ some .csr)
    (h : Cpu.execute32 cpu d = .ok after) : Effect cpu after (access32 cpu d) := by
  unfold Cpu.execute32 at h
  split at h
  case h_1 ht => exact Load.funct3_effect ht h
  case h_4 ht => exact Stype.funct3_effect ht h
  case h_7 ht => exact Fdtype.fl_effect ht h
  case h_8 ht => exact Fdtype.fs_effect ht h
  case h_14 ht => exact absurd ht hamo
  case h_21 ht => exact absurd ht hcsr
  all_goals
    rename d.opcodeType = _ => ht
    rw [access32_none ht (by simp) (by simp) (by simp) (by simp)]
  case h_2 =>
    cases Except.ok.inj h
    exact .quiet (.refl cpu)
  case h_3 => exact .of_assigned (Itype.funct3_assigned h)
  case h_5 => exact .of_assigned (Rtype.funct3_assigned h)
  case h_6 => exact Btype.funct3_effect h
  case h_9 | h_10 | h_11 | h_12 =>
    exact Fdtype.fused_effect (fun _ _ hb => Fdimpl.resultOp_effect hb) h
  case h_13 => exact Fdtype.fother_effect h
  case h_15 => exact .of_assigned (I64.funct3_assigned h)
  case h_16 => exact .of_assigned (R64.funct3_assigned h)
  case h_17 => exact .of_setReg h
  case h_18 => exact .of_setReg h
  case h_19 => exact Jal.jal_effect h
  case h_20 => exact Jalr.jalr_effect h
  case h_22 => exact .of_illegal h

/-- An instruction of the two exempt opcodes. -/
def Decoder.isSystem (d : Decoder) : Bool :=
  d.insnSize = 4 && (d.opcodeType = some .atomic || d.opcodeType = some .csr)

theorem execute_effect (hsys : d.isSystem = false) (h : Cpu.execute cpu d = .ok (size, after)) :
    Effect cpu after (dataAccess cpu d) ∧ size = d.insnSize := by
  unfold dataAccess
  rcases Cpu.execute_cases h with ⟨hs, rfl, hx⟩ | ⟨h4, rfl, hx⟩
  · rw [if_pos hs]
    exact ⟨execute16_effect hs hx, hs.symm⟩
  · have hs : d.insnSize ≠ 2 := by
      rw [h4]
      decide
    rw [if_neg hs]
    simp only [Decoder.isSystem, h4, decide_true, Bool.true_and, Bool.or_eq_false_iff,
      decide_eq_false_iff_not] at hsys
    exact ⟨execute32_effect hsys.1 hsys.2 hx, h4.symm⟩

end Execute

end Rv64gcEmu
