import Rv64gcEmu.CompressedStep
import Rv64gcEmu.FpuStatus

namespace Rv64gcEmu

open BitVec (extractLsb'_append_eq_of_add_le)

/-- What `_loop` does with a word that it has fetched. -/
def Cpu.dispatch (cpu : Cpu) (insn : BitVec 32) : HostM (Word × Cpu) :=
  if insn = 0 then .ok (4, cpu.setException .illegalInstruction 0) else cpu.execute ⟨insn⟩

theorem Cpu.loop_eq_dispatch {before fetched : Cpu} {d : Decoder} (hf : before.Fetched fetched d) :
    before._loop = fetched.dispatch d.insn := by
  obtain ⟨v, hfetch, rfl⟩ := hf.fetch
  unfold _loop dispatch
  simp only [hf.awake, setReg_sleep, setReg_pc, Bool.false_eq_true, if_false]
  rw [hfetch]
  have hexc : fetched.excVal.isSome = false := by rw [hf.exc]; rfl
  change (if fetched.excVal.isSome then _ else _) = _
  rw [hexc]
  rfl

/-- The encodings of 16 bits that are not in RV64DC. -/
inductive Reserved (h : BitVec 16) : Prop
  /-- `C.ADDI4SPN` without an immediate; the halfword 0 is one of them. -/
  | addi4spn (hq : h.extractLsb' 0 2 = 0) (hf : h.extractLsb' 13 3 = 0)
      (himm : h.extractLsb' 5 8 = 0)
  | quadrant0 (hq : h.extractLsb' 0 2 = 0) (hf : h.extractLsb' 13 3 = 4)
  | addiw (hq : h.extractLsb' 0 2 = 1) (hf : h.extractLsb' 13 3 = 1) (hrd : Expand.reg h 7 = 0)
  /-- `C.LUI` and `C.ADDI16SP` without an immediate. -/
  | lui (hq : h.extractLsb' 0 2 = 1) (hf : h.extractLsb' 13 3 = 3) (h12 : h.getLsbD 12 = false)
      (himm : h.extractLsb' 2 5 = 0)
  /-- The two codes beside `C.SUBW` and `C.ADDW`. -/
  | subw (hq : h.extractLsb' 0 2 = 1) (hf : h.extractLsb' 13 3 = 4)
      (hg : h.extractLsb' 10 2 = 3) (h12 : h.getLsbD 12 = true) (h6 : h.getLsbD 6 = true)
  /-- `C.LWSP` and `C.LDSP` to `x0`. -/
  | lwsp (hq : h.extractLsb' 0 2 = 2) (hf : h.extractLsb' 13 3 = 2 ∨ h.extractLsb' 13 3 = 3)
      (hrd : Expand.reg h 7 = 0)
  | jr (hq : h.extractLsb' 0 2 = 2) (hf : h.extractLsb' 13 3 = 4) (h12 : h.getLsbD 12 = false)
      (hrs2 : Expand.reg h 2 = 0) (hrs1 : Expand.reg h 7 = 0)

/-- The encodings that a dispatcher refuses. -/
inductive Refused16 (h : BitVec 16) : Prop
  | quadrant0 (hq : h.extractLsb' 0 2 = 0) (hf : h.extractLsb' 13 3 = 4)
  | subw (hq : h.extractLsb' 0 2 = 1) (hf : h.extractLsb' 13 3 = 4)
      (hg : h.extractLsb' 10 2 = 3) (h12 : h.getLsbD 12 = true) (h6 : h.getLsbD 6 = true)

theorem Refused16.reserved {h : BitVec 16} (hr : Refused16 h) : Reserved h := by
  cases hr with
  | quadrant0 hq hf => exact .quadrant0 hq hf
  | subw hq hf hg h12 h6 => exact .subw hq hf hg h12 h6

/-- An illegal instruction that has changed nothing. -/
structure Rejected (before after : Cpu) : Prop where
  exc : after.excVal = some .illegalInstruction
  regs : after.regs = before.regs
  fregs : after.fregs = before.fregs
  cregs : after.cregs = before.cregs
  bus : after.bus = before.bus
  pc : after.pc = before.pc

theorem rejected_illegal (cpu : Cpu) (e : Word) :
    Rejected cpu (cpu.setException .illegalInstruction e) := ⟨rfl, rfl, rfl, rfl, rfl, rfl⟩

/-- The state apart from what the exception says of its cause. -/
def Cpu.withoutExcData (cpu : Cpu) : Cpu := { cpu with excData := 0 }

theorem Cpu.withoutExcData_illegal (cpu : Cpu) (d d' : Decoder) :
    (cpu.illegal d).withoutExcData = (cpu.illegal d').withoutExcData := rfl

/-- A halfword is rejected exactly when it is reserved, and what follows it in memory makes no
difference to what is seen of the state. -/
structure RejectsReserved (view : Cpu → Cpu) (cpu : Cpu) (hi h : BitVec 16) : Prop where
  rejected : (∃ size after, cpu.dispatch (hi ++ h) = .ok (size, after) ∧ Rejected cpu after) ↔
    Reserved h
  upper : ∀ hi' : BitVec 16, (cpu.dispatch (hi' ++ h)).map (fun r => view r.2) =
    (cpu.dispatch (hi ++ h)).map fun r => view r.2

section Halfword

variable {cpu after : Cpu} {hi h : BitVec 16}

theorem cases_funct3 (f : BitVec 3) :
    f = 0 ∨ f = 1 ∨ f = 2 ∨ f = 3 ∨ f = 4 ∨ f = 5 ∨ f = 6 ∨ f = 7 := by
  revert f
  decide

theorem cases_funct2 (f : BitVec 2) : f = 0 ∨ f = 1 ∨ f = 2 ∨ f = 3 := by
  revert f
  decide

theorem bits65_cases (h6 : h.getLsbD 6 = false) :
    h.extractLsb' 5 2 = 0 ∨ h.extractLsb' 5 2 = 1 := by
  have hb : (h.extractLsb' 5 2).getLsbD 1 = false := by
    rw [BitVec.getLsbD_extractLsb', h6, Bool.and_false]
  generalize h.extractLsb' 5 2 = f at hb ⊢
  revert f
  decide

theorem quadrant0_upper (hf : h.extractLsb' 13 3 ≠ 4) (hi' : BitVec 16) :
    Ctype.quadrant0 cpu (wordOf hi' h) = Ctype.quadrant0 cpu (wordOf hi h) := by
  simp only [Ctype.quadrant0, wordOf_funct3, Ctype.addi4spn, Ctype.fld, Ctype.lw, Ctype.ld,
    Ctype.fsd, Ctype.sw, Ctype.sd, wordOf_compressedRd, wordOf_compressedRs1, wordOf_compressedRs2,
    wordOf_immAddi4spn, wordOf_offsetWord, wordOf_offsetDouble]
  rcases cases_funct3 (h.extractLsb' 13 3) with h3 | h3 | h3 | h3 | h3 | h3 | h3 | h3
  case inr.inr.inr.inr.inl => exact absurd h3 hf
  all_goals
    rw [h3]
    rfl

theorem arith_isSome (hr : ¬(h.getLsbD 12 = true ∧ h.getLsbD 6 = true)) :
    ∃ op, Expand.arith h = some op := by
  unfold Expand.arith
  cases h12 : h.getLsbD 12 with
  | false =>
    rw [if_neg Bool.false_ne_true]
    split <;> exact ⟨_, rfl⟩
  | true =>
    rw [if_pos rfl]
    rcases bits65_cases (Bool.eq_false_iff.mpr fun h6 => hr ⟨h12, h6⟩) with h5 | h5
    · rw [h5]
      exact ⟨_, rfl⟩
    · rw [h5]
      exact ⟨_, rfl⟩

theorem q1op4_upper (hr : ¬(h.extractLsb' 10 2 = 3 ∧ h.getLsbD 12 = true ∧ h.getLsbD 6 = true))
    (hi' : BitVec 16) : Ctype.q1op4 cpu (wordOf hi' h) = Ctype.q1op4 cpu (wordOf hi h) := by
  by_cases hg : h.extractLsb' 10 2 = 3
  · obtain ⟨op, hx⟩ := arith_isSome fun h126 => hr ⟨hg, h126⟩
    rw [arith_like hi' hg hx, arith_like hi hg hx]
  · simp only [Ctype.q1op4, wordOf_funct2, Ctype.srli, Ctype.srai, Ctype.andi, wordOf_compressedRs1,
      wordOf_compressedShamt, wordOf_imm6]
    rcases cases_funct2 (h.extractLsb' 10 2) with h2 | h2 | h2 | h2
    case inr.inr.inr => exact absurd h2 hg
    all_goals
      rw [h2]
      rfl

theorem quadrant1_upper (hr : ¬Refused16 h) (hq : h.extractLsb' 0 2 = 1) (hi' : BitVec 16) :
    Ctype.quadrant1 cpu (wordOf hi' h) = Ctype.quadrant1 cpu (wordOf hi h) := by
  simp only [Ctype.quadrant1, wordOf_funct3, wordOf_rd, Ctype.addi, Ctype.addiw, Ctype.li,
    Ctype.addi16sp, Ctype.lui, Ctype.j, Ctype.beqz, Ctype.bnez, branchOp_eq, wordOf_imm6,
    wordOf_immAddi16sp, wordOf_immLui, wordOf_immJ]
  rcases cases_funct3 (h.extractLsb' 13 3) with h3 | h3 | h3 | h3 | h3 | h3 | h3 | h3
  case inr.inr.inr.inr.inl =>
    rw [h3]
    exact q1op4_upper (fun hs => hr (.subw hq h3 hs.1 hs.2.1 hs.2.2)) hi'
  all_goals
    rw [h3]
    rfl

theorem quadrant2_upper (hi' : BitVec 16) :
    Ctype.quadrant2 cpu (wordOf hi' h) = Ctype.quadrant2 cpu (wordOf hi h) := by
  have hlow : ∀ hi : BitVec 16, (hi ++ h) >>> 2 &&& 0x1f = (h.extractLsb' 2 5).setWidth 32 :=
    fun hi => @wordOf_field hi h 2 5 (by omega)
  simp only [Ctype.quadrant2, wordOf_funct3, wordOf_rd, wordOf_lowReg, Ctype.slli, Ctype.fldsp,
    Ctype.lwsp, Ctype.ldsp, Ctype.jr, Ctype.mv, Ctype.jalr, Ctype.add, Ctype.fsdsp, Ctype.swsp,
    Ctype.sdsp, wordOf_compressedShamt, wordOf_offsetLwsp, wordOf_offsetLdsp, wordOf_offsetSwsp,
    wordOf_offsetSdsp, wordOf_bit12, hlow]

theorem execute16_upper (hr : ¬Refused16 h) (hq : h.extractLsb' 0 2 ≠ 3) (hi' : BitVec 16) :
    cpu.execute16 (wordOf hi' h) = cpu.execute16 (wordOf hi h) := by
  simp only [Cpu.execute16, wordOf_opcode]
  rcases cases_funct2 (h.extractLsb' 0 2) with h0 | h0 | h0 | h0
  · rw [h0]
    exact quadrant0_upper (fun hf => hr (.quadrant0 h0 hf)) hi'
  · rw [h0]
    exact quadrant1_upper hr h0 hi'
  · rw [h0]
    exact quadrant2_upper hi'
  · exact absurd h0 hq

theorem execute16_refused (hr : Refused16 h) :
    cpu.execute16 (wordOf hi h) = .ok (cpu.illegal (wordOf hi h)) := by
  cases hr with
  | quadrant0 hq hf =>
    simp only [Cpu.execute16, wordOf_opcode, Ctype.quadrant0, wordOf_funct3]
    rw [hq, hf]
    rfl
  | subw hq hf hg h12 h6 =>
    have hsel : (hi ++ h) >>> 5 &&& 0x03 = (h.extractLsb' 5 2).setWidth 32 :=
      @wordOf_field hi h 5 2 (by omega)
    have h5 : h.extractLsb' 5 2 = 2 ∨ h.extractLsb' 5 2 = 3 := by
      have hb : (h.extractLsb' 5 2).getLsbD 1 = true := by
        rw [BitVec.getLsbD_extractLsb', h6]
        rfl
      generalize h.extractLsb' 5 2 = f at hb ⊢
      revert f
      decide
    simp only [Cpu.execute16, wordOf_opcode, Ctype.quadrant1, wordOf_funct3, Ctype.q1op4,
      wordOf_funct2, wordOf_bit12, hsel]
    rw [hq, hf, hg, h12]
    rcases h5 with h5 | h5
    · rw [h5]
      rfl
    · rw [h5]
      rfl

theorem update_keepsLegal {rd : BitVec 5} {v : Word} (hx : Ctype.update cpu rd v = .ok after) :
    KeepsLegal cpu after := by
  cases Except.ok.inj hx
  exact .of_excVal rfl

theorem loadReg_keepsLegal {address : Word} {length : Width} {extend : Word → Word}
    {rd : BitVec 5} (hx : Ctype.loadReg address length extend rd cpu = .ok after) :
    KeepsLegal cpu after := by
  obtain ⟨⟨v, c⟩, hl, hx⟩ := Except.bind_eq_ok_iff.mp hx
  cases Except.ok.inj hx
  exact (KeepsLegal.load hl).trans (.of_excVal rfl)

theorem loadFreg_keepsLegal {address : Word} {rd : BitVec 5}
    (hx : Ctype.loadFreg address rd cpu = .ok after) : KeepsLegal cpu after := by
  obtain ⟨⟨v, c⟩, hl, hx⟩ := Except.bind_eq_ok_iff.mp hx
  cases Except.ok.inj hx
  exact (KeepsLegal.load hl).trans (.of_excVal rfl)

theorem quadrant0_keepsLegal {d : Decoder} (hf : d.compressedFunct3 ≠ 4)
    (hx : Ctype.quadrant0 cpu d = .ok after) : KeepsLegal cpu after := by
  unfold Ctype.quadrant0 at hx
  split at hx
  next => exact update_keepsLegal hx
  next => exact loadFreg_keepsLegal hx
  next => exact loadReg_keepsLegal hx
  next => exact loadReg_keepsLegal hx
  next h4 => exact absurd h4 hf
  next => exact .store hx
  next => exact .store hx
  next => exact .store hx

theorem quadrant2_keepsLegal {d : Decoder} (hx : Ctype.quadrant2 cpu d = .ok after) :
    KeepsLegal cpu after := by
  unfold Ctype.quadrant2 at hx
  split at hx
  next => exact update_keepsLegal hx
  next => exact loadFreg_keepsLegal hx
  next => exact loadReg_keepsLegal hx
  next => exact loadReg_keepsLegal hx
  next =>
    simp only at hx
    split at hx
    next =>
      split at hx
      next =>
        cases Except.ok.inj hx
        exact .of_excVal rfl
      next => exact update_keepsLegal hx
    next =>
      split at hx
      next =>
        cases Except.ok.inj hx
        exact .of_excVal rfl
      next => exact update_keepsLegal hx
  next => exact .store hx
  next => exact .store hx
  next => exact .store hx

theorem q1op4_keepsLegal
    (hr : ¬(h.extractLsb' 10 2 = 3 ∧ h.getLsbD 12 = true ∧ h.getLsbD 6 = true))
    (hx : Ctype.q1op4 cpu (wordOf hi h) = .ok after) : KeepsLegal cpu after := by
  by_cases hg : h.extractLsb' 10 2 = 3
  · obtain ⟨op, ha⟩ := arith_isSome fun h126 => hr ⟨hg, h126⟩
    rw [arith_like hi hg ha] at hx
    cases Except.ok.inj hx
    exact .of_excVal rfl
  · unfold Ctype.q1op4 at hx
    split at hx
    next => exact update_keepsLegal hx
    next => exact update_keepsLegal hx
    next => exact update_keepsLegal hx
    next h0 h1 h2 =>
      exfalso
      rw [wordOf_funct2] at h0 h1 h2
      generalize h.extractLsb' 10 2 = f at h0 h1 h2 hg
      revert f
      decide

theorem branchOp_keepsLegal {cond : Word → Bool} {d : Decoder}
    (hx : Ctype.branchOp cond cpu d = .ok after) : KeepsLegal cpu after := by
  unfold Ctype.branchOp at hx
  split at hx
  next =>
    cases Except.ok.inj hx
    exact .of_excVal rfl
  next =>
    cases Except.ok.inj hx
    exact .of_excVal rfl

theorem quadrant1_keepsLegal (hr : ¬Refused16 h) (hq : h.extractLsb' 0 2 = 1)
    (hx : Ctype.quadrant1 cpu (wordOf hi h) = .ok after) : KeepsLegal cpu after := by
  unfold Ctype.quadrant1 at hx
  split at hx
  next => exact update_keepsLegal hx
  next => exact update_keepsLegal hx
  next => exact update_keepsLegal hx
  next =>
    split at hx
    next =>
      cases Except.ok.inj hx
      exact .of_excVal rfl
    next =>
      split at hx
      next => exact update_keepsLegal hx
      next => exact update_keepsLegal hx
  next hf =>
    rw [wordOf_funct3] at hf
    exact q1op4_keepsLegal (fun hs => hr (.subw hq hf hs.1 hs.2.1 hs.2.2)) hx
  next =>
    cases Except.ok.inj hx
    exact .of_excVal rfl
  next => exact branchOp_keepsLegal hx
  next => exact branchOp_keepsLegal hx

theorem execute16_keepsLegal (hr : ¬Refused16 h) (hq : h.extractLsb' 0 2 ≠ 3)
    (hx : cpu.execute16 (wordOf hi h) = .ok after) : KeepsLegal cpu after := by
  simp only [Cpu.execute16, wordOf_opcode] at hx
  rcases cases_funct2 (h.extractLsb' 0 2) with h0 | h0 | h0 | h0
  · rw [h0] at hx
    refine @quadrant0_keepsLegal cpu after (wordOf hi h) ?_ hx
    rw [wordOf_funct3]
    exact fun hf => hr (.quadrant0 h0 hf)
  · rw [h0] at hx
    exact quadrant1_keepsLegal hr h0 hx
  · rw [h0] at hx
    exact @quadrant2_keepsLegal cpu after (wordOf hi h) hx
  · exact absurd h0 hq

theorem low_of_append : (hi ++ h).extractLsb' 0 16 = h := by
  rw [extractLsb'_append_eq_of_add_le (by omega), BitVec.extractLsb'_eq_self]

theorem high_of_append : (hi ++ h).extractLsb' 16 16 = hi := by
  rw [BitVec.extractLsb'_append_eq_of_le (by omega), BitVec.extractLsb'_eq_self]

theorem halfword_of_zero (hz : (hi ++ h : BitVec 32) = 0) : h = 0 := by
  rw [← @low_of_append hi h, hz]
  rfl

theorem reserved_zero : Reserved 0 := .addi4spn rfl rfl rfl

theorem dispatch_of_halfword (hq : h.extractLsb' 0 2 ≠ 3) (hz : (hi ++ h : BitVec 32) ≠ 0) :
    cpu.dispatch (hi ++ h) = cpu.execute16 (wordOf hi h) >>= fun c => .ok (2, c) := by
  have hsize : (wordOf hi h).insnSize = 2 := by
    unfold Decoder.insnSize
    rw [wordOf_opcode, if_neg hq]
  unfold Cpu.dispatch Cpu.execute
  rw [if_neg hz]
  simp only [hsize, if_true]

theorem dispatch_keepsLegal {size : Word} (hr : ¬Refused16 h) (hq : h.extractLsb' 0 2 ≠ 3)
    (hz : (hi ++ h : BitVec 32) ≠ 0) (hx : cpu.dispatch (hi ++ h) = .ok (size, after)) :
    KeepsLegal cpu after := by
  rw [dispatch_of_halfword hq hz] at hx
  obtain ⟨c, hc, hx⟩ := Except.bind_eq_ok_iff.mp hx
  obtain ⟨_, rfl⟩ := Prod.mk.inj (Except.ok.inj hx)
  exact execute16_keepsLegal hr hq hc

theorem dispatch_refused (hr : Refused16 h) (hq : h.extractLsb' 0 2 ≠ 3) :
    cpu.dispatch (hi ++ h) = .ok (2, cpu.illegal (wordOf hi h)) := by
  have hz : (hi ++ h : BitVec 32) ≠ 0 := by
    intro hz
    obtain rfl := halfword_of_zero hz
    cases hr with
    | quadrant0 _ hf => exact absurd hf (by decide)
    | subw hq => exact absurd hq (by decide)
  rw [dispatch_of_halfword hq hz, execute16_refused hr]
  rfl

variable {view : Cpu → Cpu}

theorem rejectsReserved_of_legal (hexc : cpu.excVal = none) (hq : h.extractLsb' 0 2 ≠ 3)
    (hl : ¬Reserved h) : RejectsReserved view cpu hi h := by
  have hr : ¬Refused16 h := fun hr => hl hr.reserved
  have hz : ∀ hi : BitVec 16, (hi ++ h : BitVec 32) ≠ 0 := fun hi hz =>
    hl (halfword_of_zero hz ▸ reserved_zero)
  refine ⟨⟨?_, fun h' => absurd h' hl⟩, fun hi' => ?_⟩
  · rintro ⟨size, after, hx, hrej⟩
    exact absurd hrej.exc (dispatch_keepsLegal hr hq (hz hi) hx (by simp [hexc]))
  · rw [dispatch_of_halfword hq (hz hi'), dispatch_of_halfword hq (hz hi), execute16_upper hr hq hi']

theorem rejectsReserved_of_refused (hr : Refused16 h) (hq : h.extractLsb' 0 2 ≠ 3) :
    RejectsReserved Cpu.withoutExcData cpu hi h := by
  refine ⟨iff_of_true ⟨2, _, dispatch_refused hr hq, rejected_illegal cpu _⟩ hr.reserved, fun hi' => ?_⟩
  rw [dispatch_refused hr hq, dispatch_refused hr hq]
  exact congrArg Except.ok (Cpu.withoutExcData_illegal cpu _ _)

/-- The exception tells the halfwords behind a refused one apart. -/
theorem not_rejectsReserved_of_refused (hr : Refused16 h) (hq : h.extractLsb' 0 2 ≠ 3) :
    ¬RejectsReserved id cpu hi h := by
  intro hrej
  have hsame : ∀ hi' : BitVec 16, hi' = hi := by
    intro hi'
    have hu := hrej.upper hi'
    rw [dispatch_refused hr hq, dispatch_refused hr hq] at hu
    have hdata : (hi' ++ h : BitVec 32).setWidth 64 = (hi ++ h : BitVec 32).setWidth 64 :=
      congrArg Cpu.excData (Except.ok.inj hu)
    have hword := congrArg (fun w => (w.setWidth 32).extractLsb' 16 16) hdata
    simp only [BitVec.setWidth_setWidth_of_le _ (show 32 ≤ 64 by omega), BitVec.setWidth_eq] at hword
    rwa [high_of_append, high_of_append] at hword
  exact absurd ((hsame 0).trans (hsame 1).symm) (by decide)

/-- A reserved halfword that no dispatcher refuses is executed, if not with zeros behind it. -/
theorem not_rejectsReserved (hexc : cpu.excVal = none) (hq : h.extractLsb' 0 2 ≠ 3)
    (hres : Reserved h) (hr : ¬Refused16 h) (hview : ∀ c, (view c).excVal = c.excVal) :
    ¬RejectsReserved view cpu hi h := by
  have hlegal : cpu.excVal ≠ some .illegalInstruction := by simp [hexc]
  intro hrej
  by_cases hz : (hi ++ h : BitVec 32) = 0
  · have hone : (1#16 ++ h : BitVec 32) ≠ 0 := by
      intro h1
      have hhigh := @high_of_append 1#16 h
      rw [h1] at hhigh
      exact absurd hhigh (by decide)
    have hzero : cpu.dispatch (hi ++ h) = .ok (4, cpu.setException .illegalInstruction 0) := if_pos hz
    have hu := hrej.upper 1#16
    rw [hzero] at hu
    cases hx : cpu.dispatch (1#16 ++ h) with
    | error e =>
      rw [hx] at hu
      cases hu
    | ok r =>
      rw [hx] at hu
      have hexc' := congrArg Cpu.excVal (Except.ok.inj hu)
      simp only [hview] at hexc'
      exact dispatch_keepsLegal hr hq hone hx hlegal hexc'
  · obtain ⟨size, after, hx, hrejected⟩ := hrej.rejected.mpr hres
    exact dispatch_keepsLegal hr hq hz hx hlegal hrejected.exc

/-- Of the reserved halfwords only those that a dispatcher refuses are rejected, and even
there the exception shows what follows the halfword in memory. -/
theorem rejectsReserved_iff (hexc : cpu.excVal = none) (hq : h.extractLsb' 0 2 ≠ 3) :
    (RejectsReserved Cpu.withoutExcData cpu hi h ↔ (Reserved h → Refused16 h)) ∧
      (RejectsReserved id cpu hi h ↔ ¬Reserved h) := by
  by_cases hres : Reserved h
  · by_cases hr : Refused16 h
    · exact ⟨iff_of_true (rejectsReserved_of_refused hr hq) fun _ => hr,
        iff_of_false (not_rejectsReserved_of_refused hr hq) (not_not.mpr hres)⟩
    · exact ⟨iff_of_false (not_rejectsReserved hexc hq hres hr fun _ => rfl) fun h => hr (h hres),
        iff_of_false (not_rejectsReserved hexc hq hres hr fun _ => rfl) (not_not.mpr hres)⟩
  · exact ⟨iff_of_true (rejectsReserved_of_legal hexc hq hres) fun h => absurd h hres,
      iff_of_true (rejectsReserved_of_legal hexc hq hres) hres⟩

end Halfword

/-- A halfword 0 with a `c.nop` behind it. -/
def zeroHalfword : Cpu := Cpu.ofImage [0x00, 0x00, 0x01, 0x00] (by decide)

theorem rejectsReserved_iff_zeroHalfword :
    (RejectsReserved Cpu.withoutExcData zeroHalfword 0x0001 0 ↔ (Reserved 0 → Refused16 0)) ∧
      (RejectsReserved id zeroHalfword 0x0001 0 ↔ ¬Reserved 0) :=
  rejectsReserved_iff rfl (by decide)

theorem zeroHalfword_executed : ¬ ∀ (cpu : Cpu) (hi h : BitVec 16), cpu.excVal = none →
    h.extractLsb' 0 2 ≠ 3 → RejectsReserved Cpu.withoutExcData cpu hi h := by
  intro hall
  have hrej := hall zeroHalfword 0x0001 0 rfl (by decide)
  obtain ⟨size, after, hx, hr⟩ := hrej.rejected.mpr reserved_zero
  cases Except.ok.inj hx
  exact absurd hr.exc (by decide)

end Rv64gcEmu
