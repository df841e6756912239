import Rv64gcEmu.FloatMemory

namespace Rv64gcEmu

open Fdimpl (getF setF setExceptions getCanonicalNan)

namespace SingleResult

/-- `FLW`. -/
def IsLoad (d : Decoder) : Prop := d.opcodeType = some .fl ∧ d.funct3 = 2

/-- `FMV.W.X`. -/
def IsMove (d : Decoder) : Prop := d.opcodeType = some .fother ∧ d.funct7 = 0x78

instance (d : Decoder) : Decidable (IsLoad d) := inferInstanceAs (Decidable (_ ∧ _))

instance (d : Decoder) : Decidable (IsMove d) := inferInstanceAs (Decidable (_ ∧ _))

/-- The result of an operation on the operands that `T val = cpu.fregs[r]` gives, if `funct7` stands
for one with a `float` result. -/
def ofFunct7 (cpu : Cpu) (d : Decoder) : Option (BitVec 32) :=
  let fpu := cpu.host.fpu
  let val1 : Fmt.single.Bits := getF .single cpu d.rs1
  let val2 : Fmt.single.Bits := getF .single cpu d.rs2
  let sign : Fmt.single.Bits := Fmt.signMask .single
  let magnitude : Fmt.single.Bits := sign - 1
  let ordered (pick : Fmt.single.Bits) : Fmt.single.Bits :=
    if Fmt.isNan val1 && Fmt.isNan val2 then getCanonicalNan .single
    else if Fmt.isNan val1 then val2
    else if Fmt.isNan val2 then val1
    else pick
  match d.funct7 with
  | 0x00 => some (fpu.add .single val1 val2).1
  | 0x04 => some (fpu.sub .single val1 val2).1
  | 0x08 => some (fpu.mul .single val1 val2).1
  | 0x0c => some (fpu.div .single val1 val2).1
  | 0x10 =>
    match d.funct3 with
    | 0x0 => some (Fmt.copysign val1 val2)
    | 0x1 => some (Fmt.copysign val1 (Fmt.neg val2))
    | 0x2 => some ((val1 &&& magnitude) ||| ((val1 &&& sign) ^^^ (val2 &&& sign)))
    | _ => none
  | 0x14 =>
    match d.funct3 with
    | 0x0 => some (ordered (if Fmt.lt val1 val2 then val1 else if Fmt.lt val2 val1 then val2
        else if Fmt.sign val1 then val1 else val2))
    | 0x1 => some (ordered (if Fmt.lt val2 val1 then val1 else if Fmt.lt val1 val2 then val2
        else if Fmt.sign val1 then val2 else val1))
    | _ => none
  | 0x20 =>
    let val := (fpu.convert .double .single (getF .double cpu d.rs1)).1
    some (if Fmt.isNan val then getCanonicalNan .single else val)
  | 0x2c => some (fpu.sqrt .single val1).1
  | 0x68 =>
    let val := cpu.regs d.rs1
    match d.rs2 with
    | 0x00 => some (fpu.ofInt .single (low32 val).toInt).1
    | 0x01 => some (fpu.ofInt .single (low32 val).toNat).1
    | 0x02 => some (fpu.ofInt .single val.toInt).1
    | 0x03 => some (fpu.ofInt .single val.toNat).1
    | _ => none
  | 0x78 => some ((cpu.regs d.rs1).setWidth 32)
  | _ => none

/-- The result of an instruction that writes a `float` to an `f` register. -/
def of (cpu : Cpu) (d : Decoder) : Option (HostM (BitVec 32)) :=
  let fpu := cpu.host.fpu
  let val1 : Fmt.single.Bits := getF .single cpu d.rs1
  let val2 : Fmt.single.Bits := getF .single cpu d.rs2
  let val3 : Fmt.single.Bits := getF .single cpu d.rs3
  let fused (result : Fmt.single.Bits) : Option (HostM (BitVec 32)) :=
    if d.funct2 = 0 then some (.ok result) else none
  match d.opcodeType with
  | some .fl =>
    if d.funct3 = 2 then
      some (Mmu.load cpu (cpu.regs d.rs1 + d.immI) .w32 >>= fun r => .ok (r.1.setWidth 32))
    else none
  | some .fmadd => fused (fpu.mulAdd .single val1 val2 val3).1
  | some .fmsub => fused (fpu.mulSub .single val1 val2 val3).1
  | some .fnmadd => fused (fpu.mulAdd .single (Fmt.neg val1) val2 val3).1
  | some .fnmsub => fused (fpu.mulSub .single (Fmt.neg val1) val2 val3).1
  | some .fother => (ofFunct7 cpu d).map .ok
  | _ => none

variable {cpu : Cpu} {d : Decoder} {r : BitVec 32}

/-- Every result of the floating-point unit is assigned as a `float`. -/
def AssignsFloat (cpu : Cpu) (d : Decoder) (r : BitVec 32) : Prop :=
  ∃ c : Cpu, cpu.execute d = .ok (4, setExceptions (setF (f := .single) c d.rd r))

theorem assigns_of_fused (op : Fmt → Cpu → Decoder → HostM Cpu) {t : OpcodeType}
    (hfs : cpu.cregs.isFpuEnabled = true) (ht : d.opcodeType = some t)
    (hbody : cpu.execute32 d = Fdtype.fused op cpu d) (h2 : d.funct2 = 0)
    (hop : ∃ c : Cpu, op .single cpu d = .ok (setF (f := .single) c d.rd r)) :
    AssignsFloat cpu d r := by
  obtain ⟨c, hop⟩ := hop
  refine ⟨c, ?_⟩
  rw [Cpu.execute_of_type ht, hbody, Fdtype.fused, Fdimpl.checked_on hfs, if_pos h2, hop]
  rfl

theorem assigns_of_op (op : Cpu → Decoder → HostM Cpu)
    (hfs : cpu.cregs.isFpuEnabled = true) (ht : d.opcodeType = some .fother)
    (h7 : Fdtype.fotherOp d.funct7 = some op)
    (hop : ∃ c : Cpu, op cpu d = .ok (setF (f := .single) c d.rd r)) : AssignsFloat cpu d r := by
  obtain ⟨c, hop⟩ := hop
  refine ⟨c, ?_⟩
  rw [execute_fother _ hfs ht h7, hop]
  rfl

theorem assigns_of_funct7 (hfs : cpu.cregs.isFpuEnabled = true) (ht : d.opcodeType = some .fother)
    (h : ofFunct7 cpu d = some r) : IsMove d ∨ AssignsFloat cpu d r := by
  unfold ofFunct7 at h
  simp only at h
  split at h
  next h7 =>
    cases h
    exact .inr (assigns_of_op _ hfs ht (by rw [h7]; rfl) ⟨_, rfl⟩)
  next h7 =>
    cases h
    exact .inr (assigns_of_op _ hfs ht (by rw [h7]; rfl) ⟨_, rfl⟩)
  next h7 =>
    cases h
    exact .inr (assigns_of_op _ hfs ht (by rw [h7]; rfl) ⟨_, rfl⟩)
  next h7 =>
    cases h
    exact .inr (assigns_of_op _ hfs ht (by rw [h7]; rfl) ⟨_, rfl⟩)
  next h7 =>
    refine .inr (assigns_of_op (Fdtype.fsgnjBy .single) hfs ht (by rw [h7]; rfl) ?_)
    split at h
    next h3 =>
      cases h
      rw [Fdtype.fsgnjBy, h3]
      exact ⟨_, rfl⟩
    next h3 =>
      cases h
      rw [Fdtype.fsgnjBy, h3]
      exact ⟨_, rfl⟩
    next h3 =>
      cases h
      rw [Fdtype.fsgnjBy, h3]
      exact ⟨_, rfl⟩
    next => cases h
  next h7 =>
    refine .inr (assigns_of_op (Fdtype.fminmaxBy .single) hfs ht (by rw [h7]; rfl) ?_)
    split at h
    next h3 =>
      cases h
      rw [Fdtype.fminmaxBy, h3]
      exact ⟨_, rfl⟩
    next h3 =>
      cases h
      rw [Fdtype.fminmaxBy, h3]
      exact ⟨_, rfl⟩
    next => cases h
  next h7 =>
    cases h
    exact .inr (assigns_of_op _ hfs ht (by rw [h7]; rfl) ⟨_, rfl⟩)
  next h7 =>
    cases h
    exact .inr (assigns_of_op _ hfs ht (by rw [h7]; rfl) ⟨_, rfl⟩)
  next h7 =>
    refine .inr (assigns_of_op (Fdimpl.fcvtsdw .single) hfs ht (by rw [h7]; rfl) ?_)
    split at h
    next h2 =>
      cases h
      rw [Fdimpl.fcvtsdw, h2]
      exact ⟨_, rfl⟩
    next h2 =>
      cases h
      rw [Fdimpl.fcvtsdw, h2]
      exact ⟨_, rfl⟩
    next h2 =>
      cases h
      rw [Fdimpl.fcvtsdw, h2]
      exact ⟨_, rfl⟩
    next h2 =>
      cases h
      rw [Fdimpl.fcvtsdw, h2]
      exact ⟨_, rfl⟩
    next => cases h
  next h7 => exact .inl ⟨ht, h7⟩
  next => cases h

theorem assigns_of_result (hfs : cpu.cregs.isFpuEnabled = true) (h : of cpu d = some (.ok r)) :
    IsLoad d ∨ IsMove d ∨ AssignsFloat cpu d r := by
  have hfused : ∀ {res : BitVec 32},
      (if d.funct2 = 0 then some (.ok res) else none : Option (HostM (BitVec 32))) = some (.ok r) →
        d.funct2 = 0 ∧ res = r := by
    intro res hr
    split at hr
    next h2 => exact ⟨h2, Except.ok.inj (Option.some.inj hr)⟩
    next => cases hr
  unfold of at h
  simp only at h
  split at h
  next ht =>
    split at h
    next h3 => exact .inl ⟨ht, h3⟩
    next => cases h
  next ht =>
    obtain ⟨h2, rfl⟩ := hfused h
    exact .inr (.inr (assigns_of_fused Fdimpl.fmadd hfs ht (by rw [Cpu.execute32, ht]; rfl) h2
      ⟨_, rfl⟩))
  next ht =>
    obtain ⟨h2, rfl⟩ := hfused h
    exact .inr (.inr (assigns_of_fused Fdimpl.fmsub hfs ht (by rw [Cpu.execute32, ht]; rfl) h2
      ⟨_, rfl⟩))
  next ht =>
    obtain ⟨h2, rfl⟩ := hfused h
    exact .inr (.inr (assigns_of_fused Fdimpl.fnmadd hfs ht (by rw [Cpu.execute32, ht]; rfl) h2
      ⟨_, rfl⟩))
  next ht =>
    obtain ⟨h2, rfl⟩ := hfused h
    exact .inr (.inr (assigns_of_fused Fdimpl.fnmsub hfs ht (by rw [Cpu.execute32, ht]; rfl) h2
      ⟨_, rfl⟩))
  next ht =>
    obtain ⟨x, hx, hr⟩ := Option.map_eq_some_iff.mp h
    cases Except.ok.inj hr
    exact .inr (assigns_of_funct7 hfs ht hx)
  next => cases h

theorem execute_load (hfs : cpu.cregs.isFpuEnabled = true) (hd : IsLoad d)
    (h : of cpu d = some (.ok r)) : ∃ after, cpu.execute d = .ok (4, after) ∧
      after.fregs d.rd = 0xffffffff#32 ++ r := by
  unfold of at h
  simp only [hd.1, if_pos hd.2] at h
  obtain ⟨⟨v, c⟩, hl, hr⟩ := Except.bind_eq_ok_iff.mp (Option.some.inj h)
  cases Except.ok.inj hr
  have hload : Mmu.load cpu (cpu.regs d.rs1 + d.flOffset) Fmt.single.length = .ok (v, c) := by
    rw [d.flOffset_eq]
    exact hl
  refine ⟨setExceptions (c.setFreg d.rd (Fmt.single.box v)), ?_, ?_⟩
  · rw [execute_fl (f := .single) hfs hd.1 hd.2, hload]
    rfl
  · rw [(Cpu.FlagsOnly.setExceptions _).fregs]
    exact Function.update_self ..

theorem execute_move (hfs : cpu.cregs.isFpuEnabled = true) (hd : IsMove d) :
    cpu.execute d = .ok (4, setExceptions (cpu.setFreg d.rd (cpu.regs d.rs1))) := by
  rw [execute_fother (Fdimpl.fmvx .single) hfs hd.1 (by rw [hd.2]; rfl)]
  rfl

theorem append_eq_iff (v : Word) (hi : BitVec 32) :
    v = hi ++ v.setWidth 32 ↔ v.extractLsb' 32 32 = hi := by
  have hparts : v.extractLsb' 32 32 ++ v.setWidth 32 = v := by
    apply BitVec.eq_of_getLsbD_eq
    intro i hi'
    rw [BitVec.getLsbD_append, BitVec.getLsbD_setWidth, BitVec.getLsbD_extractLsb']
    by_cases hlt : i < 32
    · simp [hlt]
    · have hadd : 32 + (i - 32) = i := by omega
      have hsub : i - 32 < 32 := by omega
      simp [hlt, hadd, hsub]
  constructor
  · intro h
    exact (congrArg (BitVec.extractLsb' 32 32) h).trans BitVec.extractLsb'_append_eq_left
  · intro h
    rw [← h, hparts]

/-- The destination holds the result in its low bits, and has all ones above it. -/
def NanBoxes (cpu : Cpu) (d : Decoder) (r : BitVec 32) : Prop :=
  ∃ after, cpu.execute d = .ok (4, after) ∧ after.fregs d.rd = 0xffffffff#32 ++ r

/-- A `float` operand; one without all ones above it is the canonical NaN. -/
def unboxed (v : Word) : BitVec 32 :=
  if v.extractLsb' 32 32 = 0xffffffff#32 then v.setWidth 32 else 0x7fc00000#32

theorem getF_eq_unboxed_iff (q : BitVec 5) : getF .single cpu q = unboxed (cpu.fregs q) ↔
    (cpu.fregs q).extractLsb' 32 32 = 0xffffffff#32 ∨ (cpu.fregs q).setWidth 32 = 0x7fc00000#32 := by
  unfold unboxed
  split
  next h => exact iff_of_true rfl (.inl h)
  next h => exact (or_iff_right h).symm

theorem assigns_fregs {c : Cpu} (hx : cpu.execute d = .ok (4, setExceptions
    (setF (f := .single) c d.rd r))) : ∃ after, cpu.execute d = .ok (4, after) ∧
      after.fregs d.rd = 0#32 ++ r := by
  refine ⟨_, hx, ?_⟩
  rw [(Cpu.FlagsOnly.setExceptions _).fregs]
  refine (Function.update_self ..).trans ?_
  exact BitVec.setWidth_eq_append (by decide : 32 ≤ 64)

theorem move_fregs (hfs : cpu.cregs.isFpuEnabled = true) (hd : IsMove d) :
    ∃ after, cpu.execute d = .ok (4, after) ∧ after.fregs d.rd = cpu.regs d.rs1 := by
  refine ⟨_, execute_move hfs hd, ?_⟩
  rw [(Cpu.FlagsOnly.setExceptions _).fregs]
  exact Function.update_self ..

theorem result_of_move (hd : IsMove d) (h : of cpu d = some (.ok r)) :
    r = (cpu.regs d.rs1).setWidth 32 := by
  unfold of ofFunct7 at h
  simp only [hd.1, hd.2] at h
  exact (Except.ok.inj (Option.some.inj h)).symm

theorem low_of_result (hfs : cpu.cregs.isFpuEnabled = true) (h : of cpu d = some (.ok r)) :
    ∃ after, cpu.execute d = .ok (4, after) ∧ (after.fregs d.rd).setWidth 32 = r := by
  rcases assigns_of_result hfs h with hl | hm | ⟨c, hx⟩
  · obtain ⟨after, hx, he⟩ := execute_load hfs hl h
    exact ⟨after, hx, by rw [he, BitVec.setWidth_append_eq_right]⟩
  · obtain ⟨after, hx, he⟩ := move_fregs hfs hm
    exact ⟨after, hx, by rw [he, result_of_move hm h]⟩
  · obtain ⟨after, hx, he⟩ := assigns_fregs hx
    exact ⟨after, hx, by rw [he, BitVec.setWidth_append_eq_right]⟩

theorem nanBoxes_of_execute {after : Cpu} (hx : cpu.execute d = .ok (4, after)) :
    NanBoxes cpu d r ↔ after.fregs d.rd = 0xffffffff#32 ++ r := by
  constructor
  · rintro ⟨a, ha, he⟩
    rw [hx] at ha
    obtain ⟨_, rfl⟩ := Prod.mk.inj (Except.ok.inj ha)
    exact he
  · intro he
    exact ⟨after, hx, he⟩

theorem nanBoxes_iff_load_or_move (hfs : cpu.cregs.isFpuEnabled = true)
    (h : of cpu d = some (.ok r)) : NanBoxes cpu d r ↔
      IsLoad d ∨ IsMove d ∧ (cpu.regs d.rs1).extractLsb' 32 32 = 0xffffffff#32 := by
  by_cases hl : IsLoad d
  · exact iff_of_true (execute_load hfs hl h) (.inl hl)
  rw [or_iff_right hl]
  by_cases hm : IsMove d
  · obtain ⟨after, hx, he⟩ := move_fregs hfs hm
    rw [nanBoxes_of_execute hx, he, result_of_move hm h, append_eq_iff, and_iff_right hm]
  · obtain ⟨c, hx⟩ := (assigns_of_result hfs h).resolve_left hl |>.resolve_left hm
    obtain ⟨after, hx, he⟩ := assigns_fregs hx
    rw [nanBoxes_of_execute hx, he]
    refine iff_of_false (fun hb => ?_) fun hb => hm hb.1
    have hup := congrArg (BitVec.extractLsb' 32 32) hb
    rw [BitVec.extractLsb'_append_eq_left, BitVec.extractLsb'_append_eq_left] at hup
    exact absurd hup (by decide)

/-- The result of an instruction with a `float` result stands in the low bits, boxed if the
instruction is `FLW`, or `FMV.W.X` of a register with all ones in its upper half; and an operand is
read as if it was boxed. -/
theorem nanBoxed_iff (hfs : cpu.cregs.isFpuEnabled = true) (h : of cpu d = some (.ok r)) :
    (∃ after, cpu.execute d = .ok (4, after) ∧ (after.fregs d.rd).setWidth 32 = r) ∧
    (NanBoxes cpu d r ↔
      IsLoad d ∨ IsMove d ∧ (cpu.regs d.rs1).extractLsb' 32 32 = 0xffffffff#32) ∧
    ∀ q, getF .single cpu q = unboxed (cpu.fregs q) ↔
      (cpu.fregs q).extractLsb' 32 32 = 0xffffffff#32 ∨
        (cpu.fregs q).setWidth 32 = 0x7fc00000#32 :=
  ⟨low_of_result hfs h, nanBoxes_iff_load_or_move hfs h, getF_eq_unboxed_iff⟩

end SingleResult

/-- `fsgnj.s f5, f7, f7`. -/
theorem nanBoxed_iff_sign :
    ¬SingleResult.NanBoxes floatCpu ⟨0x207382d3⟩ ((floatCpu.fregs 7).setWidth 32) := by
  have h := @SingleResult.nanBoxed_iff floatCpu ⟨0x207382d3⟩ _ (by decide) rfl
  exact fun hb => absurd (h.2.1.mp hb) (by decide)

/-- `fmv.w.x f5, x6` of a number that is not negative. -/
theorem move_not_boxed : ¬∀ (cpu : Cpu) (d : Decoder) (r : BitVec 32),
    cpu.cregs.isFpuEnabled = true → SingleResult.of cpu d = some (.ok r) →
      SingleResult.NanBoxes cpu d r := by
  intro h
  have hb := h floatCpu ⟨0xf00302d3⟩ 0x80000100 (by decide) rfl
  have hcond := (SingleResult.nanBoxes_iff_load_or_move (by decide) rfl).mp hb
  exact absurd hcond (by decide)

end Rv64gcEmu
