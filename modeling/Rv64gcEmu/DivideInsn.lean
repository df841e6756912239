import Rv64gcEmu.RegisterOps
import Rv64gcEmu.WordDivision

namespace Rv64gcEmu

open WordDivision (Op Overflows)

/-- The `funct3` of `DIV`, `DIVU`, `REM` and `REMU`, and of the `W` forms. -/
def divideFunct3 : Op → BitVec 3
  | .div => 4
  | .divu => 5
  | .rem => 6
  | .remu => 7

theorem checkSignedDiv_eq_ok_iff {w : Nat} {n m : BitVec w} {x v : Word} :
    (checkSignedDiv n m >>= fun _ => .ok x) = .ok v ↔ ¬(m = 0 ∨ Overflows n m) ∧ x = v :=
  ite_undefined_eq_ok_iff

theorem checkUnsignedDiv_eq_ok_iff {w : Nat} {m : BitVec w} {x v : Word} :
    (checkUnsignedDiv m >>= fun _ => .ok x) = .ok v ↔ ¬m = 0 ∧ x = v :=
  ite_undefined_eq_ok_iff

namespace Rtype

variable {cpu : Cpu} {d : Decoder}

/-- The dividends that `DIV` by -1 goes wrong for: it tells the one with a quotient out of range from
another. -/
def DivSlips (a b : Word) : Prop :=
  b = -1 ∧ (a = (BitVec.intMin 32).signExtend 64 ∨ a = BitVec.intMin 64)

theorem div_iff : div cpu d =
    .ok (cpu.setReg d.rd (Op.result (cpu.regs d.rs1) (cpu.regs d.rs2) .div)) ↔
      ¬DivSlips (cpu.regs d.rs1) (cpu.regs d.rs2) := by
  unfold div
  rw [regOp_eq_ok_iff]
  generalize cpu.regs d.rs1 = a
  generalize cpu.regs d.rs2 = b
  by_cases hb : b = 0
  · have hz : ¬DivSlips a b := by
      rintro ⟨h, -⟩
      rw [hb] at h
      exact absurd h (by decide)
    rw [if_pos hb, Op.result_div_of_zero hb]
    exact iff_of_true rfl hz
  · rw [if_neg hb, Op.result_div_of_ne hb]
    by_cases ha : a = (BitVec.intMin 32).signExtend 64 ∧ b = -1
    · rw [if_pos ha, ha.1, ha.2]
      exact iff_of_false (by decide) fun h => h ⟨rfl, .inl rfl⟩
    · rw [if_neg ha, checkSignedDiv_eq_ok_iff]
      constructor
      · rintro ⟨h, -⟩ ⟨hm, hs | ho⟩
        · exact ha ⟨hs, hm⟩
        · exact h (.inr ⟨ho, hm⟩)
      · intro h
        refine ⟨?_, rfl⟩
        rintro (hz | ho)
        · exact hb hz
        · exact h ⟨ho.2, .inr ho.1⟩

theorem divu_eq : divu cpu d =
    .ok (cpu.setReg d.rd (Op.result (cpu.regs d.rs1) (cpu.regs d.rs2) .divu)) := by
  unfold divu
  rw [regOp_eq_ok_iff]
  split
  next hb =>
    rw [Op.result_divu_of_zero hb]
    rfl
  next hb => rw [Op.result_divu_of_ne hb]

theorem rem_eq : rem cpu d =
    .ok (cpu.setReg d.rd (Op.result (cpu.regs d.rs1) (cpu.regs d.rs2) .rem)) := by
  unfold rem
  rw [regOp_eq_ok_iff]
  simp only [Op.result]
  split
  next hb => rw [hb]; simp
  next hb =>
    split
    next ho =>
      rw [Overflows.srem ho]
      rfl
    next ho =>
      rw [checkSignedDiv_eq_ok_iff]
      exact ⟨not_or.mpr ⟨hb, ho⟩, rfl⟩

theorem remu_eq : remu cpu d =
    .ok (cpu.setReg d.rd (Op.result (cpu.regs d.rs1) (cpu.regs d.rs2) .remu)) := by
  unfold remu
  rw [regOp_eq_ok_iff]
  simp only [Op.result]
  split
  next hb => rw [hb]; simp
  next => rfl

end Rtype

/-- The operands `REMW` is right for. The dividend is cut to a word of 32 bits and the divisor is
not. -/
def RemwExact (a b : Word) : Prop :=
  b ≠ 0 ∧ (b.toInt = (low32 b).toInt ∨ low32 b = 0 ∨
    (low32 a).toInt.natAbs < (low32 b).toInt.natAbs ∨
    ((low32 a).toInt = -2 ^ 31 ∧ b.toInt = 2 ^ 31))

/-- The operands `REMUW` is right for. Nothing is cut to 32 bits, and nothing is extended. -/
def RemuwExact (a b : Word) : Prop :=
  b ≠ 0 ∧
    if b.toNat < 2 ^ 32 then
      (low32 a % low32 b).toNat < 2 ^ 31 ∧ b.toNat ∣ 2 ^ 32 * (a.toNat / 2 ^ 32)
    else if a.toNat < b.toNat then
      a = (low32 a).signExtend 64 ∧ (low32 b = 0 ∨ (low32 a).toNat < (low32 b).toNat)
    else
      (low32 a % low32 b).toNat < 2 ^ 31 ∧ b.toNat ∣ a.toNat - (low32 a % low32 b).toNat

namespace R64

variable {cpu : Cpu} {d : Decoder}

theorem divw_eq : divw cpu d = .ok (cpu.setReg d.rd
    ((Op.result (low32 (cpu.regs d.rs1)) (low32 (cpu.regs d.rs2)) .div).signExtend 64)) := by
  unfold divw
  rw [Rtype.regOp_eq_ok_iff]
  split
  next hb =>
    rw [Op.result_div_of_zero hb]
    decide
  next hb =>
    rw [Op.result_div_of_ne hb]
    split
    next ho => rw [Overflows.sdiv ho, ho.1]
    next ho =>
      rw [checkSignedDiv_eq_ok_iff]
      exact ⟨not_or.mpr ⟨hb, ho⟩, rfl⟩

theorem divuw_eq : divuw cpu d = .ok (cpu.setReg d.rd
    ((Op.result (low32 (cpu.regs d.rs1)) (low32 (cpu.regs d.rs2)) .divu).signExtend 64)) := by
  unfold divuw
  rw [Rtype.regOp_eq_ok_iff]
  split
  next hb =>
    rw [Op.result_divu_of_zero hb]
    decide
  next hb =>
    rw [Op.result_divu_of_ne hb, signExtendCast_word]

/-- The dividend is in the range of a word of 32 bits, and so is the remainder. -/
theorem remw_value (a b : Word) : signExtendCast ((signExtendCast a 32).srem b) 32 =
    (signExtendCast a 32).srem b := by
  have hn := low32_range a
  have hr := WordDivision.tmod_between (low32 a).toInt b.toInt
  have hv : ((signExtendCast a 32).srem b).toInt = (low32 a).toInt.tmod b.toInt := by
    rw [BitVec.toInt_srem, signExtendCast, BitVec.toInt_signExtend_of_le (by decide)]
  refine SignedWord.signExtend_setWidth (by decide) ?_ ?_
  · rw [hv]
    push_cast
    omega
  · rw [hv]
    push_cast
    omega

theorem remw_iff : remw cpu d = .ok (cpu.setReg d.rd
    ((Op.result (low32 (cpu.regs d.rs1)) (low32 (cpu.regs d.rs2)) .rem).signExtend 64)) ↔
      RemwExact (cpu.regs d.rs1) (cpu.regs d.rs2) := by
  unfold remw
  rw [Rtype.regOp_eq_ok_iff]
  generalize cpu.regs d.rs1 = a
  generalize cpu.regs d.rs2 = b
  simp only [Op.result]
  rw [checkSignedDiv_eq_ok_iff, remw_value, SignedWord.toInt_eq_iff_signExtend (by decide),
    BitVec.toInt_srem, BitVec.toInt_srem, signExtendCast, BitVec.toInt_signExtend_of_le (by decide)]
  have hn := low32_range a
  have he := low32_range b
  obtain ⟨k, hk⟩ := low32_congr b
  have hno : ¬Overflows ((low32 a).signExtend 64) b := by
    rintro ⟨ho, -⟩
    have hi := congrArg BitVec.toInt ho
    rw [BitVec.toInt_signExtend_of_le (by decide)] at hi
    have hmin : (BitVec.intMin 64).toInt = -2 ^ 63 := by decide
    omega
  have hzero : low32 b = 0 ↔ (low32 b).toInt = 0 := by
    rw [← BitVec.toInt_inj]
    rfl
  have hwide := @WordDivision.tmod_wide_iff (low32 a).toInt b.toInt (low32 b).toInt (2 ^ 31) hn
    (by omega)
  rw [hwide, RemwExact, hzero]
  constructor
  · rintro ⟨hd, h⟩
    refine ⟨fun hb => hd (.inl hb), ?_⟩
    omega
  · rintro ⟨hb, h⟩
    refine ⟨not_or.mpr ⟨hb, hno⟩, ?_⟩
    omega

theorem toNat_signExtend_low (r : BitVec 32) :
    (r.signExtend 64).toNat = if r.toNat < 2 ^ 31 then r.toNat else r.toNat + (2 ^ 64 - 2 ^ 32) := by
  have hr := r.isLt
  rw [BitVec.toNat_signExtend, BitVec.toNat_setWidth, BitVec.msb_eq_decide, Nat.mod_eq_of_lt (by omega)]
  by_cases h : r.toNat < 2 ^ 31
  · have hn : ¬2 ^ (32 - 1) ≤ r.toNat := by omega
    rw [decide_eq_false hn, if_pos h]
    rfl
  · have hn : 2 ^ (32 - 1) ≤ r.toNat := by omega
    rw [decide_eq_true hn, if_neg h]
    rfl

theorem toNat_low32 (a : Word) : (low32 a).toNat = a.toNat % 2 ^ 32 := BitVec.toNat_setWidth 32 a

theorem toNat_low32_mod (a b : Word) :
    (low32 a % low32 b).toNat = (low32 a).toNat % (low32 b).toNat := BitVec.toNat_umod

theorem wide_mod_iff_toNat (a b : Word) : a % b = (low32 a % low32 b).signExtend 64 ↔
    a.toNat % b.toNat = if (low32 a % low32 b).toNat < 2 ^ 31 then (low32 a % low32 b).toNat
      else (low32 a % low32 b).toNat + (2 ^ 64 - 2 ^ 32) := by
  rw [← BitVec.toNat_inj, toNat_signExtend_low, BitVec.toNat_umod]

/-- A remainder below `2 ^ 63` is not the extension of a negative one. -/
theorem wide_mod_iff_of_lt {a b : Word} (h : a.toNat % b.toNat < 2 ^ 63) :
    a % b = (low32 a % low32 b).signExtend 64 ↔
      (low32 a % low32 b).toNat < 2 ^ 31 ∧ a.toNat % b.toNat = (low32 a % low32 b).toNat := by
  rw [wide_mod_iff_toNat]
  split
  next hlow => exact (and_iff_right hlow).symm
  next hlow =>
    refine iff_of_false ?_ fun hr => hlow hr.1
    omega

theorem wide_mod_small {a b : Word} (hb : 0 < b.toNat) (h : b.toNat < 2 ^ 32) :
    a % b = (low32 a % low32 b).signExtend 64 ↔
      (low32 a % low32 b).toNat < 2 ^ 31 ∧ b.toNat ∣ 2 ^ 32 * (a.toNat / 2 ^ 32) := by
  have hmod := Nat.mod_lt a.toNat hb
  have hr : (low32 a % low32 b).toNat = a.toNat % 2 ^ 32 % b.toNat := by
    rw [toNat_low32_mod, toNat_low32, toNat_low32, Nat.mod_eq_of_lt h]
  rw [wide_mod_iff_of_lt (by omega), hr, WordDivision.mod_eq_low_mod_iff]

/-- The dividend is its own remainder. -/
theorem wide_mod_short {a b : Word} (hb : 2 ^ 32 ≤ b.toNat) (h : a.toNat < b.toNat) :
    a % b = (low32 a % low32 b).signExtend 64 ↔
      a = (low32 a).signExtend 64 ∧ (low32 b = 0 ∨ (low32 a).toNat < (low32 b).toNat) := by
  have hself : (low32 a % low32 b).toNat = (low32 a).toNat ↔
      low32 b = 0 ∨ (low32 a).toNat < (low32 b).toNat := by
    rw [toNat_low32_mod, WordDivision.mod_eq_self_iff, ← BitVec.toNat_inj]
    rfl
  have hlow := toNat_low32 a
  have hle : (low32 a % low32 b).toNat ≤ (low32 a).toNat := by
    rw [toNat_low32_mod]
    exact Nat.mod_le _ _
  rw [wide_mod_iff_toNat, Nat.mod_eq_of_lt h, ← hself, ← BitVec.toNat_inj, toNat_signExtend_low]
  constructor
  · intro hv
    have hra : (low32 a % low32 b).toNat = (low32 a).toNat := by
      split at hv <;> omega
    rw [← hra]
    exact ⟨hv, rfl⟩
  · rintro ⟨hv, hra⟩
    rw [hra]
    exact hv

theorem wide_mod_long {a b : Word} (hb : 2 ^ 32 ≤ b.toNat) (h : b.toNat ≤ a.toNat) :
    a % b = (low32 a % low32 b).signExtend 64 ↔
      (low32 a % low32 b).toNat < 2 ^ 31 ∧ b.toNat ∣ a.toNat - (low32 a % low32 b).toNat := by
  have ha := a.isLt
  have hr := (low32 a % low32 b).isLt
  have hmod := Nat.mod_lt a.toNat (by omega : 0 < b.toNat)
  have hhalf := WordDivision.mod_add_le (by omega : 0 < b.toNat) h
  rw [wide_mod_iff_of_lt (by omega), WordDivision.mod_eq_iff_dvd_sub (by omega) (by omega)]

/-- The remainder of the whole registers against the extended remainder of their low words. -/
theorem wide_mod_iff (a b : Word) (hb : b ≠ 0) :
    a % b = (low32 a % low32 b).signExtend 64 ↔ RemuwExact a b := by
  have hb0 : 0 < b.toNat := by
    rw [Nat.pos_iff_ne_zero]
    exact fun h => hb (BitVec.eq_of_toNat_eq h)
  rw [RemuwExact, and_iff_right hb]
  split
  next hsmall => exact wide_mod_small hb0 hsmall
  next hsmall =>
    split
    next hlt => exact wide_mod_short (Nat.not_lt.mp hsmall) hlt
    next hlt => exact wide_mod_long (Nat.not_lt.mp hsmall) (Nat.not_lt.mp hlt)

theorem remuw_iff : remuw cpu d = .ok (cpu.setReg d.rd
    ((Op.result (low32 (cpu.regs d.rs1)) (low32 (cpu.regs d.rs2)) .remu).signExtend 64)) ↔
      RemuwExact (cpu.regs d.rs1) (cpu.regs d.rs2) := by
  unfold remuw
  rw [Rtype.regOp_eq_ok_iff, checkUnsignedDiv_eq_ok_iff]
  constructor
  · rintro ⟨hb, h⟩
    exact (wide_mod_iff _ _ hb).mp h
  · intro h
    exact ⟨h.1, (wide_mod_iff _ _ h.1).mpr h⟩

end R64

section Handlers

variable {cpu : Cpu} {d : Decoder} {t : OpcodeType} {op : Op}

theorem writes_gives_iff {w : Nat} {n m : BitVec w} {f : BitVec w → Word} (hw : 0 < w)
    (ht : d.opcodeType = some t) :
    (∃ v, cpu.Writes d (f v) ∧ op.Gives n m v) ↔
      cpu.execute32 d = .ok (cpu.setReg d.rd (f (op.result n m))) := by
  constructor
  · rintro ⟨v, hv, hg⟩
    rw [WordDivision.gives_iff hw] at hg
    rw [← hg]
    exact (Cpu.writes_iff ht).mp hv
  · intro h
    exact ⟨_, (Cpu.writes_iff ht).mpr h, (WordDivision.gives_iff hw op).mpr rfl⟩

/-- `DIV`, `DIVU`, `REM` and `REMU` give the quotient and the remainder of their operands, but for
`DIV` by -1 of two dividends. -/
theorem divide_iff (hd : d.Names .r (divideFunct3 op) 1) :
    (∃ v, cpu.Writes d v ∧ op.Gives (cpu.regs d.rs1) (cpu.regs d.rs2) v) ↔
      (op = .div → ¬Rtype.DivSlips (cpu.regs d.rs1) (cpu.regs d.rs2)) := by
  obtain ⟨ht, h3, h7⟩ := hd
  have hiff := @writes_gives_iff cpu d .r op 64 (cpu.regs d.rs1) (cpu.regs d.rs2) id (by decide) ht
  rw [Cpu.execute32, ht] at hiff
  simp only [Rtype.funct3, h3, h7] at hiff
  refine hiff.trans ?_
  cases op with
  | div => exact Rtype.div_iff.trans ⟨fun h _ => h, fun h => h rfl⟩
  | divu => exact iff_of_true Rtype.divu_eq fun h => by cases h
  | rem => exact iff_of_true Rtype.rem_eq fun h => by cases h
  | remu => exact iff_of_true Rtype.remu_eq fun h => by cases h

/-- `div x5, x6, x7` of 7 by -2. -/
theorem divide_iff_seven : ∃ v, (Cpu.ofOperands 7 (-2)).Writes ⟨0x027342b3⟩ v ∧
    Op.Gives 7 (-2) v .div := by
  have hiff := @divide_iff (Cpu.ofOperands 7 (-2)) ⟨0x027342b3⟩ .div (by decide)
  exact hiff.mpr fun _ h => absurd h.1 (by decide)

/-- `div x5, x6, x7` of the smallest number by -1. -/
theorem not_divide : ¬∀ (op : Op) (cpu : Cpu) (d : Decoder), d.Names .r (divideFunct3 op) 1 →
    ∃ v, cpu.Writes d v ∧ op.Gives (cpu.regs d.rs1) (cpu.regs d.rs2) v := by
  intro h
  obtain ⟨v, hv, -⟩ := h .div (Cpu.ofOperands (BitVec.intMin 64) (-1)) ⟨0x027342b3⟩ (by decide)
  have hx : (Cpu.ofOperands (BitVec.intMin 64) (-1)).execute ⟨0x027342b3⟩ = .error .undefined := rfl
  rw [Cpu.Writes, hx] at hv
  cases hv

/-- The operands that a `W` form is right for. -/
def DivideWordExact (op : Op) (a b : Word) : Prop :=
  match op with
  | .div => True
  | .divu => True
  | .rem => RemwExact a b
  | .remu => RemuwExact a b

theorem divideWord_iff (hd : d.Names .r64 (divideFunct3 op) 1) :
    (∃ v : BitVec 32, cpu.Writes d (v.signExtend 64) ∧
        op.Gives (low32 (cpu.regs d.rs1)) (low32 (cpu.regs d.rs2)) v) ↔
      DivideWordExact op (cpu.regs d.rs1) (cpu.regs d.rs2) := by
  obtain ⟨ht, h3, h7⟩ := hd
  have hiff := @writes_gives_iff cpu d .r64 op 32 (low32 (cpu.regs d.rs1))
    (low32 (cpu.regs d.rs2)) (BitVec.signExtend 64) (by decide) ht
  rw [Cpu.execute32, ht] at hiff
  simp only [R64.funct3, h3, h7] at hiff
  refine hiff.trans ?_
  cases op with
  | div => exact iff_of_true R64.divw_eq trivial
  | divu => exact iff_of_true R64.divuw_eq trivial
  | rem => exact R64.remw_iff
  | remu => exact R64.remuw_iff

/-- `remw x5, x6, x7` of -7 by 2. -/
theorem divideWord_iff_seven : ∃ v : BitVec 32,
    (Cpu.ofOperands (-7) 2).Writes ⟨0x027362bb⟩ (v.signExtend 64) ∧
      Op.Gives (-7) 2 v .rem := by
  have hiff := @divideWord_iff (Cpu.ofOperands (-7) 2) ⟨0x027362bb⟩ .rem (by decide)
  exact hiff.mpr ⟨by decide, by decide⟩

/-- `remw x5, x6, x7` by zero. -/
theorem not_divideWord : ¬∀ (op : Op) (cpu : Cpu) (d : Decoder),
    d.Names .r64 (divideFunct3 op) 1 →
      ∃ v : BitVec 32, cpu.Writes d (v.signExtend 64) ∧
        op.Gives (low32 (cpu.regs d.rs1)) (low32 (cpu.regs d.rs2)) v := by
  intro h
  obtain ⟨v, hv, -⟩ := h .rem (Cpu.ofOperands 7 0) ⟨0x027362bb⟩ (by decide)
  have hx : (Cpu.ofOperands 7 0).execute ⟨0x027362bb⟩ = .error .undefined := rfl
  rw [Cpu.Writes, hx] at hv
  cases hv

end Handlers

end Rv64gcEmu
