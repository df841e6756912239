import Rv64gcEmu.RegisterOps
import Rv64gcEmu.WideProduct

namespace Rv64gcEmu

/-- The instructions that give the upper half of a product. -/
inductive MulOp where
  | mulh
  | mulhsu
  | mulhu
  deriving DecidableEq, Repr

namespace MulOp

def funct3 : MulOp → BitVec 3
  | mulh => 1
  | mulhsu => 2
  | mulhu => 3

/-- The numbers that are multiplied. -/
def left (a : Word) : MulOp → Int
  | mulh => a.toInt
  | mulhsu => a.toInt
  | mulhu => a.toNat

def right (b : Word) : MulOp → Int
  | mulh => b.toInt
  | mulhsu => b.toNat
  | mulhu => b.toNat

/-- The number that the two halves stand for. -/
def read (x : BitVec 128) : MulOp → Int
  | mulh => x.toInt
  | mulhsu => x.toInt
  | mulhu => x.toNat

/-- The operands of the host's multiplication, of 128 bits. -/
def wideLeft (a : Word) : MulOp → BitVec 128
  | mulh => a.signExtend 128
  | mulhsu => a.signExtend 128
  | mulhu => a.setWidth 128

def wideRight (b : Word) : MulOp → BitVec 128
  | mulh => b.signExtend 128
  | mulhsu => b.setWidth 128
  | mulhu => b.setWidth 128

/-- Whether the host's product is out of range, in the type it is computed in. -/
def overflows (x y : BitVec 128) : MulOp → Bool
  | mulh => x.smulOverflow y
  | mulhsu => x.umulOverflow y
  | mulhu => x.umulOverflow y

variable {op : MulOp} {a b : Word}

theorem wide_low : (op.wideLeft a * op.wideRight b).setWidth 64 = a * b := by
  have hs (x : Word) : (x.signExtend 128).setWidth 64 = x :=
    WideProduct.setWidth_signExtend x (by decide)
  have hu (x : Word) : (x.setWidth 128).setWidth 64 = x := by
    rw [BitVec.setWidth_setWidth_of_le _ (by decide), BitVec.setWidth_eq]
  rw [BitVec.setWidth_mul _ _ (by decide)]
  cases op with
  | mulh => simp only [wideLeft, wideRight, hs]
  | mulhsu => simp only [wideLeft, wideRight, hs, hu]
  | mulhu => simp only [wideLeft, wideRight, hu]

theorem read_wide : op.read (op.wideLeft a * op.wideRight b) = op.left a * op.right b := by
  cases op with
  | mulh => exact WideProduct.toInt_signed a b (by decide) (by decide)
  | mulhsu => exact WideProduct.toInt_mixed a b (by decide) (by decide)
  | mulhu =>
    have h := WideProduct.toNat_unsigned a b (show 64 + 64 ≤ 128 by decide)
    simp only [read, wideLeft, wideRight, left, right]
    exact_mod_cast h

theorem not_overflows (h : op ≠ mulhsu) : op.overflows (op.wideLeft a) (op.wideRight b) = false := by
  cases op with
  | mulh => exact WideProduct.not_smulOverflow a b (by decide) (by decide)
  | mulhsu => exact absurd rfl h
  | mulhu => exact WideProduct.not_umulOverflow a b (by decide)

end MulOp

section Handlers

variable {cpu : Cpu} {d : Decoder} {op : MulOp}

/-- The handlers leave the upper half of the wide product, under one shift or the other. -/
theorem mulHigh_writes (h : d.Names .r op.funct3 1) : cpu.Writes d
    (((op.wideLeft (cpu.regs d.rs1) * op.wideRight (cpu.regs d.rs2)) >>> 64).setWidth 64) := by
  obtain ⟨ht, h3, h7⟩ := h
  rw [Cpu.writes_iff ht]
  simp only [Cpu.execute32, ht, Rtype.funct3, h3, h7]
  cases op with
  | mulh =>
    change Rtype.mulh cpu d = _
    rw [Rtype.mulh, Rtype.regOp_eq_ok_iff, Except.ok.injEq]
    exact WideProduct.setWidth_sshiftRight _
  | mulhsu => rfl
  | mulhu => rfl

theorem mul_writes (h : d.Names .r 0 1) : cpu.Writes d (cpu.regs d.rs1 * cpu.regs d.rs2) := by
  obtain ⟨ht, h3, h7⟩ := h
  rw [Cpu.writes_iff ht]
  simp only [Cpu.execute32, ht, Rtype.funct3, h3, h7]
  rfl

theorem mulw_writes (h : d.Names .r64 0 1) :
    cpu.Writes d (((cpu.regs d.rs1 * cpu.regs d.rs2).setWidth 32).signExtend 64) := by
  obtain ⟨ht, h3, h7⟩ := h
  rw [Cpu.writes_iff ht]
  simp only [Cpu.execute32, ht, R64.funct3, h3, h7]
  rfl

theorem low_word_product (a b : Word) :
    (a * b).setWidth 32 = BitVec.ofInt 32 (a.toInt * b.toInt) := by
  apply BitVec.eq_of_toInt_eq
  rw [SignedWord.toInt_setWidth_eq_bmod _ (by decide), BitVec.toInt_mul, BitVec.toInt_ofInt]
  exact Int.bmod_bmod_of_dvd (by decide)

/-- The two halves are those of the exact product, and `MULW` gives its low word. -/
theorem multiply_exact (cpu : Cpu) :
    (∀ (op : MulOp) (d dl : Decoder), d.Names .r op.funct3 1 → dl.Names .r 0 1 →
      dl.rs1 = d.rs1 → dl.rs2 = d.rs2 →
        ∃ hi lo, cpu.Writes d hi ∧ cpu.Writes dl lo ∧
          op.read (hi ++ lo) = op.left (cpu.regs d.rs1) * op.right (cpu.regs d.rs2) ∧
          (op ≠ .mulhsu →
            op.overflows (op.wideLeft (cpu.regs d.rs1)) (op.wideRight (cpu.regs d.rs2)) = false)) ∧
    ∀ d : Decoder, d.Names .r64 0 1 → cpu.Writes d
      ((BitVec.ofInt 32 ((cpu.regs d.rs1).toInt * (cpu.regs d.rs2).toInt)).signExtend 64) := by
  constructor
  · intro op d dl hd hl h1 h2
    refine ⟨_, _, mulHigh_writes hd, mul_writes hl, ?_, MulOp.not_overflows⟩
    rw [h1, h2, ← @MulOp.wide_low op, WideProduct.append_halves]
    exact MulOp.read_wide
  · intro d hd
    rw [← low_word_product]
    exact mulw_writes hd

/-- `mulhsu x5, x6, x7` and `mul x28, x6, x7` of -3 and the largest unsigned word. -/
theorem multiply_exact_mixed : ∃ hi lo, (Cpu.ofOperands (-3) (-1)).Writes ⟨0x027322b3⟩ hi ∧
    (Cpu.ofOperands (-3) (-1)).Writes ⟨0x02730e33⟩ lo ∧
      (hi ++ lo : BitVec 128).toInt = -3 * (2 ^ 64 - 1) := by
  obtain ⟨hi, lo, hh, hl, hv, -⟩ := (multiply_exact (Cpu.ofOperands (-3) (-1))).1 .mulhsu
    ⟨0x027322b3⟩ ⟨0x02730e33⟩ (by decide) (by decide) (by decide) (by decide)
  exact ⟨hi, lo, hh, hl, hv⟩

end Handlers

end Rv64gcEmu
