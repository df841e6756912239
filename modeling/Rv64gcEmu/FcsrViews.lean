import Rv64gcEmu.CsrPrivilege
import Rv64gcEmu.FloatEffect
import Rv64gcEmu.SystemStep
import Rv64gcEmu.Transition

namespace Rv64gcEmu

open BitField (getLsbD_lowMask)
open CsrInsn (csrHandlers form operand)
open FExcept (IsFlags)
open Transition (Step Steps)

/-- The CSRs of the floating-point unit. -/
inductive FpCsr where
  | fflags
  | frm
  | fcsr
  deriving DecidableEq

namespace FpCsr

def address : FpCsr → BitVec 12
  | fflags => Address.fflags
  | frm => Address.frm
  | fcsr => Address.fcsr

/-- `csrrs x1, csr, x0`. -/
def readInsn : FpCsr → Decoder
  | fflags => ⟨0x001020f3⟩
  | frm => ⟨0x002020f3⟩
  | fcsr => ⟨0x003020f3⟩

/-- What a read returns. -/
def read (csr : FpCsr) (cpu : Cpu) : Word := (CsrInsn.funct3 (cpu.setReg 0 0) csr.readInsn).regs 1

/-- `fcsr` is made up of the other two. -/
def Views (cpu : Cpu) : Prop := fcsr.read cpu = (frm.read cpu <<< 5) ||| fflags.read cpu

theorem read_fflags (cpu : Cpu) :
    fflags.read cpu = cpu.cregs.regs Address.fflags &&& FExcept.mask := rfl

theorem read_frm (cpu : Cpu) :
    frm.read cpu = cpu.cregs.regs Address.fcsr >>> 5 &&& roundingModeMask := rfl

theorem read_fcsr (cpu : Cpu) : fcsr.read cpu = cpu.cregs.regs Address.fcsr &&& 0xff := rfl

theorem exceptMask_eq : FExcept.mask = BitVec.ofNat 64 (2 ^ 5 - 1) := by decide

theorem roundingModeMask_eq : roundingModeMask = BitVec.ofNat 64 (2 ^ 3 - 1) := by decide

theorem fcsrMask_eq : (0xff : Word) = BitVec.ofNat 64 (2 ^ 8 - 1) := by decide

/-- The mask of the rounding mode in `fcsr`. -/
theorem getLsbD_frmMask {i : Nat} (hi : i < 64) :
    (0xe0#64).getLsbD i = (decide (5 ≤ i) && decide (i < 8)) := by
  have he : (0xe0#64) = BitVec.ofNat 64 (2 ^ 3 - 1) <<< 5 := by decide
  rw [he, BitVec.getLsbD_shiftLeft, getLsbD_lowMask]
  by_cases h5 : i < 5
  · have hle : ¬5 ≤ i := by omega
    simp [h5, hle]
  · have hle : 5 ≤ i := by omega
    have hsub : i - 5 < 64 := by omega
    have h8 : i - 5 < 3 ↔ i < 8 := by omega
    simp [h5, hle, hi, hsub, h8]

theorem getLsbD_and_lowMask {v mask : Word} {n i : Nat} (hm : mask = BitVec.ofNat 64 (2 ^ n - 1)) :
    (v &&& mask).getLsbD i = (decide (i < n) && v.getLsbD i) := by
  rw [hm, BitVec.getLsbD_and, getLsbD_lowMask]
  by_cases hi : i < 64
  · simp [hi, Bool.and_comm]
  · simp [BitVec.getLsbD_of_ge v i (by omega)]

theorem getLsbD_fflags (cpu : Cpu) (i : Nat) : (fflags.read cpu).getLsbD i =
    (decide (i < 5) && (cpu.cregs.regs Address.fflags).getLsbD i) := by
  rw [read_fflags, getLsbD_and_lowMask exceptMask_eq]

theorem getLsbD_frm (cpu : Cpu) (i : Nat) : (frm.read cpu).getLsbD i =
    (decide (i < 3) && (cpu.cregs.regs Address.fcsr).getLsbD (5 + i)) := by
  rw [read_frm, getLsbD_and_lowMask roundingModeMask_eq, BitVec.getLsbD_ushiftRight]

theorem getLsbD_fcsr (cpu : Cpu) (i : Nat) : (fcsr.read cpu).getLsbD i =
    (decide (i < 8) && (cpu.cregs.regs Address.fcsr).getLsbD i) := by
  rw [read_fcsr, getLsbD_and_lowMask fcsrMask_eq]

/-- The rounding mode is the same bits of the same cell, so only the flags can differ. -/
theorem views_iff {cpu : Cpu} : Views cpu ↔ ∀ i, i < 5 →
    (cpu.cregs.regs Address.fcsr).getLsbD i = (cpu.cregs.regs Address.fflags).getLsbD i := by
  unfold Views
  constructor
  · intro h i hi
    have hb := congrArg (fun v => v.getLsbD i) h
    have h8 : i < 8 := by omega
    simp only [BitVec.getLsbD_or, BitVec.getLsbD_shiftLeft, getLsbD_fcsr, getLsbD_fflags] at hb
    simpa [hi, h8] using hb
  · intro h
    apply BitVec.eq_of_getLsbD_eq
    intro i hi
    rw [BitVec.getLsbD_or, BitVec.getLsbD_shiftLeft, getLsbD_fcsr, getLsbD_fflags, getLsbD_frm]
    by_cases h5 : i < 5
    · have h8 : i < 8 := by omega
      have hb := h i h5
      simpa [h5, h8] using hb
    · have hsub : 5 + (i - 5) = i := by omega
      have h8 : i - 5 < 3 ↔ i < 8 := by omega
      simp [h5, hi, hsub, h8]

end FpCsr

namespace CsrInsn

/-- The operation works on each bit for itself. -/
def Bitwise (op : CsrOp) : Prop :=
  ∃ f : Bool → Bool → Bool, ∀ a b i, i < 64 → (op a b).getLsbD i = f (a.getLsbD i) (b.getLsbD i)

theorem form_bitwise {d : Decoder} {op : CsrOp} {imm : Bool} (h : form d = some (op, imm)) :
    Bitwise op := by
  have hw : Bitwise opWrite := ⟨fun _ r => r, fun _ _ _ _ => rfl⟩
  have hs : Bitwise opSet := ⟨fun c r => c || r, fun _ _ _ _ => BitVec.getLsbD_or⟩
  have hc : Bitwise opClear := by
    refine ⟨fun c r => c && !r, fun a b i hi => ?_⟩
    change (a &&& ~~~b).getLsbD i = _
    rw [BitVec.getLsbD_and, BitVec.getLsbD_not]
    simp [hi]
  unfold form at h
  split at h
  case h_7 => cases h
  all_goals
    cases h
    assumption

end CsrInsn

/-- One instruction: a CSR instruction on one of the three, or a floating-point instruction
with the flags that it raises. Each comes with the state in which it is executed. -/
inductive FpEvent where
  | csr (cpu : Cpu) (d : Decoder) (target : FpCsr) (op : CsrOp) (imm : Bool)
  | float (cpu : Cpu) (d : Decoder) (raised : Word)

/-- The three cells are the same: what happens between two of the instructions. -/
def SameFp (a b : Cpu) : Prop := ∀ csr : FpCsr, b.cregs.regs csr.address = a.cregs.regs csr.address

inductive FpStep (before : Cpu) : FpEvent → Cpu → Prop
  | csr {cpu after : Cpu} {d : Decoder} {target : FpCsr} {op : CsrOp} {imm : Bool} {size : Word}
      (same : SameFp before cpu) (hd : d.isCsr = true) (ha : d.csr = target.address)
      (hf : form d = some (op, imm)) (h : cpu.execute d = .ok (size, after)) :
      FpStep before (.csr cpu d target op imm) after
  | float {cpu after : Cpu} {d : Decoder} {raised size : Word} (same : SameFp before cpu)
      (hd : d.isFloat32 = true) (hr : IsFlags raised)
      (hc : after.cregs = cpu.cregs.setFpuException raised) (h : cpu.execute d = .ok (size, after)) :
      FpStep before (.float cpu d raised) after

namespace FpEvent

/-- The write, by what the three reads return before and after it. -/
def Right (event : FpEvent) (after : Cpu) : Prop :=
  match event with
  | csr cpu d .fflags op imm => FpCsr.frm.read after = FpCsr.frm.read cpu ∧
      FpCsr.fflags.read after = op (FpCsr.fflags.read cpu) (operand cpu d imm) &&& 0x1f
  | csr cpu d .frm op imm => FpCsr.fflags.read after = FpCsr.fflags.read cpu ∧
      FpCsr.frm.read after = op (FpCsr.frm.read cpu) (operand cpu d imm) &&& 0x7
  | csr cpu d .fcsr op imm =>
      FpCsr.fflags.read after = op (FpCsr.fcsr.read cpu) (operand cpu d imm) &&& 0x1f ∧
      FpCsr.frm.read after = op (FpCsr.fcsr.read cpu) (operand cpu d imm) >>> 5 &&& 0x7
  | float cpu _ raised => FpCsr.frm.read after = FpCsr.frm.read cpu ∧
      FpCsr.fflags.read after = FpCsr.fflags.read cpu ||| raised

/-- A write of `fflags` whose bits 7:5 are set in `frm` already; for a floating-point
instruction, no flag that is not raised already. -/
def InStep : FpEvent → Prop
  | csr cpu d .fflags op imm =>
      (op (FpCsr.fflags.read cpu) (operand cpu d imm) >>> 5 &&& 0x7) &&& ~~~FpCsr.frm.read cpu = 0
  | csr _ _ .frm _ _ => True
  | csr _ _ .fcsr _ _ => True
  | float cpu _ raised => raised &&& ~~~FpCsr.fflags.read cpu = 0

end FpEvent

namespace FpCsr

variable {cpu : Cpu} {d : Decoder} {op : CsrOp} {rhs : Word}

theorem fflags_cells (v : Word) (hv : v = op (cpu.cregs.regs Address.fflags &&& FExcept.mask) rhs) :
    (csrHandlers Address.fflags cpu d Address.fflags rhs op).cregs.regs Address.fflags =
        (cpu.cregs.regs Address.fflags &&& ~~~FExcept.mask) ||| (v &&& FExcept.mask) ∧
      (csrHandlers Address.fflags cpu d Address.fflags rhs op).cregs.regs Address.fcsr =
        (cpu.cregs.regs Address.fcsr &&& ~~~FExcept.mask) ||| (v &&& 0xff) := by
  subst hv
  exact ⟨rfl, rfl⟩

theorem frm_cells (v : Word) (hv : v = op (cpu.cregs.regs Address.fcsr >>> 5) rhs) :
    (csrHandlers Address.frm cpu d Address.frm rhs op).cregs.regs Address.fflags =
        cpu.cregs.regs Address.fflags ∧
      (csrHandlers Address.frm cpu d Address.frm rhs op).cregs.regs Address.fcsr =
        ((cpu.cregs.regs Address.fcsr &&& ~~~0xe0#64) ||| (v <<< 5)) &&& 0xff := by
  subst hv
  exact ⟨rfl, rfl⟩

theorem fcsr_cells (v : Word) (hv : v = op (cpu.cregs.regs Address.fcsr |||
      (cpu.cregs.regs Address.fflags &&& FExcept.mask)) rhs) :
    (csrHandlers Address.fcsr cpu d Address.fcsr rhs op).cregs.regs Address.fflags =
        (cpu.cregs.regs Address.fflags &&& ~~~FExcept.mask) ||| (v &&& FExcept.mask) ∧
      (csrHandlers Address.fcsr cpu d Address.fcsr rhs op).cregs.regs Address.fcsr = v &&& 0xff := by
  subst hv
  exact ⟨rfl, rfl⟩

theorem and_not_eq_zero_iff {a b : Word} :
    a &&& ~~~b = 0 ↔ ∀ i, i < 64 → a.getLsbD i = true → b.getLsbD i = true := by
  constructor
  · intro h i hi ha
    have hb := congrArg (fun v => v.getLsbD i) h
    simpa [hi, ha] using hb
  · intro h
    apply BitVec.eq_of_getLsbD_eq
    intro i hi
    rw [BitVec.getLsbD_and, BitVec.getLsbD_not]
    cases ha : a.getLsbD i with
    | false => simp
    | true =>
      have hb := h i hi ha
      simp [hb]

/-- Clearing the low bits of a word and setting them anew, perhaps with some more. -/
theorem getLsbD_insert_low {w v mask mask' : Word} {n m i : Nat} (hnm : n ≤ m) (hi : i < n)
    (hm : mask = BitVec.ofNat 64 (2 ^ n - 1)) (hm' : mask' = BitVec.ofNat 64 (2 ^ m - 1)) :
    ((w &&& ~~~mask) ||| (v &&& mask')).getLsbD i = v.getLsbD i := by
  have him : i < m := by omega
  rw [BitVec.getLsbD_or, getLsbD_and_lowMask hm', BitVec.getLsbD_and, BitVec.getLsbD_not, hm,
    getLsbD_lowMask]
  by_cases h64 : i < 64
  · simp [hi, him, h64]
  · simp [him, BitVec.getLsbD_of_ge w i (by omega)]

/-- The cells after a write of `fflags`. -/
theorem fflags_written {after : Cpu} {v : Word}
    (hg : after.cregs.regs Address.fflags =
      (cpu.cregs.regs Address.fflags &&& ~~~FExcept.mask) ||| (v &&& FExcept.mask))
    (hf : after.cregs.regs Address.fcsr =
      (cpu.cregs.regs Address.fcsr &&& ~~~FExcept.mask) ||| (v &&& 0xff)) :
    Views after ∧ fflags.read after = v &&& 0x1f ∧
      (frm.read after = frm.read cpu ↔ (v >>> 5 &&& 0x7) &&& ~~~frm.read cpu = 0) := by
  refine ⟨?_, ?_, ?_⟩
  · rw [views_iff]
    intro i hi
    rw [hg, hf, getLsbD_insert_low (by decide) hi exceptMask_eq fcsrMask_eq,
      getLsbD_insert_low (le_refl 5) hi exceptMask_eq exceptMask_eq]
  · apply BitVec.eq_of_getLsbD_eq
    intro i _
    rw [getLsbD_fflags, hg, @getLsbD_and_lowMask v 0x1f 5 i (by decide)]
    by_cases hi : i < 5
    · rw [getLsbD_insert_low (le_refl 5) hi exceptMask_eq exceptMask_eq]
    · simp [hi]
  · have hbit : ∀ i, i < 3 → (frm.read after).getLsbD i =
        ((frm.read cpu).getLsbD i || v.getLsbD (5 + i)) := by
      intro i hi
      have hlow : ¬5 + i < 5 := by omega
      have h8 : 5 + i < 8 := by omega
      have h64 : 5 + i < 64 := by omega
      rw [getLsbD_frm, getLsbD_frm, hf, BitVec.getLsbD_or, getLsbD_and_lowMask fcsrMask_eq,
        BitVec.getLsbD_and, BitVec.getLsbD_not, exceptMask_eq, getLsbD_lowMask]
      simp [hi, hlow, h8, h64]
    rw [and_not_eq_zero_iff]
    constructor
    · intro h i hi64 hv
      rw [@getLsbD_and_lowMask _ 0x7 3 i (by decide), BitVec.getLsbD_ushiftRight, Bool.and_eq_true,
        decide_eq_true_eq] at hv
      have hb := hbit i hv.1
      rw [h, hv.2, Bool.or_true] at hb
      exact hb
    · intro h
      apply BitVec.eq_of_getLsbD_eq
      intro i hi64
      by_cases hi : i < 3
      · have hv := h i hi64
        rw [@getLsbD_and_lowMask _ 0x7 3 i (by decide), BitVec.getLsbD_ushiftRight,
          decide_eq_true hi, Bool.true_and] at hv
        rw [hbit i hi]
        cases hx : v.getLsbD (5 + i) with
        | false => exact Bool.or_false _
        | true => rw [hv hx, Bool.or_true]
      · rw [getLsbD_frm, getLsbD_frm]
        simp [hi]

/-- The cells after a write of `frm`. -/
theorem frm_written {after : Cpu} {v : Word} (hviews : Views cpu)
    (hg : after.cregs.regs Address.fflags = cpu.cregs.regs Address.fflags)
    (hf : after.cregs.regs Address.fcsr =
      ((cpu.cregs.regs Address.fcsr &&& ~~~0xe0#64) ||| (v <<< 5)) &&& 0xff) :
    Views after ∧ fflags.read after = fflags.read cpu ∧ frm.read after = v &&& 0x7 := by
  have hbit : ∀ i, i < 64 → (after.cregs.regs Address.fcsr).getLsbD i = (decide (i < 8) &&
      if i < 5 then (cpu.cregs.regs Address.fcsr).getLsbD i else v.getLsbD (i - 5)) := by
    intro i hi
    rw [hf, getLsbD_and_lowMask fcsrMask_eq, BitVec.getLsbD_or, BitVec.getLsbD_and,
      BitVec.getLsbD_not, getLsbD_frmMask hi, BitVec.getLsbD_shiftLeft]
    by_cases h8 : i < 8
    · by_cases h5 : i < 5
      · have hle : ¬5 ≤ i := by omega
        simp [h5, h8, hle, hi]
      · have hle : 5 ≤ i := by omega
        simp [h5, h8, hle, hi]
    · simp [h8]
  refine ⟨?_, ?_, ?_⟩
  · rw [views_iff] at hviews ⊢
    intro i hi
    have h8 : i < 8 := by omega
    rw [hbit i (by omega), hg, if_pos hi, decide_eq_true h8, Bool.true_and]
    exact hviews i hi
  · rw [read_fflags, read_fflags, hg]
  · apply BitVec.eq_of_getLsbD_eq
    intro i _
    rw [getLsbD_frm, @getLsbD_and_lowMask v 0x7 3 i (by decide)]
    by_cases hi : i < 3
    · have h5 : ¬5 + i < 5 := by omega
      have h8 : 5 + i < 8 := by omega
      rw [hbit (5 + i) (by omega), if_neg h5, Nat.add_sub_cancel_left, decide_eq_true h8,
        Bool.true_and]
    · simp [hi]

/-- The cells after a write of `fcsr`. -/
theorem fcsr_written {after : Cpu} {v : Word}
    (hg : after.cregs.regs Address.fflags =
      (cpu.cregs.regs Address.fflags &&& ~~~FExcept.mask) ||| (v &&& FExcept.mask))
    (hf : after.cregs.regs Address.fcsr = v &&& 0xff) :
    Views after ∧ fflags.read after = v &&& 0x1f ∧ frm.read after = v >>> 5 &&& 0x7 := by
  have hflags : fflags.read after = v &&& 0x1f := by
    apply BitVec.eq_of_getLsbD_eq
    intro i _
    rw [getLsbD_fflags, hg, @getLsbD_and_lowMask v 0x1f 5 i (by decide)]
    by_cases hi : i < 5
    · rw [getLsbD_insert_low (le_refl 5) hi exceptMask_eq exceptMask_eq]
    · simp [hi]
  refine ⟨?_, hflags, ?_⟩
  · rw [views_iff]
    intro i hi
    have h8 : i < 8 := by omega
    rw [hf, hg, getLsbD_and_lowMask fcsrMask_eq, decide_eq_true h8, Bool.true_and,
      getLsbD_insert_low (le_refl 5) hi exceptMask_eq exceptMask_eq]
  · apply BitVec.eq_of_getLsbD_eq
    intro i _
    rw [getLsbD_frm, hf, getLsbD_and_lowMask fcsrMask_eq,
      @getLsbD_and_lowMask (v >>> 5) 0x7 3 i (by decide), BitVec.getLsbD_ushiftRight]
    by_cases hi : i < 3
    · have h8 : 5 + i < 8 := by omega
      simp [hi, h8]
    · simp [hi]

/-- The cells after a floating-point instruction. -/
theorem float_raised {after : Cpu} {raised : Word} (hviews : Views cpu) (hr : IsFlags raised)
    (hc : after.cregs = cpu.cregs.setFpuException raised) :
    (frm.read after = frm.read cpu ∧ fflags.read after = fflags.read cpu ||| raised) ∧
      (Views after ↔ raised &&& ~~~fflags.read cpu = 0) := by
  have hf : after.cregs.regs Address.fcsr = cpu.cregs.regs Address.fcsr := by
    rw [hc]
    rfl
  have hg : after.cregs.regs Address.fflags = cpu.cregs.regs Address.fflags ||| raised := by
    rw [hc]
    rfl
  have hlow : ∀ i, i < 64 → raised.getLsbD i = true → i < 5 := by
    intro i hi hb
    have hm := and_not_eq_zero_iff.mp hr i hi hb
    rw [exceptMask_eq, getLsbD_lowMask, decide_eq_true hi, Bool.true_and, decide_eq_true_eq] at hm
    exact hm
  refine ⟨⟨?_, ?_⟩, ?_⟩
  · rw [read_frm, read_frm, hf]
  · apply BitVec.eq_of_getLsbD_eq
    intro i hi
    rw [getLsbD_fflags, BitVec.getLsbD_or, getLsbD_fflags, hg, BitVec.getLsbD_or]
    cases hb : raised.getLsbD i with
    | false => simp
    | true => simp [hlow i hi hb]
  · rw [views_iff] at hviews ⊢
    rw [and_not_eq_zero_iff]
    constructor
    · intro h i hi hb
      have h5 := hlow i hi hb
      have hv := h i h5
      rw [hf, hg, BitVec.getLsbD_or, hb, Bool.or_true, hviews i h5] at hv
      rw [getLsbD_fflags, hv, decide_eq_true h5]
      rfl
    · intro h i h5
      rw [hf, hg, BitVec.getLsbD_or, hviews i h5]
      cases hb : raised.getLsbD i with
      | false => rw [Bool.or_false]
      | true =>
        have hv := h i (by omega) hb
        rw [getLsbD_fflags, decide_eq_true h5, Bool.true_and] at hv
        rw [hv]
        rfl

end FpCsr

namespace CsrInsn

theorem Bitwise.congr_low {op : CsrOp} (hop : Bitwise op) {a b r : Word} {n : Nat}
    (h : ∀ i, i < n → a.getLsbD i = b.getLsbD i) {i : Nat} (hi : i < n) :
    (op a r).getLsbD i = (op b r).getLsbD i := by
  obtain ⟨f, hf⟩ := hop
  by_cases h64 : i < 64
  · rw [hf a r i h64, hf b r i h64, h i hi]
  · rw [BitVec.getLsbD_of_ge _ i (by omega), BitVec.getLsbD_of_ge _ i (by omega)]

end CsrInsn

theorem SameFp.views {a b : Cpu} (h : SameFp a b) (hv : FpCsr.Views a) : FpCsr.Views b := by
  rw [FpCsr.views_iff] at hv ⊢
  intro i hi
  have hf : b.cregs.regs Address.fcsr = a.cregs.regs Address.fcsr := h .fcsr
  have hg : b.cregs.regs Address.fflags = a.cregs.regs Address.fflags := h .fflags
  rw [hf, hg]
  exact hv i hi

namespace FpStep

open FpCsr (Views)

variable {before cpu after : Cpu} {d : Decoder} {op : CsrOp} {imm : Bool}

theorem right_frm (hop : CsrInsn.Bitwise op) {rhs : Word}
    (h : FpCsr.frm.read after = op (cpu.cregs.regs Address.fcsr >>> 5) rhs &&& 0x7) :
    FpCsr.frm.read after = op (FpCsr.frm.read cpu) rhs &&& 0x7 := by
  have hlow : ∀ i, i < 3 → (cpu.cregs.regs Address.fcsr >>> 5).getLsbD i =
      (FpCsr.frm.read cpu).getLsbD i := by
    intro i hi
    rw [FpCsr.getLsbD_frm, BitVec.getLsbD_ushiftRight, decide_eq_true hi, Bool.true_and]
  rw [h]
  apply BitVec.eq_of_getLsbD_eq
  intro i _
  rw [@FpCsr.getLsbD_and_lowMask _ 0x7 3 i (by decide), @FpCsr.getLsbD_and_lowMask _ 0x7 3 i (by decide)]
  by_cases hi : i < 3
  · rw [hop.congr_low hlow hi]
  · simp [hi]

/-- As long as the views agree, the operation on the two cells is the one on what a read
of `fcsr` returns. -/
theorem right_fcsr (hviews : Views cpu) (hop : CsrInsn.Bitwise op) {rhs v : Word}
    (hv : v = op (cpu.cregs.regs Address.fcsr |||
      (cpu.cregs.regs Address.fflags &&& FExcept.mask)) rhs) {i : Nat} (hi : i < 8) :
    v.getLsbD i = (op (FpCsr.fcsr.read cpu) rhs).getLsbD i := by
  rw [hv]
  refine hop.congr_low (fun k hk => ?_) hi
  rw [BitVec.getLsbD_or, FpCsr.getLsbD_and_lowMask FpCsr.exceptMask_eq, FpCsr.getLsbD_fcsr,
    decide_eq_true hk, Bool.true_and]
  by_cases h5 : k < 5
  · rw [FpCsr.views_iff.mp hviews k h5, decide_eq_true h5, Bool.true_and, Bool.or_self]
  · simp [h5]

/-- After one instruction the three reads are right and agree, exactly when it keeps the
two cells in step. -/
theorem views_iff {event : FpEvent} (h : FpStep before event after) (hv : Views before) :
    (Views after ∧ event.Right after) ↔ event.InStep := by
  cases h with
  | @csr cpu after d target op imm size same hd ha hf h =>
    have hviews := same.views hv
    have hop := CsrInsn.form_bitwise hf
    have hafter := (Cpu.execute_csr hd h).trans (CsrInsn.funct3_of_form cpu hf)
    rw [ha] at hafter
    cases target with
    | fflags =>
      obtain ⟨hg, hc⟩ := @FpCsr.fflags_cells cpu d op (operand cpu d imm) _ rfl
      change after = csrHandlers Address.fflags cpu d Address.fflags (operand cpu d imm) op at hafter
      rw [← hafter] at hg hc
      obtain ⟨hva, hflags, hfrm⟩ := FpCsr.fflags_written hg hc
      exact ⟨fun hr => hfrm.mp hr.2.1, fun hi => ⟨hva, hfrm.mpr hi, hflags⟩⟩
    | frm =>
      obtain ⟨hg, hc⟩ := @FpCsr.frm_cells cpu d op (operand cpu d imm) _ rfl
      change after = csrHandlers Address.frm cpu d Address.frm (operand cpu d imm) op at hafter
      rw [← hafter] at hg hc
      obtain ⟨hva, hflags, hfrm⟩ := FpCsr.frm_written hviews hg hc
      exact ⟨fun _ => trivial, fun _ => ⟨hva, hflags, right_frm hop hfrm⟩⟩
    | fcsr =>
      obtain ⟨hg, hc⟩ := @FpCsr.fcsr_cells cpu d op (operand cpu d imm) _ rfl
      change after = csrHandlers Address.fcsr cpu d Address.fcsr (operand cpu d imm) op at hafter
      rw [← hafter] at hg hc
      obtain ⟨hva, hflags, hfrm⟩ := FpCsr.fcsr_written hg hc
      refine ⟨fun _ => trivial, fun _ => ⟨hva, ?_, ?_⟩⟩
      · rw [hflags]
        apply BitVec.eq_of_getLsbD_eq
        intro i _
        rw [@FpCsr.getLsbD_and_lowMask _ 0x1f 5 i (by decide),
          @FpCsr.getLsbD_and_lowMask _ 0x1f 5 i (by decide)]
        by_cases hi : i < 5
        · rw [right_fcsr hviews hop rfl (by omega)]
        · simp [hi]
      · rw [hfrm]
        apply BitVec.eq_of_getLsbD_eq
        intro i _
        rw [@FpCsr.getLsbD_and_lowMask _ 0x7 3 i (by decide),
          @FpCsr.getLsbD_and_lowMask _ 0x7 3 i (by decide), BitVec.getLsbD_ushiftRight,
          BitVec.getLsbD_ushiftRight]
        by_cases hi : i < 3
        · rw [right_fcsr hviews hop rfl (by omega)]
        · simp [hi]
  | @float cpu after d raised size same hd hr hc h =>
    obtain ⟨hright, hiff⟩ := FpCsr.float_raised (same.views hv) hr hc
    exact ⟨fun hx => hiff.mp hx.1, fun hi => ⟨hiff.mpr hi, hright⟩⟩

/-- Every floating-point instruction that ends is such a step, for the flags that it raises. -/
theorem of_float {size : Word} (same : SameFp before cpu) (hd : d.isFloat32 = true)
    (h : cpu.execute d = .ok (size, after)) : ∃ raised, FpStep before (.float cpu d raised) after := by
  have hd' := hd
  simp only [Decoder.isFloat32, Bool.and_eq_true, decide_eq_true_eq] at hd'
  rcases Cpu.execute_cases h with ⟨hs, _, _⟩ | ⟨_, _, hx⟩
  · have h2 := hs.symm.trans hd'.1
    simp at h2
  · obtain ⟨raised, hr, hc⟩ := (execute32_floatOnly hd'.2 hx).flags
    exact ⟨raised, .float same hd hr hc h⟩

end FpStep

/-- In a sequence of instructions, all reads of the three CSRs agree and every write
changes what it names, exactly when every instruction keeps the two cells in step. -/
theorem fpSteps_views_iff {start cpu : Cpu} {steps : List (Step Cpu FpEvent)}
    (hv : FpCsr.Views start) (run : Steps FpStep start steps cpu) :
    (∀ t ∈ steps, FpCsr.Views t.after ∧ t.label.Right t.after) ↔ ∀ t ∈ steps, t.label.InStep :=
  run.forall_iff (I := FpCsr.Views) (fun _ _ _ h hs => h.views_iff hs) (fun _ _ _ _ _ hg => hg.1) hv

/-- The test machine, with the bit above the flags set in `x5`. -/
def wideFlags : Cpu := (Cpu.ofImage [] (by decide)).setReg 5 0x20

/-- `csrrw x0, fflags, x5`. -/
def writeFlags : Decoder := ⟨0x00129073⟩

theorem wideFlags_views : FpCsr.Views wideFlags := rfl

theorem wideFlags_run : Steps FpStep wideFlags
    [⟨wideFlags, .csr wideFlags writeFlags .fflags CsrInsn.opWrite false,
      CsrInsn.funct3 wideFlags writeFlags⟩] (CsrInsn.funct3 wideFlags writeFlags) :=
  .step .start (.csr (fun _ => rfl) rfl rfl rfl rfl)

theorem fpSteps_views_iff_wideFlags : ∃ steps cpu, Steps FpStep wideFlags steps cpu ∧
    ((∀ t ∈ steps, FpCsr.Views t.after ∧ t.label.Right t.after) ↔ ∀ t ∈ steps, t.label.InStep) :=
  ⟨_, _, wideFlags_run, fpSteps_views_iff wideFlags_views wideFlags_run⟩

theorem wideFlags_changes_frm : ¬ ∀ (start cpu : Cpu) (steps : List (Step Cpu FpEvent)),
    FpCsr.Views start → Steps FpStep start steps cpu →
    ∀ t ∈ steps, FpCsr.Views t.after ∧ t.label.Right t.after := by
  intro h
  have hright := (h _ _ _ wideFlags_views wideFlags_run _ List.mem_cons_self).2
  have hfrm : (1 : Word) = 0 := hright.1
  exact absurd hfrm (by decide)

end Rv64gcEmu
