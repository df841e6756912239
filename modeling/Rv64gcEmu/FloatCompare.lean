import Mathlib.Order.Bounds.Basic
import Rv64gcEmu.FloatOrder
import Rv64gcEmu.InsnEffect

namespace Rv64gcEmu

open Fdimpl (getF setF setExceptions getCanonicalNan isSnan)
open Cpu (FlagsOnly)
open Fmt (lowest highest place value)

inductive Comparison where
  | le
  | lt
  | eq
  deriving DecidableEq

namespace Comparison

def funct3 : Comparison → BitVec 3
  | le => 0
  | lt => 1
  | eq => 2

/-- Nothing holds of what is no number. -/
def holds (c : Comparison) (u v : FloatValue) : Bool :=
  match u.extended, v.extended with
  | some a, some b =>
    match c with
    | le => a ≤ b
    | lt => a < b
    | eq => a = b
  | _, _ => false

/-- What the host computes. -/
def ofBits {f : Fmt} (c : Comparison) : f.Bits → f.Bits → Bool :=
  match c with
  | le => Fmt.le
  | lt => Fmt.lt
  | eq => Fmt.eq

variable {f : Fmt}

theorem holds_value (c : Comparison) (x y : f.Bits) :
    c.holds (value x) (value y) = c.ofBits x y := by
  cases hx : Fmt.isNan x with
  | true =>
    unfold holds
    rw [Fmt.extended_nan hx]
    cases c <;> simp only [ofBits, Fmt.le, Fmt.lt, Fmt.eq, hx, Bool.not_true, Bool.false_and]
  | false =>
    cases hy : Fmt.isNan y with
    | true =>
      unfold holds
      rw [Fmt.extended_nan hy, Fmt.extended_value hx]
      cases c <;>
        simp only [ofBits, Fmt.le, Fmt.lt, Fmt.eq, hy, Bool.not_true, Bool.and_false,
          Bool.false_and]
    | false =>
      unfold holds
      rw [Fmt.extended_value hx, Fmt.extended_value hy]
      cases c with
      | le =>
        simp only [ofBits, Fmt.le, hx, hy, Bool.not_false, Bool.and_self, Bool.true_and,
          Fmt.extended_le_iff hx hy]
      | lt =>
        simp only [ofBits, Fmt.lt, hx, hy, Bool.not_false, Bool.and_self, Bool.true_and,
          Fmt.extended_lt_iff hx hy]
      | eq =>
        simp only [ofBits, Fmt.eq, hx, hy, Bool.not_false, Bool.and_self, Bool.true_and,
          Fmt.extended_eq_iff hx hy]

end Comparison

namespace Fmt

variable {f : Fmt} {x y : f.Bits}

/-- `pick` between numbers; a NaN gives way to a number. -/
def selected (pick : f.Bits → f.Bits → f.Bits) (x y : f.Bits) : f.Bits :=
  if isNan x && isNan y then getCanonicalNan f
  else if isNan x then y
  else if isNan y then x
  else pick x y

def lesser (x y : f.Bits) : f.Bits :=
  if lt x y then x else if lt y x then y else if sign x then x else y

def greater (x y : f.Bits) : f.Bits :=
  if lt y x then x else if lt x y then y else if sign x then y else x

theorem lt_iff (hx : isNan x = false) (hy : isNan y = false) :
    lt x y = true ↔ rank x < rank y := by
  unfold lt
  rw [hx, hy, Bool.not_false, Bool.true_and, Bool.true_and, decide_eq_true_iff]

theorem place_lesser (hx : isNan x = false) (hy : isNan y = false) :
    lesser x y = x ∧ place x ≤ place y ∨ lesser x y = y ∧ place y ≤ place x := by
  unfold lesser
  split
  next h => exact .inl ⟨rfl, place_le_of_lt hx hy ((lt_iff hx hy).mp h)⟩
  next h =>
    rw [lt_iff hx hy] at h
    split
    next h' => exact .inr ⟨rfl, place_le_of_lt hy hx ((lt_iff hy hx).mp h')⟩
    next h' =>
      rw [lt_iff hy hx] at h'
      have he : rank x = rank y := by omega
      split
      next hs => exact .inl ⟨rfl, place_le_of_eq he fun _ => hs⟩
      next hs => exact .inr ⟨rfl, place_le_of_eq he.symm fun hs' => absurd hs' hs⟩

theorem place_greater (hx : isNan x = false) (hy : isNan y = false) :
    greater x y = x ∧ place y ≤ place x ∨ greater x y = y ∧ place x ≤ place y := by
  unfold greater
  split
  next h => exact .inl ⟨rfl, place_le_of_lt hy hx ((lt_iff hy hx).mp h)⟩
  next h =>
    rw [lt_iff hy hx] at h
    split
    next h' => exact .inr ⟨rfl, place_le_of_lt hx hy ((lt_iff hx hy).mp h')⟩
    next h' =>
      rw [lt_iff hx hy] at h'
      have he : rank x = rank y := by omega
      split
      next hs => exact .inr ⟨rfl, place_le_of_eq he fun _ => hs⟩
      next hs => exact .inl ⟨rfl, place_le_of_eq he.symm fun hs' => absurd hs' hs⟩

theorem isNan_canonical (f : Fmt) : isNan (getCanonicalNan f) = true := by cases f <;> rfl

theorem lowest_of_nan (h : isNan x = true) : lowest x = ⊤ := if_pos h

theorem lowest_of_number (h : isNan x = false) : lowest x = .some (place x) :=
  if_neg (ne_true_of_eq_false h)

theorem highest_of_nan (h : isNan x = true) : highest x = ⊥ := if_pos h

theorem highest_of_number (h : isNan x = false) : highest x = .some (place x) :=
  if_neg (ne_true_of_eq_false h)

theorem eq_of_lowest_eq (h : lowest x = lowest y) : x = y ∨ isNan x = true ∧ isNan y = true := by
  cases hx : isNan x with
  | true =>
    cases hy : isNan y with
    | true => exact .inr ⟨rfl, rfl⟩
    | false =>
      rw [lowest_of_nan hx, lowest_of_number hy] at h
      exact absurd h.symm WithTop.coe_ne_top
  | false =>
    cases hy : isNan y with
    | true =>
      rw [lowest_of_number hx, lowest_of_nan hy] at h
      exact absurd h WithTop.coe_ne_top
    | false =>
      rw [lowest_of_number hx, lowest_of_number hy] at h
      exact .inl (place_inj hx hy (WithTop.coe_injective h))

theorem eq_of_highest_eq (h : highest x = highest y) :
    x = y ∨ isNan x = true ∧ isNan y = true := by
  cases hx : isNan x with
  | true =>
    cases hy : isNan y with
    | true => exact .inr ⟨rfl, rfl⟩
    | false =>
      rw [highest_of_nan hx, highest_of_number hy] at h
      exact absurd h.symm WithBot.coe_ne_bot
  | false =>
    cases hy : isNan y with
    | true =>
      rw [highest_of_number hx, highest_of_nan hy] at h
      exact absurd h WithBot.coe_ne_bot
    | false =>
      rw [highest_of_number hx, highest_of_number hy] at h
      exact .inl (place_inj hx hy (WithBot.coe_injective h))

/-- `fmin` is the minimum. -/
theorem lowest_selected (x y : f.Bits) :
    lowest (selected lesser x y) = min (lowest x) (lowest y) := by
  unfold selected
  cases hx : isNan x with
  | true =>
    rw [lowest_of_nan hx, min_eq_right le_top]
    cases hy : isNan y with
    | true => exact (lowest_of_nan (isNan_canonical f)).trans (lowest_of_nan hy).symm
    | false => rfl
  | false =>
    cases hy : isNan y with
    | true =>
      rw [lowest_of_nan hy, min_eq_left le_top]
      rfl
    | false =>
      change lowest (lesser x y) = _
      rw [lowest_of_number hx, lowest_of_number hy]
      obtain ⟨he, hle⟩ | ⟨he, hle⟩ := place_lesser hx hy
      · rw [he, lowest_of_number hx, min_eq_left (WithTop.coe_le_coe.mpr hle)]
      · rw [he, lowest_of_number hy, min_eq_right (WithTop.coe_le_coe.mpr hle)]

/-- `fmax` is the maximum. -/
theorem highest_selected (x y : f.Bits) :
    highest (selected greater x y) = max (highest x) (highest y) := by
  unfold selected
  cases hx : isNan x with
  | true =>
    rw [highest_of_nan hx, max_eq_right bot_le]
    cases hy : isNan y with
    | true => exact (highest_of_nan (isNan_canonical f)).trans (highest_of_nan hy).symm
    | false => rfl
  | false =>
    cases hy : isNan y with
    | true =>
      rw [highest_of_nan hy, max_eq_left bot_le]
      rfl
    | false =>
      change highest (greater x y) = _
      rw [highest_of_number hx, highest_of_number hy]
      obtain ⟨he, hle⟩ | ⟨he, hle⟩ := place_greater hx hy
      · rw [he, highest_of_number hx, max_eq_left (WithBot.coe_le_coe.mpr hle)]
      · rw [he, highest_of_number hy, max_eq_right (WithBot.coe_le_coe.mpr hle)]

/-- Only two NaNs give one. -/
theorem selected_of_nan {pick : f.Bits → f.Bits → f.Bits}
    (hpick : ∀ x y, pick x y = x ∨ pick x y = y) (h : isNan (selected pick x y) = true) :
    selected pick x y = getCanonicalNan f := by
  unfold selected at h ⊢
  cases hx : isNan x with
  | true =>
    cases hy : isNan y with
    | true => rfl
    | false =>
      simp only [hx, hy, Bool.and_false, Bool.false_eq_true, if_false, if_true] at h
  | false =>
    cases hy : isNan y with
    | true =>
      simp only [hx, hy, Bool.false_and, Bool.false_eq_true, if_false, if_true] at h
    | false =>
      simp only [hx, hy, Bool.false_and, Bool.false_eq_true, if_false] at h
      rcases hpick x y with he | he
      · rw [he, hx] at h
        exact absurd h Bool.false_ne_true
      · rw [he, hy] at h
        exact absurd h Bool.false_ne_true

theorem lesser_or (x y : f.Bits) : lesser x y = x ∨ lesser x y = y := by
  unfold lesser
  split_ifs
  · exact .inl rfl
  · exact .inr rfl
  · exact .inl rfl
  · exact .inr rfl

theorem greater_or (x y : f.Bits) : greater x y = x ∨ greater x y = y := by
  unfold greater
  split_ifs
  · exact .inl rfl
  · exact .inr rfl
  · exact .inr rfl
  · exact .inl rfl

end Fmt

/-- The least of the keys is the key of the fold. -/
theorem isLeast_foldl {β κ : Type*} [LinearOrder κ] (key : β → κ) {op : β → β → β}
    (hop : ∀ a b, key (op a b) = min (key a) (key b)) (l : List β) (a : β) :
    IsLeast {k | ∃ b ∈ a :: l, key b = k} (key (l.foldl op a)) := by
  induction l generalizing a with
  | nil => exact ⟨⟨a, List.mem_singleton_self a, rfl⟩, fun k ⟨b, hb, hk⟩ => by
      rw [List.mem_singleton] at hb
      exact (hb ▸ hk).le⟩
  | cons b l ih =>
    obtain ⟨⟨c, hc, hk⟩, hle⟩ := ih (op a b)
    refine ⟨?_, ?_⟩
    · rcases List.mem_cons.mp hc with rfl | hc
      · rw [List.foldl_cons, ← hk, hop]
        rcases min_choice (key a) (key b) with h | h
        · exact ⟨a, List.mem_cons_self, h.symm⟩
        · exact ⟨b, List.mem_cons_of_mem _ List.mem_cons_self, h.symm⟩
      · exact ⟨c, List.mem_cons_of_mem _ (List.mem_cons_of_mem _ hc), hk⟩
    · have hmin : key (l.foldl op (op a b)) ≤ min (key a) (key b) :=
        hop a b ▸ hle ⟨op a b, List.mem_cons_self, rfl⟩
      rintro k ⟨c, hc, rfl⟩
      rcases List.mem_cons.mp hc with rfl | hc
      · exact hmin.trans (min_le_left _ _)
      · rcases List.mem_cons.mp hc with rfl | hc
        · exact hmin.trans (min_le_right _ _)
        · exact hle ⟨c, List.mem_cons_of_mem _ hc, rfl⟩

section Instructions

variable {cpu : Cpu} {d : Decoder} {f : Fmt} {r : BitVec 5}

def IsComparison (f : Fmt) (c : Comparison) (d : Decoder) : Prop :=
  d.opcodeType = some .fother ∧ d.funct3 = c.funct3 ∧ d.funct7 =
    match f with
    | .single => 0x50
    | .double => 0x51

/-- The comparison of the two numbers goes to `rd`. -/
theorem compare_decides (hfs : cpu.cregs.isFpuEnabled = true) {c : Comparison}
    (hd : IsComparison f c d) : ∃ after, cpu.execute d = .ok (4, after) ∧
      FlagsOnly (cpu.setReg d.rd
        (boolWord (c.holds (value (getF f cpu d.rs1)) (value (getF f cpu d.rs2))))) after := by
  obtain ⟨ht, h3, h7⟩ := hd
  have hop : Fdtype.fotherOp d.funct7 = some (Fdtype.fcBy f) := by
    rw [h7]
    cases f <;> rfl
  have hflags : ∀ (p : Bool) (v : Word),
      FlagsOnly (cpu.setReg d.rd v) (setExceptions ((Fdimpl.invalidIf p cpu).setReg d.rd v)) := by
    intro p v
    have hcomm : (Fdimpl.invalidIf p cpu).setReg d.rd v =
        Fdimpl.invalidIf p (cpu.setReg d.rd v) := by
      unfold Fdimpl.invalidIf
      cases p <;> rfl
    rw [hcomm]
    exact (FlagsOnly.invalidIf p _).trans (.setExceptions _)
  rw [execute_fother _ hfs ht hop, Fdtype.fcBy, h3, Comparison.holds_value]
  cases c with
  | le => exact ⟨_, rfl, hflags _ _⟩
  | lt => exact ⟨_, rfl, hflags _ _⟩
  | eq => exact ⟨_, rfl, hflags _ _⟩

/-- `flt.d x5, f6, f7`. -/
theorem compare_decides_less :
    ∃ after, floatCpu.execute ⟨0xa27312d3⟩ = .ok (4, after) ∧ after.regs 5 = 1 := by
  have h := @compare_decides floatCpu ⟨0xa27312d3⟩ .double (by decide) .lt
    ⟨by decide, by decide, by decide⟩
  obtain ⟨after, hx, hflags⟩ := h
  refine ⟨after, hx, ?_⟩
  rw [hflags.regs, Comparison.holds_value]
  decide

/-- Straight-line code. -/
def Cpu.executeAll (cpu : Cpu) : List Decoder → HostM Cpu
  | [] => .ok cpu
  | d :: ds => do
    let (_, cpu) ← cpu.execute d
    cpu.executeAll ds

/-- `FMIN` and `FMAX`. -/
inductive Extreme where
  | least
  | greatest
  deriving DecidableEq

namespace Extreme

def funct3 : Extreme → BitVec 3
  | least => 0
  | greatest => 1

def ofBits (e : Extreme) : f.Bits → f.Bits → f.Bits :=
  match e with
  | least => Fmt.selected Fmt.lesser
  | greatest => Fmt.selected Fmt.greater

/-- No number of the list is beyond the one given; the NaNs count for nothing. -/
def Among (e : Extreme) (l : List f.Bits) (x : f.Bits) : Prop :=
  match e with
  | least => IsLeast {k | ∃ y ∈ l, lowest y = k} (lowest x)
  | greatest => IsGreatest {k | ∃ y ∈ l, highest y = k} (highest x)

theorem among_foldl (e : Extreme) (l : List f.Bits) (x : f.Bits) :
    e.Among (x :: l) (l.foldl e.ofBits x) := by
  cases e with
  | least => exact isLeast_foldl lowest Fmt.lowest_selected l x
  | greatest =>
    exact isLeast_foldl (fun y => OrderDual.toDual (highest y)) Fmt.highest_selected l x

theorem ofBits_of_nan {e : Extreme} {x y : f.Bits} (h : Fmt.isNan (e.ofBits x y) = true) :
    e.ofBits x y = getCanonicalNan f := by
  cases e with
  | least => exact Fmt.selected_of_nan Fmt.lesser_or h
  | greatest => exact Fmt.selected_of_nan Fmt.greater_or h

theorem foldl_of_nan (e : Extreme) {l : List f.Bits} {x : f.Bits} (hl : l ≠ [])
    (h : Fmt.isNan (l.foldl e.ofBits x) = true) : l.foldl e.ofBits x = getCanonicalNan f := by
  induction l generalizing x with
  | nil => exact absurd rfl hl
  | cons y l ih =>
    rw [List.foldl_cons] at h ⊢
    cases l with
    | nil => exact ofBits_of_nan h
    | cons z l => exact ih (List.cons_ne_nil z l) h

theorem Among.congr {e : Extreme} {l l' : List f.Bits} {x : f.Bits} (h : e.Among l x)
    (hl : ∀ y, y ∈ l ↔ y ∈ l') : e.Among l' x := by
  cases e with
  | least =>
    unfold Among at h ⊢
    simpa only [hl] using h
  | greatest =>
    unfold Among at h ⊢
    simpa only [hl] using h

/-- The extreme of the numbers is one pattern. -/
theorem Among.unique {e : Extreme} {l : List f.Bits} {x y : f.Bits} (hx : e.Among l x)
    (hy : e.Among l y) (hcx : Fmt.isNan x = true → x = getCanonicalNan f)
    (hcy : Fmt.isNan y = true → y = getCanonicalNan f) : x = y := by
  have hor : x = y ∨ Fmt.isNan x = true ∧ Fmt.isNan y = true := by
    cases e with
    | least => exact Fmt.eq_of_lowest_eq (IsLeast.unique hx hy)
    | greatest => exact Fmt.eq_of_highest_eq (IsGreatest.unique hx hy)
  rcases hor with h | ⟨hnx, hny⟩
  · exact h
  · rw [hcx hnx, hcy hny]

end Extreme

def IsExtreme (f : Fmt) (e : Extreme) (d : Decoder) : Prop :=
  d.opcodeType = some .fother ∧ d.funct3 = e.funct3 ∧ d.funct7 =
    match f with
    | .single => 0x14
    | .double => 0x15

theorem execute_extreme (hfs : cpu.cregs.isFpuEnabled = true) {e : Extreme}
    (hd : IsExtreme f e d) : ∃ after, cpu.execute d = .ok (4, after) ∧
      FlagsOnly (setF cpu d.rd (e.ofBits (getF f cpu d.rs1) (getF f cpu d.rs2))) after := by
  obtain ⟨ht, h3, h7⟩ := hd
  have hop : Fdtype.fotherOp d.funct7 = some (Fdtype.fminmaxBy f) := by
    rw [h7]
    cases f <;> rfl
  have hflags : ∀ (p : Bool) (x : f.Bits),
      FlagsOnly (setF cpu d.rd x) (setExceptions (setF (Fdimpl.invalidIf p cpu) d.rd x)) := by
    intro p x
    have hcomm : setF (Fdimpl.invalidIf p cpu) d.rd x = Fdimpl.invalidIf p (setF cpu d.rd x) := by
      unfold Fdimpl.invalidIf
      cases p <;> rfl
    rw [hcomm]
    exact (FlagsOnly.invalidIf p _).trans (.setExceptions _)
  rw [execute_fother _ hfs ht hop, Fdtype.fminmaxBy, h3]
  cases e with
  | least => exact ⟨_, rfl, hflags _ _⟩
  | greatest => exact ⟨_, rfl, hflags _ _⟩

theorem Fmt.width_le (f : Fmt) : f.width ≤ 64 := by cases f <;> decide

theorem getF_of_fregs {c : Cpu} {x : f.Bits} (h : c.fregs r = x.setWidth 64) : getF f c r = x := by
  unfold getF
  rw [h, BitVec.setWidth_setWidth_of_le x f.width_le, BitVec.setWidth_eq]

theorem Cpu.FlagsOnly.setFreg_setFreg {a b : Cpu} {u : Word} (h : FlagsOnly (a.setFreg r u) b)
    (v : Word) : FlagsOnly (a.setFreg r v) (b.setFreg r v) where
  toFrame := ⟨h.csr, h.mode, h.sleep, h.reservations, h.host⟩
  regs := h.regs
  fregs := by
    rw [Cpu.setFreg_fregs, Cpu.setFreg_fregs, h.fregs, Cpu.setFreg_fregs, Function.update_idem]
  pc := h.pc
  excVal := h.excVal
  bus := h.bus
  mmu := h.mmu

/-- The numbers in the registers that the code reads besides its accumulator. -/
def operands (f : Fmt) (cpu : Cpu) (ds : List Decoder) : List f.Bits :=
  ds.map fun d => getF f cpu d.rs2

theorem operands_eq_nil {ds : List Decoder} : operands f cpu ds = [] ↔ ds = [] :=
  List.map_eq_nil_iff

/-- The code keeps the extreme of what it has read in `r`. -/
def Accumulates (f : Fmt) (e : Extreme) (r : BitVec 5) (ds : List Decoder) : Prop :=
  ∀ d ∈ ds, IsExtreme f e d ∧ d.rd = r ∧ d.rs1 = r ∧ d.rs2 ≠ r

theorem executeAll_accumulates (hfs : cpu.cregs.isFpuEnabled = true) {e : Extreme}
    {ds : List Decoder} (hds : Accumulates f e r ds) : ∃ after, cpu.executeAll ds = .ok after ∧
      FlagsOnly (cpu.setFreg r (after.fregs r)) after ∧
      getF f after r = (operands f cpu ds).foldl e.ofBits (getF f cpu r) ∧
      (ds ≠ [] → after.fregs r = (getF f after r).setWidth 64) := by
  induction ds generalizing cpu with
  | nil =>
    refine ⟨cpu, rfl, ?_, rfl, fun h => absurd rfl h⟩
    have hself : cpu.setFreg r (cpu.fregs r) = cpu := by
      unfold Cpu.setFreg
      rw [Function.update_eq_self]
    rw [hself]
    exact .refl cpu
  | cons d ds ih =>
    obtain ⟨hd, hrd, hrs1, hrs2⟩ := hds d List.mem_cons_self
    obtain ⟨c, hx, hc⟩ := execute_extreme hfs hd
    rw [hrd, hrs1] at hc
    have hfs' : c.cregs.isFpuEnabled = true :=
      (Csr.isFpuEnabled_congr (hc.csr _ (by decide))).trans hfs
    have hcr : c.fregs r = (e.ofBits (getF f cpu r) (getF f cpu d.rs2)).setWidth 64 := by
      rw [hc.fregs]
      exact Function.update_self ..
    have hothers : operands f c ds = operands f cpu ds := by
      refine List.map_congr_left fun d' hd' => ?_
      unfold getF
      rw [hc.fregs]
      exact congrArg _ (Function.update_of_ne (hds d' (List.mem_cons_of_mem _ hd')).2.2.2 _ _)
    obtain ⟨after, hall, hflags, hval, htop⟩ :=
      ih hfs' fun d' hd' => hds d' (List.mem_cons_of_mem _ hd')
    refine ⟨after, ?_, (hc.setFreg_setFreg _).trans hflags, ?_, fun _ => ?_⟩
    · unfold Cpu.executeAll
      rw [hx]
      exact hall
    · rw [hval, hothers, getF_of_fregs hcr]
      rfl
    · cases ds with
      | nil =>
        cases hall
        rw [hcr, getF_of_fregs hcr]
      | cons _ _ => exact htop (List.cons_ne_nil _ _)

/-- Straight-line `FMIN` or `FMAX` into a register leaves the least or the greatest of the numbers
there, whatever their order and however often each is read. -/
theorem extreme_of_operands (hfs : cpu.cregs.isFpuEnabled = true) {e : Extreme}
    {ds : List Decoder} (hds : Accumulates f e r ds) : ∃ after, cpu.executeAll ds = .ok after ∧
      FlagsOnly (cpu.setFreg r (after.fregs r)) after ∧
      e.Among (getF f cpu r :: operands f cpu ds) (getF f after r) ∧
      ∀ ds', Accumulates f e r ds' → (∀ x, x ∈ operands f cpu ds' ↔ x ∈ operands f cpu ds) →
        ∃ after', cpu.executeAll ds' = .ok after' ∧ after'.fregs = after.fregs := by
  obtain ⟨after, hall, hflags, hval, htop⟩ := executeAll_accumulates hfs hds
  refine ⟨after, hall, hflags, hval ▸ e.among_foldl _ _, fun ds' hds' hsame => ?_⟩
  obtain ⟨after', hall', hflags', hval', htop'⟩ := executeAll_accumulates hfs hds'
  refine ⟨after', hall', ?_⟩
  have hempty : operands f cpu ds' = [] ↔ operands f cpu ds = [] := by
    rw [List.eq_nil_iff_forall_not_mem, List.eq_nil_iff_forall_not_mem]
    exact forall_congr' fun x => not_congr (hsame x)
  rw [operands_eq_nil, operands_eq_nil] at hempty
  have hr : after'.fregs r = after.fregs r := by
    by_cases hnil : ds = []
    · rw [hnil] at hall
      rw [hempty.mpr hnil] at hall'
      cases hall
      cases hall'
      rfl
    · have hnil' : ds' ≠ [] := mt hempty.mp hnil
      have hamong : e.Among (getF f cpu r :: operands f cpu ds)
          ((operands f cpu ds').foldl e.ofBits (getF f cpu r)) :=
        (e.among_foldl _ _).congr fun x => by rw [List.mem_cons, List.mem_cons, hsame x]
      have heq := hamong.unique (e.among_foldl _ _)
        (e.foldl_of_nan (mt operands_eq_nil.mp hnil')) (e.foldl_of_nan (mt operands_eq_nil.mp hnil))
      rw [htop hnil, htop' hnil', hval, hval', heq]
  rw [hflags'.fregs, hflags.fregs, hr]

end Instructions

/-- `fmin.d f7, f7, f6` and `fmin.d f7, f7, f5`. -/
theorem extreme_of_operands_least : ∃ after,
    floatCpu.executeAll [⟨0x2a6383d3⟩, ⟨0x2a5383d3⟩] = .ok after ∧
      Extreme.least.Among (getF .double floatCpu 7 ::
        operands .double floatCpu [⟨0x2a6383d3⟩, ⟨0x2a5383d3⟩]) (getF .double after 7) := by
  have hds : Accumulates .double .least 7 [⟨0x2a6383d3⟩, ⟨0x2a5383d3⟩] := by
    intro d hd
    rcases List.mem_pair.mp hd with rfl | rfl
    · exact ⟨⟨by decide, by decide, by decide⟩, by decide, by decide, by decide⟩
    · exact ⟨⟨by decide, by decide, by decide⟩, by decide, by decide, by decide⟩
  obtain ⟨after, hall, _, hamong, _⟩ :=
    @extreme_of_operands floatCpu .double 7 (by decide) .least _ hds
  exact ⟨after, hall, hamong⟩

end Rv64gcEmu
