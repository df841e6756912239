import Rv64gcEmu.Bus
import Rv64gcEmu.PlicWords

namespace BitField

theorem and_eq_zero_iff {w : Nat} {x y : BitVec w} :
    x &&& y = 0 ↔ ∀ i < w, y.getLsbD i = true → x.getLsbD i = false := by
  constructor
  · intro h i _ hy
    have hb := congrArg (fun z => z.getLsbD i) h
    simpa [hy] using hb
  · intro h
    apply BitVec.eq_of_getLsbD_eq
    intro i hi
    cases hy : y.getLsbD i with
    | true => simp [h i hi hy]
    | false => simp [hy]

end BitField

namespace Rv64gcEmu

namespace Width

/-- The bits of a value that belong to an access of the length. -/
def low (length : Width) (v : Word) : Word := (v.setWidth length.bits).setWidth 64

/-- The bits above them. -/
def upper (length : Width) : Word := ~~~length.low (BitVec.allOnes 64)

theorem getLsbD_low (length : Width) (v : Word) (i : Nat) :
    (length.low v).getLsbD i = (decide (i < length.bits) && v.getLsbD i) := by
  rw [low, BitVec.getLsbD_setWidth, BitVec.getLsbD_setWidth]
  by_cases hi : i < 64
  · simp [hi]
  · simp [hi, BitVec.getLsbD_of_ge v i (by omega)]

theorem getLsbD_upper (length : Width) (i : Nat) :
    length.upper.getLsbD i = (decide (i < 64) && !decide (i < length.bits)) := by
  rw [upper, BitVec.getLsbD_not, getLsbD_low, BitVec.getLsbD_allOnes]
  by_cases hi : i < 64
  · simp [hi]
  · simp [hi]

theorem low_low (length : Width) (v : Word) : length.low (length.low v) = length.low v := by
  apply BitVec.eq_of_getLsbD_eq
  intro i hi
  rw [getLsbD_low, getLsbD_low]
  cases decide (i < length.bits) <;> rfl

/-- Every field of the value below the length. -/
theorem extract_low (length : Width) (v : Word) {a n : Nat} (h : a + n ≤ length.bits) :
    (length.low v).extractLsb' a n = v.extractLsb' a n := by
  apply BitVec.eq_of_getLsbD_eq
  intro i hi
  have hlt : a + i < length.bits := by omega
  rw [BitVec.getLsbD_extractLsb', BitVec.getLsbD_extractLsb', getLsbD_low]
  simp [hlt]

theorem setWidth_low (length : Width) (v : Word) {n : Nat} (h : n ≤ length.bits) :
    (length.low v).setWidth n = v.setWidth n := by
  have hn : n ≤ 64 := Nat.le_trans h length.bits_le
  rw [BitVec.setWidth_eq_extractLsb' hn, BitVec.setWidth_eq_extractLsb' hn,
    extract_low length v (by omega)]

theorem low_and (length : Width) (v : Word) {m : Word}
    (h : ∀ i < 64, m.getLsbD i = true → i < length.bits) : length.low v &&& m = v &&& m := by
  apply BitVec.eq_of_getLsbD_eq
  intro i hi
  rw [BitVec.getLsbD_and, BitVec.getLsbD_and, getLsbD_low]
  cases hm : m.getLsbD i with
  | true => simp [h i hi hm]
  | false => simp

theorem toNat_low (length : Width) (v : Word) :
    (length.low v).toNat = v.toNat % 2 ^ length.bits := by
  have hle : length.bits ≤ 64 := length.bits_le
  rw [low, BitVec.toNat_setWidth_of_le hle, BitVec.toNat_setWidth]

/-- A field of a word. -/
def mask (a n : Nat) : Word := (BitVec.allOnes n).setWidth 64 <<< a

theorem getLsbD_mask {a n : Nat} (h : a + n ≤ 64) (i : Nat) :
    (mask a n).getLsbD i = decide (a ≤ i ∧ i < a + n) := by
  rw [mask, BitVec.getLsbD_shiftLeft, BitVec.getLsbD_setWidth, BitVec.getLsbD_allOnes]
  by_cases ha : a ≤ i
  · by_cases hn : i < a + n
    · have h64 : i < 64 := by omega
      have hsub : i - a < 64 := by omega
      have hsub' : i - a < n := by omega
      have hlt : ¬i < a := by omega
      simp [ha, hn, h64, hsub, hsub', hlt]
    · have hsub : ¬i - a < n := by omega
      simp [hn, hsub]
  · have hlt : i < a := by omega
    simp [ha, hlt]

/-- A field of the value that reaches above the length. -/
theorem extract_low_iff (length : Width) (v : Word) {a n : Nat} (h : a + n ≤ 64) :
    v.extractLsb' a n = (length.low v).extractLsb' a n ↔ v &&& (mask a n &&& length.upper) = 0 := by
  rw [BitField.and_eq_zero_iff]
  constructor
  · intro he i hi hm
    rw [BitVec.getLsbD_and, getLsbD_mask h, getLsbD_upper, Bool.and_eq_true, decide_eq_true_iff] at hm
    obtain ⟨⟨ha, hn⟩, hu⟩ := hm
    have hb := congrArg (fun z => z.getLsbD (i - a)) he
    have hadd : a + (i - a) = i := by omega
    have hlt : i - a < n := by omega
    simp only [BitVec.getLsbD_extractLsb', getLsbD_low, hadd, hlt, decide_true, Bool.true_and] at hb
    rw [hb]
    simp only [hi, decide_true, Bool.true_and, Bool.not_eq_true'] at hu
    rw [hu, Bool.false_and]
  · intro hz
    apply BitVec.eq_of_getLsbD_eq
    intro i hi
    rw [BitVec.getLsbD_extractLsb', BitVec.getLsbD_extractLsb', getLsbD_low]
    by_cases hlt : a + i < length.bits
    · simp [hlt]
    · have hv := hz (a + i) (by omega) (by
        rw [BitVec.getLsbD_and, getLsbD_mask h, getLsbD_upper]
        have h1 : a + i < a + n := by omega
        have h2 : a + i < 64 := by omega
        simp [h1, h2, hlt])
      simp [hv]

theorem and_upper_iff (length : Width) (v : Word) :
    v &&& (mask 0 64 &&& length.upper) = 0 ↔ v = length.low v := by
  rw [← length.extract_low_iff v (by decide)]
  have hall : ∀ x : Word, x.extractLsb' 0 64 = x := fun x => BitVec.extractLsb'_eq_self
  rw [hall, hall]

end Width

/-- Among the values with the low bits of `v` the function looks at the bits in `seen`. -/
structure Sees {α : Type} (f : Word → α) (length : Width) (v seen : Word) : Prop where
  same : (∀ x, length.low x = length.low v → f x = f v) ↔ seen = 0
  low : length = .w32 → (f v = f (length.low v) ↔ v &&& seen = 0)

namespace Sees

variable {α β : Type} {f : Word → α} {length : Width} {v seen : Word}

theorem of_low (hu : seen &&& length.upper = seen)
    (h : ∀ x, length.low x = length.low v → (f x = f (length.low v) ↔ x &&& seen = 0)) :
    Sees f length v seen where
  same := by
    constructor
    · intro hsame
      have hlow : f (length.low v) = f v := hsame _ (length.low_low v)
      have hx : length.low (v ||| seen) = length.low v := by
        apply BitVec.eq_of_getLsbD_eq
        intro i hi
        rw [Width.getLsbD_low, Width.getLsbD_low, BitVec.getLsbD_or, ← hu, BitVec.getLsbD_and,
          Width.getLsbD_upper]
        cases decide (i < length.bits) <;> simp
      have hz := (h _ hx).mp ((hsame _ hx).trans hlow.symm)
      rw [← hz]
      apply BitVec.eq_of_getLsbD_eq
      intro i hi
      simp only [BitVec.getLsbD_and, BitVec.getLsbD_or]
      cases v.getLsbD i <;> cases seen.getLsbD i <;> rfl
    · rintro rfl x hx
      rw [(h x hx).mpr (BitVec.and_zero), (h v rfl).mpr (BitVec.and_zero)]
  low _ := h v rfl

theorem const (h : ∀ x, f x = f v) : Sees f length v 0 :=
  of_low BitVec.zero_and fun x _ => iff_of_true (by rw [h x, h (length.low v)]) BitVec.and_zero

/-- Nothing above the low bits. -/
theorem none (h : ∀ x, length.low x = length.low v → f x = f (length.low v)) :
    Sees f length v (0 &&& length.upper) := by
  have hz : 0 &&& length.upper = 0 := BitVec.zero_and
  rw [hz]
  exact of_low BitVec.zero_and fun x hx => iff_of_true (h x hx) BitVec.and_zero

theorem none_of_low (h : ∀ x, f (length.low x) = f x) : Sees f length v (0 &&& length.upper) :=
  none fun x hx => by rw [← hx, h]

theorem field {n : Nat} {g : BitVec n → α} (hg : Function.Injective g) {a : Nat} (h : a + n ≤ 64) :
    Sees (fun x => g (x.extractLsb' a n)) length v (Width.mask a n &&& length.upper) := by
  refine of_low ?_ fun x hx => ?_
  · rw [BitVec.and_assoc, BitVec.and_self]
  · rw [hg.eq_iff, ← length.extract_low_iff x h, hx]

theorem word {g : BitVec 32 → α} (hg : Function.Injective g) :
    Sees (fun x => g (x.setWidth 32)) length v (Width.mask 0 32 &&& length.upper) := by
  have hw : ∀ x : Word, x.setWidth 32 = x.extractLsb' 0 32 :=
    fun x => BitVec.setWidth_eq_extractLsb' (by decide)
  simp only [hw]
  exact field hg (by decide)

/-- The whole value, if its low bits are those that count. -/
theorem whole (h : ∀ x, length.low x = length.low v → (f x = f (length.low v) ↔ x = length.low v)) :
    Sees f length v (Width.mask 0 64 &&& length.upper) := by
  refine of_low ?_ fun x hx => ?_
  · rw [BitVec.and_assoc, BitVec.and_self]
  · rw [length.and_upper_iff, h x hx, hx]

theorem ite {c : Prop} [Decidable c] {g : Word → α} {s t : Word}
    (hf : c → Sees f length v (s &&& length.upper))
    (hg : ¬c → Sees g length v (t &&& length.upper)) :
    Sees (fun x => if c then f x else g x) length v ((if c then s else t) &&& length.upper) := by
  by_cases h : c
  · simp only [if_pos h]
    exact hf h
  · simp only [if_neg h]
    exact hg h

theorem map {g : α → β} (hg : Function.Injective g) (h : Sees f length v seen) :
    Sees (fun x => g (f x)) length v seen where
  same := by
    simp only [hg.eq_iff]
    exact h.same
  low h32 := hg.eq_iff.trans (h.low h32)

theorem congr {g : Word → α} (hg : ∀ x, g x = f x) (h : Sees f length v seen) :
    Sees g length v seen := by
  obtain rfl : g = f := funext hg
  exact h

end Sees

end Rv64gcEmu
