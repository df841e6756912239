import Mathlib.Data.Prod.Lex
import Rv64gcEmu.FloatConversion
import Rv64gcEmu.FloatClasses
import Rv64gcEmu.SignMagnitude

namespace Rv64gcEmu

open SignMagnitude (weight odd)

/-- The numbers with an infinity on each side. -/
abbrev Extended := WithBot (WithTop ℚ)

def FloatValue.extended : FloatValue → Option Extended
  | nan => none
  | infinite negative => some (if negative then ⊥ else .some ⊤)
  | finite v => some (.some (.some v))

namespace Fmt

variable {f : Fmt} {x y : f.Bits}

/-- The pattern without its sign. -/
def body (x : f.Bits) : Nat := exponent x * 2 ^ f.fracBits + fraction x

/-- The body of an infinity. -/
def top (f : Fmt) : Nat := (2 ^ f.expBits - 1) * 2 ^ f.fracBits

/-- The number of a body. -/
def bodyValue (f : Fmt) (n : Nat) : ℚ :=
  (weight f.fracBits n : ℚ) / (2 ^ (f.bias + f.fracBits) : Nat)

theorem rank_eq (x : f.Bits) : rank x = if sign x then -(body x : ℤ) else body x := rfl

theorem body_div (x : f.Bits) : body x / 2 ^ f.fracBits = exponent x := by
  unfold body fraction
  rw [Nat.mul_comm, Nat.mul_add_div (Nat.two_pow_pos _),
    Nat.div_eq_of_lt (Nat.mod_lt _ (Nat.two_pow_pos _)), Nat.add_zero]

theorem body_mod (x : f.Bits) : body x % 2 ^ f.fracBits = fraction x := by
  unfold body fraction
  rw [Nat.mul_comm, Nat.mul_add_mod, Nat.mod_mod]

theorem magnitude_eq (x : f.Bits) : magnitude x = bodyValue f (body x) := by
  unfold magnitude bodyValue weight
  rw [body_div, body_mod]
  unfold significand scale
  split
  next h =>
    have hb : body x = fraction x := by
      unfold body
      rw [h, Nat.zero_mul, Nat.zero_add]
    rw [h, hb, max_eq_right (Nat.zero_le 1), Nat.pow_one]
  next h => rw [max_eq_left (by omega)]

theorem bodyValue_zero (f : Fmt) : bodyValue f 0 = 0 := by
  unfold bodyValue
  rw [SignMagnitude.weight_zero, Nat.cast_zero, zero_div]

theorem bodyValue_strictMono (f : Fmt) : StrictMono (bodyValue f) := by
  intro m n h
  have hw : (weight f.fracBits m : ℚ) < weight f.fracBits n :=
    Nat.cast_lt.mpr (SignMagnitude.weight_strictMono _ h)
  exact div_lt_div_of_pos_right hw (Nat.cast_pos.mpr (Nat.two_pow_pos _))

theorem toRat_eq (x : f.Bits) : toRat x = odd (bodyValue f) (rank x) := by
  unfold toRat
  rw [magnitude_eq, rank_eq]
  cases sign x with
  | true => exact (SignMagnitude.odd_neg_natCast (bodyValue_zero f) _).symm
  | false => exact (SignMagnitude.odd_natCast (bodyValue f) _).symm

theorem exponent_le (x : f.Bits) : exponent x ≤ 2 ^ f.expBits - 1 :=
  Nat.le_sub_one_of_lt (Nat.mod_lt _ (Nat.two_pow_pos _))

theorem isInf_iff (h : isNan x = false) : isInf x = true ↔ top f ≤ body x := by
  have he := exponent_le x
  have hf : fraction x < 2 ^ f.fracBits := Nat.mod_lt _ (Nat.two_pow_pos _)
  unfold isNan at h
  unfold isInf top body isSpecial at *
  simp only [Bool.and_eq_true, decide_eq_true_eq, Bool.and_eq_false_iff, decide_eq_false_iff_not,
    not_not, ne_eq] at *
  constructor
  · rintro ⟨h1, h2⟩
    rw [h1, h2, Nat.add_zero]
  · intro hle
    have hspecial : exponent x = 2 ^ f.expBits - 1 := by
      by_contra hne
      have hlt : (exponent x + 1) * 2 ^ f.fracBits ≤ (2 ^ f.expBits - 1) * 2 ^ f.fracBits :=
        Nat.mul_le_mul_right _ (by omega)
      rw [Nat.succ_mul] at hlt
      omega
    exact ⟨hspecial, h.resolve_left (fun hne => hne hspecial)⟩

theorem body_le (h : isNan x = false) : body x ≤ top f := by
  by_cases hi : isInf x = true
  · unfold isInf at hi
    rw [Bool.and_eq_true] at hi
    unfold isSpecial at hi
    rw [decide_eq_true_iff, decide_eq_true_iff] at hi
    unfold body top
    rw [hi.1, hi.2, Nat.add_zero]
  · exact Nat.le_of_not_le fun hle => hi ((isInf_iff h).mpr hle)

theorem rank_mem (h : isNan x = false) : rank x ∈ Set.Icc (-top f : ℤ) (top f) := by
  have hb := body_le h
  rw [rank_eq]
  cases sign x with
  | true => exact ⟨by simp only [if_true]; omega, by simp only [if_true]; omega⟩
  | false => exact ⟨by simp only [Bool.false_eq_true, if_false]; omega,
      by simp only [Bool.false_eq_true, if_false]; omega⟩

/-- The value of a pattern that is no NaN is a strictly increasing function of its rank. -/
theorem extended_value (h : isNan x = false) :
    (value x).extended = some (SignMagnitude.extended (bodyValue f) (top f) (rank x)) := by
  have htop : 0 < top f := by cases f <;> decide
  have hi := isInf_iff h
  have hr := rank_eq x
  unfold value SignMagnitude.extended
  rw [h, if_neg Bool.false_ne_true]
  cases hs : sign x with
  | true =>
    rw [hs, if_pos rfl] at hr
    by_cases hinf : isInf x = true
    · have := hi.mp hinf
      rw [if_pos hinf, if_pos (by omega)]
      rfl
    · have := mt hi.mpr hinf
      rw [if_neg hinf, if_neg (by omega), if_neg (by omega), toRat_eq]
      rfl
  | false =>
    rw [hs, if_neg Bool.false_ne_true] at hr
    by_cases hinf : isInf x = true
    · have := hi.mp hinf
      rw [if_pos hinf, if_neg (by omega), if_pos (by omega)]
      rfl
    · have := mt hi.mpr hinf
      rw [if_neg hinf, if_neg (by omega), if_neg (by omega), toRat_eq]
      rfl

theorem extended_nan (h : isNan x = true) : (value x).extended = none := by
  unfold value
  rw [if_pos h]
  rfl

/-- Where a pattern stands among the numbers; the negative zero is below the other. -/
def place (x : f.Bits) : Extended ×ₗ Bool :=
  toLex (SignMagnitude.extended (bodyValue f) (top f) (rank x), !sign x)

/-- A NaN is above every number. -/
def lowest (x : f.Bits) : WithTop (Extended ×ₗ Bool) := if isNan x then ⊤ else .some (place x)

/-- A NaN is below every number. -/
def highest (x : f.Bits) : WithBot (Extended ×ₗ Bool) := if isNan x then ⊥ else .some (place x)

theorem extended_lt_iff (hx : isNan x = false) (hy : isNan y = false) :
    SignMagnitude.extended (bodyValue f) (top f) (rank x) <
      SignMagnitude.extended (bodyValue f) (top f) (rank y) ↔ rank x < rank y :=
  (SignMagnitude.extended_strictMonoOn (bodyValue_strictMono f) (bodyValue_zero f)).lt_iff_lt
    (rank_mem hx) (rank_mem hy)

theorem extended_le_iff (hx : isNan x = false) (hy : isNan y = false) :
    SignMagnitude.extended (bodyValue f) (top f) (rank x) ≤
      SignMagnitude.extended (bodyValue f) (top f) (rank y) ↔ rank x ≤ rank y :=
  (SignMagnitude.extended_strictMonoOn (bodyValue_strictMono f) (bodyValue_zero f)).le_iff_le
    (rank_mem hx) (rank_mem hy)

theorem extended_eq_iff (hx : isNan x = false) (hy : isNan y = false) :
    SignMagnitude.extended (bodyValue f) (top f) (rank x) =
      SignMagnitude.extended (bodyValue f) (top f) (rank y) ↔ rank x = rank y := by
  rw [le_antisymm_iff, extended_le_iff hx hy, extended_le_iff hy hx, le_antisymm_iff]

theorem place_le_of_lt (hx : isNan x = false) (hy : isNan y = false) (h : rank x < rank y) :
    place x ≤ place y :=
  (Prod.Lex.toLex_lt_toLex.mpr (.inl ((extended_lt_iff hx hy).mpr h))).le

theorem place_le_of_eq (h : rank x = rank y) (hs : sign y = true → sign x = true) :
    place x ≤ place y := by
  refine Prod.Lex.toLex_le_toLex.mpr (.inr ⟨?_, ?_⟩)
  · exact congrArg (SignMagnitude.extended (bodyValue f) (top f)) h
  · cases hy : sign y with
    | true => rw [hs hy]
    | false => exact Bool.le_true _

theorem body_eq_mod (x : f.Bits) : body x = x.toNat % 2 ^ (f.width - 1) := by
  have hw : f.width - 1 = f.fracBits + f.expBits := by cases f <;> rfl
  unfold body exponent fraction
  rw [hw, Nat.pow_add, Nat.mod_mul, Nat.mul_comm, Nat.add_comm]

/-- A number's pattern is its number and its sign. -/
theorem place_inj (hx : isNan x = false) (hy : isNan y = false) (h : place x = place y) :
    x = y := by
  have hpair := toLex.injective h
  rw [Prod.mk.injEq, extended_eq_iff hx hy, Bool.not_inj_iff, rank_eq, rank_eq] at hpair
  obtain ⟨hr, hs⟩ := hpair
  have hb : body x = body y := by
    rw [hs] at hr
    split at hr <;> omega
  rw [body_eq_mod, body_eq_mod] at hb
  rw [sign_eq, sign_eq, decide_eq_decide] at hs
  have hwx := x.isLt
  have hwy := y.isLt
  have hpow : 2 ^ f.width = 2 * 2 ^ (f.width - 1) := by cases f <;> rfl
  apply BitVec.eq_of_toNat_eq
  rw [hpow] at hwx hwy
  generalize 2 ^ (f.width - 1) = p at hb hs hwx hwy
  by_cases hp : p ≤ x.toNat
  · rw [Nat.mod_eq_sub_mod hp, Nat.mod_eq_sub_mod (hs.mp hp), Nat.mod_eq_of_lt (by omega),
      Nat.mod_eq_of_lt (by omega)] at hb
    have := hs.mp hp
    omega
  · have hp' := mt hs.mpr hp
    rwa [Nat.mod_eq_of_lt (by omega), Nat.mod_eq_of_lt (by omega)] at hb

end Fmt

end Rv64gcEmu
