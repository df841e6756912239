import Mathlib.Data.Rat.Floor
import Rv64gcEmu.Fpu
import Rv64gcEmu.IntegerRounding

namespace Rv64gcEmu

/-- What a bit pattern stands for. -/
inductive FloatValue where
  | nan
  | infinite (negative : Bool)
  | finite (v : ℚ)
  deriving DecidableEq

namespace FloatValue

def rounded (m : Rounding) : FloatValue → FloatValue
  | nan => nan
  | infinite negative => infinite negative
  | finite v => finite (m.toInt v)

end FloatValue

namespace Fmt

variable {f : Fmt}

def magnitude (x : f.Bits) : ℚ :=
  (significand x * 2 ^ scale x : Nat) / (2 ^ (f.bias + f.fracBits) : Nat)

def toRat (x : f.Bits) : ℚ := if sign x then -magnitude x else magnitude x

def value (x : f.Bits) : FloatValue :=
  if isNan x then .nan
  else if isInf x then .infinite (sign x)
  else .finite (toRat x)

theorem truncated_eq (x : f.Bits) : truncated x = Rounding.truncate (toRat x) := by
  have hpos : 0 ≤ magnitude x := div_nonneg (Nat.cast_nonneg _) (Nat.cast_nonneg _)
  have hfloor : ⌊magnitude x⌋ = significand x * 2 ^ scale x / 2 ^ (f.bias + f.fracBits) := by
    unfold magnitude
    rw [Rat.floor_natCast_div_natCast]
    push_cast
    rfl
  unfold truncated toRat
  rw [← hfloor]
  cases sign x with
  | true => exact (Rounding.truncate_neg hpos).symm
  | false => exact (Rounding.truncate_of_nonneg hpos).symm

/-- The pattern of an infinity is cut to a number beyond every integer type. -/
theorem truncated_infinite {x : f.Bits} (h : isInf x = true) :
    truncated x < -2 ^ 64 ∨ 2 ^ 64 < truncated x := by
  unfold isInf isSpecial at h
  rw [Bool.and_eq_true, decide_eq_true_iff, decide_eq_true_iff] at h
  have hexp : 1 ≤ 2 ^ f.expBits - 1 ∧ f.bias + f.fracBits + 65 ≤ f.fracBits + (2 ^ f.expBits - 1) := by
    cases f <;> decide
  have hne : ¬2 ^ f.expBits - 1 = 0 := by omega
  have hm : 2 ^ 65 ≤ significand x * 2 ^ scale x / 2 ^ (f.bias + f.fracBits) := by
    unfold significand scale
    rw [h.1, h.2, if_neg hne, Nat.add_zero, max_eq_left hexp.1, ← Nat.pow_add]
    rw [Nat.pow_div (by omega) (by decide)]
    exact Nat.pow_le_pow_right (by decide) (by omega)
  have hm' : (2 : Int) ^ 65 ≤ significand x * 2 ^ scale x / 2 ^ (f.bias + f.fracBits) := by
    exact_mod_cast hm
  unfold truncated
  generalize (significand x * 2 ^ scale x / 2 ^ (f.bias + f.fracBits) : Int) = m at hm'
  cases sign x with
  | true => exact .inl (by simp only [if_true]; omega)
  | false => exact .inr (by simp only [Bool.false_eq_true, if_false]; omega)

variable {x : f.Bits}

theorem sign_eq (x : f.Bits) : sign x = decide (2 ^ (f.width - 1) ≤ x.toNat) := by
  unfold sign
  rw [← BitVec.msb_eq_getLsbD_last, BitVec.msb_eq_decide]

theorem significand_lt (x : f.Bits) : significand x < 2 ^ (f.fracBits + 1) := by
  have hf : fraction x < 2 ^ f.fracBits := Nat.mod_lt _ (Nat.two_pow_pos _)
  unfold significand
  rw [Nat.pow_succ]
  split <;> omega

theorem value_of_scale_lt (h : scale x < 2 ^ f.expBits - 1) : value x = .finite (toRat x) := by
  have hs : isSpecial x = false := by
    unfold isSpecial
    unfold scale at h
    exact decide_eq_false (by omega)
  unfold value isNan isInf
  rw [hs]
  rfl

/-- From this exponent on a number has no fraction part. -/
theorem toRat_of_le_scale (h : f.bias + f.fracBits ≤ scale x) :
    ∃ n : ℤ, toRat x = n := by
  have hm : magnitude x = (significand x * 2 ^ (scale x - (f.bias + f.fracBits)) : ℕ) := by
    unfold magnitude
    rw [div_eq_iff (by positivity), ← Nat.cast_mul, Nat.mul_assoc, ← Nat.pow_add,
      Nat.sub_add_cancel h]
  generalize significand x * 2 ^ (scale x - (f.bias + f.fracBits)) = k at hm
  unfold toRat
  rw [hm]
  cases sign x with
  | true => exact ⟨-k, by rw [Int.cast_neg, Int.cast_natCast]; rfl⟩
  | false => exact ⟨k, (Int.cast_natCast k).symm⟩

section OfMagnitude

variable {n : Nat} (negative : Bool)

theorem ofMagnitude_fields {body : Nat} (h : body < 2 ^ (f.width - 1)) (x : f.Bits)
    (hx : x = BitVec.ofNat _ ((if negative then 2 ^ (f.width - 1) else 0) + body)) :
    sign x = negative ∧ exponent x = body / 2 ^ f.fracBits ∧ fraction x = body % 2 ^ f.fracBits := by
  have hw : 2 ^ f.width = 2 * 2 ^ (f.width - 1) := by cases f <;> rfl
  have hfields : 2 ^ (f.width - 1) = 2 ^ f.fracBits * 2 ^ f.expBits := by cases f <;> rfl
  have hnat : x.toNat = (if negative then 2 ^ (f.width - 1) else 0) + body := by
    rw [hx, BitVec.toNat_ofNat, Nat.mod_eq_of_lt]
    rw [hw]
    split <;> omega
  refine ⟨?_, ?_, ?_⟩
  · rw [sign_eq, hnat]
    cases negative with
    | true => exact decide_eq_true (Nat.le_add_right _ _)
    | false => exact decide_eq_false (by simpa using h)
  · unfold exponent
    rw [hnat, ← Nat.mod_mul_right_div_self, ← hfields]
    cases negative with
    | true => simp only [if_true, Nat.add_mod_left, Nat.mod_eq_of_lt h]
    | false => simp only [Bool.false_eq_true, if_false, Nat.zero_add, Nat.mod_eq_of_lt h]
  · unfold fraction
    rw [hnat]
    cases negative with
    | true => rw [if_pos rfl, hfields, Nat.mul_add_mod]
    | false => rw [if_neg Bool.false_ne_true, Nat.zero_add]

theorem log2_le (hn : n ≤ 2 ^ f.fracBits) (h0 : n ≠ 0) : n.log2 ≤ f.fracBits :=
  Nat.le_of_lt_succ ((Nat.log2_lt h0).mpr (hn.trans_lt (Nat.pow_lt_pow_succ (by decide))))

/-- The leading digit of the number is shifted to the place of the hidden one. -/
theorem ofMagnitude_number (hn : n ≤ 2 ^ f.fracBits) (h0 : n ≠ 0) :
    sign (ofMagnitude f negative n) = negative ∧
      scale (ofMagnitude f negative n) = n.log2 + f.bias ∧
      significand (ofMagnitude f negative n) = n * 2 ^ (f.fracBits - n.log2) := by
  have hbias : f.bias + f.fracBits + 1 < 2 ^ f.expBits ∧ 0 < f.bias := by cases f <;> decide
  have hfields : 2 ^ (f.width - 1) = 2 ^ f.expBits * 2 ^ f.fracBits := by cases f <;> rfl
  have he := log2_le hn h0
  obtain ⟨k, hk⟩ : ∃ k, k = n * 2 ^ (f.fracBits - n.log2) := ⟨_, rfl⟩
  have hlo : 2 ^ f.fracBits ≤ k := by
    have h := Nat.mul_le_mul_right (2 ^ (f.fracBits - n.log2)) (Nat.log2_self_le h0)
    rwa [← Nat.pow_add, Nat.add_sub_cancel' he, ← hk] at h
  have hhi : k < 2 * 2 ^ f.fracBits := by
    have h := Nat.mul_lt_mul_of_pos_right (@Nat.lt_log2_self n)
      (Nat.two_pow_pos (f.fracBits - n.log2))
    rwa [← Nat.pow_add, Nat.add_right_comm, Nat.add_sub_cancel' he, Nat.pow_succ, Nat.mul_comm _ 2,
      ← hk] at h
  have hdiv : k / 2 ^ f.fracBits = 1 := Nat.div_eq_of_lt_le (by omega) (by omega)
  have hmod : k % 2 ^ f.fracBits = k - 2 ^ f.fracBits := by
    rw [Nat.mod_eq_sub_mod hlo, Nat.mod_eq_of_lt (by omega)]
  have hlt : (n.log2 + f.bias - 1) * 2 ^ f.fracBits + k < 2 ^ (f.width - 1) := by
    have h : (n.log2 + f.bias - 1 + 2) * 2 ^ f.fracBits ≤ 2 ^ f.expBits * 2 ^ f.fracBits :=
      Nat.mul_le_mul_right _ (by omega)
    rw [hfields]
    rw [Nat.add_mul] at h
    omega
  obtain ⟨hsign, hexp, hfrac⟩ := ofMagnitude_fields negative hlt (ofMagnitude f negative n)
    (by unfold ofMagnitude; rw [if_neg h0, hk])
  rw [Nat.mul_comm, Nat.mul_add_div (Nat.two_pow_pos _), hdiv] at hexp
  rw [Nat.mul_comm, Nat.mul_add_mod, hmod] at hfrac
  have hne : ¬exponent (ofMagnitude f negative n) = 0 := by omega
  refine ⟨hsign, ?_, ?_⟩
  · unfold scale
    omega
  · unfold significand
    rw [if_neg hne, hfrac, ← hk]
    omega

theorem magnitude_ofMagnitude (hn : n ≤ 2 ^ f.fracBits) (h0 : n ≠ 0) :
    magnitude (ofMagnitude f negative n) = n := by
  have he := log2_le hn h0
  obtain ⟨_, hscale, hsignif⟩ := ofMagnitude_number negative hn h0
  have hpow : f.fracBits - n.log2 + (n.log2 + f.bias) = f.bias + f.fracBits := by omega
  unfold magnitude
  rw [div_eq_iff (by positivity), hscale, hsignif, Nat.mul_assoc, ← Nat.pow_add, hpow, Nat.cast_mul]

theorem value_ofMagnitude (hn : n ≤ 2 ^ f.fracBits) :
    value (ofMagnitude f negative n) = .finite (if negative then -n else n) := by
  by_cases h0 : n = 0
  · subst h0
    cases f <;> cases negative <;> decide +kernel
  have hbias : f.bias + f.fracBits < 2 ^ f.expBits - 1 := by cases f <;> decide
  have he := log2_le hn h0
  obtain ⟨hsign, hscale, _⟩ := ofMagnitude_number negative hn h0
  rw [value_of_scale_lt (by omega), toRat, hsign, magnitude_ofMagnitude negative hn h0]

end OfMagnitude

section Integral

variable {a b : Nat} {pick : Nat → Nat → Nat} {m : Rounding}

theorem quotient_lt (h : scale x < f.bias + f.fracBits) :
    significand x * 2 ^ scale x / 2 ^ (f.bias + f.fracBits) < 2 ^ f.fracBits := by
  have hs := significand_lt x
  have hle : 2 ^ (scale x + 1) ≤ 2 ^ (f.bias + f.fracBits) :=
    Nat.pow_le_pow_right (by decide) h
  have hlt := Nat.mul_lt_mul_of_pos_right hs (Nat.two_pow_pos (scale x))
  rw [← Nat.pow_add, Nat.add_assoc, Nat.add_comm 1, Nat.pow_add] at hlt
  refine Nat.div_lt_of_lt_mul (hlt.trans_le ?_)
  rw [Nat.mul_comm]
  exact Nat.mul_le_mul_right _ hle

theorem quotientUp_le (hb : 0 < b) : quotientUp a b ≤ a / b + 1 := by
  rw [← Nat.add_div_right a hb]
  exact Nat.div_le_div_right (by omega)

theorem quotientNearest_le (hb : 0 < b) : quotientNearest a b ≤ a / b + 1 := by
  rw [← Nat.add_div_right a hb, ← Nat.mul_div_mul_left _ _ (by decide : 0 < 2)]
  exact Nat.div_le_div_right (by omega)

theorem floor_quotient (a b : Nat) : ⌊(a / b : ℚ)⌋ = quotientDown a b :=
  Rat.floor_natCast_div_natCast a b

theorem ceil_quotient (hb : 0 < b) : ⌈(a / b : ℚ)⌉ = quotientUp a b := by
  have hpos : (0 : ℚ) < b := Nat.cast_pos.mpr hb
  have hlo : quotientUp a b * b < a + b := by
    have h := Nat.div_mul_le_self (a + (b - 1)) b
    unfold quotientUp
    omega
  have hhi : a ≤ quotientUp a b * b := by
    have h := Nat.lt_div_mul_add (a := a + (b - 1)) hb
    unfold quotientUp
    omega
  refine Int.ceil_eq_iff.mpr ⟨?_, ?_⟩
  · rw [lt_div_iff₀ hpos, sub_mul, one_mul, sub_lt_iff_lt_add]
    exact_mod_cast hlo
  · rw [div_le_iff₀ hpos]
    exact_mod_cast hhi

theorem floor_quotient_add_half (hb : 0 < b) : ⌊(a / b + 1 / 2 : ℚ)⌋ = quotientNearest a b := by
  have hpos : (b : ℚ) ≠ 0 := (Nat.cast_pos.mpr hb).ne'
  have hsum : (a / b + 1 / 2 : ℚ) = (2 * a + b : ℕ) / (2 * b : ℕ) := by
    push_cast
    field_simp
  rw [hsum]
  exact Rat.floor_natCast_div_natCast _ _

/-- The integer that a mode gives for a quotient with a sign. -/
structure Picks (m : Rounding) (negative : Bool) (pick : Nat → Nat → Nat) : Prop where
  le : ∀ {a b}, 0 < b → pick a b ≤ a / b + 1
  toInt : ∀ {a b : Nat}, 0 < b → m.toInt (if negative then -(a / b) else a / b : ℚ) =
    if negative then -(pick a b : ℤ) else pick a b

theorem quotient_nonneg (a b : Nat) : (0 : ℚ) ≤ a / b :=
  div_nonneg (Nat.cast_nonneg a) (Nat.cast_nonneg b)

theorem picks_towardZero (negative : Bool) : Picks .towardZero negative quotientDown := by
  refine ⟨fun _ => Nat.le_succ _, @fun a b _ => ?_⟩
  cases negative with
  | true =>
    exact (Rounding.truncate_neg (quotient_nonneg a b)).trans (congrArg _ (floor_quotient a b))
  | false => exact (Rounding.truncate_of_nonneg (quotient_nonneg a b)).trans (floor_quotient a b)

theorem picks_down (negative : Bool) :
    Picks .down negative (if negative then quotientUp else quotientDown) := by
  cases negative with
  | true => exact ⟨quotientUp_le, fun hb => Int.floor_neg.trans (congrArg _ (ceil_quotient hb))⟩
  | false => exact ⟨fun _ => Nat.le_succ _, fun _ => floor_quotient _ _⟩

theorem picks_up (negative : Bool) :
    Picks .up negative (if negative then quotientDown else quotientUp) := by
  cases negative with
  | true =>
    exact ⟨fun _ => Nat.le_succ _, fun _ => Int.ceil_neg.trans (congrArg _ (floor_quotient _ _))⟩
  | false => exact ⟨quotientUp_le, ceil_quotient⟩

theorem picks_nearestAway (negative : Bool) : Picks .nearestAway negative quotientNearest := by
  refine ⟨quotientNearest_le, @fun a b hb => ?_⟩
  cases negative with
  | true =>
    exact (Rounding.nearestAway_neg (quotient_nonneg a b)).trans
      (congrArg _ (floor_quotient_add_half hb))
  | false =>
    exact (Rounding.nearestAway_of_nonneg (quotient_nonneg a b)).trans (floor_quotient_add_half hb)

/-- A number without a fraction part is its own neighbour in every mode. -/
theorem rounded_of_le_scale (m : Rounding) (h : f.bias + f.fracBits ≤ scale x) :
    value x = (value x).rounded m := by
  obtain ⟨k, hk⟩ := toRat_of_le_scale h
  unfold value
  rw [hk]
  split
  next => rfl
  next =>
    split
    next => rfl
    next => exact congrArg FloatValue.finite (congrArg Int.cast (m.toInt_intCast k)).symm

theorem value_integral (h : Picks m (sign x) pick) :
    value (integral pick x) = (value x).rounded m := by
  unfold integral
  split
  next hint => exact rounded_of_le_scale m hint
  next hint =>
    have hscale := Nat.lt_of_not_le hint
    have hbias : f.bias + f.fracBits ≤ 2 ^ f.expBits - 1 := by cases f <;> decide
    have hpos := Nat.two_pow_pos (f.bias + f.fracBits)
    have hle := (h.le hpos).trans (Nat.succ_le_of_lt (quotient_lt hscale))
    rw [value_ofMagnitude _ hle, value_of_scale_lt (hscale.trans_le hbias), FloatValue.rounded,
      toRat, magnitude, h.toInt hpos]
    cases sign x with
    | true => simp only [if_true, Int.cast_neg, Int.cast_natCast]
    | false => simp only [Bool.false_eq_true, if_false, Int.cast_natCast]

end Integral

end Fmt

/-- The functions of the host that round to an integer do what they are documented to do. -/
structure Fpu.RoundsAt (fpu : Fpu) {f : Fmt} (x : f.Bits) : Prop where
  round : Fmt.value (fpu.round f x).1 = (Fmt.value x).rounded .nearestAway
  trunc : Fmt.value (fpu.trunc f x).1 = (Fmt.value x).rounded .towardZero
  floor : Fmt.value (fpu.floor f x).1 = (Fmt.value x).rounded .down
  ceil : Fmt.value (fpu.ceil f x).1 = (Fmt.value x).rounded .up

theorem Fpu.roundsAt (fpu : Fpu) {f : Fmt} (x : f.Bits) : fpu.RoundsAt x where
  round := Fmt.value_integral (Fmt.picks_nearestAway _)
  trunc := Fmt.value_integral (Fmt.picks_towardZero _)
  floor := Fmt.value_integral (Fmt.picks_down _)
  ceil := Fmt.value_integral (Fmt.picks_up _)

end Rv64gcEmu
