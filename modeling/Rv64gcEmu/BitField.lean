import Mathlib.Tactic.Common
import Mathlib.Tactic.Ring

namespace BitField

/-- The `n` bits of a word from bit `lo` on, moved down to bit 0. -/
def field {w : Nat} (x : BitVec w) (lo n : Nat) : BitVec w := (x >>> lo) &&& BitVec.ofNat w (2 ^ n - 1)

theorem getLsbD_lowMask (w n i : Nat) :
    (BitVec.ofNat w (2 ^ n - 1)).getLsbD i = (decide (i < w) && decide (i < n)) := by
  rw [BitVec.getLsbD_ofNat, Nat.testBit_two_pow_sub_one]

theorem getLsbD_field {w : Nat} (x : BitVec w) (lo n i : Nat) :
    (field x lo n).getLsbD i = (decide (i < n) && x.getLsbD (lo + i)) := by
  rw [field, BitVec.getLsbD_and, BitVec.getLsbD_ushiftRight, getLsbD_lowMask]
  by_cases hi : i < w
  · simp [hi, Bool.and_comm]
  · simp [hi, BitVec.getLsbD_of_ge x (lo + i) (by omega)]

theorem setWidth_field {w : Nat} (x : BitVec w) (lo n : Nat) :
    (field x lo n).setWidth n = x.extractLsb' lo n := by
  apply BitVec.eq_of_getLsbD_eq
  intro i hi
  rw [BitVec.getLsbD_setWidth, getLsbD_field, BitVec.getLsbD_extractLsb']
  simp [hi]

/-- Two fields next to each other make one. -/
theorem field_or_field {w : Nat} (x : BitVec w) (lo m n : Nat) :
    field x lo m ||| (field x (lo + m) n <<< m) = field x lo (m + n) := by
  apply BitVec.eq_of_getLsbD_eq
  intro i hi
  rw [BitVec.getLsbD_or, BitVec.getLsbD_shiftLeft, getLsbD_field, getLsbD_field, getLsbD_field]
  by_cases hm : i < m
  · have hn : i < m + n := by omega
    simp [hm, hn]
  · have hlo : lo + m + (i - m) = lo + i := by omega
    have hn : (i - m < n) = (i < m + n) := by rw [eq_iff_iff]; omega
    simp [hm, hi, hlo, hn]

/-- A row of fields of `m` bits, each put at the place it has in the word. -/
theorem foldl_fields {w : Nat} (x b : BitVec w) (lo dst m i n : Nat) :
    (List.range' i n).foldl (fun b j => b ||| (field x (lo + j * m) m <<< (dst + j * m))) b =
      b ||| (field x (lo + i * m) (n * m) <<< (dst + i * m)) := by
  induction n generalizing i b with
  | zero =>
    have hz : field x (lo + i * m) (0 * m) = 0#w := by simp [field]
    rw [hz]
    simp
  | succ n ih =>
    have hlo : lo + (i + 1) * m = lo + i * m + m := by ring
    have hdst : dst + (i + 1) * m = m + (dst + i * m) := by ring
    have hn : (n + 1) * m = m + n * m := by ring
    rw [List.range'_succ, List.foldl_cons, ih, hlo, hdst, hn, ← field_or_field, BitVec.or_assoc,
      BitVec.shiftLeft_or_distrib, BitVec.shiftLeft_add _ m]

theorem field_eq_of_setWidth {w : Nat} (x : BitVec w) (lo n : Nat) :
    field x lo n = (x.extractLsb' lo n).setWidth w := by
  apply BitVec.eq_of_getLsbD_eq
  intro i hi
  rw [getLsbD_field, BitVec.getLsbD_setWidth, BitVec.getLsbD_extractLsb']
  simp [hi]

theorem field_eq_zero_iff {w : Nat} (x : BitVec w) (lo n : Nat) :
    field x lo n = 0 ↔ ∀ i, i < n → x.getLsbD (lo + i) = false := by
  constructor
  · intro h i hi
    have hb := congrArg (fun v => v.getLsbD i) h
    simpa [getLsbD_field, hi] using hb
  · intro h
    apply BitVec.eq_of_getLsbD_eq
    intro i hi
    rw [getLsbD_field]
    by_cases hn : i < n
    · simp [h i hn]
    · simp [hn]

theorem extract_eq_zero_iff {w : Nat} (x : BitVec w) (lo n : Nat) :
    x.extractLsb' lo n = 0 ↔ ∀ i, i < n → x.getLsbD (lo + i) = false := by
  constructor
  · intro h i hi
    have hb := congrArg (fun v => v.getLsbD i) h
    simpa [BitVec.getLsbD_extractLsb', hi] using hb
  · intro h
    apply BitVec.eq_of_getLsbD_eq
    intro i hi
    rw [BitVec.getLsbD_extractLsb', h i hi]
    simp

theorem fields_eq_zero_iff {w : Nat} (x : BitVec w) (lo m n : Nat) :
    (∀ j, j < n → field x (lo + j * m) m = 0) ↔ x.extractLsb' lo (n * m) = 0 := by
  simp only [field_eq_zero_iff, extract_eq_zero_iff]
  constructor
  · intro h i hi
    have hm : 0 < m := Nat.pos_of_ne_zero (by rintro rfl; simp at hi)
    have hb := h (i / m) (Nat.div_lt_of_lt_mul (by rwa [Nat.mul_comm])) (i % m) (Nat.mod_lt _ hm)
    have hi' : lo + i / m * m + i % m = lo + i := by
      rw [Nat.add_assoc, Nat.div_add_mod']
    rwa [hi'] at hb
  · intro h j hj i hi
    have hlt : j * m + i < n * m := by
      calc j * m + i < j * m + m := by omega
        _ = (j + 1) * m := by ring
        _ ≤ n * m := Nat.mul_le_mul_right m hj
    rw [Nat.add_assoc]
    exact h _ hlt

theorem field_eq_zero_iff_extract {w : Nat} (x : BitVec w) (lo n : Nat) :
    field x lo n = 0 ↔ x.extractLsb' lo n = 0 := by
  rw [field_eq_zero_iff, extract_eq_zero_iff]

theorem field_one_eq_zero_iff {w : Nat} (x : BitVec w) (lo : Nat) :
    field x lo 1 = 0 ↔ x.getLsbD lo = false := by
  rw [field_eq_zero_iff]
  constructor
  · intro h
    simpa using h 0 (by omega)
  · intro h i hi
    have hz : i = 0 := by omega
    simpa [hz] using h

theorem getLsbD_one_shiftLeft {w : Nat} (k i : Nat) :
    (1#w <<< k).getLsbD i = (decide (i < w) && decide (i = k)) := by
  rw [BitVec.getLsbD_shiftLeft, BitVec.getLsbD_one]
  by_cases hw : i < w
  · by_cases h : i = k
    · subst h
      simp [hw, Nat.zero_lt_of_lt hw]
    · by_cases hlt : i < k
      · simp [hlt, h]
      · have hz : i - k ≠ 0 := by omega
        simp [hz, h]
  · simp [hw]

/-- The word put together from pieces `(dst, src, len)`: the `len` bits of `x` from `src` on
stand at `dst`. -/
def gather {w : Nat} (x : BitVec w) (v : Nat) : List (Nat × Nat × Nat) → BitVec v
  | [] => 0
  | (dst, src, len) :: pieces => ((x.extractLsb' src len).setWidth v <<< dst) ||| gather x v pieces

/-- Pieces of the low part do not see the high part. -/
theorem gather_append {v w : Nat} (y : BitVec v) (x : BitVec w) (u : Nat)
    {pieces : List (Nat × Nat × Nat)} (h : ∀ p ∈ pieces, p.2.1 + p.2.2 ≤ w) :
    gather (y ++ x) u pieces = gather x u pieces := by
  induction pieces with
  | nil => rfl
  | cons p pieces ih =>
    obtain ⟨dst, src, len⟩ := p
    have hp : src + len ≤ w := h (dst, src, len) (by simp)
    simp only [gather, BitVec.extractLsb'_append_eq_of_add_le hp, ih fun q hq => h q (by simp [hq])]

/-- The order of the pieces does not matter. -/
theorem gather_perm {w : Nat} (x : BitVec w) (v : Nat) {p q : List (Nat × Nat × Nat)} (h : p.Perm q) :
    gather x v p = gather x v q := by
  induction h with
  | nil => rfl
  | cons a _ ih =>
    obtain ⟨dst, src, len⟩ := a
    simp only [gather, ih]
  | swap a b l =>
    obtain ⟨dst, src, len⟩ := a
    obtain ⟨dst', src', len'⟩ := b
    simp only [gather, ← BitVec.or_assoc]
    rw [BitVec.or_comm ((x.extractLsb' src' len').setWidth v <<< dst')]
  | trans _ _ ih ih' => exact ih.trans ih'

/-- Pieces that fit into `n` bits may be put together in a wider word. -/
theorem gather_setWidth {w : Nat} (x : BitVec w) {n m : Nat} (v : Nat) (hnm : n ≤ m)
    {pieces : List (Nat × Nat × Nat)} (h : ∀ p ∈ pieces, p.1 + p.2.2 ≤ n) :
    (gather x n pieces).setWidth v = (gather x m pieces).setWidth v := by
  induction pieces with
  | nil => simp [gather]
  | cons p pieces ih =>
    obtain ⟨dst, src, len⟩ := p
    have hp : dst + len ≤ n := h (dst, src, len) (by simp)
    simp only [gather, BitVec.setWidth_or, ih fun q hq => h q (by simp [hq])]
    congr 1
    apply BitVec.eq_of_getLsbD_eq
    intro i hi
    simp only [BitVec.getLsbD_setWidth, BitVec.getLsbD_shiftLeft, hi, decide_true, Bool.true_and]
    by_cases hlt : i - dst < len
    · by_cases hd : i < dst
      · simp [hd]
      · have hn : i < n := by omega
        have hm : i < m := by omega
        have hn' : i - dst < n := by omega
        have hm' : i - dst < m := by omega
        simp [hn, hm, hn', hm']
    · simp [BitVec.getLsbD_of_ge _ _ (not_lt.mp hlt)]

/-- A mask behind a shift to the right cuts out one piece. -/
theorem shiftRight_piece {w : Nat} {x mask : BitVec w} {a dst len : Nat}
    (hm : mask = BitVec.ofNat w (2 ^ len - 1) <<< dst) :
    (x >>> a) &&& mask = (x.extractLsb' (dst + a) len).setWidth w <<< dst := by
  subst hm
  apply BitVec.eq_of_getLsbD_eq
  intro i hi
  rw [BitVec.getLsbD_and, BitVec.getLsbD_ushiftRight, BitVec.getLsbD_shiftLeft, getLsbD_lowMask,
    BitVec.getLsbD_shiftLeft, BitVec.getLsbD_setWidth, BitVec.getLsbD_extractLsb']
  by_cases hd : i < dst
  · simp [hd]
  · have hs : dst + a + (i - dst) = a + i := by omega
    rw [hs]
    cases x.getLsbD (a + i) <;> simp

theorem shiftLeft_piece {w : Nat} {x mask : BitVec w} {a src len : Nat}
    (hm : mask = BitVec.ofNat w (2 ^ len - 1) <<< (src + a)) :
    (x <<< a) &&& mask = (x.extractLsb' src len).setWidth w <<< (src + a) := by
  subst hm
  apply BitVec.eq_of_getLsbD_eq
  intro i hi
  rw [BitVec.getLsbD_and, BitVec.getLsbD_shiftLeft, BitVec.getLsbD_shiftLeft, getLsbD_lowMask,
    BitVec.getLsbD_shiftLeft, BitVec.getLsbD_setWidth, BitVec.getLsbD_extractLsb']
  by_cases hd : i < src + a
  · simp [hd]
  · have hs : src + (i - (src + a)) = i - a := by omega
    have hia : ¬i < a := by omega
    rw [hs]
    cases x.getLsbD (i - a) <;> simp [hi, hia]

/-- Sign extension by hand: when the top bit of `n` is set, the bits up to `m` are filled in
and the word is then cut to `m` bits and sign-extended. -/
theorem signExtend_of_fill {x fill : BitVec 64} {n m : Nat} (hn : 0 < n) (hnm : n ≤ m)
    (hm : m ≤ 64) (hx : ∀ i, n ≤ i → x.getLsbD i = false)
    (hfill : ∀ i, i < m → fill.getLsbD i = decide (n ≤ i)) :
    (if x.getLsbD (n - 1) then ((x ||| fill).setWidth m).signExtend 64 else x) =
      (x.setWidth n).signExtend 64 := by
  apply BitVec.eq_of_getLsbD_eq
  intro i hi
  rw [BitVec.getLsbD_signExtend]
  have hmsb : (x.setWidth n).msb = x.getLsbD (n - 1) := by
    have hlt : n - 1 < n := by omega
    rw [BitVec.msb_eq_getLsbD_last, BitVec.getLsbD_setWidth, decide_eq_true hlt, Bool.true_and]
  rw [hmsb, BitVec.getLsbD_setWidth]
  cases ht : x.getLsbD (n - 1) with
  | false =>
    by_cases hin : i < n
    · simp [hi, hin]
    · have hz := hx i (by omega)
      simp only [hz, hin, if_false, Bool.and_false, Bool.false_eq_true]
  | true =>
    rw [if_pos rfl, BitVec.getLsbD_signExtend, BitVec.getLsbD_setWidth, BitVec.getLsbD_or]
    have hmsb' : ((x ||| fill).setWidth m).msb = true := by
      rw [BitVec.msb_eq_getLsbD_last, BitVec.getLsbD_setWidth, BitVec.getLsbD_or,
        hfill (m - 1) (by omega)]
      by_cases he : n = m
      · subst he
        have hlt : n - 1 < n := by omega
        simp [hlt, ht]
      · have h1 : n ≤ m - 1 := by omega
        have h2 : m - 1 < m := by omega
        simp [h1, h2]
    rw [hmsb']
    by_cases him : i < m
    · rw [hfill i him]
      by_cases hin : i < n
      · have h1 : ¬n ≤ i := by omega
        simp [hi, him, hin, h1]
      · have h1 : n ≤ i := by omega
        simp [hi, him, hin, h1]
    · have hin : ¬i < n := by omega
      simp [hi, him, hin]

theorem getLsbD_zero_add {w : Nat} (x y : BitVec w) :
    (x + y).getLsbD 0 = (x.getLsbD 0 ^^ y.getLsbD 0) := by
  cases w with
  | zero => simp
  | succ w => rw [BitVec.getLsbD_add (Nat.succ_pos w), BitVec.carry_zero, Bool.xor_false]

theorem getLsbD_zero_sub {w : Nat} (x y : BitVec w) :
    (x - y).getLsbD 0 = (x.getLsbD 0 ^^ y.getLsbD 0) := by
  have h := getLsbD_zero_add (x - y) y
  rw [BitVec.sub_add_cancel] at h
  rw [h]
  cases (x - y).getLsbD 0 <;> cases y.getLsbD 0 <;> rfl

/-- The low bit of an immediate that the source takes from the top of a word. -/
theorem getLsbD_zero_sshiftRight {x : BitVec 32} {n : Nat} (hn : n < 64) :
    ((x.signExtend 64).sshiftRight n).getLsbD 0 = (x.signExtend 64).getLsbD n := by
  rw [BitVec.getLsbD_sshiftRight]
  simp [hn]

theorem msb_extractLsb'_high {w n : Nat} (x : BitVec w) (hn : n < w) :
    (x.extractLsb' n (w - n)).msb = x.getLsbD (w - 1) := by
  have he : n + (w - n - 1) = w - 1 := by omega
  have hlt : w - n - 1 < w - n := by omega
  rw [BitVec.msb_eq_getLsbD_last, BitVec.getLsbD_extractLsb', decide_eq_true hlt, he, Bool.true_and]

/-- A signed word moved down: its upper part, sign-extended. -/
theorem sshiftRight_signExtend {w v n : Nat} (x : BitVec w) (hn : n < w) (hv : w ≤ v) :
    (x.signExtend v).sshiftRight n = (x.extractLsb' n (w - n)).signExtend v := by
  have hmsb : (x.signExtend v).msb = x.getLsbD (w - 1) := by
    rw [BitVec.msb_eq_getLsbD_last, BitVec.getLsbD_signExtend]
    have hlt : v - 1 < v := by omega
    rw [decide_eq_true hlt, Bool.true_and, BitVec.msb_eq_getLsbD_last]
    split
    next h =>
      have he : v - 1 = w - 1 := by omega
      rw [he]
    next => rfl
  apply BitVec.eq_of_getLsbD_eq
  intro i hi
  rw [BitVec.getLsbD_sshiftRight, BitVec.getLsbD_signExtend, BitVec.getLsbD_signExtend, hmsb,
    msb_extractLsb'_high x hn, BitVec.getLsbD_extractLsb', BitVec.msb_eq_getLsbD_last]
  have hvi : ¬v ≤ i := by omega
  by_cases hup : i < w - n
  · have h1 : n + i < v := by omega
    have h2 : n + i < w := by omega
    simp [hvi, hi, hup, h1, h2]
  · have h2 : ¬n + i < w := by omega
    by_cases h1 : n + i < v
    · simp [hvi, hi, hup, h1, h2]
    · simp [hvi, hi, hup, h1]

/-- The bits of a field that is put together from two parts. -/
theorem setWidth_append {m n : Nat} (y : BitVec m) (x : BitVec n) (v : Nat) :
    (y ++ x).setWidth v = (y.setWidth v <<< n) ||| x.setWidth v := by
  apply BitVec.eq_of_getLsbD_eq
  intro i hi
  rw [BitVec.getLsbD_setWidth, BitVec.getLsbD_append, BitVec.getLsbD_or, BitVec.getLsbD_shiftLeft,
    BitVec.getLsbD_setWidth, BitVec.getLsbD_setWidth]
  by_cases hn : i < n
  · simp [hi, hn]
  · have hv : i - n < v := by omega
    simp [hi, hn, hv, BitVec.getLsbD_of_ge x i (not_lt.mp hn)]

/-- A piece that fits may be moved up before it is widened. -/
theorem setWidth_shiftLeft_piece {k w v : Nat} (x : BitVec k) {dst : Nat} (hw : k + dst ≤ w)
    (hv : w ≤ v) : (x.setWidth w <<< dst).setWidth v = x.setWidth v <<< dst := by
  apply BitVec.eq_of_getLsbD_eq
  intro i hi
  rw [BitVec.getLsbD_setWidth, BitVec.getLsbD_shiftLeft, BitVec.getLsbD_shiftLeft,
    BitVec.getLsbD_setWidth, BitVec.getLsbD_setWidth]
  by_cases hd : i < dst
  · simp [hd]
  · by_cases hk : i - dst < k
    · have h1 : i < w := by omega
      have h2 : i - dst < w := by omega
      have h3 : i - dst < v := by omega
      simp [hi, h1, h2, h3]
    · simp [BitVec.getLsbD_of_ge x _ (not_lt.mp hk)]

/-- The top bit of a word, moved down with its sign over a field of `n` bits. -/
theorem sign_append {n : Nat} (x : BitVec 32) (y : BitVec n) (hn : n ≤ 31) :
    ((x &&& 0x80000000).signExtend 64).sshiftRight (31 - n) ||| y.setWidth 64 =
      (x.extractLsb' 31 1 ++ y).signExtend 64 := by
  have hmask : ∀ j, j < 32 → (0x80000000 : BitVec 32).getLsbD j = decide (j = 31) := by decide
  have hsign : ∀ j, j < 32 → (x &&& 0x80000000).getLsbD j = (decide (j = 31) && x.getLsbD 31) := by
    intro j hj
    rw [BitVec.getLsbD_and, hmask j hj]
    by_cases h31 : j = 31
    · simp [h31]
    · simp [h31]
  have hmsb : (x.extractLsb' 31 1 ++ y).msb = x.getLsbD 31 := by
    rw [BitVec.msb_append, if_neg (by decide), BitVec.msb_eq_getLsbD_last,
      BitVec.getLsbD_extractLsb']
    rfl
  apply BitVec.eq_of_getLsbD_eq
  intro i hi
  rw [BitVec.getLsbD_or, sshiftRight_signExtend _ (by omega) (by decide), BitVec.getLsbD_signExtend,
    msb_extractLsb'_high _ (by omega), BitVec.getLsbD_extractLsb', hsign 31 (by decide),
    BitVec.getLsbD_setWidth, BitVec.getLsbD_signExtend, hmsb, BitVec.getLsbD_append,
    BitVec.getLsbD_extractLsb']
  by_cases hlow : i < n
  · have h1 : i < 32 - (31 - n) := by omega
    have h3 : 31 - n + i ≠ 31 := by omega
    have h4 : i < 1 + n := by omega
    rw [hsign _ (by omega)]
    simp [hi, hlow, h1, h3, h4]
  · rw [BitVec.getLsbD_of_ge y i (not_lt.mp hlow)]
    by_cases htop : i = n
    · have h1 : i < 32 - (31 - n) := by omega
      have h2 : 31 - n + i = 31 := by omega
      have h4 : i < 1 + n := by omega
      have h5 : i - n = 0 := by omega
      rw [h2, hsign 31 (by decide), h5]
      simp [hi, hlow, h1, h4]
    · have h1 : ¬i < 32 - (31 - n) := by omega
      have h4 : ¬i < 1 + n := by omega
      simp [hi, h1, h4]

theorem setWidth_eq_zero_iff {v w : Nat} {x : BitVec v} (h : v ≤ w) : x.setWidth w = 0 ↔ x = 0 := by
  constructor
  · intro hz
    have hnat := congrArg BitVec.toNat hz
    rw [BitVec.toNat_setWidth_of_le h] at hnat
    exact BitVec.eq_of_toNat_eq (hnat.trans (BitVec.toNat_zero).symm)
  · rintro rfl
    exact BitVec.setWidth_zero _ _

end BitField
