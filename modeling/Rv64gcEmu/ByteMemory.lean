import Mathlib.Algebra.Group.Nat.Defs
import Rv64gcEmu.LittleEndian

/-- A memory of bytes, where an address may have none. -/
abbrev ByteMemory (a : Nat) := BitVec a → Option (BitVec 8)

namespace ByteMemory

variable {a w : Nat}

/-- There is a byte at each of `address, ..., address + n - 1`. -/
def Covers (m : ByteMemory a) (address : BitVec a) (n : Nat) : Prop :=
  ∀ k < n, (m (address + BitVec.ofNat a k)).isSome

instance (m : ByteMemory a) (address : BitVec a) (n : Nat) : Decidable (m.Covers address n) :=
  inferInstanceAs (Decidable (∀ k < n, _))

/-- The bytes from the address on, the lowest one first. -/
def load (m : ByteMemory a) (address : BitVec a) (n : Nat) : Option (BitVec (8 * n)) :=
  if m.Covers address n then
    some (LittleEndian.read (fun k => (m (address + BitVec.ofNat a k)).getD 0) 0 n)
  else none

def store (m : ByteMemory a) (address : BitVec a) (n : Nat) (v : BitVec w) : Option (ByteMemory a) :=
  if m.Covers address n then
    some fun x =>
      if (x - address).toNat < n then some (LittleEndian.byteOf v (x - address).toNat) else m x
  else none

variable {m m' : ByteMemory a} {address : BitVec a} {n : Nat}

theorem load_eq_some_iff {v : BitVec (8 * n)} : m.load address n = some v ↔ m.Covers address n ∧
    LittleEndian.read (fun k => (m (address + BitVec.ofNat a k)).getD 0) 0 n = v := by
  unfold load
  split
  next h => simp [h]
  next h => simp [h]

theorem store_eq_some_iff {v : BitVec w} : m.store address n v = some m' ↔ m.Covers address n ∧
    m' = fun x =>
      if (x - address).toNat < n then some (LittleEndian.byteOf v (x - address).toNat) else m x := by
  unfold store
  split
  next h => simp [h, eq_comm]
  next h => simp [h]

theorem store_of_covers (v : BitVec w) (h : m.Covers address n) :
    ∃ m', m.store address n v = some m' := ⟨_, if_pos h⟩

/-- The bytes of `m` as `f` places them. -/
def through {b : Nat} (m : ByteMemory b) (f : BitVec a → Option (BitVec b)) : ByteMemory a :=
  fun x => (f x).bind m

section Through

variable {b : Nat} {m m' : ByteMemory b} {f : BitVec a → Option (BitVec b)} {p : BitVec b}

/-- The places of the bytes from `address` on are those from `p` on. -/
def Places (f : BitVec a → Option (BitVec b)) (address : BitVec a) (p : BitVec b) (n : Nat) : Prop :=
  ∀ k < n, f (address + BitVec.ofNat a k) = some (p + BitVec.ofNat b k)

theorem through_places (h : Places f address p n) {k : Nat} (hk : k < n) :
    m.through f (address + BitVec.ofNat a k) = m (p + BitVec.ofNat b k) := by
  unfold through
  rw [h k hk, Option.bind_some]

theorem covers_through (h : Places f address p n) :
    (m.through f).Covers address n ↔ m.Covers p n := by
  refine forall₂_congr fun k hk => ?_
  rw [through_places h hk]

theorem load_through (h : Places f address p n) : (m.through f).load address n = m.load p n := by
  unfold load
  refine if_congr (covers_through h) (congrArg some ?_) rfl
  refine LittleEndian.read_congr fun k hk => ?_
  rw [Nat.zero_add, through_places h hk]

theorem add_ofNat_sub {w : Nat} (x y : BitVec w) : y + BitVec.ofNat w (x - y).toNat = x := by
  rw [BitVec.ofNat_toNat, BitVec.setWidth_eq, BitVec.add_comm, BitVec.sub_add_cancel]

theorem ofNat_sub_toNat {w k : Nat} (y : BitVec w) (hk : k < 2 ^ w) :
    (y + BitVec.ofNat w k - y).toNat = k := by
  rw [BitVec.add_comm, BitVec.add_sub_cancel, BitVec.toNat_ofNat, Nat.mod_eq_of_lt hk]

/-- A store through a translation that takes no two addresses to one place. -/
theorem store_through {v : BitVec w} {mv : ByteMemory a} (hn : n ≤ 2 ^ a) (hn' : n ≤ 2 ^ b)
    (hinj : ∀ x y z, f x = some z → f y = some z → x = y) (h : Places f address p n)
    (hs : (m.through f).store address n v = some mv) :
    ∃ m', m.store p n v = some m' ∧ m'.through f = mv := by
  obtain ⟨hc, rfl⟩ := store_eq_some_iff.mp hs
  refine ⟨_, store_eq_some_iff.mpr ⟨(covers_through h).mp hc, rfl⟩, ?_⟩
  funext x
  by_cases hx : (x - address).toNat < n
  · have hz := h _ hx
    rw [add_ofNat_sub] at hz
    have hk := ofNat_sub_toNat p (Nat.lt_of_lt_of_le hx hn')
    simp only [through, hz, Option.bind_some, hk, hx, if_true]
  · rw [if_neg hx]
    unfold through
    refine Option.bind_congr fun z hz => if_neg fun hlt => hx ?_
    have hsame := h _ hlt
    rw [add_ofNat_sub] at hsame
    rw [hinj _ _ _ hz hsame, ofNat_sub_toNat _ (Nat.lt_of_lt_of_le hlt hn)]
    exact hlt

end Through

end ByteMemory
