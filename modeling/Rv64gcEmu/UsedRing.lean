import Rv64gcEmu.VirtioServe

namespace Rv64gcEmu

namespace RamDevice

theorem half_put_self (ram : RamDevice) (address value : Word) :
    (ram.put address value .w16).half address = value.setWidth 16 :=
  LittleEndian.read_write_low _ _ _ _ (by decide)

/-- Two cells of one range that do not meet. -/
theorem half_put_of_disjoint {ram : RamDevice} {base : Word} {n i j : Nat} (value : Word)
    (h : ram.Contains base n) (hi : i + 2 ≤ n) (hj : j + 2 ≤ n) (hij : i + 2 ≤ j ∨ j + 2 ≤ i) :
    (ram.put (base + BitVec.ofNat 64 j) value .w16).half (base + BitVec.ofNat 64 i) =
      ram.half (base + BitVec.ofNat 64 i) := by
  refine LittleEndian.read_write_disjoint _ _ ?_
  change (base + BitVec.ofNat 64 i - ram.baseAddr).toNat + 2 ≤
      (base + BitVec.ofNat 64 j - ram.baseAddr).toNat ∨
    (base + BitVec.ofNat 64 j - ram.baseAddr).toNat + 2 ≤
      (base + BitVec.ofNat 64 i - ram.baseAddr).toNat
  rw [h.offset (by omega), h.offset (by omega)]
  omega

end RamDevice

namespace Virtq

variable {vq : Virtq} {a b : RamDevice}

theorem SameUsed.half (h : SameUsed vq a b) (hu : a.Contains vq.used vq.usedSize) {i : Nat}
    (hi : i + 2 ≤ vq.usedSize) :
    b.half (vq.used + BitVec.ofNat 64 i) = a.half (vq.used + BitVec.ofNat 64 i) := by
  have hb := (h.contains vq.used vq.usedSize).mpr hu
  unfold RamDevice.half
  rw [hb.offset (by omega), hu.offset (by omega)]
  have hbase : (vq.used - b.baseAddr).toNat = (vq.used - a.baseAddr).toNat := by rw [h.baseAddr]
  rw [hbase]
  refine LittleEndian.read_congr fun k hk => ?_
  have hbyte := h.bytes (i + k) (by omega)
  unfold RamDevice.byteAt at hbyte
  rw [hb.offset (by omega), hu.offset (by omega), hbase] at hbyte
  rw [Nat.add_assoc]
  exact hbyte

theorem usedEntry_high (vq : Virtq) (slot : Nat) :
    vq.usedEntry slot + 2 = vq.used + BitVec.ofNat 64 (4 + 8 * slot + 2) := by
  rw [usedEntry_eq, BitVec.add_assoc, BitVec.ofNat_add _ 2]
  rfl

/-- What the device has told the driver: the used index, and the heads of the last round. -/
structure UsedRing (vq : Virtq) (served : List (BitVec 16)) (ram : RamDevice) : Prop where
  idx : ram.half (vq.used + 2) = BitVec.ofNat 16 served.length
  entries : ∀ k head, served[k]? = some head → served.length ≤ k + vq.num.toNat →
    ram.half (vq.usedEntry (k % vq.num.toNat)) = head ∧
      ram.half (vq.usedEntry (k % vq.num.toNat) + 2) = 0

namespace UsedRing

variable {served : List (BitVec 16)}

theorem same (h : UsedRing vq served a) (hs : SameUsed vq a b)
    (hu : a.Contains vq.used vq.usedSize) (hn : 0 < vq.num.toNat) : UsedRing vq served b where
  idx := (hs.half hu (by unfold usedSize; omega : 2 + 2 ≤ vq.usedSize)).trans h.idx
  entries k head hk hl := by
    have hslot := Nat.mod_lt k hn
    obtain ⟨hlow, hhigh⟩ := h.entries k head hk hl
    rw [usedEntry_high] at hhigh ⊢
    rw [usedEntry_eq] at hlow ⊢
    refine ⟨(hs.half hu ?_).trans hlow, (hs.half hu ?_).trans hhigh⟩
    · unfold usedSize
      omega
    · unfold usedSize
      omega

/-- The 32-bit id of an entry. -/
theorem single (h : UsedRing vq served a) (hu : a.Contains vq.used vq.usedSize)
    (hn : 0 < vq.num.toNat) {k : Nat} {head : BitVec 16} (hk : served[k]? = some head)
    (hl : served.length ≤ k + vq.num.toNat) :
    a.single (vq.usedEntry (k % vq.num.toNat)) = head.setWidth 32 := by
  have hslot := Nat.mod_lt k hn
  obtain ⟨hlow, hhigh⟩ := h.entries k head hk hl
  have hin : 4 + 8 * (k % vq.num.toNat) + 2 < vq.usedSize := by
    unfold usedSize
    omega
  rw [usedEntry_high] at hhigh
  rw [usedEntry_eq] at hlow ⊢
  unfold RamDevice.half at hlow hhigh
  rw [hu.offset hin, ← Nat.add_assoc] at hhigh
  rw [hu.offset (by omega)] at hlow
  unfold RamDevice.single
  rw [hu.offset (by omega), ← hlow]
  exact LittleEndian.read_double _ _ 2 (by decide) hhigh

/-- Two of the last entries are in different slots. -/
theorem slot_ne {k n num : Nat} (hk : k < n) (hn : n < k + num) : n % num ≠ k % num := by
  intro h
  have hz := Nat.sub_mod_eq_zero_of_mod_eq h
  rw [Nat.mod_eq_of_lt (by omega)] at hz
  omega

/-- One more head, in the slot behind the last one. -/
theorem push (h : UsedRing vq served a) (hu : a.Contains vq.used vq.usedSize)
    (hn : 0 < vq.num.toNat) {head id : BitVec 16} (hid : id = BitVec.ofNat 16 (served.length + 1))
    (hhigh : a.half (vq.usedEntry (served.length % vq.num.toNat) + 2) = 0) :
    UsedRing vq (served ++ [head])
      ((a.put (vq.usedEntry (served.length % vq.num.toNat)) (head.setWidth 64) .w16).put
        (vq.used + 2) (id.setWidth 64) .w16) := by
  have hback : ∀ x : BitVec 16, (x.setWidth 64).setWidth 16 = x := by
    intro x
    rw [BitVec.setWidth_setWidth_of_le _ (by decide), BitVec.setWidth_eq]
  have hlast := Nat.mod_lt served.length hn
  -- the store of the index leaves every entry alone
  have hidx : ∀ (ram : RamDevice) (i : Nat), ram.Contains vq.used vq.usedSize → 4 ≤ i →
      i + 2 ≤ vq.usedSize → (ram.put (vq.used + 2) (id.setWidth 64) .w16).half
        (vq.used + BitVec.ofNat 64 i) = ram.half (vq.used + BitVec.ofNat 64 i) :=
    fun ram i hc h4 hi =>
      RamDevice.half_put_of_disjoint (j := 2) _ hc hi (by omega) (by omega)
  -- and so does that of the new entry with all cells but its own
  have hcell : ∀ i, 4 ≤ i → i + 2 ≤ vq.usedSize →
      i + 2 ≤ 4 + 8 * (served.length % vq.num.toNat) ∨
        4 + 8 * (served.length % vq.num.toNat) + 2 ≤ i →
      ((a.put (vq.usedEntry (served.length % vq.num.toNat)) (head.setWidth 64) .w16).put
        (vq.used + 2) (id.setWidth 64) .w16).half (vq.used + BitVec.ofNat 64 i) =
        a.half (vq.used + BitVec.ofNat 64 i) := by
    intro i h4 hi hout
    rw [hidx _ i (by exact hu) h4 hi, usedEntry_eq]
    exact RamDevice.half_put_of_disjoint _ hu hi (by unfold usedSize; omega) hout
  refine ⟨?_, ?_⟩
  · rw [RamDevice.half_put_self, hback, List.length_append, hid]
    rfl
  · intro k x hk hl
    rw [List.length_append, List.length_singleton] at hl
    have hslot := Nat.mod_lt k hn
    by_cases hlt : k < served.length
    · rw [List.getElem?_append_left hlt] at hk
      obtain ⟨elow, ehigh⟩ := h.entries k x hk (by omega)
      have hne := slot_ne hlt (by omega : served.length < k + vq.num.toNat)
      rw [usedEntry_high] at ehigh ⊢
      rw [usedEntry_eq vq (k % _)] at elow ⊢
      refine ⟨(hcell _ (by omega) ?_ (by omega)).trans elow,
        (hcell _ (by omega) ?_ (by omega)).trans ehigh⟩
      · unfold usedSize
        omega
      · unfold usedSize
        omega
    · have hlen : k < (served ++ [head]).length := (List.getElem?_eq_some_iff.mp hk).1
      have hkn : k = served.length := by
        rw [List.length_append, List.length_singleton] at hlen
        omega
      subst hkn
      rw [List.getElem?_concat_length] at hk
      cases Option.some.inj hk
      rw [usedEntry_high] at hhigh ⊢
      refine ⟨?_, (hcell _ (by omega) (by unfold usedSize; omega) (by omega)).trans hhigh⟩
      rw [usedEntry_eq, hidx _ _ (by exact hu) (by omega) (by unfold usedSize; omega), ← usedEntry_eq,
        RamDevice.half_put_self, hback]

end UsedRing

end Virtq

end Rv64gcEmu
