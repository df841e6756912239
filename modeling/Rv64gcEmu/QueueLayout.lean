import Rv64gcEmu.RoundUp
import Rv64gcEmu.Virtio

namespace Rv64gcEmu

namespace VirtioBlkDevice

/-- The sizes that a legacy driver reckons with: 16 bytes a descriptor; in the available ring
the flags, the index, an entry a descriptor and the `used_event` word. -/
def descTableSize (v : VirtioBlkDevice) : Nat := 16 * v.vq.num.toNat

def availRingSize (v : VirtioBlkDevice) : Nat := 6 + 2 * v.vq.num.toNat

/-- The queue lies where a legacy driver puts it. -/
structure LegacyLayout (v : VirtioBlkDevice) : Prop where
  desc : v.vq.desc.toNat = v.queuePfn.toNat * v.guestPageSize.toNat
  avail : v.vq.avail.toNat = v.vq.desc.toNat + v.descTableSize
  used : v.vq.used.toNat = roundUp (v.vq.avail.toNat + v.availRingSize) v.vq.align.toNat

/-- The descriptor table, the available ring and the used ring do not overlap. -/
theorem LegacyLayout.apart {v : VirtioBlkDevice} (h : v.LegacyLayout) (ha : v.vq.align ≠ 0) :
    v.vq.desc.toNat + v.descTableSize ≤ v.vq.avail.toNat ∧
      v.vq.avail.toNat + v.availRingSize ≤ v.vq.used.toNat := by
  have hpos : 0 < v.vq.align.toNat := Nat.pos_of_ne_zero fun hz => ha (BitVec.eq_of_toNat_eq hz)
  refine ⟨Nat.le_of_eq h.avail.symm, ?_⟩
  rw [h.used]
  exact roundUp.le hpos

/-- The device computes such a layout from its registers. -/
def LaysOut (v : VirtioBlkDevice) : Prop :=
  ∃ w, v.update = .ok w ∧ w.LegacyLayout ∧
    w.vq.desc.toNat + w.descTableSize ≤ w.vq.avail.toNat ∧
    w.vq.avail.toNat + w.availRingSize ≤ w.vq.used.toNat

/-- The end of the entries of the available ring, as the device computes it. -/
def ringEnd (v : VirtioBlkDevice) : Nat :=
  v.queuePfn.toNat * v.guestPageSize.toNat + v.descTableSize + 4 + 2 * v.vq.num.toNat

theorem toNat_alignUp {value alignment : Word} (ha : alignment ≠ 0)
    (h : value.toNat + alignment.toNat ≤ 2 ^ 64) :
    ∃ x, Helper.alignUp value alignment = .ok x ∧
      x.toNat = roundUp value.toNat alignment.toNat := by
  have hpos : 0 < alignment.toNat := Nat.pos_of_ne_zero fun hz => ha (BitVec.eq_of_toNat_eq hz)
  have hsum : (value + alignment - 1).toNat = value.toNat + alignment.toNat - 1 := by
    have hone : (1 : Word).toNat = 1 := rfl
    rw [BitVec.toNat_sub, BitVec.toNat_add, hone]
    omega
  have hle := Nat.div_mul_le_self (value.toNat + alignment.toNat - 1) alignment.toNat
  refine ⟨_, if_neg ha, ?_⟩
  rw [BitVec.toNat_mul, BitVec.toNat_udiv, hsum, Nat.mod_eq_of_lt (by omega)]
  rfl

/-- What `update` computes: the product in 32 bits, and the ring without its last word. -/
theorem update_addresses (v : VirtioBlkDevice) (ha : v.vq.align ≠ 0) :
    ∃ w, v.update = .ok w ∧ w.queuePfn = v.queuePfn ∧ w.guestPageSize = v.guestPageSize ∧
      w.vq.num = v.vq.num ∧ w.vq.align = v.vq.align ∧
      w.vq.desc.toNat = v.queuePfn.toNat * v.guestPageSize.toNat % 2 ^ 32 ∧
      w.vq.avail.toNat = w.vq.desc.toNat + w.descTableSize ∧
      w.vq.used.toNat = roundUp (w.vq.avail.toNat + (4 + 2 * w.vq.num.toNat)) w.vq.align.toNat := by
  have hn := v.vq.num.isLt
  have hal := v.vq.align.isLt
  have hmod := Nat.mod_lt (v.queuePfn.toNat * v.guestPageSize.toNat) (by decide : 0 < 2 ^ 32)
  have hdesc : ((v.queuePfn * v.guestPageSize).setWidth 64 : Word).toNat =
      v.queuePfn.toNat * v.guestPageSize.toNat % 2 ^ 32 := by
    rw [BitVec.toNat_setWidth, BitVec.toNat_mul]
    omega
  have hnum : (v.vq.num.setWidth 64 : Word).toNat = v.vq.num.toNat := by
    rw [BitVec.toNat_setWidth]
    omega
  have halign : (v.vq.align.setWidth 64 : Word).toNat = v.vq.align.toNat := by
    rw [BitVec.toNat_setWidth]
    omega
  have h16 : (16 : Word).toNat = 16 := rfl
  have h4 : (4 : Word).toNat = 4 := rfl
  have h2 : (2 : Word).toNat = 2 := rfl
  generalize hd : ((v.queuePfn * v.guestPageSize).setWidth 64 : Word) = desc at hdesc
  have havail : (desc + v.vq.num.setWidth 64 * 16).toNat = desc.toNat + 16 * v.vq.num.toNat := by
    rw [BitVec.toNat_add, BitVec.toNat_mul, hnum, h16]
    omega
  have hend : (desc + v.vq.num.setWidth 64 * 16 + 4 + v.vq.num.setWidth 64 * 2).toNat =
      desc.toNat + 16 * v.vq.num.toNat + (4 + 2 * v.vq.num.toNat) := by
    rw [BitVec.toNat_add, BitVec.toNat_add, havail, BitVec.toNat_mul, hnum, h4, h2]
    omega
  have hne : (v.vq.align.setWidth 64 : Word) ≠ 0 := by
    intro hz
    exact ha ((BitField.setWidth_eq_zero_iff (by decide)).mp hz)
  obtain ⟨used, hused, hvalue⟩ := toNat_alignUp hne (by rw [hend, halign]; omega)
  rw [hend, halign] at hvalue
  unfold update
  simp only [hd, hused, Except.ok_bind]
  refine ⟨_, rfl, rfl, rfl, rfl, rfl, hdesc, havail, ?_⟩
  rw [havail]
  exact hvalue

/-- The layout is the one of a legacy driver exactly when the address fits into 32 bits, and
no multiple of the alignment is at the end of the entries or at the next address. -/
theorem laysOut_iff (v : VirtioBlkDevice) (ha : v.vq.align ≠ 0) :
    v.LaysOut ↔ v.queuePfn.toNat * v.guestPageSize.toNat < 2 ^ 32 ∧
      ¬v.vq.align.toNat ∣ v.ringEnd ∧ ¬v.vq.align.toNat ∣ v.ringEnd + 1 := by
  have hpos : 0 < v.vq.align.toNat := Nat.pos_of_ne_zero fun hz => ha (BitVec.eq_of_toNat_eq hz)
  obtain ⟨w, hw, hpfn, hpage, hnum, halign, hdesc, havail, hused⟩ := update_addresses v ha
  have hout : v.LaysOut ↔ w.LegacyLayout := by
    constructor
    · rintro ⟨w', hw', hl, _⟩
      cases Except.ok.inj (hw.symm.trans hw')
      exact hl
    · exact fun hl => ⟨w, hw, hl, hl.apart (halign ▸ ha)⟩
  have hproduct : w.vq.desc.toNat = w.queuePfn.toNat * w.guestPageSize.toNat ↔
      v.queuePfn.toNat * v.guestPageSize.toNat < 2 ^ 32 := by
    rw [hdesc, hpfn, hpage]
    exact ⟨fun h => h ▸ Nat.mod_lt _ (by decide), Nat.mod_eq_of_lt⟩
  have hround : w.vq.desc.toNat = w.queuePfn.toNat * w.guestPageSize.toNat →
      (w.vq.used.toNat = roundUp (w.vq.avail.toNat + w.availRingSize) w.vq.align.toNat ↔
        ¬v.vq.align.toNat ∣ v.ringEnd ∧ ¬v.vq.align.toNat ∣ v.ringEnd + 1) := by
    intro hd
    have hring : w.vq.avail.toNat + (4 + 2 * w.vq.num.toNat) = v.ringEnd := by
      rw [havail, hd, hpfn, hpage]
      unfold ringEnd descTableSize
      rw [hnum]
      omega
    have hlast : w.vq.avail.toNat + w.availRingSize = v.ringEnd + 2 := by
      rw [← hring]
      unfold availRingSize
      omega
    rw [hused, hring, hlast, halign, roundUp.eq_iff hpos (by omega)]
    constructor
    · exact fun h => ⟨h _ (le_refl _) (by omega), h _ (by omega) (by omega)⟩
    · rintro ⟨h0, h1⟩ k hk hlt
      obtain rfl | rfl : k = v.ringEnd ∨ k = v.ringEnd + 1 := by omega
      · exact h0
      · exact h1
  rw [hout, ← hproduct]
  constructor
  · exact fun hl => ⟨hl.desc, (hround hl.desc).mp hl.used⟩
  · exact fun ⟨hd, hr⟩ => ⟨hd, havail, (hround hd).mpr hr⟩

/-- A queue of two entries. -/
def pairQueue (queuePfn align : BitVec 32) : VirtioBlkDevice :=
  { init (ByteVec.zeros 0) with
    queuePfn := queuePfn
    guestPageSize := 0x1000
    vq := ⟨2, align, 0, 0, 0⟩ }

theorem laysOut_iff_pairQueue : (pairQueue 0x80000 0x1000).LaysOut ↔
    (pairQueue 0x80000 0x1000).queuePfn.toNat * (pairQueue 0x80000 0x1000).guestPageSize.toNat <
        2 ^ 32 ∧
      ¬(pairQueue 0x80000 0x1000).vq.align.toNat ∣ (pairQueue 0x80000 0x1000).ringEnd ∧
      ¬(pairQueue 0x80000 0x1000).vq.align.toNat ∣ (pairQueue 0x80000 0x1000).ringEnd + 1 :=
  laysOut_iff (pairQueue 0x80000 0x1000) (by decide)

/-- A queue at 4 GiB; a used ring that is aligned to 4 bytes only, and overlaps. -/
theorem pairQueue_not_laysOut :
    (¬∀ v : VirtioBlkDevice, 0 < v.vq.num.toNat → v.vq.num.toNat ≤ 1024 →
      (∃ k, v.vq.align.toNat = 2 ^ k) → v.LaysOut) ∧
    ¬∀ v : VirtioBlkDevice, 0 < v.vq.num.toNat → v.vq.num.toNat ≤ 1024 →
      (∃ k, v.vq.align.toNat = 2 ^ k) → v.queuePfn.toNat * v.guestPageSize.toNat < 2 ^ 32 →
        v.LaysOut := by
  constructor
  · intro h
    obtain ⟨w, hw, hl, _⟩ := h (pairQueue 0x100000 0x1000) (by decide) (by decide) ⟨12, rfl⟩
    cases Except.ok.inj hw
    exact absurd hl.desc (by decide)
  · intro h
    obtain ⟨w, hw, hl, _⟩ := h (pairQueue 0x80000 0x4) (by decide) (by decide) ⟨2, rfl⟩ (by decide)
    cases Except.ok.inj hw
    exact absurd hl.used (by decide)

end VirtioBlkDevice

end Rv64gcEmu
