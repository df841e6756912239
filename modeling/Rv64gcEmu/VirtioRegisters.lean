import Rv64gcEmu.BitField
import Rv64gcEmu.Virtio

namespace Rv64gcEmu

/-- An access of the guest to the registers of the disk; the device does not look at the width. -/
inductive RegisterAccess where
  | load (address : Word) (length : Width)
  | store (address value : Word) (length : Width)

namespace RegisterAccess

def address : RegisterAccess → Word
  | .load address _ => address
  | .store address _ _ => address

/-- The window of the disk on the bus. -/
def InWindow (x : RegisterAccess) : Prop :=
  VirtioCfg.baseAddr ≤ x.address ∧ x.address < VirtioCfg.endAddr

end RegisterAccess

namespace VirtioBlkDevice

def access (v : VirtioBlkDevice) : RegisterAccess → HostM VirtioBlkDevice
  | .load address _ => do
    let _ ← v.load address
    .ok v
  | .store address value _ => v.store address value

def accesses (v : VirtioBlkDevice) (xs : List RegisterAccess) : HostM VirtioBlkDevice :=
  xs.foldlM access v

/-- An offset that is a register or one of the eight bytes of `config`. -/
def ConfigMet (offset : Word) : Prop := VirtioCfg.config ≤ offset → offset < VirtioCfg.config + 8

structure LoadMet (v : VirtioBlkDevice) (offset : Word) : Prop where
  config : ConfigMet offset
  features : offset = VirtioCfg.deviceFeatures → v.hostFeaturesSel.toNat < 2

/-- The stores after which the device computes the addresses of the queue. -/
def Updates (offset value : Word) : Prop :=
  offset = VirtioCfg.queuePfn ∨
    (offset = VirtioCfg.status ∧ ((value &&& 0xff).setWidth 8 : Byte) &&& 0x4 ≠ 0)

structure StoreMet (v : VirtioBlkDevice) (offset value : Word) : Prop where
  config : ConfigMet offset
  features : offset = VirtioCfg.driverFeatures → v.guestFeaturesSel.toNat < 2
  align : Updates offset value → v.vq.align ≠ 0

def AccessMet (v : VirtioBlkDevice) : RegisterAccess → Prop
  | .load address _ => LoadMet v (address - VirtioCfg.baseAddr)
  | .store address value _ => StoreMet v (address - VirtioCfg.baseAddr) value

/-- The access has a result, whatever it is. -/
def Total {α : Type} (x : HostM α) : Prop := ∃ y, x = .ok y

variable {v : VirtioBlkDevice} {offset value : Word}

theorem total_ok {α : Type} (x : α) : Total (.ok x : HostM α) := ⟨x, rfl⟩

theorem checkIndex_total_iff {α : Type} {size i : Nat} {x : α} :
    Total (checkIndex size i >>= fun _ => .ok x : HostM α) ↔ i < size := by
  unfold checkIndex
  split
  next h => exact iff_of_true (total_ok x) h
  next h =>
    refine iff_of_false ?_ h
    rintro ⟨_, hy⟩
    cases hy

theorem configMet_iff (h : VirtioCfg.config ≤ offset) :
    ConfigMet offset ↔ (offset - VirtioCfg.config).toNat < 8 := by
  have hc : VirtioCfg.config.toNat = 0x100 := rfl
  have hc8 : (VirtioCfg.config + 8).toNat = 0x108 := rfl
  have hlt := offset.isLt
  unfold ConfigMet
  rw [BitVec.lt_def, BitVec.le_def, hc, hc8, BitVec.toNat_sub_of_le h, hc]
  rw [BitVec.le_def, hc] at h
  omega

theorem LoadMet.plain (hc : ¬VirtioCfg.config ≤ offset) (hf : offset ≠ VirtioCfg.deviceFeatures) :
    LoadMet v offset :=
  ⟨fun h => absurd h hc, fun h => absurd h hf⟩

theorem load_total_iff {address : Word} :
    Total (v.load address) ↔ LoadMet v (address - VirtioCfg.baseAddr) := by
  unfold load
  generalize address - VirtioCfg.baseAddr = offset
  by_cases hc : VirtioCfg.config ≤ offset
  · rw [if_pos hc]
    refine checkIndex_total_iff.trans ((configMet_iff hc).symm.trans ⟨fun h => ⟨h, ?_⟩, LoadMet.config⟩)
    rintro rfl
    exact absurd hc (by decide)
  · rw [if_neg hc]
    by_cases hf : offset = VirtioCfg.deviceFeatures
    · subst hf
      iterate 4 rw [if_neg (by decide)]
      rw [if_pos rfl]
      refine checkIndex_total_iff.trans ⟨fun h => ⟨fun hle => absurd hle hc, fun _ => h⟩, ?_⟩
      exact fun h => h.features rfl
    · refine iff_of_true ?_ (.plain hc hf)
      rw [if_neg hf]
      iterate 8 refine iteInduction (fun _ => total_ok _) fun _ => ?_
      exact total_ok _

theorem update_total_iff : Total v.update ↔ v.vq.align ≠ 0 := by
  have hzero := @BitField.setWidth_eq_zero_iff 32 64 v.vq.align (by decide)
  unfold update Helper.alignUp
  by_cases h : v.vq.align.setWidth 64 = (0 : Word)
  · refine iff_of_false ?_ (not_not.mpr (hzero.mp h))
    simp only [if_pos h]
    rintro ⟨_, hw⟩
    cases hw
  · simp only [if_neg h]
    exact iff_of_true (total_ok _) fun ha => h (hzero.mpr ha)

theorem StoreMet.plain (hc : ¬VirtioCfg.config ≤ offset) (hf : offset ≠ VirtioCfg.driverFeatures)
    (hu : ¬Updates offset value) : StoreMet v offset value :=
  ⟨fun h => absurd h hc, fun h => absurd h hf, fun h => absurd h hu⟩

/-- An index into `config` keeps the amount of the shift below 64 as well. -/
theorem configStore_total_iff {index : Word} {α : Type} {x : α} :
    Total (checkShift 64 (index * 8) >>= fun _ => checkIndex 8 index.toNat >>= fun _ => .ok x :
      HostM α) ↔ index.toNat < 8 := by
  constructor
  · rintro ⟨y, h⟩
    obtain ⟨_, _, h⟩ := Except.bind_eq_ok_iff.mp h
    exact checkIndex_total_iff.mp ⟨y, h⟩
  · intro h
    have h8 : (8 : Word).toNat = 8 := rfl
    have hshift : (index * 8).toNat < 64 := by
      rw [BitVec.toNat_mul, h8]
      omega
    unfold checkShift
    rw [if_pos hshift, Except.ok_bind]
    exact checkIndex_total_iff.mpr h

theorem status_total_iff (value : Word) :
    Total (
      let v := { v with status := (value &&& 0xff).setWidth 8 }
      if v.status = 0 then .ok v.reset else if v.status &&& 0x4 ≠ 0 then v.update else .ok v) ↔
      (Updates VirtioCfg.status value → v.vq.align ≠ 0) := by
  have hupdates : Updates VirtioCfg.status value ↔
      ((value &&& 0xff).setWidth 8 : Byte) &&& 0x4 ≠ 0 :=
    ⟨fun h => (h.resolve_left (by decide)).2, fun h => .inr ⟨rfl, h⟩⟩
  rw [hupdates]
  by_cases hz : ((value &&& 0xff).setWidth 8 : Byte) = 0
  · simp only [if_pos hz]
    refine iff_of_true (total_ok _) fun h => absurd ?_ h
    rw [hz]
    rfl
  · simp only [if_neg hz]
    by_cases hb : ((value &&& 0xff).setWidth 8 : Byte) &&& 0x4 ≠ 0
    · simp only [if_pos hb]
      exact update_total_iff.trans ⟨fun h _ => h, fun h => h hb⟩
    · simp only [if_neg hb]
      exact iff_of_true (total_ok _) fun h => absurd h hb

theorem store_total_iff {address : Word} :
    Total (v.store address value) ↔ StoreMet v (address - VirtioCfg.baseAddr) value := by
  unfold store
  generalize address - VirtioCfg.baseAddr = offset
  by_cases hc : VirtioCfg.config ≤ offset
  · rw [if_pos hc]
    refine configStore_total_iff.trans ((configMet_iff hc).symm.trans
      ⟨fun h => ⟨h, ?_, ?_⟩, StoreMet.config⟩)
    · rintro rfl
      exact absurd hc (by decide)
    · rintro (rfl | ⟨rfl, _⟩)
      · exact absurd hc (by decide)
      · exact absurd hc (by decide)
  · rw [if_neg hc]
    by_cases hf : offset = VirtioCfg.driverFeatures
    · subst hf
      rw [if_neg (by decide), if_pos rfl]
      refine checkIndex_total_iff.trans ⟨fun h => ⟨fun hle => absurd hle hc, fun _ => h, ?_⟩,
        fun h => h.features rfl⟩
      rintro (h | ⟨h, _⟩)
      · exact absurd h (by decide)
      · exact absurd h (by decide)
    · by_cases hq : offset = VirtioCfg.queuePfn
      · subst hq
        iterate 7 rw [if_neg (by decide)]
        rw [if_pos rfl]
        exact update_total_iff.trans ⟨fun h => ⟨fun hle => absurd hle hc, fun h => absurd h hf,
          fun _ => h⟩, fun h => h.align (.inl rfl)⟩
      · by_cases hs : offset = VirtioCfg.status
        · subst hs
          iterate 10 rw [if_neg (by decide)]
          rw [if_pos rfl]
          exact (status_total_iff value).trans ⟨fun h => ⟨fun hle => absurd hle hc,
            fun h => absurd h hf, h⟩, StoreMet.align⟩
        · have hu : ¬Updates offset value := fun h => h.elim hq fun h => hs h.1
          refine iff_of_true ?_ (.plain hc hf hu)
          rw [if_neg hf, if_neg hq, if_neg hs]
          iterate 8 refine iteInduction (fun _ => total_ok _) fun _ => ?_
          exact total_ok _

theorem access_total_iff {x : RegisterAccess} : Total (v.access x) ↔ v.AccessMet x := by
  cases x with
  | load address length =>
    refine Iff.trans ⟨fun h => ?_, fun h => ?_⟩ load_total_iff
    · obtain ⟨w, h⟩ := h
      obtain ⟨y, hl, _⟩ := Except.bind_eq_ok_iff.mp h
      exact ⟨y, hl⟩
    · obtain ⟨y, hl⟩ := h
      exact ⟨v, Except.bind_eq_ok_iff.mpr ⟨y, hl, rfl⟩⟩
  | store address value length => exact store_total_iff

/-- A sequence of register accesses is total exactly when each access meets its condition in
the state that those before it have led to. -/
theorem accesses_total_iff (v : VirtioBlkDevice) (xs : List RegisterAccess) :
    Total (v.accesses xs) ↔ ∀ before x after, xs = before ++ x :: after →
      ∀ w, v.accesses before = .ok w → w.AccessMet x := by
  refine Except.foldlM_ok_iff.trans ?_
  refine forall₃_congr fun before x after => forall_congr' fun _ => ?_
  exact forall₂_congr fun w _ => access_total_iff

/-- A guest that keeps to the eight bytes of `config`, to two words of features and to
alignments other than zero. -/
def Tame : RegisterAccess → Prop
  | .load address _ => ConfigMet (address - VirtioCfg.baseAddr)
  | .store address value _ =>
    let offset := address - VirtioCfg.baseAddr
    ConfigMet offset ∧
      (offset = VirtioCfg.deviceFeaturesSel ∨ offset = VirtioCfg.driverFeaturesSel →
        (value.setWidth 32 : BitVec 32).toNat < 2) ∧
      (offset = VirtioCfg.queueAlign → (value.setWidth 32 : BitVec 32) ≠ 0)

/-- The selectors and the alignment can be used. -/
structure Selected (v : VirtioBlkDevice) : Prop where
  host : v.hostFeaturesSel.toNat < 2
  guest : v.guestFeaturesSel.toNat < 2
  align : v.vq.align ≠ 0

theorem init_selected (data : ByteVec) : (init data).Selected :=
  ⟨(by decide : (0 : BitVec 32).toNat < 2), (by decide : (0 : BitVec 32).toNat < 2),
    (by decide : VirtioCfg.virtqueueAlign ≠ 0)⟩

/-- Whatever state the access leads to, its selectors and its alignment can be used. -/
def LeadsSelected (x : HostM VirtioBlkDevice) : Prop := ∀ w, x = .ok w → w.Selected

theorem leadsSelected_ok (h : v.Selected) : LeadsSelected (.ok v) := by
  intro w hw
  cases Except.ok.inj hw
  exact h

theorem leadsSelected_bind {α : Type} {x : HostM α} {f : α → HostM VirtioBlkDevice}
    (h : ∀ y, LeadsSelected (f y)) : LeadsSelected (x >>= f) := by
  intro w hw
  obtain ⟨y, _, hy⟩ := Except.bind_eq_ok_iff.mp hw
  exact h y w hy

theorem update_leadsSelected (h : v.Selected) : LeadsSelected v.update :=
  leadsSelected_bind fun _ => leadsSelected_ok ⟨h.host, h.guest, h.align⟩

theorem store_leadsSelected {address : Word} {length : Width} (h : v.Selected)
    (ht : Tame (.store address value length)) : LeadsSelected (v.store address value) := by
  obtain ⟨_, hsel, halign⟩ := ht
  have hsame : ∀ w : VirtioBlkDevice, w.hostFeaturesSel = v.hostFeaturesSel →
      w.guestFeaturesSel = v.guestFeaturesSel → w.vq.align = v.vq.align → w.Selected :=
    fun w hh hg ha => ⟨hh ▸ h.host, hg ▸ h.guest, ha ▸ h.align⟩
  unfold store
  refine iteInduction (fun _ => leadsSelected_bind fun _ => leadsSelected_bind fun _ =>
    leadsSelected_ok (hsame _ rfl rfl rfl)) fun _ => ?_
  refine iteInduction (fun ho => leadsSelected_ok ⟨hsel (.inl ho), h.guest, h.align⟩) fun _ => ?_
  refine iteInduction (fun _ => leadsSelected_bind fun _ =>
    leadsSelected_ok (hsame _ rfl rfl rfl)) fun _ => ?_
  refine iteInduction (fun ho => leadsSelected_ok ⟨h.host, hsel (.inr ho), h.align⟩) fun _ => ?_
  iterate 3 refine iteInduction (fun _ => leadsSelected_ok (hsame _ rfl rfl rfl)) fun _ => ?_
  refine iteInduction (fun ho => leadsSelected_ok ⟨h.host, h.guest, halign ho⟩) fun _ => ?_
  refine iteInduction (fun _ => update_leadsSelected (hsame _ rfl rfl rfl)) fun _ => ?_
  iterate 2 refine iteInduction (fun _ => leadsSelected_ok (hsame _ rfl rfl rfl)) fun _ => ?_
  refine iteInduction (fun _ => ?_) fun _ => leadsSelected_ok h
  refine iteInduction (fun _ => leadsSelected_ok (hsame _ rfl rfl rfl)) fun _ => ?_
  exact iteInduction (fun _ => update_leadsSelected (hsame _ rfl rfl rfl)) fun _ =>
    leadsSelected_ok (hsame _ rfl rfl rfl)

theorem access_selected {w : VirtioBlkDevice} {x : RegisterAccess} (h : v.Selected) (ht : Tame x)
    (hx : v.access x = .ok w) : w.Selected := by
  cases x with
  | load address length =>
    obtain ⟨_, _, hx⟩ := Except.bind_eq_ok_iff.mp hx
    cases Except.ok.inj hx
    exact h
  | store address value length => exact store_leadsSelected h ht w hx

theorem Tame.met {x : RegisterAccess} (ht : Tame x) (h : v.Selected) : v.AccessMet x := by
  cases x with
  | load address length => exact ⟨ht, fun _ => h.host⟩
  | store address value length => exact ⟨ht.1, fun _ => h.guest, fun _ => h.align⟩

theorem selected_accesses_total {xs : List RegisterAccess} (h : v.Selected)
    (ht : ∀ x ∈ xs, Tame x) : Total (v.accesses xs) := by
  induction xs generalizing v with
  | nil => exact total_ok v
  | cons x xs ih =>
    obtain ⟨hx, hxs⟩ := List.forall_mem_cons.mp ht
    obtain ⟨w, hw⟩ := access_total_iff.mpr (hx.met h)
    obtain ⟨u, hu⟩ := ih (access_selected h hx hw) hxs
    exact ⟨u, Except.bind_eq_ok_iff.mpr ⟨w, hw, hu⟩⟩

/-- Such a guest can make its accesses in any order. -/
theorem accesses_total_of_tame (data : ByteVec) {xs : List RegisterAccess}
    (ht : ∀ x ∈ xs, Tame x) : Total ((init data).accesses xs) :=
  selected_accesses_total (init_selected data) ht

/-- The byte of `config` behind the last one is read in a register window of 4 KiB. -/
theorem configLoad_undefined : ¬∀ (data : ByteVec) (xs : List RegisterAccess),
    (∀ x ∈ xs, x.InWindow) → Total ((init data).accesses xs) := by
  intro h
  have hwindow : (RegisterAccess.load 0x10001108 .w8).InWindow := ⟨by decide, by decide⟩
  have htotal := h (ByteVec.zeros 0) [.load 0x10001108 .w8] (List.forall_mem_singleton.mpr hwindow)
  obtain ⟨w, hw⟩ := htotal
  obtain ⟨u, hu, _⟩ := Except.bind_eq_ok_iff.mp hw
  have hmet : LoadMet _ _ := access_total_iff.mp ⟨u, hu⟩
  have hlt := hmet.config (by decide)
  revert hlt
  decide

end VirtioBlkDevice

end Rv64gcEmu
