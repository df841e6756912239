import Rv64gcEmu.VirtioRequest

namespace Rv64gcEmu

open Bus (SameLayout)

/-- An access of the disk to the bus. -/
inductive BusAccess where
  | load (address : Word)
  | store (address value : Word)

namespace BusAccess

def address : BusAccess → Word
  | .load address => address
  | .store address _ => address

/-- Zero goes to the status register, which puts the disk back to its first used entry. -/
def resets (bus : Bus) : BusAccess → Bool
  | .load _ => false
  | .store address value => bus.findBusDevice address = some .virtio ∧
      address - VirtioCfg.baseAddr = VirtioCfg.status ∧ (value &&& 0xff).setWidth 8 = 0#8

/-- The bus has a device there. -/
def Mapped (bus : Bus) (x : BusAccess) : Prop := (bus.findBusDevice x.address).isSome

theorem resets_layout {a b : Bus} (h : SameLayout a b) (x : BusAccess) : x.resets b = x.resets a := by
  cases x with
  | load => rfl
  | store address value => simp only [resets, h.findBusDevice]

theorem mapped_layout {a b : Bus} (h : SameLayout a b) (x : BusAccess) :
    x.Mapped b ↔ x.Mapped a := by
  unfold Mapped
  rw [h.findBusDevice]

end BusAccess

namespace VirtioBlkDevice

/-- What the requests and their timing depend on is the same. -/
structure SameState (v w : VirtioBlkDevice) : Prop where
  rfsimg : w.rfsimg = v.rfsimg
  id : w.id = v.id
  isr : w.isr = v.isr
  clock : w.clock = v.clock
  notifyClock : w.notifyClock = v.notifyClock
  queueNotify : w.queueNotify = v.queueNotify

/-- Everything that a store to a register can do. -/
inductive StoreCase (v : VirtioBlkDevice) (offset value : Word) : VirtioBlkDevice → Prop
  | reset (ho : offset = VirtioCfg.status) (hz : (value &&& 0xff).setWidth 8 = 0#8) :
      StoreCase v offset value { v with status := 0, isr := 0, id := 0 }
  | acknowledge (ho : offset = VirtioCfg.interruptAck) :
      StoreCase v offset value { v with isr := ~~~(value.setWidth 8) }
  | notify (ho : offset = VirtioCfg.queueNotify) :
      StoreCase v offset value { v with queueNotify := value.setWidth 32, notifyClock := v.clock }
  | other {w : VirtioBlkDevice} (hs : ¬(offset = VirtioCfg.status ∧ (value &&& 0xff).setWidth 8 = 0#8))
      (ha : offset ≠ VirtioCfg.interruptAck) (hn : offset ≠ VirtioCfg.queueNotify)
      (h : SameState v w) : StoreCase v offset value w

/-- Whatever the store leads to, that part of the state is the same. -/
def Preserves (v : VirtioBlkDevice) (x : HostM VirtioBlkDevice) : Prop :=
  ∀ w, x = .ok w → SameState v w

theorem preserves_ok {v w : VirtioBlkDevice} (h : SameState v w) : Preserves v (.ok w) := by
  intro u hu
  cases Except.ok.inj hu
  exact h

theorem preserves_bind {v : VirtioBlkDevice} {α : Type} {x : HostM α} {f : α → HostM VirtioBlkDevice}
    (h : ∀ y, Preserves v (f y)) : Preserves v (x >>= f) := by
  intro w hx
  obtain ⟨y, _, hy⟩ := Except.bind_eq_ok_iff.mp hx
  exact h y w hy

theorem update_preserves {v w : VirtioBlkDevice} (h : SameState v w) : Preserves v w.update :=
  preserves_bind fun _ =>
    preserves_ok ⟨h.rfsimg, h.id, h.isr, h.clock, h.notifyClock, h.queueNotify⟩

theorem store_status {v : VirtioBlkDevice} {address value : Word}
    (ha : address - VirtioCfg.baseAddr = VirtioCfg.status) (hz : (value &&& 0xff).setWidth 8 = 0#8) :
    v.store address value = .ok { v with status := 0, isr := 0, id := 0 } := by
  unfold store
  rw [ha]
  iterate 11 rw [if_neg (by decide)]
  rw [if_pos rfl]
  refine (if_pos hz).trans ?_
  rw [hz]
  rfl

theorem store_preserves (v : VirtioBlkDevice) {address value : Word}
    (hs : ¬(address - VirtioCfg.baseAddr = VirtioCfg.status ∧ (value &&& 0xff).setWidth 8 = 0#8))
    (ha : address - VirtioCfg.baseAddr ≠ VirtioCfg.interruptAck)
    (hn : address - VirtioCfg.baseAddr ≠ VirtioCfg.queueNotify) :
    Preserves v (v.store address value) := by
  have hsame : SameState v v := ⟨rfl, rfl, rfl, rfl, rfl, rfl⟩
  unfold store
  refine iteInduction (fun _ => preserves_bind fun _ => preserves_bind fun _ =>
    preserves_ok ⟨rfl, rfl, rfl, rfl, rfl, rfl⟩) fun _ => ?_
  refine iteInduction (fun _ => preserves_ok ⟨rfl, rfl, rfl, rfl, rfl, rfl⟩) fun _ => ?_
  refine iteInduction (fun _ => preserves_bind fun _ =>
    preserves_ok ⟨rfl, rfl, rfl, rfl, rfl, rfl⟩) fun _ => ?_
  iterate 5 refine iteInduction (fun _ => preserves_ok ⟨rfl, rfl, rfl, rfl, rfl, rfl⟩) fun _ => ?_
  refine iteInduction (fun _ => update_preserves ⟨rfl, rfl, rfl, rfl, rfl, rfl⟩) fun _ => ?_
  refine iteInduction (fun ho => absurd ho hn) fun _ => ?_
  refine iteInduction (fun ho => absurd ho ha) fun _ => ?_
  refine iteInduction (fun ho => ?_) fun _ => preserves_ok hsame
  refine iteInduction (fun hz => absurd ⟨ho, hz⟩ hs) fun _ => ?_
  exact iteInduction (fun _ => update_preserves ⟨rfl, rfl, rfl, rfl, rfl, rfl⟩) fun _ =>
    preserves_ok ⟨rfl, rfl, rfl, rfl, rfl, rfl⟩

theorem store_cases {v w : VirtioBlkDevice} {address value : Word}
    (h : v.store address value = .ok w) : StoreCase v (address - VirtioCfg.baseAddr) value w := by
  by_cases hs : address - VirtioCfg.baseAddr = VirtioCfg.status ∧ (value &&& 0xff).setWidth 8 = 0#8
  · rw [store_status hs.1 hs.2] at h
    cases Except.ok.inj h
    exact .reset hs.1 hs.2
  by_cases ha : address - VirtioCfg.baseAddr = VirtioCfg.interruptAck
  · unfold store at h
    rw [ha] at h
    iterate 10 rw [if_neg (by decide)] at h
    cases Except.ok.inj h
    exact .acknowledge ha
  by_cases hn : address - VirtioCfg.baseAddr = VirtioCfg.queueNotify
  · unfold store at h
    rw [hn] at h
    iterate 9 rw [if_neg (by decide)] at h
    cases Except.ok.inj h
    exact .notify hn
  exact .other hs ha hn (store_preserves v hs ha hn w h)

/-- The registers change, the image and the used index do not. -/
def Keeps (v : VirtioBlkDevice) (x : HostM VirtioBlkDevice) : Prop :=
  ∀ v', x = .ok v' → v'.rfsimg = v.rfsimg ∧ v'.id = v.id

theorem store_keeps (v : VirtioBlkDevice) {address value : Word}
    (h : ¬(address - VirtioCfg.baseAddr = VirtioCfg.status ∧ (value &&& 0xff).setWidth 8 = 0#8)) :
    Keeps v (v.store address value) := by
  intro w hw
  cases store_cases hw with
  | reset ho hz => exact absurd ⟨ho, hz⟩ h
  | acknowledge => exact ⟨rfl, rfl⟩
  | notify => exact ⟨rfl, rfl⟩
  | other _ _ _ h => exact ⟨h.rfsimg, h.id⟩

/-- Of its own registers a store can set the used index back, and no more. -/
theorem store_id {v v' : VirtioBlkDevice} {address value : Word}
    (h : v.store address value = .ok v') : v'.rfsimg = v.rfsimg ∧
      v'.id = if address - VirtioCfg.baseAddr = VirtioCfg.status ∧ (value &&& 0xff).setWidth 8 = 0#8
        then 0 else v.id := by
  split
  next hz =>
    rw [store_status hz.1 hz.2] at h
    cases Except.ok.inj h
    exact ⟨rfl, rfl⟩
  next hz => exact store_keeps v hz v' h

/-- A store of the machine reaches the disk as a store to its registers, or not at all. -/
theorem busStore_cases {a b : Cpu} {v : VirtioBlkDevice} {address value : Word} {length : Width}
    (h : Bus.store a address value length = .ok b) (hv : a.bus.virtio = some v) :
    ∃ w, b.bus.virtio = some w ∧
      (a.bus.findBusDevice address = some .virtio ∧ v.store address value = .ok w ∨
        a.bus.findBusDevice address ≠ some .virtio ∧ w = v) := by
  rcases Bus.store_cases h with ⟨d, bus, hd, hs, rfl⟩ | ⟨hd, rfl⟩
  · obtain ⟨_, hother, hdisk⟩ := Bus.deviceStore_layout hs
    by_cases hvirtio : d = .virtio
    · obtain ⟨u, w, hu, hst, hw⟩ := hdisk hvirtio
      cases Option.some.inj (hu.symm.trans hv)
      exact ⟨w, hw, .inl ⟨hd.trans (congrArg some hvirtio), hst⟩⟩
    · refine ⟨v, (hother hvirtio).trans hv, .inr ⟨?_, rfl⟩⟩
      rw [hd]
      exact fun h => hvirtio (Option.some.inj h)
  · refine ⟨v, hv, .inr ⟨?_, rfl⟩⟩
    rw [hd]
    exact nofun

/-- The used index once these accesses are done. -/
def idAfter (bus : Bus) (id : BitVec 16) (accesses : List BusAccess) : BitVec 16 :=
  if accesses.any (·.resets bus) then 0 else id

/-- The accesses were made, and nothing else touched the bus. -/
structure Accessed (accesses : List BusAccess) (a b : Cpu) : Prop where
  layout : SameLayout a.bus b.bus
  excVal : b.excVal = none ↔ a.excVal = none ∧ ∀ x ∈ accesses, x.Mapped a.bus

/-- The same, with what is left of the used index. -/
structure DiskAccessed (accesses : List BusAccess) (a b : Cpu) : Prop
    extends Accessed accesses a b where
  id : ∀ v, a.bus.virtio = some v →
    ∃ v', b.bus.virtio = some v' ∧ v'.id = idAfter a.bus v.id accesses

variable {a b c : Cpu} {xs ys : List BusAccess}

theorem idAfter_layout {a b : Bus} (h : SameLayout a b) (id : BitVec 16) (xs : List BusAccess) :
    idAfter b id xs = idAfter a id xs := by
  unfold idAfter
  simp only [BusAccess.resets_layout h]

theorem Accessed.trans (h : Accessed xs a b) (h' : Accessed ys b c) :
    Accessed (xs ++ ys) a c where
  layout := h.layout.trans h'.layout
  excVal := by
    simp only [h'.excVal, h.excVal, List.forall_mem_append, BusAccess.mapped_layout h.layout]
    exact and_assoc

theorem DiskAccessed.trans (h : DiskAccessed xs a b) (h' : DiskAccessed ys b c) :
    DiskAccessed (xs ++ ys) a c where
  toAccessed := h.toAccessed.trans h'.toAccessed
  id v hv := by
    obtain ⟨w, hw, hid⟩ := h.id v hv
    obtain ⟨x, hx, hid'⟩ := h'.id w hw
    refine ⟨x, hx, ?_⟩
    rw [hid', hid]
    unfold idAfter
    simp only [List.any_append, BusAccess.resets_layout h.layout]
    by_cases h1 : xs.any (·.resets a.bus)
    · simp [h1]
    · simp [h1]

theorem DiskAccessed.refl (a : Cpu) : DiskAccessed [] a a :=
  ⟨⟨.refl _, by simp⟩, fun v hv => ⟨v, hv, rfl⟩⟩

theorem load_accessed {address v : Word} {length : Width}
    (h : Bus.load a address length = .ok (v, b)) :
    DiskAccessed [.load address] a b ∧ b.bus.virtio = a.bus.virtio := by
  rcases Bus.load_cases h with ⟨d, bus, hd, hl, rfl⟩ | ⟨hd, _, rfl⟩
  · obtain ⟨hlayout, hv⟩ := Bus.deviceLoad_layout hl
    refine ⟨⟨⟨hlayout, ?_⟩, fun v hv' => ⟨v, hv.trans hv', rfl⟩⟩, hv⟩
    simp [BusAccess.Mapped, BusAccess.address, hd]
  · refine ⟨⟨⟨.refl _, ?_⟩, fun v hv => ⟨v, hv, rfl⟩⟩, rfl⟩
    simp [BusAccess.Mapped, BusAccess.address, hd]

theorem store_accessed {address value : Word} {length : Width}
    (h : Bus.store a address value length = .ok b) :
    DiskAccessed [.store address value] a b ∧
      b.bus.virtio.map (·.rfsimg) = a.bus.virtio.map (·.rfsimg) := by
  rcases Bus.store_cases h with ⟨d, bus, hd, hs, rfl⟩ | ⟨hd, rfl⟩
  · obtain ⟨hlayout, hother, hdisk⟩ := Bus.deviceStore_layout hs
    have hmap : Accessed [.store address value] a (a.setBus bus) :=
      ⟨hlayout, by simp [BusAccess.Mapped, BusAccess.address, hd]⟩
    by_cases hv : d = .virtio
    · subst hv
      obtain ⟨w, w', hw, hst, hw'⟩ := hdisk rfl
      obtain ⟨himg, hid⟩ := store_id hst
      refine ⟨⟨hmap, fun v hv => ?_⟩, ?_⟩
      · cases Option.some.inj (hw.symm.trans hv)
        refine ⟨w', hw', hid.trans ?_⟩
        simp [idAfter, BusAccess.resets, hd]
      · change bus.virtio.map _ = _
        rw [hw', hw]
        exact congrArg some himg
    · refine ⟨⟨hmap, fun v hv' => ⟨v, (hother hv).trans hv', ?_⟩⟩, congrArg _ (hother hv)⟩
      simp [idAfter, BusAccess.resets, hd, hv]
  · refine ⟨⟨⟨.refl _, ?_⟩, fun v hv => ⟨v, hv, ?_⟩⟩, rfl⟩
    · simp [BusAccess.Mapped, BusAccess.address, hd]
    · simp [idAfter, BusAccess.resets, hd]

def descAccesses (address : Word) : List BusAccess :=
  [.load address, .load (address + 8), .load (address + 12), .load (address + 14)]

namespace Request

/-- The ring, the three descriptors and the header. -/
def reads (r : Request) (vq : Virtq) : List BusAccess :=
  [.load (vq.avail + 2), .load (vq.avail + 4 + r.slot * 2)] ++
    descAccesses (vq.desc + 16 * r.head.setWidth 64) ++
    descAccesses (vq.desc + 16 * r.desc0.next.setWidth 64) ++
    descAccesses (vq.desc + 16 * r.desc1.next.setWidth 64) ++
    [.load r.desc0.addr, .load (r.desc0.addr + 8)]

/-- The bytes of the buffer, from or to the sector. -/
def transfers (r : Request) (rfsimg : ByteVec) : List BusAccess :=
  (List.range r.desc1.len.toNat).map fun k =>
    let i := BitVec.ofNat 64 k
    if r.blkReqType = VirtioCfg.blkTOut then .load (r.desc1.addr + i)
    else .store (r.desc1.addr + i) (LittleEndian.read rfsimg.get (r.offset + i).toNat 1)

/-- The status byte, the used entry and the used index. -/
def answers (r : Request) (vq : Virtq) (bus : Bus) (id : BitVec 16) : List BusAccess :=
  let status : BusAccess := .store r.desc2.addr VirtioCfg.blkSOk
  let id := idAfter bus id [status]
  let entry : BusAccess :=
    .store (vq.used + 4 + id.setWidth 64 % vq.num.setWidth 64 * 8) (r.head.setWidth 64)
  let id := idAfter bus id [entry]
  [status, entry, .store (vq.used + 2) ((id + 1).setWidth 64)]

def accesses (r : Request) (v : VirtioBlkDevice) (bus : Bus) : List BusAccess :=
  r.reads v.vq ++ r.transfers v.rfsimg ++
    r.answers v.vq bus (idAfter bus v.id (r.transfers v.rfsimg))

end Request

theorem answers_layout {a b : Bus} (h : SameLayout a b) (r : Request) (vq : Virtq)
    (id : BitVec 16) : r.answers vq b id = r.answers vq a id := by
  unfold Request.answers
  simp only [idAfter_layout h]

theorem accesses_layout {a b : Bus} (h : SameLayout a b) (r : Request) (v : VirtioBlkDevice) :
    r.accesses v b = r.accesses v a := by
  unfold Request.accesses
  rw [idAfter_layout h, answers_layout h]

theorem loadDesc_accessed {address : Word} {desc : VirtqDesc}
    (h : loadDesc a address = .ok (desc, b)) :
    DiskAccessed (descAccesses address) a b ∧ b.bus.virtio = a.bus.virtio := by
  obtain ⟨⟨_, c₁⟩, h₁, h⟩ := Except.bind_eq_ok_iff.mp h
  obtain ⟨⟨_, c₂⟩, h₂, h⟩ := Except.bind_eq_ok_iff.mp h
  obtain ⟨⟨_, c₃⟩, h₃, h⟩ := Except.bind_eq_ok_iff.mp h
  obtain ⟨⟨_, c₄⟩, h₄, h⟩ := Except.bind_eq_ok_iff.mp h
  obtain ⟨_, rfl⟩ := Prod.mk.inj (Except.ok.inj h)
  obtain ⟨a₁, v₁⟩ := load_accessed h₁
  obtain ⟨a₂, v₂⟩ := load_accessed h₂
  obtain ⟨a₃, v₃⟩ := load_accessed h₃
  obtain ⟨a₄, v₄⟩ := load_accessed h₄
  exact ⟨((a₁.trans a₂).trans a₃).trans a₄, v₄.trans (v₃.trans (v₂.trans v₁))⟩

theorem readRequest_accessed {v : VirtioBlkDevice} {r : Request}
    (h : readRequest v a = .ok (r, b)) :
    DiskAccessed (r.reads v.vq) a b ∧ b.bus.virtio = a.bus.virtio := by
  obtain ⟨⟨idx, c₁⟩, h₁, h⟩ := Except.bind_eq_ok_iff.mp h
  obtain ⟨slot, _, h⟩ := Except.bind_eq_ok_iff.mp h
  obtain ⟨⟨_, c₂⟩, h₂, h⟩ := Except.bind_eq_ok_iff.mp h
  obtain ⟨⟨_, c₃⟩, h₃, h⟩ := Except.bind_eq_ok_iff.mp h
  obtain ⟨⟨_, c₄⟩, h₄, h⟩ := Except.bind_eq_ok_iff.mp h
  obtain ⟨⟨_, c₅⟩, h₅, h⟩ := Except.bind_eq_ok_iff.mp h
  obtain ⟨⟨_, c₆⟩, h₆, h⟩ := Except.bind_eq_ok_iff.mp h
  obtain ⟨⟨_, c₇⟩, h₇, h⟩ := Except.bind_eq_ok_iff.mp h
  obtain ⟨rfl, rfl⟩ := Prod.mk.inj (Except.ok.inj h)
  obtain ⟨a₁, v₁⟩ := load_accessed h₁
  obtain ⟨a₂, v₂⟩ := load_accessed h₂
  obtain ⟨a₃, v₃⟩ := loadDesc_accessed h₃
  obtain ⟨a₄, v₄⟩ := loadDesc_accessed h₄
  obtain ⟨a₅, v₅⟩ := loadDesc_accessed h₅
  obtain ⟨a₆, v₆⟩ := load_accessed h₆
  obtain ⟨a₇, v₇⟩ := load_accessed h₇
  refine ⟨?_, v₇.trans (v₆.trans (v₅.trans (v₄.trans (v₃.trans (v₂.trans v₁)))))⟩
  exact ((((a₁.trans a₂).trans a₃).trans a₄).trans a₅).trans (a₆.trans a₇)

theorem toBus_accessed {v w : VirtioBlkDevice} (hv : a.bus.virtio = some v) (hid : w.id = v.id) :
    DiskAccessed [] a (toBus a w) where
  layout := toBus_layout hv
  excVal := by simp [toBus]
  id u hu := by
    cases Option.some.inj (hv.symm.trans hu)
    exact ⟨w, rfl, hid⟩

/-- The accesses of a loop over the bytes, of which the first one is taken off. -/
theorem map_range_succ (f : Word → BusAccess) (n : Nat) (i : Word) :
    (List.range (n + 1)).map (fun k => f (i + BitVec.ofNat 64 k)) =
      f i :: (List.range n).map fun k => f (i + 1 + BitVec.ofNat 64 k) := by
  rw [List.range_succ_eq_map, List.map_cons, List.map_map]
  congr 1
  · congr 1
    exact BitVec.add_zero i
  · apply List.map_congr_left
    intro k _
    rw [Function.comp_apply, counter_succ]

theorem copyToDisk_accessed {offset addr i : Word} {n : Nat}
    (h : copyToDisk offset addr n i a = .ok b) :
    DiskAccessed ((List.range n).map fun k => .load (addr + (i + BitVec.ofNat 64 k))) a b := by
  induction n generalizing i a with
  | zero =>
    cases Except.ok.inj h
    exact .refl _
  | succ n ih =>
    obtain ⟨⟨_, c⟩, hl, h⟩ := Except.bind_eq_ok_iff.mp h
    obtain ⟨v, hv, h⟩ := Except.bind_eq_ok_iff.mp h
    obtain ⟨rfsimg, _, h⟩ := Except.bind_eq_ok_iff.mp h
    rw [map_range_succ fun x => .load (addr + x)]
    have hbyte : DiskAccessed [] c (toBus c { v with rfsimg := rfsimg }) :=
      toBus_accessed (ofBus_eq_ok_iff.mp hv) rfl
    exact (load_accessed hl).1.trans (hbyte.trans (ih h))

theorem copyFromDisk_accessed {offset addr i : Word} {n : Nat} {v : VirtioBlkDevice}
    (hv : a.bus.virtio = some v) (h : copyFromDisk offset addr n i a = .ok b) :
    DiskAccessed ((List.range n).map fun k => .store (addr + (i + BitVec.ofNat 64 k))
      (LittleEndian.read v.rfsimg.get (offset + (i + BitVec.ofNat 64 k)).toNat 1)) a b := by
  induction n generalizing i a v with
  | zero =>
    cases Except.ok.inj h
    exact .refl _
  | succ n ih =>
    obtain ⟨w, hw, h⟩ := Except.bind_eq_ok_iff.mp h
    cases Option.some.inj (hv.symm.trans (ofBus_eq_ok_iff.mp hw))
    obtain ⟨byte, hb, h⟩ := Except.bind_eq_ok_iff.mp h
    obtain ⟨c, hs, hn⟩ := Except.bind_eq_ok_iff.mp h
    obtain ⟨_, rfl⟩ := ByteVec.load_eq_ok_iff.mp hb
    obtain ⟨hstored, himg⟩ := store_accessed hs
    obtain ⟨u, hu, _⟩ := hstored.id v hv
    have hui : u.rfsimg = v.rfsimg := by
      rw [hu, hv] at himg
      exact Option.some.inj himg
    have hrest := ih hu hn
    rw [hui] at hrest
    rw [map_range_succ fun x =>
      .store (addr + x) (LittleEndian.read v.rfsimg.get (offset + x).toNat 1)]
    exact hstored.trans hrest

theorem copy_accessed {r : Request} {v : VirtioBlkDevice} (hv : a.bus.virtio = some v)
    (h : r.copy a = .ok b) : DiskAccessed (r.transfers v.rfsimg) a b := by
  have hzero : ∀ k, (0 : Word) + BitVec.ofNat 64 k = BitVec.ofNat 64 k := fun _ => BitVec.zero_add _
  unfold Request.copy at h
  unfold Request.transfers
  split at h
  next ht =>
    have hc := copyToDisk_accessed h
    simp only [hzero] at hc
    simp only [if_pos ht]
    exact hc
  next ht =>
    have hc := copyFromDisk_accessed hv h
    simp only [hzero] at hc
    simp only [if_neg ht]
    exact hc

theorem answer_accessed {r : Request} {vq : Virtq} {v : VirtioBlkDevice}
    (hv : a.bus.virtio = some v) (h : r.answer vq a = .ok b) :
    Accessed (r.answers vq a.bus v.id) a b := by
  obtain ⟨c₁, h₁, h⟩ := Except.bind_eq_ok_iff.mp h
  obtain ⟨v₁, hv₁, h⟩ := Except.bind_eq_ok_iff.mp h
  obtain ⟨slot, hslot, h⟩ := Except.bind_eq_ok_iff.mp h
  obtain ⟨c₂, h₂, h⟩ := Except.bind_eq_ok_iff.mp h
  obtain ⟨v₂, hv₂, h₃⟩ := Except.bind_eq_ok_iff.mp h
  obtain ⟨_, _, hslot⟩ := Except.bind_eq_ok_iff.mp hslot
  have hs := Except.ok.inj hslot
  have a₁ := (store_accessed h₁).1
  have a₂ := (store_accessed h₂).1
  have a₃ := (store_accessed h₃).1.toAccessed
  have hid₁ : v₁.id = idAfter a.bus v.id [.store r.desc2.addr VirtioCfg.blkSOk] := by
    obtain ⟨w, hw, hid⟩ := a₁.id v hv
    cases Option.some.inj (hw.symm.trans (ofBus_eq_ok_iff.mp hv₁))
    exact hid
  have hid₂ : v₂.id = idAfter a.bus v₁.id
      [.store (vq.used + 4 + slot * 8) (r.head.setWidth 64)] := by
    obtain ⟨w, hw, hid⟩ := a₂.id v₁ (ofBus_eq_ok_iff.mp hv₁)
    cases Option.some.inj (hw.symm.trans (ofBus_eq_ok_iff.mp hv₂))
    rw [hid, idAfter_layout a₁.layout]
  have hnext : Accessed [] c₂ (toBus c₂ { v₂ with id := v₂.id + 1 }) :=
    ⟨toBus_layout (ofBus_eq_ok_iff.mp hv₂), by simp [toBus]⟩
  have hall := (a₁.toAccessed.trans a₂.toAccessed).trans (hnext.trans a₃)
  rw [hid₂, ← hs, hid₁] at hall
  exact hall

/-- All that `access_disk` does to the bus, and when it leaves no exception. -/
theorem accessDisk_accessed (h : accessDisk a = .ok b) :
    ∃ v r c, a.bus.virtio = some v ∧ readRequest v a = .ok (r, c) ∧
      Accessed (r.accesses v a.bus) a b := by
  rw [accessDisk_eq] at h
  obtain ⟨v, hv, h⟩ := Except.bind_eq_ok_iff.mp h
  obtain ⟨⟨r, c⟩, hr, h⟩ := Except.bind_eq_ok_iff.mp h
  obtain ⟨c', hc, h⟩ := Except.bind_eq_ok_iff.mp h
  rw [ofBus_eq_ok_iff] at hv
  obtain ⟨hread, hvc⟩ := readRequest_accessed hr
  have hcopy := copy_accessed (hvc.trans hv) hc
  obtain ⟨w, hw, hid⟩ := hcopy.id v (hvc.trans hv)
  have hlayout := hread.layout.trans hcopy.layout
  have hanswer := answer_accessed hw h
  rw [hid, idAfter_layout hread.layout, answers_layout hlayout] at hanswer
  exact ⟨v, r, c, hv, hr, (hread.toAccessed.trans hcopy.toAccessed).trans hanswer⟩

end VirtioBlkDevice

end Rv64gcEmu
