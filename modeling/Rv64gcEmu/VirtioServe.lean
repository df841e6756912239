import Rv64gcEmu.RamField
import Rv64gcEmu.VirtioRequest

namespace Rv64gcEmu

namespace Virtq

/-- The index of the used ring and its entries, each with its length. -/
def usedSize (vq : Virtq) : Nat := 4 + 8 * vq.num.toNat

def usedEntry (vq : Virtq) (slot : Nat) : Word := vq.used + 4 + BitVec.ofNat 64 slot * 8

def availSize (vq : Virtq) : Nat := 4 + 2 * vq.num.toNat

def availEntry (vq : Virtq) (slot : Nat) : Word := vq.avail + 4 + BitVec.ofNat 64 slot * 2

theorem entry_address (base : Word) (slot size : Nat) :
    base + 4 + BitVec.ofNat 64 slot * BitVec.ofNat 64 size =
      base + BitVec.ofNat 64 (4 + size * slot) := by
  rw [BitVec.add_assoc, BitVec.ofNat_add, BitVec.ofNat_mul, BitVec.mul_comm]
  rfl

theorem usedEntry_eq (vq : Virtq) (slot : Nat) :
    vq.usedEntry slot = vq.used + BitVec.ofNat 64 (4 + 8 * slot) := entry_address _ _ _

theorem availEntry_eq (vq : Virtq) (slot : Nat) :
    vq.availEntry slot = vq.avail + BitVec.ofNat 64 (4 + 2 * slot) := entry_address _ _ _

/-- Both rings are in the RAM, the available one before the used one. -/
structure Placed (vq : Virtq) (ram : RamDevice) : Prop where
  num : 0 < vq.num.toNat
  avail : ram.Contains vq.avail vq.availSize
  used : ram.Contains vq.used vq.usedSize
  apart : vq.avail.toNat + vq.availSize ≤ vq.used.toNat

theorem Placed.layout {vq : Virtq} {a b : Bus} (hp : Placed vq a.ram) (h : Bus.SameLayout a b) :
    Placed vq b.ram := by
  have hc : ∀ address n, a.ram.Contains address n → b.ram.Contains address n := by
    intro address n
    unfold RamDevice.Contains
    rw [h.baseAddr, h.endAddr]
    exact id
  exact ⟨hp.num, hc _ _ hp.avail, hc _ _ hp.used, hp.apart⟩

/-- The head in the slot that `access_disk` looks at. -/
def head (vq : Virtq) (ram : RamDevice) : BitVec 16 :=
  ram.half (vq.availEntry ((ram.half (vq.avail + 2)).toNat % vq.num.toNat))

def descriptor (vq : Virtq) (ram : RamDevice) (index : BitVec 16) : VirtqDesc :=
  let address := vq.desc + 16 * index.setWidth 64
  ⟨ram.word address, ram.single (address + 8), ram.half (address + 12), ram.half (address + 14)⟩

/-- What a disk with this queue finds in the RAM. -/
def request (vq : Virtq) (ram : RamDevice) : VirtioBlkDevice.Request :=
  let desc0 := vq.descriptor ram (vq.head ram)
  let desc1 := vq.descriptor ram desc0.next
  { slot := BitVec.ofNat 64 ((ram.half (vq.avail + 2)).toNat % vq.num.toNat)
    head := vq.head ram
    desc0 := desc0
    desc1 := desc1
    desc2 := vq.descriptor ram desc1.next
    blkReqType := ram.single desc0.addr
    blkReqSector := ram.word (desc0.addr + 8) }

/-- A byte of RAM outside of the used ring. -/
def Free (vq : Virtq) (ram : RamDevice) (address : Word) : Prop :=
  ram.Contains address 1 ∧
    (address.toNat < vq.used.toNat ∨ vq.used.toNat + vq.usedSize ≤ address.toNat)

instance (vq : Virtq) (ram : RamDevice) (address : Word) : Decidable (vq.Free ram address) :=
  inferInstanceAs (Decidable (_ ∧ _))

/-- The chain of three descriptors from a head on, with its header, data and status byte. -/
structure ChainReady (vq : Virtq) (ram : RamDevice) (head : BitVec 16) : Prop where
  desc0 : ram.Contains (vq.desc + 16 * head.setWidth 64) 16
  desc1 : ram.Contains (vq.desc + 16 * (vq.descriptor ram head).next.setWidth 64) 16
  desc2 : ram.Contains (vq.desc + 16 *
    (vq.descriptor ram (vq.descriptor ram head).next).next.setWidth 64) 16
  header : ram.Contains (vq.descriptor ram head).addr 16
  data : ∀ i < (vq.descriptor ram (vq.descriptor ram head).next).len.toNat,
    vq.Free ram ((vq.descriptor ram (vq.descriptor ram head).next).addr + BitVec.ofNat 64 i)
  status : vq.Free ram
    (vq.descriptor ram (vq.descriptor ram (vq.descriptor ram head).next).next).addr

/-- The used ring is the same in both. -/
structure SameUsed (vq : Virtq) (a b : RamDevice) : Prop where
  baseAddr : b.baseAddr = a.baseAddr
  endAddr : b.endAddr = a.endAddr
  bytes : ∀ i < vq.usedSize, b.byteAt (vq.used + BitVec.ofNat 64 i) =
    a.byteAt (vq.used + BitVec.ofNat 64 i)

namespace SameUsed

variable {vq : Virtq} {a b c : RamDevice}

theorem refl (a : RamDevice) : SameUsed vq a a := ⟨rfl, rfl, fun _ _ => rfl⟩

theorem trans (h : SameUsed vq a b) (h' : SameUsed vq b c) : SameUsed vq a c where
  baseAddr := h'.baseAddr.trans h.baseAddr
  endAddr := h'.endAddr.trans h.endAddr
  bytes i hi := (h'.bytes i hi).trans (h.bytes i hi)

theorem contains (h : SameUsed vq a b) (address : Word) (n : Nat) :
    b.Contains address n ↔ a.Contains address n := by
  unfold RamDevice.Contains
  rw [h.baseAddr, h.endAddr]

theorem free (h : SameUsed vq a b) (address : Word) : vq.Free b address ↔ vq.Free a address := by
  unfold Free
  rw [h.contains]

/-- A store elsewhere keeps the ring. -/
theorem put {address : Word} (value : Word) {length : Width}
    (hu : a.Contains vq.used vq.usedSize) (hc : a.Contains address length.bytes)
    (hout : address.toNat + length.bytes ≤ vq.used.toNat ∨
      vq.used.toNat + vq.usedSize ≤ address.toNat) : SameUsed vq a (a.put address value length) where
  baseAddr := rfl
  endAddr := rfl
  bytes i hi := by
    refine LittleEndian.write_of_not_mem _ _ ?_
    change ¬((address - a.baseAddr).toNat ≤ (vq.used + BitVec.ofNat 64 i - a.baseAddr).toNat ∧
      (vq.used + BitVec.ofNat 64 i - a.baseAddr).toNat < (address - a.baseAddr).toNat + length.bytes)
    rw [hu.offset hi, RamDevice.offset_toNat hu.1, RamDevice.offset_toNat hc.1]
    have h1 := BitVec.le_def.mp hu.1
    have h2 := BitVec.le_def.mp hc.1
    omega

end SameUsed

end Virtq

open Virtq (ChainReady Placed SameUsed)

namespace VirtioBlkDevice

variable {cpu after : Cpu} {v : VirtioBlkDevice} {vq : Virtq}

theorem loadDesc_ram {index : BitVec 16}
    (h : cpu.bus.ram.Contains (vq.desc + 16 * index.setWidth 64) 16) :
    loadDesc cpu (vq.desc + 16 * index.setWidth 64) = .ok (vq.descriptor cpu.bus.ram index, cpu) := by
  obtain ⟨len, hlen, elen⟩ := Bus.load_single (h.part (by decide) (by decide : 8 + 4 ≤ 16))
  obtain ⟨flags, hflags, eflags⟩ := Bus.load_half (h.part (by decide) (by decide : 12 + 2 ≤ 16))
  obtain ⟨next, hnext, enext⟩ := Bus.load_half (h.part (by decide) (by decide : 14 + 2 ≤ 16))
  unfold loadDesc Virtq.descriptor
  simp only [BitVec.ofNat_eq_ofNat]
  simp only [BitVec.ofNat_eq_ofNat] at h hlen hflags hnext elen eflags enext
  simp only [Bus.load_word (h.mono (by decide)), hlen, hflags, hnext, Except.ok_bind, elen, eflags,
    enext]

theorem store_queueNotify (v : VirtioBlkDevice) (value : Word) :
    v.store (VirtioCfg.baseAddr + VirtioCfg.queueNotify) value =
      .ok { v with queueNotify := value.setWidth 32, notifyClock := v.clock } := by
  have ho : VirtioCfg.baseAddr + VirtioCfg.queueNotify - VirtioCfg.baseAddr =
      VirtioCfg.queueNotify := by decide
  unfold store
  rw [ho]
  iterate 9 rw [if_neg (by decide)]
  exact if_pos rfl

theorem queueIndex_eq {num : BitVec 32} (value : BitVec 16) (hn : 0 < num.toNat) :
    queueIndex value (num.setWidth 64) = .ok (BitVec.ofNat 64 (value.toNat % num.toNat)) := by
  have hne : num.setWidth 64 ≠ 0 := by
    intro hz
    rw [(BitField.setWidth_eq_zero_iff (by decide)).mp hz] at hn
    exact Nat.lt_irrefl _ hn
  have hmod : value.setWidth 64 % num.setWidth 64 = BitVec.ofNat 64 (value.toNat % num.toNat) := by
    apply BitVec.eq_of_toNat_eq
    have hlt := Nat.mod_le value.toNat num.toNat
    have hv := value.isLt
    rw [BitVec.toNat_umod, BitVec.toNat_setWidth_of_le (by decide),
      BitVec.toNat_setWidth_of_le (by decide), BitVec.toNat_ofNat]
    exact (Nat.mod_eq_of_lt (by omega)).symm
  unfold queueIndex checkUnsignedDiv
  rw [if_neg hne, Except.ok_bind, hmod]

/-- With everything in the RAM the loads of a request change nothing. -/
theorem readRequest_ram (hn : 0 < v.vq.num.toNat)
    (ha : cpu.bus.ram.Contains v.vq.avail v.vq.availSize)
    (hc : ChainReady v.vq cpu.bus.ram (v.vq.head cpu.bus.ram)) :
    readRequest v cpu = .ok (v.vq.request cpu.bus.ram, cpu) := by
  have hidx : cpu.bus.ram.Contains (v.vq.avail + BitVec.ofNat 64 2) 2 :=
    ha.part (by decide) (by unfold Virtq.availSize; omega)
  obtain ⟨idx, hidx, eidx⟩ := Bus.load_half hidx
  have hslot := Nat.mod_lt (cpu.bus.ram.half (v.vq.avail + BitVec.ofNat 64 2)).toNat hn
  have hentry : cpu.bus.ram.Contains (v.vq.availEntry
      ((cpu.bus.ram.half (v.vq.avail + BitVec.ofNat 64 2)).toNat % v.vq.num.toNat)) 2 := by
    rw [Virtq.availEntry_eq]
    exact ha.part (by decide) (by unfold Virtq.availSize; omega)
  obtain ⟨head, hhead, ehead⟩ := Bus.load_half hentry
  obtain ⟨type, htype, etype⟩ := Bus.load_single (hc.header.mono (by decide : 4 ≤ 16))
  have hsector := Bus.load_word (hc.header.part (by decide) (by decide : 8 + 8 ≤ 16))
  have h0 := loadDesc_ram hc.desc0
  have h1 := loadDesc_ram hc.desc1
  have h2 := loadDesc_ram hc.desc2
  change head.setWidth 16 = v.vq.head cpu.bus.ram at ehead
  unfold Virtq.availEntry at hhead
  unfold readRequest
  simp only [BitVec.ofNat_eq_ofNat]
  simp only [BitVec.ofNat_eq_ofNat] at hidx eidx hhead hsector h0 h1 h2
  simp only [hidx, Except.ok_bind, eidx, queueIndex_eq _ hn, hhead, ehead, h0, h1, h2, htype, etype,
    hsector]
  rfl

theorem copyToDisk_ram {offset addr i : Word} {n : Nat} (hv : cpu.bus.virtio = some v)
    (hfree : ∀ k < n, vq.Free cpu.bus.ram (addr + (i + BitVec.ofNat 64 k)))
    (h : copyToDisk offset addr n i cpu = .ok after) :
    ∃ rfsimg, after = toBus cpu { v with rfsimg := rfsimg } := by
  induction n generalizing i cpu v with
  | zero =>
    cases Except.ok.inj h
    exact ⟨v.rfsimg, (toBus_self hv).symm⟩
  | succ n ih =>
    have h0 := (hfree 0 (by omega)).1
    have haddr : addr + (i + BitVec.ofNat 64 0) = addr + i := congrArg _ (BitVec.add_zero i)
    rw [haddr] at h0
    unfold copyToDisk at h
    rw [Bus.load_ram h0, Except.ok_bind] at h
    obtain ⟨w, hw, h⟩ := Except.bind_eq_ok_iff.mp h
    cases Option.some.inj (hv.symm.trans (ofBus_eq_ok_iff.mp hw))
    obtain ⟨rfsimg, _, h⟩ := Except.bind_eq_ok_iff.mp h
    have hrest : ∀ k < n, vq.Free cpu.bus.ram (addr + (i + 1 + BitVec.ofNat 64 k)) := by
      intro k hk
      rw [counter_succ]
      exact hfree (k + 1) (by omega)
    obtain ⟨rfsimg', hafter⟩ := ih (by exact rfl) (by exact hrest) h
    exact ⟨rfsimg', hafter⟩

theorem copyFromDisk_ram {offset addr i : Word} {n : Nat}
    (hu : cpu.bus.ram.Contains vq.used vq.usedSize)
    (hfree : ∀ k < n, vq.Free cpu.bus.ram (addr + (i + BitVec.ofNat 64 k)))
    (h : copyFromDisk offset addr n i cpu = .ok after) :
    ∃ ram, SameUsed vq cpu.bus.ram ram ∧ after = cpu.setBus (cpu.bus.setRam ram) := by
  induction n generalizing i cpu with
  | zero =>
    cases Except.ok.inj h
    exact ⟨after.bus.ram, .refl _, rfl⟩
  | succ n ih =>
    have h0 := hfree 0 (by omega)
    have haddr : addr + (i + BitVec.ofNat 64 0) = addr + i := congrArg _ (BitVec.add_zero i)
    rw [haddr] at h0
    obtain ⟨w, _, h⟩ := Except.bind_eq_ok_iff.mp h
    obtain ⟨byte, _, h⟩ := Except.bind_eq_ok_iff.mp h
    rw [Bus.store_ram byte h0.1, Except.ok_bind] at h
    have hput : SameUsed vq cpu.bus.ram (cpu.bus.ram.put (addr + i) byte .w8) :=
      .put byte hu h0.1 h0.2
    have hrest : ∀ k < n, vq.Free (cpu.bus.ram.put (addr + i) byte .w8)
        (addr + (i + 1 + BitVec.ofNat 64 k)) := by
      intro k hk
      rw [counter_succ, hput.free]
      exact hfree (k + 1) (by omega)
    obtain ⟨ram, hsame, hafter⟩ := ih (by exact (hput.contains _ _).mpr hu) (by exact hrest) h
    exact ⟨ram, hput.trans hsame, hafter⟩

/-- The data of a request, of which the used ring sees nothing. -/
theorem copy_ram {r : Request} (hv : cpu.bus.virtio = some v)
    (hu : cpu.bus.ram.Contains vq.used vq.usedSize)
    (hfree : ∀ k < r.desc1.len.toNat, vq.Free cpu.bus.ram (r.desc1.addr + BitVec.ofNat 64 k))
    (h : r.copy cpu = .ok after) : ∃ ram rfsimg, SameUsed vq cpu.bus.ram ram ∧
      after = toBus (cpu.setBus (cpu.bus.setRam ram)) { v with rfsimg := rfsimg } := by
  have hfree' : ∀ k < r.desc1.len.toNat,
      vq.Free cpu.bus.ram (r.desc1.addr + (0 + BitVec.ofNat 64 k)) := by
    intro k hk
    have hzero : (0 : Word) + BitVec.ofNat 64 k = BitVec.ofNat 64 k := BitVec.zero_add _
    rw [hzero]
    exact hfree k hk
  unfold Request.copy at h
  split at h
  next =>
    obtain ⟨rfsimg, hafter⟩ := copyToDisk_ram hv hfree' h
    exact ⟨cpu.bus.ram, rfsimg, .refl _, hafter⟩
  next =>
    obtain ⟨ram, hsame, hafter⟩ := copyFromDisk_ram hu hfree' h
    refine ⟨ram, v.rfsimg, hsame, hafter.trans (toBus_self ?_).symm⟩
    exact hv

theorem store_setRam {ram : RamDevice} {address value : Word} {length : Width}
    (h : ram.Contains address length.bytes) :
    Bus.store (cpu.setBus (cpu.bus.setRam ram)) address value length =
      .ok (cpu.setBus (cpu.bus.setRam (ram.put address value length))) :=
  @Bus.store_ram (cpu.setBus (cpu.bus.setRam ram)) address value length h

theorem store_toBus {ram : RamDevice} {address value : Word} {length : Width}
    (h : ram.Contains address length.bytes) :
    Bus.store (toBus (cpu.setBus (cpu.bus.setRam ram)) v) address value length =
      .ok (toBus (cpu.setBus (cpu.bus.setRam (ram.put address value length))) v) :=
  @Bus.store_ram (toBus (cpu.setBus (cpu.bus.setRam ram)) v) address value length h

/-- The status byte, the entry and the index, one store each. -/
theorem answer_ram {r : Request} (hv : cpu.bus.virtio = some v) (hn : 0 < vq.num.toNat)
    (hu : cpu.bus.ram.Contains vq.used vq.usedSize) (hs : cpu.bus.ram.Contains r.desc2.addr 1) :
    r.answer vq cpu = .ok (toBus (cpu.setBus (cpu.bus.setRam
      (((cpu.bus.ram.put r.desc2.addr VirtioCfg.blkSOk .w8).put
          (vq.usedEntry (v.id.toNat % vq.num.toNat)) (r.head.setWidth 64) .w16).put
        (vq.used + 2) ((v.id + 1).setWidth 64) .w16))) { v with id := v.id + 1 }) := by
  have hslot := Nat.mod_lt v.id.toNat hn
  have hentry : cpu.bus.ram.Contains (vq.usedEntry (v.id.toNat % vq.num.toNat)) 2 := by
    rw [Virtq.usedEntry_eq]
    exact hu.part (by decide) (by unfold Virtq.usedSize; omega)
  have hidx : cpu.bus.ram.Contains (vq.used + 2) 2 :=
    hu.part (by decide) (by unfold Virtq.usedSize; omega : 2 + 2 ≤ vq.usedSize)
  have hdisk : ∀ ram, ofBus (cpu.setBus (cpu.bus.setRam ram)) = .ok v :=
    fun _ => ofBus_eq_ok_iff.mpr hv
  unfold Request.answer
  rw [Bus.store_ram _ hs, Except.ok_bind, hdisk, Except.ok_bind, queueIndex_eq _ hn, Except.ok_bind]
  change (Bus.store _ (vq.usedEntry _) _ _ >>= _) = _
  rw [store_setRam (by exact hentry), Except.ok_bind, hdisk, Except.ok_bind]
  exact store_toBus (by exact hidx)

/-- A request with its rings and buffers in place: the data are moved, the entry behind
the used index gets the head, and the index goes up. -/
theorem accessDisk_ram (hv : cpu.bus.virtio = some v) (hp : Placed v.vq cpu.bus.ram)
    (hc : ChainReady v.vq cpu.bus.ram (v.vq.head cpu.bus.ram)) (h : accessDisk cpu = .ok after) :
    ∃ ram rfsimg, SameUsed v.vq cpu.bus.ram ram ∧
      after = toBus (cpu.setBus (cpu.bus.setRam
        ((ram.put (v.vq.usedEntry (v.id.toNat % v.vq.num.toNat))
            ((v.vq.head cpu.bus.ram).setWidth 64) .w16).put
          (v.vq.used + 2) ((v.id + 1).setWidth 64) .w16)))
        { v with id := v.id + 1, rfsimg := rfsimg } := by
  rw [accessDisk_eq, ofBus_eq_ok_iff.mpr hv, Except.ok_bind, readRequest_ram hp.num hp.avail hc,
    Except.ok_bind] at h
  obtain ⟨c, hcopy, h⟩ := Except.bind_eq_ok_iff.mp h
  obtain ⟨ram, rfsimg, hsame, rfl⟩ := copy_ram hv hp.used hc.data hcopy
  have hused : ram.Contains v.vq.used v.vq.usedSize := (hsame.contains _ _).mpr hp.used
  obtain ⟨hin, hout⟩ := (hsame.free _).mpr hc.status
  have hanswer := @answer_ram (toBus (cpu.setBus (cpu.bus.setRam ram)) { v with rfsimg := rfsimg }) _
    v.vq (v.vq.request cpu.bus.ram) rfl hp.num hused hin
  cases Except.ok.inj (hanswer.symm.trans h)
  have hstatus : SameUsed v.vq ram
      (ram.put (v.vq.request cpu.bus.ram).desc2.addr VirtioCfg.blkSOk .w8) :=
    .put _ hused hin hout
  exact ⟨_, rfsimg, hsame.trans hstatus, rfl⟩

/-- The tick that takes up such a request. -/
theorem tick_ram (hv : cpu.bus.virtio = some v) (hd : v.Due) (hp : Placed v.vq cpu.bus.ram)
    (hc : ChainReady v.vq cpu.bus.ram (v.vq.head cpu.bus.ram)) (h : tick cpu = .ok after) :
    ∃ ram w, SameUsed v.vq cpu.bus.ram ram ∧ w.vq = v.vq ∧ w.id = v.id + 1 ∧
      w.queueNotify = VirtioCfg.queueNotifyReset ∧ after = toBus (cpu.setBus (cpu.bus.setRam
        ((ram.put (v.vq.usedEntry (v.id.toNat % v.vq.num.toNat))
            ((v.vq.head cpu.bus.ram).setWidth 64) .w16).put
          (v.vq.used + 2) ((v.id + 1).setWidth 64) .w16))) w := by
  rw [tick_of_due hv hd] at h
  obtain ⟨c, ha, h⟩ := Except.bind_eq_ok_iff.mp h
  obtain ⟨ram, rfsimg, hsame, rfl⟩ :=
    @accessDisk_ram (toBus cpu v.raiseIsr) c v.raiseIsr rfl hp hc ha
  cases Except.ok.inj h
  exact ⟨ram, ({ v.raiseIsr with id := v.id + 1, rfsimg := rfsimg } : VirtioBlkDevice).settle,
    hsame, rfl, rfl, rfl, rfl⟩

end VirtioBlkDevice

end Rv64gcEmu
