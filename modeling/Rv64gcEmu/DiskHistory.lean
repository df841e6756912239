import Rv64gcEmu.AlongTurn
import Rv64gcEmu.DeviceFaults
import Rv64gcEmu.DiskBounds
import Rv64gcEmu.DiskTransfer
import Rv64gcEmu.IsaRun
import Rv64gcEmu.LastWritten

open Transition

namespace Rv64gcEmu

namespace VirtioBlkDevice

variable {a b c : Cpu} {v : VirtioBlkDevice} {offset addr address i x : Word} {length : Width}
  {n : Nat}

/-- The bytes of a buffer, as the bus gives them one after the other. -/
def loadBytes (addr : Word) : Nat → Word → Cpu → HostM (List Byte × Cpu)
  | 0, _, cpu => .ok ([], cpu)
  | n + 1, i, cpu => do
    let (byte, cpu) ← Bus.load cpu (addr + i) .w8
    let (bytes, cpu) ← loadBytes addr n (i + 1) cpu
    .ok (LittleEndian.byteOf byte 0 :: bytes, cpu)

def Request.written (r : Request) (bytes : List Byte) (x : Nat) : Option Byte :=
  bytes[(BitVec.ofNat 64 x - r.offset).toNat]?

/-- What the data of a request puts into the image: that of a write its bytes, from `offset` on. -/
def Request.copied (r : Request) (cpu : Cpu) : HostM (Nat → Option Byte) :=
  if r.blkReqType = VirtioCfg.blkTOut then do
    let (bytes, _) ← loadBytes r.desc1.addr r.length 0 cpu
    .ok (r.written bytes)
  else .ok fun _ => none

/-- What a tick puts into the image. -/
def tickWrite (cpu : Cpu) : HostM (Nat → Option Byte) := do
  let v ← ofBus cpu
  if v.Due then do
    let (r, cpu) ← readRequest v (toBus cpu v.raiseIsr)
    r.copied cpu
  else .ok fun _ => none

theorem loadBytes_virtio {bytes : List Byte} (h : loadBytes addr n i a = .ok (bytes, b)) :
    b.bus.virtio = a.bus.virtio := by
  induction n generalizing i a bytes with
  | zero =>
    obtain ⟨_, rfl⟩ := Prod.mk.inj (Except.ok.inj h)
    rfl
  | succ n ih =>
    obtain ⟨⟨_, c⟩, hl, h⟩ := Except.bind_eq_ok_iff.mp h
    obtain ⟨⟨later, d⟩, hb, h⟩ := Except.bind_eq_ok_iff.mp h
    obtain ⟨_, rfl⟩ := Prod.mk.inj (Except.ok.inj h)
    exact (ih hb).trans (load_accessed hl).2

theorem loadBytes_ram (h : ∀ k < n, a.bus.ram.Contains (addr + (i + BitVec.ofNat 64 k)) 1) :
    loadBytes addr n i a =
      .ok ((List.range n).map fun k => a.bus.ram.byteAt (addr + (i + BitVec.ofNat 64 k)), a) := by
  induction n generalizing i with
  | zero => rfl
  | succ n ih =>
    have hi : addr + (i + BitVec.ofNat 64 0) = addr + i := by simp
    obtain ⟨byte, hload, hbyte⟩ := Bus.load_byte (h 0 (Nat.succ_pos n))
    rw [hi] at hload hbyte
    have hlater := @ih (i + 1) fun k hk => by
      rw [counter_succ]
      exact h (k + 1) (Nat.succ_lt_succ hk)
    simp only [counter_succ] at hlater
    unfold loadBytes
    rw [hload, Except.ok_bind]
    simp only [hlater, Except.ok_bind, hbyte]
    rw [List.range_succ_eq_map, List.map_cons, List.map_map, hi]
    rfl

theorem load_of_withImage {img : ByteVec} (hv : a.bus.virtio = some v)
    (h : Bus.load (withImage img a) address length = .ok (x, b)) :
    ∃ c, Bus.load a address length = .ok (x, c) ∧ c.bus.virtio = some v ∧ b = withImage img c := by
  have hload := load_withImage v.rfsimg h
  rw [withImage_withImage hv] at hload
  refine ⟨_, hload, (load_accessed hload).2.trans hv, ?_⟩
  exact (Prod.mk.inj (Except.ok.inj (h.symm.trans (load_withImage img hload)))).2

/-- The loop of a write loads its bytes, whatever the image, and fills the image with them. -/
theorem copyToDisk_bytes {img : ByteVec} (hv : a.bus.virtio = some v) (hn : n < 2 ^ 64)
    (h : copyToDisk offset addr n i (withImage img a) = .ok b) :
    ∃ bytes c img', loadBytes addr n i a = .ok (bytes, c) ∧ bytes.length = n ∧
      b = withImage img' c ∧ img'.size = img.size ∧
      Filled (fun k => (offset + (i + BitVec.ofNat 64 k)).toNat) n (fun k => bytes.getD k 0) img.get
        img'.get := by
  induction n generalizing i a img with
  | zero =>
    cases Except.ok.inj h
    exact ⟨[], a, img, rfl, rfl, rfl, rfl, .zero _ _ _⟩
  | succ n ih =>
    obtain ⟨⟨byte, loaded⟩, hl, h⟩ := Except.bind_eq_ok_iff.mp h
    obtain ⟨w, hw, h⟩ := Except.bind_eq_ok_iff.mp h
    obtain ⟨first, hstore, h⟩ := Except.bind_eq_ok_iff.mp h
    -- the load does not depend on the image that the earlier bytes have gone to
    obtain ⟨c, hload, hc, rfl⟩ := load_of_withImage hv hl
    obtain rfl := Option.some.inj ((withImage_virtio hc img).symm.trans (ofBus_eq_ok_iff.mp hw))
    have hlt := (ByteVec.store_eq_ok_iff.mp hstore).1
    obtain ⟨first', hstore', hsz, hval, hrest⟩ := img.store_byte byte hlt
    obtain rfl := Except.ok.inj (hstore.symm.trans hstore')
    have hfirst : toBus (withImage img c) { v with rfsimg := first } = withImage first c := by
      rw [← toBus_image hc, toBus_toBus, toBus_image hc]
    rw [hfirst] at h
    obtain ⟨bytes, d, img', hbytes, hlen, rfl, hsize, hfill⟩ := ih hc (by omega) h
    simp only [counter_succ] at hfill
    have hzero : offset + (i + BitVec.ofNat 64 0) = offset + i := by simp
    refine ⟨LittleEndian.byteOf byte 0 :: bytes, d, img', ?_, congrArg Nat.succ hlen, rfl,
      hsize.trans hsz, @Filled.succ _ _ _ _ _ _ first.get _ ?_ ?_ ?_ hfill⟩
    · unfold loadBytes
      rw [hload, Except.ok_bind]
      simp only [hbytes, Except.ok_bind]
    · rw [hzero]
      exact hval
    · intro x hx
      rw [hzero] at hx
      exact hrest x hx
    · intro k hk he
      have hi := congrArg BitVec.toNat
        ((BitVec.add_right_inj _).mp ((BitVec.add_right_inj _).mp (BitVec.eq_of_toNat_eq he)))
      rw [BitVec.toNat_ofNat, BitVec.toNat_ofNat] at hi
      omega

theorem Request.filled_written {r : Request} {bytes : List Byte} {before after : Nat → Byte}
    (h : Filled (fun k => (r.offset + BitVec.ofNat 64 k).toNat) bytes.length
      (fun k => bytes.getD k 0) before after) {x : Nat} (hx : x < 2 ^ 64) :
    after x = (r.written bytes x).getD (before x) := by
  have hcell : (r.offset + (BitVec.ofNat 64 x - r.offset)).toNat = x := by
    rw [BitVec.add_comm, BitVec.sub_add_cancel, BitVec.toNat_ofNat, Nat.mod_eq_of_lt hx]
  unfold Request.written
  by_cases hk : (BitVec.ofNat 64 x - r.offset).toNat < bytes.length
  · have hin := h.inside _ hk
    rw [BitVec.ofNat_toNat, BitVec.setWidth_eq, hcell] at hin
    rw [hin, List.getD_eq_getElem?_getD, List.getElem?_eq_getElem hk]
    rfl
  · rw [List.getElem?_eq_none (Nat.le_of_not_lt hk), Option.getD_none]
    refine h.outside x fun k hlt he => hk ?_
    have hoff : BitVec.ofNat 64 x = r.offset + BitVec.ofNat 64 k := by
      rw [he, BitVec.ofNat_toNat, BitVec.setWidth_eq]
    rw [hoff, BitVec.add_comm, BitVec.add_sub_cancel, BitVec.toNat_ofNat]
    exact Nat.lt_of_le_of_lt (Nat.mod_le _ _) hlt

def SameImage (a b : Cpu) : Prop := b.bus.virtio.map (·.rfsimg) = a.bus.virtio.map (·.rfsimg)

theorem sameImage_alongBus : AlongBus SameImage where
  same h := congrArg (fun bus : Bus => bus.virtio.map rfsimg) h
  trans h h' := h'.trans h
  load h := congrArg (Option.map rfsimg) (load_accessed h).2
  store h := (store_accessed h).2

theorem sameImage_toBus {u : VirtioBlkDevice} (hv : a.bus.virtio = some v)
    (h : u.rfsimg = v.rfsimg) : SameImage a (toBus a u) := by
  unfold SameImage
  rw [hv]
  exact congrArg some h

theorem SameImage.disk {u : VirtioBlkDevice} (h : SameImage a b) (hu : a.bus.virtio = some u) :
    ∃ w, b.bus.virtio = some w ∧ w.rfsimg = u.rfsimg := by
  unfold SameImage at h
  rw [hu] at h
  exact Option.map_eq_some_iff.mp h

theorem Request.answer_sameImage {r : Request} {vq : Virtq} (h : r.answer vq a = .ok b) :
    SameImage a b := by
  obtain ⟨c, h₁, h⟩ := Except.bind_eq_ok_iff.mp h
  obtain ⟨_, _, h⟩ := Except.bind_eq_ok_iff.mp h
  obtain ⟨_, _, h⟩ := Except.bind_eq_ok_iff.mp h
  obtain ⟨d, h₂, h⟩ := Except.bind_eq_ok_iff.mp h
  obtain ⟨w, hw, h⟩ := Except.bind_eq_ok_iff.mp h
  have hstores : SameImage a d :=
    sameImage_alongBus.trans (sameImage_alongBus.store h₁) (sameImage_alongBus.store h₂)
  have hindex : SameImage d (toBus d { w with id := w.id + 1 }) :=
    sameImage_toBus (ofBus_eq_ok_iff.mp hw) rfl
  exact sameImage_alongBus.trans (sameImage_alongBus.trans hstores hindex)
    (sameImage_alongBus.store h)

theorem copyFromDisk_sameImage (h : copyFromDisk offset addr n i a = .ok b) : SameImage a b := by
  induction n generalizing i a with
  | zero =>
    cases Except.ok.inj h
    exact sameImage_alongBus.same rfl
  | succ n ih =>
    obtain ⟨_, _, h⟩ := Except.bind_eq_ok_iff.mp h
    obtain ⟨_, _, h⟩ := Except.bind_eq_ok_iff.mp h
    obtain ⟨c, hs, h⟩ := Except.bind_eq_ok_iff.mp h
    exact sameImage_alongBus.trans (sameImage_alongBus.store hs) (ih h)

/-- The image holds what a write has put there, and what it held before. -/
structure Overwritten (img : ByteVec) (w : Nat → Option Byte) (cpu : Cpu) : Prop where
  disk : ∃ u, cpu.bus.virtio = some u ∧ u.rfsimg.size = img.size ∧
    ∀ x < 2 ^ 64, u.rfsimg.get x = (w x).getD (img.get x)

theorem Overwritten.of_same (hv : a.bus.virtio = some v) (h : SameImage a b) :
    Overwritten v.rfsimg (fun _ => none) b := by
  obtain ⟨u, hu, himg⟩ := h.disk hv
  exact ⟨u, hu, congrArg ByteVec.size himg, fun x _ => by rw [himg]; rfl⟩

theorem Overwritten.trans {img : ByteVec} {w : Nat → Option Byte} (h : Overwritten img w a)
    (hab : SameImage a b) : Overwritten img w b := by
  obtain ⟨u, hu, hsize, hget⟩ := h.disk
  obtain ⟨u', hu', himg⟩ := hab.disk hu
  exact ⟨u', hu', himg ▸ hsize, himg ▸ hget⟩

theorem Request.copy_overwritten {r : Request} (hv : a.bus.virtio = some v)
    (h : r.copy a = .ok b) : ∃ w, r.copied a = .ok w ∧ Overwritten v.rfsimg w b := by
  unfold Request.copy at h
  unfold Request.copied
  split at h
  next ht =>
    have hn : r.length < 2 ^ 64 := Nat.lt_trans r.desc1.len.isLt (by decide)
    have himage : withImage v.rfsimg a = a := by
      rw [← toBus_image hv]
      exact toBus_self hv
    rw [← himage] at h
    obtain ⟨bytes, c, img, hbytes, hlen, rfl, hsize, hfill⟩ := copyToDisk_bytes hv hn h
    have hc := (loadBytes_virtio hbytes).trans hv
    rw [if_pos ht, hbytes, Except.ok_bind]
    refine ⟨_, rfl, ⟨_, withImage_virtio hc img, hsize, fun x hx => ?_⟩⟩
    have hzero : ∀ k, (0 : Word) + BitVec.ofNat 64 k = BitVec.ofNat 64 k := fun k =>
      BitVec.zero_add _
    simp only [hzero, ← hlen] at hfill
    exact r.filled_written hfill hx
  next ht =>
    rw [if_neg ht]
    exact ⟨_, rfl, .of_same hv (copyFromDisk_sameImage h)⟩

/-- A tick changes the image by what it writes. -/
theorem tick_overwritten (hv : a.bus.virtio = some v) (h : tick a = .ok b) :
    ∃ w, tickWrite a = .ok w ∧ Overwritten v.rfsimg w b := by
  unfold tickWrite
  rw [ofBus_eq_ok_iff.mpr hv, Except.ok_bind]
  by_cases hd : v.Due
  · rw [tick_of_due hv hd, accessDisk_eq, ofBus_toBus, Except.ok_bind] at h
    obtain ⟨b', h, hsettle⟩ := Except.bind_eq_ok_iff.mp h
    obtain ⟨u, hu, hsettle⟩ := Except.bind_eq_ok_iff.mp hsettle
    obtain ⟨⟨r, c⟩, hr, h⟩ := Except.bind_eq_ok_iff.mp h
    obtain ⟨d, hcopy, hanswer⟩ := Except.bind_eq_ok_iff.mp h
    have hc : c.bus.virtio = some v.raiseIsr := (readRequest_accessed hr).2
    have hrest : SameImage d b := by
      rw [← Except.ok.inj hsettle]
      exact sameImage_alongBus.trans (Request.answer_sameImage hanswer)
        (sameImage_toBus (ofBus_eq_ok_iff.mp hu) rfl)
    have hr' : readRequest v (toBus a v.raiseIsr) = .ok (r, c) := hr
    rw [if_pos hd, hr', Except.ok_bind]
    obtain ⟨w, hw, hover⟩ := Request.copy_overwritten hc hcopy
    exact ⟨w, hw, hover.trans hrest⟩
  · rw [tick_of_not_due hv hd] at h
    rw [if_neg hd]
    cases Except.ok.inj h
    exact ⟨_, rfl, .of_same hv (sameImage_toBus hv rfl)⟩

/-- A write that is in place puts the bytes of its buffer into its sector. -/
theorem tickWrite_posted (hv : a.bus.virtio = some v) (hd : v.Due) (hp : v.vq.Posted a.bus.ram)
    (ht : (v.vq.request a.bus.ram).blkReqType = VirtioCfg.blkTOut)
    (hin : (v.vq.request a.bus.ram).Within v.rfsimg) : ∃ w, tickWrite a = .ok w ∧
      ∀ k < (v.vq.request a.bus.ram).length, w ((v.vq.request a.bus.ram).sectorStart + k) =
        some (a.bus.ram.byteAt ((v.vq.request a.bus.ram).buffer k)) := by
  have hread : readRequest v (toBus a v.raiseIsr) =
      .ok (v.vq.request a.bus.ram, toBus a v.raiseIsr) := readRequest_ram hp.num hp.avail hp.chain
  have hwrite : tickWrite a = (v.vq.request a.bus.ram).copied (toBus a v.raiseIsr) := by
    unfold tickWrite
    simp only [ofBus_eq_ok_iff.mpr hv, Except.ok_bind, if_pos hd, hread]
  have hzero : ∀ k, (0 : Word) + BitVec.ofNat 64 k = BitVec.ofNat 64 k := fun k =>
    BitVec.zero_add _
  have hbytes := @loadBytes_ram (toBus a v.raiseIsr) (v.vq.request a.bus.ram).desc1.addr 0
    (v.vq.request a.bus.ram).length fun k hk => by
      rw [hzero]
      exact (hp.chain.data k hk).1
  rw [hwrite]
  unfold Request.copied
  rw [if_pos ht, hbytes, Except.ok_bind]
  refine ⟨_, rfl, fun k hk => ?_⟩
  have hindex : BitVec.ofNat 64 ((v.vq.request a.bus.ram).sectorStart + k) -
      (v.vq.request a.bus.ram).offset = BitVec.ofNat 64 k := by
    rw [← sectorStart_eq hin, BitVec.ofNat_add, BitVec.ofNat_toNat, BitVec.setWidth_eq,
      BitVec.add_comm, BitVec.add_sub_cancel]
  have hlt : k < 2 ^ 64 := Nat.lt_trans hk (Nat.lt_trans (BitVec.isLt _) (by decide))
  unfold Request.written
  rw [hindex, BitVec.toNat_ofNat, Nat.mod_eq_of_lt hlt, List.getElem?_map, List.getElem?_range hk,
    Option.map_some, hzero]
  rfl

end VirtioBlkDevice

namespace Interrupt

variable {cpu c : Cpu}

theorem deviceIrq_virtio {irqn : Option Word} (h : deviceIrq cpu = .ok (irqn, c)) :
    c.bus.virtio = cpu.bus.virtio := by
  unfold deviceIrq at h
  split at h
  next =>
    obtain ⟨_, rfl⟩ := Prod.mk.inj (Except.ok.inj h)
    rfl
  next =>
    split at h
    next =>
      obtain ⟨_, rfl⟩ := Prod.mk.inj (Except.ok.inj h)
      rfl
    next => cases h

theorem updatePending_virtio (h : updatePending cpu = .ok c) : c.bus.virtio = cpu.bus.virtio := by
  unfold updatePending at h
  split at h
  next =>
    cases Except.ok.inj h
    rfl
  next =>
    obtain ⟨⟨irqn, b⟩, hd, h⟩ := Except.bind_eq_ok_iff.mp h
    have hb := deviceIrq_virtio hd
    cases irqn with
    | some v =>
      obtain ⟨plic, _, h⟩ := Except.bind_eq_ok_iff.mp h
      cases Except.ok.inj h
      exact hb
    | none =>
      cases Except.ok.inj h
      exact hb

theorem getPendingInterrupt_virtio {i : Option Interrupt}
    (h : getPendingInterrupt cpu = .ok (i, c)) : c.bus.virtio = cpu.bus.virtio := by
  unfold getPendingInterrupt at h
  split at h
  next =>
    obtain ⟨_, rfl⟩ := Prod.mk.inj (Except.ok.inj h)
    rfl
  next =>
    obtain ⟨b, hu, h⟩ := Except.bind_eq_ok_iff.mp h
    have hb := updatePending_virtio hu
    simp only at h
    split at h
    next =>
      obtain ⟨_, rfl⟩ := Prod.mk.inj (Except.ok.inj h)
      exact hb
    next =>
      obtain ⟨_, rfl⟩ := Prod.mk.inj (Except.ok.inj h)
      exact hb

end Interrupt

namespace Cpu

open VirtioBlkDevice (Overwritten Request SameImage)

variable {before after c : Cpu} {p : Phases} {u : VirtioBlkDevice} {r : Request} {env : Env}

theorem atDisk_bus (h : before.atDisk env = .ok c) :
    c.bus.ram = before.bus.ram ∧ c.bus.virtio = before.bus.virtio := by
  unfold atDisk tickBeforeDisk at h
  split at h
  next => cases h
  next =>
    obtain ⟨g, _, h⟩ := Except.bind_eq_ok_iff.mp h
    cases Except.ok.inj h
    exact ⟨rfl, rfl⟩

/-- A turn of a machine with a disk begins with a tick of the disk. -/
theorem Turn.tick (h : Turn before p after) (ht : before.host.cpuTest = false)
    (hu : before.bus.virtio = some u) : ∃ c d, before.atDisk p.env = .ok c ∧
      c.bus.virtio = some u ∧ VirtioBlkDevice.tick c = .ok d ∧
      Interrupt.getPendingInterrupt d = .ok (p.pending, p.polled) := by
  have hpoll := h.poll
  rw [poll_eq, ticked_eq ht] at hpoll
  obtain ⟨d, hd, hpending⟩ := Except.bind_eq_ok_iff.mp hpoll
  obtain ⟨c, hc, hd⟩ := Except.bind_eq_ok_iff.mp hd
  have hv : c.bus.virtio = some u := (atDisk_bus hc).2.trans hu
  rw [if_pos (by rw [hv]; rfl)] at hd
  exact ⟨c, d, hc, hv, hd, hpending⟩

/-- What the disk puts into its image in a turn. -/
def diskWrite (t : Step Cpu Phases) : Nat → Option Byte :=
  match t.before.atDisk t.label.env >>= VirtioBlkDevice.tickWrite with
  | .ok w => w
  | .error _ => fun _ => none

/-- Nothing else that happens in a turn changes the image. -/
theorem Turn.overwritten (h : Turn before p after) (ht : before.host.cpuTest = false)
    (hu : before.bus.virtio = some u) :
    Overwritten u.rfsimg (diskWrite ⟨before, p, after⟩) after := by
  obtain ⟨c, d, hc, hv, htick, hpending⟩ := h.tick ht hu
  obtain ⟨w, hw, hover⟩ := VirtioBlkDevice.tick_overwritten hv htick
  have hwrite : diskWrite ⟨before, p, after⟩ = w := by
    unfold diskWrite
    simp only [hc, Except.ok_bind, hw]
  have hpolled : SameImage d p.polled :=
    congrArg (Option.map VirtioBlkDevice.rfsimg) (Interrupt.getPendingInterrupt_virtio hpending)
  rw [hwrite]
  exact hover.trans (VirtioBlkDevice.sameImage_alongBus.trans hpolled
    (VirtioBlkDevice.sameImage_alongBus.turn h))

/-- The disk is due, and finds a request in place in the RAM and in its image. -/
structure TakesUp (cpu : Cpu) (u : VirtioBlkDevice) (r : Request) : Prop where
  disk : cpu.bus.virtio = some u
  due : u.Due
  posted : u.vq.Posted cpu.bus.ram
  request : u.vq.request cpu.bus.ram = r
  within : r.Within u.rfsimg

theorem Turn.delivered (h : Turn before p after) (ht : before.host.cpuTest = false)
    (hr : TakesUp before u r) (hread : r.blkReqType ≠ VirtioCfg.blkTOut) :
    r.Delivered u.vq (fun k => u.rfsimg.get (r.sectorStart + k)) before.bus.ram
      p.polled.bus.ram := by
  obtain ⟨c, d, hc, hv, htick, hpending⟩ := h.tick ht hr.disk
  obtain ⟨hram, _⟩ := atDisk_bus hc
  have hposted := hr.posted
  obtain rfl := hr.request
  rw [← hram] at hposted hread ⊢
  have hwithin := hr.within
  rw [← hram] at hwithin
  obtain ⟨after, w, hacc, hw, _, hdelivered⟩ :=
    @VirtioBlkDevice.accessDisk_read (VirtioBlkDevice.toBus c u.raiseIsr) u.raiseIsr rfl hposted hread
      hwithin
  rw [VirtioBlkDevice.tick_of_due hv hr.due, hacc, Except.ok_bind,
    VirtioBlkDevice.ofBus_eq_ok_iff.mpr hw, Except.ok_bind] at htick
  rw [(getPendingInterrupt_ticked hpending).ram, ← Except.ok.inj htick]
  exact hdelivered

/-- A write puts the bytes of its buffer into its sector. -/
theorem TakesUp.diskWrite (hr : TakesUp before u r) (hwrite : r.blkReqType = VirtioCfg.blkTOut)
    (hc : before.atDisk p.env = .ok c) {k : Nat} (hk : k < r.length) :
    Cpu.diskWrite ⟨before, p, after⟩ (r.sectorStart + k) =
      some (before.bus.ram.byteAt (r.buffer k)) := by
  obtain ⟨hram, hdisk⟩ := atDisk_bus hc
  have hposted := hr.posted
  have hwithin := hr.within
  obtain rfl := hr.request
  rw [← hram] at hposted hwithin hwrite hk ⊢
  obtain ⟨w, hw, hbytes⟩ :=
    VirtioBlkDevice.tickWrite_posted (hdisk.trans hr.disk) hr.due hposted hwrite hwithin
  unfold Cpu.diskWrite
  simp only [hc, Except.ok_bind, hw]
  exact hbytes k hk

/-- Outside of the tests, with a disk whose image is so long. -/
structure HasDisk (size : Nat) (cpu : Cpu) : Prop where
  ticks : cpu.host.cpuTest = false
  disk : ∃ u, cpu.bus.virtio = some u ∧ u.rfsimg.size = size

/-- The content of the image of a disk, if there is one. -/
def imageAt (cpu : Cpu) (x : Nat) : Byte := (cpu.bus.virtio.map fun u => u.rfsimg.get x).getD 0

variable {start cpu : Cpu} {turns : List (Step Cpu Phases)} {v : VirtioBlkDevice}

theorem Turns.image (ht : start.host.cpuTest = false) (hv : start.bus.virtio = some v)
    (run : Turns start turns cpu) : ∃ u, cpu.bus.virtio = some u ∧ u.rfsimg.size = v.rfsimg.size ∧
      ∀ x < 2 ^ 64, u.rfsimg.get x = lastWritten v.rfsimg.get (turns.map diskWrite) x := by
  have hkeep : ∀ a p b, Turn a p b → HasDisk v.rfsimg.size a → HasDisk v.rfsimg.size b := by
    rintro a p b h ⟨ht, u, hu, hsize⟩
    obtain ⟨w, hw, hsize', _⟩ := (h.overwritten ht hu).disk
    exact ⟨(congrArg Host.cpuTest h.host).trans ht, w, hw, hsize'.trans hsize⟩
  have hstep : ∀ a p b, Turn a p b → HasDisk v.rfsimg.size a → ∀ x, x < 2 ^ 64 →
      imageAt b x = (diskWrite ⟨a, p, b⟩ x).getD (imageAt a x) := by
    rintro a p b h ⟨ht, u, hu, _⟩ x hx
    obtain ⟨w, hw, _, hget⟩ := (h.overwritten ht hu).disk
    unfold imageAt
    rw [hw, hu]
    exact hget x hx
  obtain ⟨_, u, hu, hsize⟩ := run.always hkeep ⟨ht, v, hv, rfl⟩
  refine ⟨u, hu, hsize, fun x hx => ?_⟩
  have hlast := run.eq_lastWritten hkeep hstep ⟨ht, v, hv, rfl⟩ hx
  have hstart : imageAt start = v.rfsimg.get := by
    unfold imageAt
    rw [hv]
    rfl
  rw [hstart] at hlast
  rw [← hlast]
  unfold imageAt
  rw [hu]
  rfl

/-- Over every run the disk is a memory: each byte of its image is the last one that a write request
has put there, and a read request delivers those bytes. -/
theorem disk_remembers (ht : start.host.cpuTest = false) (hv : start.bus.virtio = some v)
    (run : Turns start turns cpu) :
    (∃ u, cpu.bus.virtio = some u ∧ u.rfsimg.size = v.rfsimg.size ∧
      ∀ x < 2 ^ 64, u.rfsimg.get x = lastWritten v.rfsimg.get (turns.map diskWrite) x) ∧
    (∀ t ∈ turns, ∀ u r, TakesUp t.before u r → r.blkReqType = VirtioCfg.blkTOut →
      ∀ k < r.length, diskWrite t (r.sectorStart + k) = some (t.before.bus.ram.byteAt (r.buffer k))) ∧
    ∀ u r p after, TakesUp cpu u r → r.blkReqType ≠ VirtioCfg.blkTOut → Turn cpu p after →
      r.Delivered u.vq
        (fun k => lastWritten v.rfsimg.get (turns.map diskWrite) (r.sectorStart + k)) cpu.bus.ram
        p.polled.bus.ram := by
  have himage := Turns.image ht hv run
  refine ⟨himage, fun t hmem u r hr hwrite k hk => ?_, fun u r p after hr hread h => ?_⟩
  · obtain ⟨later, earlier, rfl⟩ := List.append_of_mem hmem
    obtain ⟨hrun, hturn⟩ := run.of_suffix ⟨later, rfl⟩
    obtain ⟨c, _, hc, _⟩ := hturn.tick ((congrArg Host.cpuTest (Turns.host hrun)).trans ht) hr.disk
    exact hr.diskWrite hwrite hc hk
  · obtain ⟨u', hu, _, hget⟩ := himage
    obtain rfl := Option.some.inj (hu.symm.trans hr.disk)
    have hdelivered := h.delivered ((congrArg Host.cpuTest run.host).trans ht) hr hread
    refine ⟨fun k hk => ?_, hdelivered.rest⟩
    rw [hdelivered.buffer k hk]
    have hsector := hr.within.sector
    have hsize := hr.within.size
    exact hget _ (by omega)

/-- A machine whose disk is due for the write of one byte. -/
def writingMachine : Cpu :=
  init VirtioBlkDevice.writeMachine.bus.ram (some (.nativeCli ⟨Uart.init, 0⟩))
    (some { QueueState.smallDisk with queueNotify := 0, clock := 500 }) false ⟨true, false, default⟩

theorem disk_remembers_byte : ∃ turns cpu u, Turns writingMachine turns cpu ∧ turns.length = 1 ∧
    cpu.bus.virtio = some u ∧ u.rfsimg.get 0 = 0x5a := by
  have run := @Turns.insn writingMachine writingMachine [] ⟨0, .idle⟩ none _ _ _ ⟨0x80000200⟩ _ .start
    rfl ⟨rfl, ⟨_, rfl, rfl⟩, rfl⟩ (by decide) rfl
  obtain ⟨⟨u, hu, _, hget⟩, hwrite, _⟩ := disk_remembers rfl rfl run
  have hbyte := hwrite _ (List.mem_singleton_self _) _ _
    ⟨rfl, by decide, VirtioBlkDevice.write_posted, rfl, ⟨by decide, by decide⟩⟩ (by decide) 0
    (by decide)
  refine ⟨_, _, u, run, rfl, hu, (hget 0 (by decide)).trans ?_⟩
  exact (congrArg (fun w => Option.getD w 0) hbyte).trans (by decide)

end Cpu

end Rv64gcEmu
