import Rv64gcEmu.Filled
import Rv64gcEmu.VirtioQueue

namespace Rv64gcEmu

open Virtq (ChainReady)

namespace ByteVec

theorem load_byte {v : ByteVec} {off : Nat} (h : off < v.size) :
    ∃ byte, v.load off .w8 = .ok byte ∧ LittleEndian.byteOf byte 0 = v.get off :=
  ⟨_, ByteVec.load_eq_ok_iff.mpr ⟨h, rfl⟩, LittleEndian.byteOf_read _ _ (by decide) (by decide)⟩

theorem store_byte (v : ByteVec) {off : Nat} (byte : Word) (h : off < v.size) :
    ∃ v', v.store off byte .w8 = .ok v' ∧ v'.size = v.size ∧
      v'.get off = LittleEndian.byteOf byte 0 ∧ ∀ i, i ≠ off → v'.get i = v.get i := by
  refine ⟨_, ByteVec.store_eq_ok_iff.mpr ⟨h, rfl⟩, rfl, ?_, fun i hi => ?_⟩
  · refine (LittleEndian.write_of_mem _ _ ⟨le_refl _, Nat.lt_succ_self _⟩).trans ?_
    rw [Nat.sub_self]
  · refine LittleEndian.write_of_not_mem _ _ fun ⟨hle, hlt⟩ => hi ?_
    exact Nat.le_antisymm (Nat.lt_succ_iff.mp hlt) hle

end ByteVec

namespace VirtioBlkDevice

namespace Request

def length (r : Request) : Nat := r.desc1.len.toNat

/-- The bytes of the data buffer. -/
def buffer (r : Request) (k : Nat) : Word := r.desc1.addr + BitVec.ofNat 64 k

def sectorStart (r : Request) : Nat := r.blkReqSector.toNat * 512

/-- The request stays in the image, whose size is a `size_t`. -/
structure Within (r : Request) (img : ByteVec) : Prop where
  sector : r.sectorStart + r.length ≤ img.size
  size : img.size < 2 ^ 64

/-- The image has got the bytes of the buffer, and no other byte of it has changed. -/
structure Written (r : Request) (ram : RamDevice) (before after : ByteVec) : Prop where
  size : after.size = before.size
  inside : ∀ k < r.length, after.get (r.sectorStart + k) = ram.byteAt (r.buffer k)
  outside : ∀ i, ¬(r.sectorStart ≤ i ∧ i < r.sectorStart + r.length) → after.get i = before.get i

end Request

end VirtioBlkDevice

namespace Virtq

def InUsed (vq : Virtq) (x : Word) : Prop :=
  vq.used.toNat ≤ x.toNat ∧ x.toNat < vq.used.toNat + vq.usedSize

/-- The next request is in place in the RAM. Its buffer and its status byte are apart from
the used ring and from each other. -/
structure Posted (vq : Virtq) (ram : RamDevice) : Prop where
  num : 0 < vq.num.toNat
  avail : ram.Contains vq.avail vq.availSize
  used : ram.Contains vq.used vq.usedSize
  chain : ChainReady vq ram (vq.head ram)
  statusApart : ∀ k < (vq.request ram).length, (vq.request ram).buffer k ≠ (vq.request ram).desc2.addr

theorem Free.not_inUsed {vq : Virtq} {ram : RamDevice} {x : Word} (h : vq.Free ram x) :
    ¬vq.InUsed x := by
  have := h.2
  unfold InUsed
  omega

end Virtq

namespace VirtioBlkDevice

/-- The buffer has got the bytes, and besides it only the status byte and the used ring
have changed. -/
structure Request.Delivered (r : Request) (vq : Virtq) (bytes : Nat → Byte)
    (before after : RamDevice) : Prop where
  buffer : ∀ k < r.length, after.byteAt (r.buffer k) = bytes k
  rest : ∀ x, (∀ k < r.length, x ≠ r.buffer k) → x ≠ r.desc2.addr → ¬vq.InUsed x →
    after.byteAt x = before.byteAt x

variable {cpu : Cpu} {v : VirtioBlkDevice}

theorem sectorStart_eq {r : Request} {img : ByteVec} (h : r.Within img) :
    r.offset.toNat = r.sectorStart := by
  have hin := h.sector
  have hsize := h.size
  have h512 : VirtioCfg.sectorSize.toNat = 512 := by decide
  unfold Request.sectorStart at hin
  unfold Request.offset Request.sectorStart
  rw [BitVec.toNat_mul, h512]
  exact Nat.mod_eq_of_lt (by omega)

theorem ofNat_succ (i : Nat) : BitVec.ofNat 64 i + 1 = BitVec.ofNat 64 (i + 1) :=
  (BitVec.ofNat_add i 1).symm

theorem add_ofNat_toNat {offset : Word} {i : Nat} (h : offset.toNat + i < 2 ^ 64) :
    (offset + BitVec.ofNat 64 i).toNat = offset.toNat + i := by
  rw [BitVec.toNat_add, BitVec.toNat_ofNat]
  omega

/-- The loop of a write, from byte `i` on. -/
theorem copyToDisk_filled {offset addr : Word} {n i : Nat} (hv : cpu.bus.virtio = some v)
    (hram : ∀ k < n, cpu.bus.ram.Contains (addr + BitVec.ofNat 64 (i + k)) 1)
    (hin : offset.toNat + (i + n) ≤ v.rfsimg.size) (hsize : v.rfsimg.size < 2 ^ 64) :
    ∃ img : ByteVec, copyToDisk offset addr n (BitVec.ofNat 64 i) cpu =
        .ok (toBus cpu { v with rfsimg := img }) ∧ img.size = v.rfsimg.size ∧
      Filled (fun k => offset.toNat + (i + k)) n
        (fun k => cpu.bus.ram.byteAt (addr + BitVec.ofNat 64 (i + k))) v.rfsimg.get img.get := by
  induction n generalizing i cpu v with
  | zero => exact ⟨v.rfsimg, congrArg Except.ok (toBus_self hv).symm, rfl, .zero _ _ _⟩
  | succ n ih =>
    have hshift : ∀ k, i + 1 + k = i + (k + 1) := fun k => by omega
    obtain ⟨byte, hload, hbyte⟩ := Bus.load_byte (hram 0 (by omega))
    obtain ⟨first, hstore, hsz, hval, hrest⟩ :=
      v.rfsimg.store_byte byte (by omega : offset.toNat + i < v.rfsimg.size)
    rw [← add_ofNat_toNat (by omega)] at hstore
    have hlater : ∀ k < n, cpu.bus.ram.Contains (addr + BitVec.ofNat 64 (i + 1 + k)) 1 := by
      intro k hk
      rw [hshift]
      exact hram (k + 1) (by omega)
    obtain ⟨img, hcopy, hsize', hfill⟩ := @ih (toBus cpu { v with rfsimg := first })
      { v with rfsimg := first } (i + 1) rfl hlater (by change _ ≤ first.size; omega)
      (by change first.size < _; omega)
    simp only [hshift] at hfill
    refine ⟨img, ?_, hsize'.trans hsz, .succ (hval.trans hbyte) hrest (fun k _ => by omega) hfill⟩
    have hload' : Bus.load cpu (addr + BitVec.ofNat 64 i) .w8 = .ok (byte, cpu) := hload
    unfold copyToDisk
    simp only [hload', Except.ok_bind, ofBus_eq_ok_iff.mpr hv, hstore, ofNat_succ]
    exact hcopy

/-- The loop of a read. -/
theorem copyFromDisk_filled {offset addr : Word} {n i : Nat} (hv : cpu.bus.virtio = some v)
    (hram : ∀ k < n, cpu.bus.ram.Contains (addr + BitVec.ofNat 64 (i + k)) 1)
    (hin : offset.toNat + (i + n) ≤ v.rfsimg.size) (hsize : v.rfsimg.size < 2 ^ 64) :
    ∃ ram : RamDevice, copyFromDisk offset addr n (BitVec.ofNat 64 i) cpu =
        .ok (cpu.setBus (cpu.bus.setRam ram)) ∧
      (∀ x m, ram.Contains x m ↔ cpu.bus.ram.Contains x m) ∧
      Filled (fun k => addr + BitVec.ofNat 64 (i + k)) n
        (fun k => v.rfsimg.get (offset.toNat + (i + k))) cpu.bus.ram.byteAt ram.byteAt := by
  induction n generalizing i cpu with
  | zero => exact ⟨cpu.bus.ram, rfl, fun _ _ => Iff.rfl, .zero _ _ _⟩
  | succ n ih =>
    have hshift : ∀ k, i + 1 + k = i + (k + 1) := fun k => by omega
    have hoff : (offset + BitVec.ofNat 64 i).toNat = offset.toNat + i := add_ofNat_toNat (by omega)
    obtain ⟨byte, hload, hbyte⟩ :=
      v.rfsimg.load_byte (by omega : (offset + BitVec.ofNat 64 i).toNat < v.rfsimg.size)
    rw [hoff] at hbyte
    have hstore : Bus.store cpu (addr + BitVec.ofNat 64 i) byte .w8 = .ok (cpu.setBus
        (cpu.bus.setRam (cpu.bus.ram.put (addr + BitVec.ofNat 64 i) byte .w8))) :=
      Bus.store_ram _ (hram 0 (by omega))
    have hlater : ∀ k < n, (cpu.bus.ram.put (addr + BitVec.ofNat 64 i) byte .w8).Contains
        (addr + BitVec.ofNat 64 (i + 1 + k)) 1 := by
      intro k hk
      rw [hshift]
      exact hram (k + 1) (by omega)
    obtain ⟨ram, hcopy, hcontains, hfill⟩ := @ih (cpu.setBus
      (cpu.bus.setRam (cpu.bus.ram.put (addr + BitVec.ofNat 64 i) byte .w8))) (i + 1) hv hlater
      (by omega)
    simp only [hshift] at hfill
    refine ⟨ram, ?_, hcontains, .succ ?_ ?_ ?_ hfill⟩
    · unfold copyFromDisk
      simp only [ofBus_eq_ok_iff.mpr hv, Except.ok_bind, hload, hstore, ofNat_succ]
      exact hcopy
    · exact (RamDevice.byteAt_put_self byte).trans hbyte
    · intro x hx
      exact RamDevice.byteAt_put_byte byte hx
    · intro k hk h
      have hi := congrArg BitVec.toNat ((BitVec.add_right_inj _).mp h)
      rw [BitVec.toNat_ofNat, BitVec.toNat_ofNat] at hi
      omega

/-- The three stores of the answer touch the status byte and the used ring. -/
theorem byteAt_answered {r : Request} {vq : Virtq} {ram : RamDevice} {id : BitVec 16} {x : Word}
    (hn : 0 < vq.num.toNat) (hu : ram.Contains vq.used vq.usedSize) (hs : x ≠ r.desc2.addr)
    (hx : ¬vq.InUsed x) :
    (((ram.put r.desc2.addr VirtioCfg.blkSOk .w8).put
        (vq.usedEntry (id.toNat % vq.num.toNat)) (r.head.setWidth 64) .w16).put
      (vq.used + 2) ((id + 1).setWidth 64) .w16).byteAt x = ram.byteAt x := by
  have hslot := Nat.mod_lt id.toNat hn
  have hidx : 2 + Width.w16.bytes ≤ vq.usedSize := by
    change 2 + 2 ≤ vq.usedSize
    unfold Virtq.usedSize
    omega
  have hentry : 4 + 8 * (id.toNat % vq.num.toNat) + Width.w16.bytes ≤ vq.usedSize := by
    change _ + 2 ≤ vq.usedSize
    unfold Virtq.usedSize
    omega
  rw [Virtq.usedEntry_eq]
  refine (RamDevice.byteAt_put_part (k := 2) _ (by exact hu) hidx hx).trans ?_
  refine (RamDevice.byteAt_put_part _ (by exact hu) hentry hx).trans ?_
  exact RamDevice.byteAt_put_byte _ hs

/-- The data of a write. -/
theorem copy_write {r : Request} (hv : cpu.bus.virtio = some v)
    (ht : r.blkReqType = VirtioCfg.blkTOut) (hin : r.Within v.rfsimg)
    (hdata : ∀ k < r.length, cpu.bus.ram.Contains (r.buffer k) 1) :
    ∃ img, r.copy cpu = .ok (toBus cpu { v with rfsimg := img }) ∧
      r.Written cpu.bus.ram v.rfsimg img := by
  have hstart := sectorStart_eq hin
  have hbytes : ∀ k < r.length, cpu.bus.ram.Contains (r.desc1.addr + BitVec.ofNat 64 (0 + k)) 1 := by
    intro k hk
    rw [Nat.zero_add]
    exact hdata k hk
  obtain ⟨img, hcopy, hsize, hfill⟩ := @copyToDisk_filled cpu v r.offset r.desc1.addr r.length 0 hv
    hbytes (by rw [hstart, Nat.zero_add]; exact hin.sector) hin.size
  simp only [Nat.zero_add, hstart] at hfill
  refine ⟨img, (if_pos ht).trans hcopy, hsize, hfill.inside, fun i hi => ?_⟩
  refine hfill.outside i fun k hk he => hi ?_
  subst he
  exact ⟨Nat.le_add_right _ _, Nat.add_lt_add_left hk _⟩

/-- The data of a read. -/
theorem copy_read {r : Request} (hv : cpu.bus.virtio = some v)
    (ht : r.blkReqType ≠ VirtioCfg.blkTOut) (hin : r.Within v.rfsimg)
    (hdata : ∀ k < r.length, cpu.bus.ram.Contains (r.buffer k) 1) :
    ∃ ram, r.copy cpu = .ok (cpu.setBus (cpu.bus.setRam ram)) ∧
      (∀ x m, ram.Contains x m ↔ cpu.bus.ram.Contains x m) ∧
      Filled r.buffer r.length (fun k => v.rfsimg.get (r.sectorStart + k)) cpu.bus.ram.byteAt
        ram.byteAt := by
  have hstart := sectorStart_eq hin
  have hbytes : ∀ k < r.length, cpu.bus.ram.Contains (r.desc1.addr + BitVec.ofNat 64 (0 + k)) 1 := by
    intro k hk
    rw [Nat.zero_add]
    exact hdata k hk
  obtain ⟨ram, hcopy, hcontains, hfill⟩ := @copyFromDisk_filled cpu v r.offset r.desc1.addr r.length 0
    hv hbytes (by rw [hstart, Nat.zero_add]; exact hin.sector) hin.size
  simp only [Nat.zero_add, hstart] at hfill
  exact ⟨ram, (if_neg ht).trans hcopy, hcontains, hfill⟩

theorem accessDisk_posted {c : Cpu} (hv : cpu.bus.virtio = some v) (hp : v.vq.Posted cpu.bus.ram)
    (hcopy : (v.vq.request cpu.bus.ram).copy cpu = .ok c) :
    accessDisk cpu = (v.vq.request cpu.bus.ram).answer v.vq c := by
  rw [accessDisk_eq, ofBus_eq_ok_iff.mpr hv, Except.ok_bind,
    readRequest_ram hp.num hp.avail hp.chain, Except.ok_bind, hcopy, Except.ok_bind]

theorem accessDisk_write (hv : cpu.bus.virtio = some v) (hp : v.vq.Posted cpu.bus.ram)
    (ht : (v.vq.request cpu.bus.ram).blkReqType = VirtioCfg.blkTOut)
    (hin : (v.vq.request cpu.bus.ram).Within v.rfsimg) :
    ∃ after u, accessDisk cpu = .ok after ∧ after.bus.virtio = some u ∧
      (v.vq.request cpu.bus.ram).Written cpu.bus.ram v.rfsimg u.rfsimg := by
  obtain ⟨img, hcopy, hwritten⟩ := copy_write hv ht hin fun k hk => (hp.chain.data k hk).1
  have hanswer := @answer_ram (toBus cpu { v with rfsimg := img }) _ v.vq (v.vq.request cpu.bus.ram)
    rfl hp.num hp.used hp.chain.status.1
  exact ⟨_, _, (accessDisk_posted hv hp hcopy).trans hanswer, rfl, hwritten⟩

/-- Every request but a write reads. -/
theorem accessDisk_read (hv : cpu.bus.virtio = some v) (hp : v.vq.Posted cpu.bus.ram)
    (ht : (v.vq.request cpu.bus.ram).blkReqType ≠ VirtioCfg.blkTOut)
    (hin : (v.vq.request cpu.bus.ram).Within v.rfsimg) :
    ∃ after u, accessDisk cpu = .ok after ∧ after.bus.virtio = some u ∧ u.rfsimg = v.rfsimg ∧
      (v.vq.request cpu.bus.ram).Delivered v.vq
        (fun k => v.rfsimg.get ((v.vq.request cpu.bus.ram).sectorStart + k)) cpu.bus.ram
        after.bus.ram := by
  obtain ⟨ram, hcopy, hcontains, hfill⟩ := copy_read hv ht hin fun k hk => (hp.chain.data k hk).1
  have hused : ram.Contains v.vq.used v.vq.usedSize := (hcontains _ _).mpr hp.used
  have hanswer := @answer_ram (cpu.setBus (cpu.bus.setRam ram)) v v.vq (v.vq.request cpu.bus.ram) hv
    hp.num hused ((hcontains _ _).mpr hp.chain.status.1)
  refine ⟨_, _, (accessDisk_posted hv hp hcopy).trans hanswer, rfl, rfl, fun k hk => ?_,
    fun x hx hs hu => ?_⟩
  · have hfree : ¬v.vq.InUsed _ := (hp.chain.data k hk).not_inUsed
    exact (byteAt_answered hp.num hused (hp.statusApart k hk) hfree).trans (hfill.inside k hk)
  · exact (byteAt_answered hp.num hused hs hu).trans (hfill.outside x hx)

/-- The bytes that one request writes to the image come out at every request that reads
the same part of it, from wherever its queue, its header and its buffer are. -/
theorem write_read {a : Cpu} (hv : a.bus.virtio = some v) (hp : v.vq.Posted a.bus.ram)
    (ht : (v.vq.request a.bus.ram).blkReqType = VirtioCfg.blkTOut)
    (hin : (v.vq.request a.bus.ram).Within v.rfsimg) :
    ∃ b u, accessDisk a = .ok b ∧ b.bus.virtio = some u ∧
      (v.vq.request a.bus.ram).Written a.bus.ram v.rfsimg u.rfsimg ∧
        ∀ (c : Cpu) (w : VirtioBlkDevice), c.bus.virtio = some w → w.rfsimg = u.rfsimg →
          w.vq.Posted c.bus.ram → (w.vq.request c.bus.ram).blkReqType ≠ VirtioCfg.blkTOut →
          (w.vq.request c.bus.ram).sectorStart = (v.vq.request a.bus.ram).sectorStart →
          (w.vq.request c.bus.ram).length = (v.vq.request a.bus.ram).length →
            ∃ d x, accessDisk c = .ok d ∧ d.bus.virtio = some x ∧ x.rfsimg = w.rfsimg ∧
              (w.vq.request c.bus.ram).Delivered w.vq
                (fun k => a.bus.ram.byteAt ((v.vq.request a.bus.ram).buffer k)) c.bus.ram
                d.bus.ram := by
  obtain ⟨b, u, hb, hu, hwritten⟩ := accessDisk_write hv hp ht hin
  refine ⟨b, u, hb, hu, hwritten, fun c w hw himg hp' ht' hstart hlen => ?_⟩
  have hin' : (w.vq.request c.bus.ram).Within w.rfsimg := by
    refine ⟨?_, ?_⟩
    · rw [hstart, hlen, himg, hwritten.size]
      exact hin.sector
    · rw [himg, hwritten.size]
      exact hin.size
  obtain ⟨d, x, hd, hx, hximg, hdelivered⟩ := accessDisk_read hw hp' ht' hin'
  refine ⟨d, x, hd, hx, hximg, fun k hk => ?_, hdelivered.rest⟩
  rw [hdelivered.buffer k hk, himg, hstart]
  exact hwritten.inside k (hlen ▸ hk)

/-- A machine in which a write of one byte is posted. -/
def writeMachine : Cpu :=
  let ram := QueueState.queueMachine.bus.ram
  QueueState.queueMachine.setBus (QueueState.queueMachine.bus.setRam
    ((ram.put 0x80000200 1 .w32).put 0x80000400 0x5a .w8))

theorem queue_posted : QueueState.smallQueue.Posted QueueState.queueMachine.bus.ram where
  num := by decide
  avail := by decide
  used := by decide
  chain := ⟨by decide, by decide, by decide, by decide, by decide, by decide⟩
  statusApart := by decide

theorem write_posted : QueueState.smallQueue.Posted writeMachine.bus.ram where
  num := by decide
  avail := by decide
  used := by decide
  chain := ⟨by decide, by decide, by decide, by decide, by decide, by decide⟩
  statusApart := by decide

theorem write_read_byte : ∃ img d, img.get 0 = 0x5a ∧
    accessDisk (toBus QueueState.queueMachine { QueueState.smallDisk with rfsimg := img }) = .ok d ∧
      d.bus.ram.byteAt 0x80000400 = 0x5a := by
  let write := QueueState.smallQueue.request writeMachine.bus.ram
  let read := QueueState.smallQueue.request QueueState.queueMachine.bus.ram
  have htype : read.blkReqType ≠ VirtioCfg.blkTOut := by decide
  have hstart : read.sectorStart = write.sectorStart := by decide
  have hlen : read.length = write.length := by decide
  have hfirst : 0 < write.length := by decide
  have hfirst' : 0 < read.length := by decide
  have hzero : write.sectorStart + 0 = 0 := by decide
  have hbuffer : read.buffer 0 = 0x80000400 := by decide
  have hbyte : writeMachine.bus.ram.byteAt (write.buffer 0) = 0x5a := by decide
  obtain ⟨b, u, _, _, hwritten, hread⟩ :=
    @write_read QueueState.smallDisk writeMachine rfl write_posted (by decide) ⟨by decide, by decide⟩
  obtain ⟨d, x, hd, _, _, hdelivered⟩ := hread
    (toBus QueueState.queueMachine { QueueState.smallDisk with rfsimg := u.rfsimg }) _ rfl rfl
    queue_posted htype hstart hlen
  have himg : u.rfsimg.get (write.sectorStart + 0) = writeMachine.bus.ram.byteAt (write.buffer 0) :=
    hwritten.inside 0 hfirst
  have hram : d.bus.ram.byteAt (read.buffer 0) = writeMachine.bus.ram.byteAt (write.buffer 0) :=
    hdelivered.buffer 0 hfirst'
  rw [hzero, hbyte] at himg
  rw [hbuffer, hbyte] at hram
  exact ⟨u.rfsimg, d, himg, hd, hram⟩

end VirtioBlkDevice

end Rv64gcEmu
