import Rv64gcEmu.Turn

namespace Rv64gcEmu

namespace GpuDevice

/-- The build of the device decides its place on the bus. -/
def isSdl : GpuDevice → Bool
  | .sdl _ => true
  | .nativeCli _ => false

theorem load_isSdl {g g' : GpuDevice} {address v : Word} {length : Width}
    (h : g.load address length = .ok (v, g')) : g'.isSdl = g.isSdl := by
  unfold load at h
  split at h
  next =>
    obtain ⟨_, _, h⟩ := Except.bind_eq_ok_iff.mp h
    obtain ⟨_, rfl⟩ := Prod.mk.inj (Except.ok.inj h)
    rfl
  next =>
    obtain ⟨_, rfl⟩ := Prod.mk.inj (Except.ok.inj h)
    rfl

theorem store_isSdl {g g' : GpuDevice} {address value : Word} {length : Width}
    (h : g.store address value length = .ok g') : g'.isSdl = g.isSdl := by
  unfold store at h
  split at h
  next =>
    obtain ⟨_, _, h⟩ := Except.bind_eq_ok_iff.mp h
    cases Except.ok.inj h
    rfl
  next =>
    cases Except.ok.inj h
    rfl

end GpuDevice

namespace Bus

/-- The devices are the same ones at the same addresses. -/
structure SameLayout (a b : Bus) : Prop where
  baseAddr : b.ram.baseAddr = a.ram.baseAddr
  endAddr : b.ram.endAddr = a.ram.endAddr
  gpu : b.gpu.map GpuDevice.isSdl = a.gpu.map GpuDevice.isSdl
  virtio : b.virtio.isSome = a.virtio.isSome
  syscon : b.syscon = a.syscon

namespace SameLayout

theorem refl (a : Bus) : SameLayout a a := ⟨rfl, rfl, rfl, rfl, rfl⟩

theorem trans {a b c : Bus} (h : SameLayout a b) (h' : SameLayout b c) : SameLayout a c where
  baseAddr := h'.baseAddr.trans h.baseAddr
  endAddr := h'.endAddr.trans h.endAddr
  gpu := h'.gpu.trans h.gpu
  virtio := h'.virtio.trans h.virtio
  syscon := h'.syscon.trans h.syscon

theorem busDevices {a b : Bus} (h : SameLayout a b) : b.busDevices = a.busDevices := by
  have hg := h.gpu
  have hmatch : ∀ bus : Bus, bus.busDevices = ([.ram] : List DeviceId) ++
      (if bus.gpu.map GpuDevice.isSdl = some true then [.gpu] else []) ++ [.plic, .clint] ++
      (if bus.gpu.map GpuDevice.isSdl = some false then [.gpu] else []) ++
      (if bus.virtio.isSome then [.virtio] else []) ++ (if bus.syscon then [.syscon] else []) := by
    intro bus
    unfold Bus.busDevices
    cases bus.gpu with
    | none => rfl
    | some g => cases g <;> rfl
  rw [hmatch, hmatch, hg, h.virtio, h.syscon]

theorem findBusDevice {a b : Bus} (h : SameLayout a b) (address : Word) :
    b.findBusDevice address = a.findBusDevice address := by
  have hbase : ∀ d, b.getBaseAddress d = a.getBaseAddress d := by
    intro d
    cases d with
    | ram => exact h.baseAddr
    | _ => rfl
  have hend : ∀ d, b.getEndAddress d = a.getEndAddress d := by
    intro d
    cases d with
    | ram => exact h.endAddr
    | _ => rfl
  unfold Bus.findBusDevice
  rw [h.busDevices]
  simp only [hbase, hend]

end SameLayout

theorem deviceLoad_layout {bus bus' : Bus} {d : DeviceId} {address v : Word} {length : Width}
    (h : bus.deviceLoad d address length = .ok (v, bus')) :
    SameLayout bus bus' ∧ bus'.virtio = bus.virtio := by
  rcases deviceLoad_cases h with rfl | ⟨g, g', hg, hl, rfl⟩
  · exact ⟨.refl _, rfl⟩
  · refine ⟨⟨rfl, rfl, ?_, rfl, rfl⟩, rfl⟩
    rw [hg]
    exact congrArg some (GpuDevice.load_isSdl hl)

/-- A store reaches one device, and of the disk its own registers at most. -/
theorem deviceStore_layout {bus bus' : Bus} {d : DeviceId} {address value : Word} {length : Width}
    (h : bus.deviceStore d address value length = .ok bus') :
    SameLayout bus bus' ∧ (d ≠ .virtio → bus'.virtio = bus.virtio) ∧
      (d = .virtio → ∃ v v', bus.virtio = some v ∧ v.store address value = .ok v' ∧
        bus'.virtio = some v') := by
  obtain ⟨ram, rfl, hs, rfl⟩ | ⟨g, g', rfl, hg, hs, rfl⟩ | ⟨_, rfl, rfl⟩ | ⟨_, rfl, rfl⟩ |
    ⟨v, v', rfl, hv, hs, rfl⟩ | ⟨rfl, rfl⟩ := deviceStore_cases h
  · obtain ⟨_, rfl⟩ := RamDevice.store_eq_ok_iff.mp hs
    exact ⟨⟨rfl, rfl, rfl, rfl, rfl⟩, fun _ => rfl, fun hd => by cases hd⟩
  · refine ⟨⟨rfl, rfl, ?_, rfl, rfl⟩, fun _ => rfl, fun hd => by cases hd⟩
    rw [hg]
    exact congrArg some (GpuDevice.store_isSdl hs)
  · exact ⟨⟨rfl, rfl, rfl, rfl, rfl⟩, fun _ => rfl, fun hd => by cases hd⟩
  · exact ⟨⟨rfl, rfl, rfl, rfl, rfl⟩, fun _ => rfl, fun hd => by cases hd⟩
  · refine ⟨⟨rfl, rfl, rfl, ?_, rfl⟩, fun hn => absurd rfl hn, fun _ => ⟨v, v', hv, hs, rfl⟩⟩
    rw [hv]
    rfl
  · exact ⟨.refl _, fun _ => rfl, fun hd => by cases hd⟩

end Bus

namespace VirtioBlkDevice

/-- What `access_disk` finds in guest memory: the slot that it reads, the head there, the
three descriptors and the header. -/
structure Request where
  slot : Word
  head : BitVec 16
  desc0 : VirtqDesc
  desc1 : VirtqDesc
  desc2 : VirtqDesc
  blkReqType : BitVec 32
  blkReqSector : Word

/-- The first part of `access_disk`, which only loads. -/
def readRequest (v : VirtioBlkDevice) (cpu : Cpu) : HostM (Request × Cpu) := do
  let (idx, cpu) ← Bus.load cpu (v.vq.avail + 2) .w16
  let slot ← queueIndex (idx.setWidth 16) (v.vq.num.setWidth 64)
  let (descOffset, cpu) ← Bus.load cpu (v.vq.avail + 4 + slot * 2) .w16
  let head := descOffset.setWidth 16
  let (desc0, cpu) ← loadDesc cpu (v.vq.desc + 16 * head.setWidth 64)
  let (desc1, cpu) ← loadDesc cpu (v.vq.desc + 16 * desc0.next.setWidth 64)
  let (desc2, cpu) ← loadDesc cpu (v.vq.desc + 16 * desc1.next.setWidth 64)
  let (blkReqType, cpu) ← Bus.load cpu desc0.addr .w32
  let (blkReqSector, cpu) ← Bus.load cpu (desc0.addr + 8) .w64
  .ok (⟨slot, head, desc0, desc1, desc2, blkReqType.setWidth 32, blkReqSector⟩, cpu)

def Request.offset (r : Request) : Word := r.blkReqSector * VirtioCfg.sectorSize

def Request.copy (r : Request) (cpu : Cpu) : HostM Cpu :=
  if r.blkReqType = VirtioCfg.blkTOut then
    copyToDisk r.offset r.desc1.addr r.desc1.len.toNat 0 cpu
  else copyFromDisk r.offset r.desc1.addr r.desc1.len.toNat 0 cpu

/-- The last part, where the registers of the queue are still those of the beginning. -/
def Request.answer (r : Request) (vq : Virtq) (cpu : Cpu) : HostM Cpu := do
  let cpu ← Bus.store cpu r.desc2.addr VirtioCfg.blkSOk .w8
  let v ← ofBus cpu
  let slot ← queueIndex v.id (vq.num.setWidth 64)
  let cpu ← Bus.store cpu (vq.used + 4 + slot * 8) (r.head.setWidth 64) .w16
  let v ← ofBus cpu
  let v := { v with id := v.id + 1 }
  Bus.store (toBus cpu v) (vq.used + 2) (v.id.setWidth 64) .w16

theorem accessDisk_eq (cpu : Cpu) : accessDisk cpu = ofBus cpu >>= fun v =>
    readRequest v cpu >>= fun p => p.1.copy p.2 >>= p.1.answer v.vq := by
  unfold accessDisk readRequest Request.copy Request.answer Request.offset
  simp only [bind_assoc, Except.ok_bind, Except.ite_bind]

/-- The delay since the last notification is over. -/
def Due (v : VirtioBlkDevice) : Prop :=
  v.queueNotify ≠ VirtioCfg.queueNotifyReset ∧ v.clock = v.notifyClock + VirtioCfg.diskDelay

instance (v : VirtioBlkDevice) : Decidable v.Due := inferInstanceAs (Decidable (_ ∧ _))

/-- Before 500 ticks have passed. -/
theorem not_due_of_lt {v : VirtioBlkDevice} {n : Nat} (hn : n < 500)
    (hc : v.clock = v.notifyClock + BitVec.ofNat 64 n) : ¬v.Due := by
  rintro ⟨_, hd⟩
  have hn' := congrArg BitVec.toNat ((BitVec.add_right_inj _).mp (hc.symm.trans hd))
  have hdelay : VirtioCfg.diskDelay.toNat = 500 := by decide
  rw [BitVec.toNat_ofNat, hdelay] at hn'
  omega

def raiseIsr (v : VirtioBlkDevice) : VirtioBlkDevice := { v with isr := v.isr ||| 0x1 }

theorem ofBus_eq_ok_iff {a : Cpu} {v : VirtioBlkDevice} :
    ofBus a = .ok v ↔ a.bus.virtio = some v := by
  unfold ofBus
  split
  next h => simp [h]
  next h => simp [h]

/-- The counter of a loop over the bytes, one turn later. -/
theorem counter_succ (i : Word) (k : Nat) :
    i + 1 + BitVec.ofNat 64 k = i + BitVec.ofNat 64 (k + 1) := by
  have hk : BitVec.ofNat 64 (k + 1) = 1 + BitVec.ofNat 64 k := by
    rw [Nat.add_comm]
    exact BitVec.ofNat_add 1 k
  rw [hk, BitVec.add_assoc]

theorem toBus_self {a : Cpu} {v : VirtioBlkDevice} (hv : a.bus.virtio = some v) : toBus a v = a := by
  unfold toBus
  rw [← hv]
  rfl

theorem toBus_toBus (a : Cpu) (v w : VirtioBlkDevice) : toBus (toBus a v) w = toBus a w := rfl

theorem toBus_layout {a : Cpu} {v w : VirtioBlkDevice} (hv : a.bus.virtio = some v) :
    Bus.SameLayout a.bus (toBus a w).bus :=
  ⟨rfl, rfl, rfl, by rw [hv]; rfl, rfl⟩

theorem ofBus_toBus (a : Cpu) (v : VirtioBlkDevice) : ofBus (toBus a v) = .ok v := rfl

variable {a b : Cpu} {v : VirtioBlkDevice}

theorem busStore_of_store {w : VirtioBlkDevice} {address value : Word} {length : Width}
    (hv : a.bus.virtio = some v) (hd : a.bus.findBusDevice address = some .virtio)
    (hs : v.store address value = .ok w) :
    Bus.store a address value length = .ok (toBus a w) := by
  unfold Bus.store
  simp only [hd, Bus.deviceStore, hv, hs, Except.ok_bind]
  rfl

theorem tick_of_not_due (hv : a.bus.virtio = some v) (hd : ¬v.Due) :
    tick a = .ok (toBus a { v with clock := v.clock + 1 }) := by
  have ho : ofBus a = .ok v := ofBus_eq_ok_iff.mpr hv
  unfold Due at hd
  unfold tick
  simp only [ho, Except.ok_bind, if_neg hd]

/-- After the request the notification is taken back and the clock goes on. -/
def settle (w : VirtioBlkDevice) : VirtioBlkDevice :=
  { w with queueNotify := VirtioCfg.queueNotifyReset, clock := w.clock + 1 }

theorem tick_of_due (hv : a.bus.virtio = some v) (hd : v.Due) :
    tick a = accessDisk (toBus a v.raiseIsr) >>= fun c =>
      ofBus c >>= fun w => .ok (toBus c w.settle) := by
  have ho : ofBus a = .ok v := ofBus_eq_ok_iff.mpr hv
  unfold Due at hd
  unfold tick
  simp only [ho, Except.ok_bind, if_pos hd, ofBus_toBus]
  rfl

end VirtioBlkDevice

end Rv64gcEmu
