import Rv64gcEmu.Bus

namespace Rv64gcEmu

namespace VirtioBlkDevice

/-- The disk of the bus, which every step of a transfer may have changed. -/
def ofBus (cpu : Cpu) : HostM VirtioBlkDevice :=
  match cpu.bus.virtio with
  | some v => .ok v
  | none => .error .undefined

def toBus (cpu : Cpu) (v : VirtioBlkDevice) : Cpu := cpu.setBus { cpu.bus with virtio := some v }

def loadDesc (cpu : Cpu) (address : Word) : HostM (VirtqDesc × Cpu) := do
  let (addr, cpu) ← Bus.load cpu address .w64
  let (len, cpu) ← Bus.load cpu (address + 8) .w32
  let (flags, cpu) ← Bus.load cpu (address + 12) .w16
  let (next, cpu) ← Bus.load cpu (address + 14) .w16
  .ok (⟨addr, len.setWidth 32, flags.setWidth 16, next.setWidth 16⟩, cpu)

/-- `rfsimg[offset + i] = load(addr + i)` for the remaining bytes. -/
def copyToDisk (offset addr : Word) : Nat → Word → Cpu → HostM Cpu
  | 0, _, cpu => .ok cpu
  | n + 1, i, cpu => do
    let (byte, cpu) ← Bus.load cpu (addr + i) .w8
    let v ← ofBus cpu
    let rfsimg ← v.rfsimg.store (offset + i).toNat byte .w8
    copyToDisk offset addr n (i + 1) (toBus cpu { v with rfsimg := rfsimg })

def copyFromDisk (offset addr : Word) : Nat → Word → Cpu → HostM Cpu
  | 0, _, cpu => .ok cpu
  | n + 1, i, cpu => do
    let v ← ofBus cpu
    let byte ← v.rfsimg.load (offset + i).toNat .w8
    let cpu ← Bus.store cpu (addr + i) byte .w8
    copyFromDisk offset addr n (i + 1) cpu

/-- `value % queue_size`. -/
def queueIndex (value : BitVec 16) (queueSize : Word) : HostM Word := do
  checkUnsignedDiv queueSize
  .ok (value.setWidth 64 % queueSize)

def accessDisk (cpu : Cpu) : HostM Cpu := do
  let v ← ofBus cpu
  let desc := v.vq.desc
  let avail := v.vq.avail
  let used := v.vq.used
  let queueSize : Word := v.vq.num.setWidth 64
  let (idx, cpu) ← Bus.load cpu (avail + 2) .w16
  let slot ← queueIndex (idx.setWidth 16) queueSize
  let (descOffset, cpu) ← Bus.load cpu (avail + 4 + slot * 2) .w16
  let descOffset := descOffset.setWidth 16
  let (desc0, cpu) ← loadDesc cpu (desc + 16 * descOffset.setWidth 64)
  let (desc1, cpu) ← loadDesc cpu (desc + 16 * desc0.next.setWidth 64)
  let (desc2, cpu) ← loadDesc cpu (desc + 16 * desc1.next.setWidth 64)
  let (blkReqType, cpu) ← Bus.load cpu desc0.addr .w32
  let (blkReqSector, cpu) ← Bus.load cpu (desc0.addr + 8) .w64
  let offset := blkReqSector * VirtioCfg.sectorSize
  let cpu ←
    if blkReqType.setWidth 32 = VirtioCfg.blkTOut then
      copyToDisk offset desc1.addr desc1.len.toNat 0 cpu
    else copyFromDisk offset desc1.addr desc1.len.toNat 0 cpu
  let cpu ← Bus.store cpu desc2.addr VirtioCfg.blkSOk .w8
  let v ← ofBus cpu
  let slot ← queueIndex v.id queueSize
  let cpu ← Bus.store cpu (used + 4 + slot * 8) (descOffset.setWidth 64) .w16
  let v ← ofBus cpu
  let v := { v with id := v.id + 1 }
  Bus.store (toBus cpu v) (used + 2) (v.id.setWidth 64) .w16

def tick (cpu : Cpu) : HostM Cpu := do
  let v ← ofBus cpu
  let cpu ←
    if v.queueNotify ≠ VirtioCfg.queueNotifyReset ∧ v.clock = v.notifyClock + VirtioCfg.diskDelay then do
      let cpu ← accessDisk (toBus cpu { v with isr := v.isr ||| 0x1 })
      let v ← ofBus cpu
      .ok (toBus cpu { v with queueNotify := VirtioCfg.queueNotifyReset })
    else .ok cpu
  let v ← ofBus cpu
  .ok (toBus cpu { v with clock := v.clock + 1 })

/-- A relation of machines that includes every access of a request and every change that it
makes to the disk. -/
structure AlongRequest (R : Cpu → Cpu → Prop) : Prop where
  refl : ∀ a, R a a
  trans : ∀ {a b c}, R a b → R b c → R a c
  load : ∀ {a b : Cpu} {address v : Word} {length : Width},
    Bus.load a address length = .ok (v, b) → R a b
  store : ∀ {a b : Cpu} {address value : Word} {length : Width},
    Bus.store a address value length = .ok b → R a b
  image : ∀ {a : Cpu} {v : VirtioBlkDevice} (img : ByteVec), ofBus a = .ok v →
    R a (toBus a { v with rfsimg := img })
  index : ∀ {a : Cpu} {v : VirtioBlkDevice}, ofBus a = .ok v → R a (toBus a { v with id := v.id + 1 })

namespace AlongRequest

variable {R : Cpu → Cpu → Prop} {a b : Cpu} {offset addr i : Word} {n : Nat}

theorem loadDesc {address : Word} {desc : VirtqDesc} (hr : AlongRequest R)
    (h : loadDesc a address = .ok (desc, b)) : R a b := by
  obtain ⟨⟨_, c₁⟩, h₁, h⟩ := Except.bind_eq_ok_iff.mp h
  obtain ⟨⟨_, c₂⟩, h₂, h⟩ := Except.bind_eq_ok_iff.mp h
  obtain ⟨⟨_, c₃⟩, h₃, h⟩ := Except.bind_eq_ok_iff.mp h
  obtain ⟨⟨_, c₄⟩, h₄, h⟩ := Except.bind_eq_ok_iff.mp h
  obtain ⟨_, rfl⟩ := Prod.mk.inj (Except.ok.inj h)
  exact hr.trans (hr.trans (hr.load h₁) (hr.load h₂)) (hr.trans (hr.load h₃) (hr.load h₄))

theorem copyToDisk (hr : AlongRequest R) (h : copyToDisk offset addr n i a = .ok b) : R a b := by
  induction n generalizing i a with
  | zero =>
    cases Except.ok.inj h
    exact hr.refl _
  | succ n ih =>
    obtain ⟨⟨_, c⟩, hl, h⟩ := Except.bind_eq_ok_iff.mp h
    obtain ⟨v, hv, h⟩ := Except.bind_eq_ok_iff.mp h
    obtain ⟨img, _, h⟩ := Except.bind_eq_ok_iff.mp h
    exact hr.trans (hr.trans (hr.load hl) (hr.image img hv)) (ih h)

theorem copyFromDisk (hr : AlongRequest R) (h : copyFromDisk offset addr n i a = .ok b) : R a b := by
  induction n generalizing i a with
  | zero =>
    cases Except.ok.inj h
    exact hr.refl _
  | succ n ih =>
    obtain ⟨_, _, h⟩ := Except.bind_eq_ok_iff.mp h
    obtain ⟨_, _, h⟩ := Except.bind_eq_ok_iff.mp h
    obtain ⟨c, hs, h⟩ := Except.bind_eq_ok_iff.mp h
    exact hr.trans (hr.store hs) (ih h)

theorem accessDisk (hr : AlongRequest R) (h : accessDisk a = .ok b) : R a b := by
  obtain ⟨_, _, h⟩ := Except.bind_eq_ok_iff.mp h
  obtain ⟨⟨_, c₁⟩, h₁, h⟩ := Except.bind_eq_ok_iff.mp h
  obtain ⟨_, _, h⟩ := Except.bind_eq_ok_iff.mp h
  obtain ⟨⟨_, c₂⟩, h₂, h⟩ := Except.bind_eq_ok_iff.mp h
  obtain ⟨⟨_, c₃⟩, h₃, h⟩ := Except.bind_eq_ok_iff.mp h
  obtain ⟨⟨_, c₄⟩, h₄, h⟩ := Except.bind_eq_ok_iff.mp h
  obtain ⟨⟨_, c₅⟩, h₅, h⟩ := Except.bind_eq_ok_iff.mp h
  obtain ⟨⟨_, c₆⟩, h₆, h⟩ := Except.bind_eq_ok_iff.mp h
  obtain ⟨⟨_, c₇⟩, h₇, h⟩ := Except.bind_eq_ok_iff.mp h
  obtain ⟨c₈, h₈, h⟩ := Except.ite_bind_eq_ok_iff.mp h
  obtain ⟨c₉, h₉, h⟩ := Except.bind_eq_ok_iff.mp h
  obtain ⟨_, _, h⟩ := Except.bind_eq_ok_iff.mp h
  obtain ⟨_, _, h⟩ := Except.bind_eq_ok_iff.mp h
  obtain ⟨c, hs, h⟩ := Except.bind_eq_ok_iff.mp h
  obtain ⟨_, hv, h⟩ := Except.bind_eq_ok_iff.mp h
  have hring : R a c₂ := hr.trans (hr.load h₁) (hr.load h₂)
  have hchain : R c₂ c₅ := hr.trans (hr.trans (hr.loadDesc h₃) (hr.loadDesc h₄)) (hr.loadDesc h₅)
  have hheader : R c₅ c₇ := hr.trans (hr.load h₆) (hr.load h₇)
  have hcopy : R c₇ c₈ := by
    split at h₈
    next => exact hr.copyToDisk h₈
    next => exact hr.copyFromDisk h₈
  have hanswer : R c₈ b :=
    hr.trans (hr.trans (hr.store h₉) (hr.store hs)) (hr.trans (hr.index hv) (hr.store h))
  exact hr.trans (hr.trans (hr.trans hring hchain) hheader) (hr.trans hcopy hanswer)

end AlongRequest

end VirtioBlkDevice

end Rv64gcEmu
