import Rv64gcEmu.Helper

namespace Rv64gcEmu

namespace VirtioCfg

def baseAddr : Word := 0x10001000
def size : Word := 0x1000
def endAddr : Word := baseAddr + size

def irqn : Word := 0x01

def magicValue : Word := 0x0
def version : Word := 0x4
def deviceId : Word := 0x8
def vendorId : Word := 0xc
def deviceFeatures : Word := 0x10
def deviceFeaturesSel : Word := 0x14
def driverFeatures : Word := 0x20
def driverFeaturesSel : Word := 0x24
def guestPageSize : Word := 0x28
def queueSel : Word := 0x30
def queueNumMax : Word := 0x34
def queueNum : Word := 0x38
def queueAlign : Word := 0x3c
def queuePfn : Word := 0x40
def queueNotify : Word := 0x50
def interruptStatus : Word := 0x60
def interruptAck : Word := 0x64
def status : Word := 0x70
def config : Word := 0x100

def queueNotifyReset : BitVec 32 := 0xffffffff

def magic : Word := 0x74726976
def versionLegacy : Word := 0x1
def vendor : Word := 0x554D4551
def blkDev : Word := 0x02

def virtqueueMaxSize : Word := 0x400
def virtqueueAlign : BitVec 32 := 0x1000

def diskDelay : Word := 0x1f4
def sectorSize : Word := 0x200

def blkTOut : BitVec 32 := 0x1
def blkSOk : Word := 0x0

end VirtioCfg

structure VirtqDesc where
  addr : Word
  len : BitVec 32
  flags : BitVec 16
  next : BitVec 16
  deriving DecidableEq

structure Virtq where
  num : BitVec 32
  align : BitVec 32
  desc : Word
  avail : Word
  used : Word
  deriving DecidableEq

/-- `VirtioBlkDevice`: two words of features on either side, eight bytes of
configuration and the disk image. -/
structure VirtioBlkDevice where
  id : BitVec 16
  clock : Word
  notifyClock : Word
  vq : Virtq
  hostFeatures : Nat → BitVec 32
  guestFeatures : Nat → BitVec 32
  hostFeaturesSel : BitVec 32
  guestFeaturesSel : BitVec 32
  guestPageSize : BitVec 32
  queuePfn : BitVec 32
  queueNotify : BitVec 32
  isr : Byte
  status : Byte
  config : Nat → Byte
  rfsimg : ByteVec

namespace VirtioBlkDevice

def init (data : ByteVec) : VirtioBlkDevice where
  id := 0
  clock := 0
  notifyClock := 0
  vq := ⟨0, VirtioCfg.virtqueueAlign, 0, 0, 0⟩
  hostFeatures i := if i = 1 then 1#32 <<< 3 else 0
  guestFeatures _ := 0
  hostFeaturesSel := 0
  guestFeaturesSel := 0
  guestPageSize := 0
  queuePfn := 0
  queueNotify := VirtioCfg.queueNotifyReset
  isr := 0
  status := 0
  config i := if i = 1 then 0x20 else if i = 2 then 0x03 else 0
  rfsimg := data

def reset (v : VirtioBlkDevice) : VirtioBlkDevice := { v with id := 0, isr := 0 }

/-- The product of the two 32-bit registers is taken in 32 bits. -/
def update (v : VirtioBlkDevice) : HostM VirtioBlkDevice := do
  let desc : Word := (v.queuePfn * v.guestPageSize).setWidth 64
  let avail := desc + v.vq.num.setWidth 64 * 16
  let used ← Helper.alignUp (avail + 4 + v.vq.num.setWidth 64 * 2) (v.vq.align.setWidth 64)
  .ok { v with vq := { v.vq with desc := desc, avail := avail, used := used } }

def load (v : VirtioBlkDevice) (address : Word) : HostM Word :=
  let address := address - VirtioCfg.baseAddr
  if VirtioCfg.config ≤ address then do
    let index := (address - VirtioCfg.config).toNat
    checkIndex 8 index
    .ok ((v.config index).setWidth 64)
  else if address = VirtioCfg.magicValue then .ok VirtioCfg.magic
  else if address = VirtioCfg.version then .ok VirtioCfg.versionLegacy
  else if address = VirtioCfg.deviceId then .ok VirtioCfg.blkDev
  else if address = VirtioCfg.vendorId then .ok VirtioCfg.vendor
  else if address = VirtioCfg.deviceFeatures then do
    checkIndex 2 v.hostFeaturesSel.toNat
    .ok ((v.hostFeatures v.hostFeaturesSel.toNat).setWidth 64)
  else if address = VirtioCfg.queueNumMax then .ok VirtioCfg.virtqueueMaxSize
  else if address = VirtioCfg.queuePfn then .ok (v.queuePfn.setWidth 64)
  else if address = VirtioCfg.interruptStatus then .ok (v.isr.setWidth 64)
  else if address = VirtioCfg.status then .ok (v.status.setWidth 64)
  else .ok 0

def store (v : VirtioBlkDevice) (address value : Word) : HostM VirtioBlkDevice :=
  let address := address - VirtioCfg.baseAddr
  if VirtioCfg.config ≤ address then do
    let index := address - VirtioCfg.config
    checkShift 64 (index * 8)
    checkIndex 8 index.toNat
    .ok { v with
      config := Function.update v.config index.toNat ((value >>> (index * 8).toNat).setWidth 8) }
  else if address = VirtioCfg.deviceFeaturesSel then
    .ok { v with hostFeaturesSel := value.setWidth 32 }
  else if address = VirtioCfg.driverFeatures then do
    checkIndex 2 v.guestFeaturesSel.toNat
    .ok { v with
      guestFeatures := Function.update v.guestFeatures v.guestFeaturesSel.toNat (value.setWidth 32) }
  else if address = VirtioCfg.driverFeaturesSel then
    .ok { v with guestFeaturesSel := value.setWidth 32 }
  else if address = VirtioCfg.guestPageSize then .ok { v with guestPageSize := value.setWidth 32 }
  else if address = VirtioCfg.queueSel then .ok v
  else if address = VirtioCfg.queueNum then .ok { v with vq := { v.vq with num := value.setWidth 32 } }
  else if address = VirtioCfg.queueAlign then
    .ok { v with vq := { v.vq with align := value.setWidth 32 } }
  else if address = VirtioCfg.queuePfn then update { v with queuePfn := value.setWidth 32 }
  else if address = VirtioCfg.queueNotify then
    .ok { v with queueNotify := value.setWidth 32, notifyClock := v.clock }
  else if address = VirtioCfg.interruptAck then .ok { v with isr := ~~~(value.setWidth 8) }
  else if address = VirtioCfg.status then
    let v := { v with status := (value &&& 0xff).setWidth 8 }
    if v.status = 0 then .ok v.reset
    else if v.status &&& 0x4 ≠ 0 then v.update
    else .ok v
  else .ok v

def isInterrupting (v : VirtioBlkDevice) : Option Word :=
  if v.isr &&& 0x1 ≠ 0 then some VirtioCfg.irqn else none

end VirtioBlkDevice

end Rv64gcEmu
