import Rv64gcEmu.Helper

namespace Rv64gcEmu

namespace PlicCfg

def baseAddr : Word := 0xC000000

def sourcePrioAddr : Word := baseAddr
def sourcePrioEndAddr : Word := baseAddr + 0xfff
def pendingAddr : Word := baseAddr + 0x1000
def pendingEndAddr : Word := baseAddr + 0x107f
def enableAddr : Word := baseAddr + 0x2000
def enableEndAddr : Word := baseAddr + 0x20ff
def tresholdClaimAddr : Word := baseAddr + 0x200000
def tresholdClaimEndAddr : Word := baseAddr + 0x201007

def endAddr : Word := baseAddr + 0x208000

def contextOffset : Word := 0x1000

end PlicCfg

/-- `PlicDevice`: arrays of 1024, 32, 64, 2 and 2 words. -/
structure PlicDevice where
  prioprity : Nat → BitVec 32
  pending : Nat → BitVec 32
  enable : Nat → BitVec 32
  treshold : Nat → BitVec 32
  claim : Nat → BitVec 32

namespace PlicDevice

def init : PlicDevice where
  prioprity _ := 0
  pending _ := 0
  enable _ := 0
  treshold _ := 0
  claim _ := 0

def isEnabled (p : PlicDevice) (context irq : Word) : HostM Bool := do
  let idx := (irq % 1024) / 32
  let offset := (irq % 1024) % 32
  checkIndex 64 (context * 32 + idx).toNat
  .ok (((p.enable (context * 32 + idx).toNat >>> offset.toNat) &&& 1) = 1)

def updateClaim (p : PlicDevice) (irq : Word) : HostM PlicDevice := do
  let enabled ← p.isEnabled 1 irq
  if enabled ∨ irq = 0 then .ok { p with claim := Function.update p.claim 1 (irq.setWidth 32) }
  else .ok p

/-- The shift of `1U` by `irq` is undefined from 32 on. -/
def updatePending (p : PlicDevice) (irq : Word) : HostM PlicDevice := do
  let idx := (irq / 4).toNat
  checkIndex 32 idx
  checkShift 32 irq
  updateClaim
    { p with pending := Function.update p.pending idx (p.pending idx ||| (1#32 <<< irq.toNat)) } irq

def clearPending (p : PlicDevice) (irq : Word) : HostM PlicDevice := do
  let idx := (irq / 4).toNat
  checkIndex 32 idx
  checkShift 32 irq
  updateClaim
    { p with pending := Function.update p.pending idx (p.pending idx &&& ~~~(1#32 <<< irq.toNat)) } 0

def load (p : PlicDevice) (address : Word) : HostM Word :=
  if Helper.valueInRangeInclusive address PlicCfg.sourcePrioAddr PlicCfg.sourcePrioEndAddr then do
    let idx := ((address - PlicCfg.sourcePrioAddr) / 4).toNat
    checkIndex 1024 idx
    .ok ((p.prioprity idx).setWidth 64)
  else if Helper.valueInRangeInclusive address PlicCfg.pendingAddr PlicCfg.pendingEndAddr then do
    let idx := ((address - PlicCfg.pendingAddr) / 4).toNat
    checkIndex 32 idx
    .ok ((p.pending idx).setWidth 64)
  else if Helper.valueInRangeInclusive address PlicCfg.enableAddr PlicCfg.enableEndAddr then do
    let idx := ((address - PlicCfg.enableAddr) / 4).toNat
    checkIndex 64 idx
    .ok ((p.enable idx).setWidth 64)
  else if Helper.valueInRangeInclusive address PlicCfg.tresholdClaimAddr PlicCfg.tresholdClaimEndAddr then
    let context := (address - PlicCfg.tresholdClaimAddr) / PlicCfg.contextOffset
    let offset := address - (PlicCfg.tresholdClaimAddr + PlicCfg.contextOffset * context)
    if offset = 0 then do
      checkIndex 2 context.toNat
      .ok ((p.treshold context.toNat).setWidth 64)
    else if offset = 4 then do
      checkIndex 2 context.toNat
      .ok ((p.claim context.toNat).setWidth 64)
    else .ok 0
  else .ok 0

def store (p : PlicDevice) (address value : Word) : HostM PlicDevice :=
  if Helper.valueInRangeInclusive address PlicCfg.sourcePrioAddr PlicCfg.sourcePrioEndAddr then do
    let idx := ((address - PlicCfg.sourcePrioAddr) / 4).toNat
    checkIndex 1024 idx
    .ok { p with prioprity := Function.update p.prioprity idx (value.setWidth 32) }
  else if Helper.valueInRangeInclusive address PlicCfg.pendingAddr PlicCfg.pendingEndAddr then do
    let idx := ((address - PlicCfg.pendingAddr) / 4).toNat
    checkIndex 32 idx
    .ok { p with pending := Function.update p.pending idx (value.setWidth 32) }
  else if Helper.valueInRangeInclusive address PlicCfg.enableAddr PlicCfg.enableEndAddr then do
    let idx := ((address - PlicCfg.enableAddr) / 4).toNat
    checkIndex 64 idx
    .ok { p with enable := Function.update p.enable idx (value.setWidth 32) }
  else if Helper.valueInRangeInclusive address PlicCfg.tresholdClaimAddr PlicCfg.tresholdClaimEndAddr then
    let context := (address - PlicCfg.tresholdClaimAddr) / PlicCfg.contextOffset
    let offset := address - (PlicCfg.tresholdClaimAddr + PlicCfg.contextOffset * context)
    if offset = 0 then do
      checkIndex 2 context.toNat
      .ok { p with treshold := Function.update p.treshold context.toNat (value.setWidth 32) }
    else if offset = 4 then p.clearPending value
    else .ok p
  else .ok p

end PlicDevice

end Rv64gcEmu
