import Rv64gcEmu.Csr

namespace Rv64gcEmu

namespace ClintCfg

def baseAddr : Word := 0x2000000

def msipAddr : Word := baseAddr
def mtimecmpAddr : Word := baseAddr + 0x4000
def mtimeAddr : Word := baseAddr + 0xbff8

def endAddr : Word := baseAddr + 0x10000

end ClintCfg

structure ClintDevice where
  mtime : Word
  mtimecmp : Word
  msip : BitVec 32
  deriving DecidableEq

namespace ClintDevice

def init : ClintDevice := ⟨0, 0, 0⟩

/-- The register an address falls in and the offset in it. Both ends of the range
of a register are inclusive. -/
def select (c : ClintDevice) (address : Word) : Word × Word :=
  if Helper.valueInRangeInclusive address ClintCfg.msipAddr (ClintCfg.msipAddr + 4) then
    (c.msip.setWidth 64, address - ClintCfg.msipAddr)
  else if Helper.valueInRangeInclusive address ClintCfg.mtimecmpAddr (ClintCfg.mtimecmpAddr + 8) then
    (c.mtimecmp, address - ClintCfg.mtimecmpAddr)
  else if Helper.valueInRangeInclusive address ClintCfg.mtimeAddr (ClintCfg.mtimeAddr + 8) then
    (c.mtime, address - ClintCfg.mtimeAddr)
  else (0, 0)

/-- `(reg_value >> (offset * 8)) & ((1ULL << length) - 1)`; a shift by 64 is undefined. -/
def load (c : ClintDevice) (address : Word) (length : Width) : HostM Word := do
  let (regValue, offset) := c.select address
  checkShift 64 (offset * 8)
  checkShift 64 (BitVec.ofNat 64 length.bits)
  .ok ((regValue >>> (offset * 8).toNat) &&& ((1#64 <<< length.bits) - 1))

/-- The register after the store has replaced its addressed bits. -/
def merge (regValue offset value : Word) (length : Width) : HostM Word :=
  if length ≠ .w64 then do
    let mask : Word := (1#64 <<< length.bits) - 1
    checkShift 64 (offset * 8)
    .ok ((regValue &&& ~~~(mask <<< (offset * 8).toNat)) |||
      ((value &&& mask) <<< (offset * 8).toNat))
  else .ok value

def store (c : ClintDevice) (address value : Word) (length : Width) : HostM ClintDevice := do
  let (regValue, offset) := c.select address
  let regValue ← merge regValue offset value length
  if Helper.valueInRangeInclusive address ClintCfg.msipAddr (ClintCfg.msipAddr + 4) then
    .ok { c with msip := regValue.setWidth 32 }
  else if Helper.valueInRangeInclusive address ClintCfg.mtimecmpAddr (ClintCfg.mtimecmpAddr + 8) then
    .ok { c with mtimecmp := regValue }
  else if Helper.valueInRangeInclusive address ClintCfg.mtimeAddr (ClintCfg.mtimeAddr + 8) then
    .ok { c with mtime := regValue }
  else .ok c

/-- `tick`, with the milliseconds the host clock shows. -/
def tick (c : ClintDevice) (csr : Csr) (milliseconds : Word) : ClintDevice × Csr :=
  let mtime := milliseconds * 1000
  let csr := csr.store Address.time mtime
  let csr := if c.msip &&& 1 ≠ 0 then csr.writeBit Address.mip Mask.msipBit 1 else csr
  let csr :=
    if mtime ≥ c.mtimecmp then csr.writeBit Address.mip Mask.mtipBit 1
    else csr.writeBit Address.mip Mask.mtipBit 0
  ({ c with mtime := mtime }, csr)

end ClintDevice

end Rv64gcEmu
