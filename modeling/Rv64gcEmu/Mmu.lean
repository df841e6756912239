import Rv64gcEmu.Bus
import Mathlib.Data.Fin.Basic
import Mathlib.Data.List.FinRange

namespace Rv64gcEmu

namespace Mmu

def bare : BitVec 4 := 0x0
def sv39 : BitVec 4 := 0x8
def sv48 : BitVec 4 := 0x9
def sv57 : BitVec 4 := 0xa

def pageSize : Word := 4096

/-- `tlb_cache = {}` and the reset age. -/
def emptyEntry : TlbEntry where
  virtBase := 0
  physBase := 0
  pte := 0
  pteAddr := 0
  age := 0xffffffff
  dirty := false
  accessed := false
  read := false
  write := false
  execute := false
  user := false

def flushTlb (mmu : Mmu) : Mmu := { mmu with tlbCache := fun _ => emptyEntry }

def setEntry (mmu : Mmu) (i : Fin 4) (entry : TlbEntry) : Mmu :=
  { mmu with tlbCache := Function.update mmu.tlbCache i entry }

/-- What the walk stores in the entry for each page table entry it reads. -/
def fillEntry (entry : TlbEntry) (pteAddr pte : Word) : TlbEntry :=
  { entry with
    pteAddr := pteAddr
    pte := pte
    read := pte.getLsbD 1
    write := pte.getLsbD 2
    execute := pte.getLsbD 3 }

def getLevels (mmu : Mmu) : Nat :=
  if mmu.mode = sv39 then 3
  else if mmu.mode = sv48 then 4
  else if mmu.mode = sv57 then 5
  else 0

def getVpn (mmu : Mmu) (address : Word) (i : Nat) : Word :=
  if i < mmu.getLevels then (address >>> (12 + i * 9)) &&& 0x1ff else 0

/-- The slots past the last level are left uninitialised and never read. -/
def getPpn (mmu : Mmu) (pte : Word) (i : Nat) : Word :=
  if i < mmu.getLevels - 1 then (pte >>> (10 + i * 9)) &&& 0x1ff
  else if mmu.mode = sv39 ∧ i = 2 then (pte >>> 28) &&& 0x03ffffff
  else if mmu.mode = sv48 ∧ i = 3 then (pte >>> 37) &&& 0x1ffff
  else if mmu.mode = sv57 ∧ i = 4 then (pte >>> 46) &&& 0xff
  else 0

/-- The two loops that put a superpage together. -/
def superpageBase (levels i : Nat) (vpn ppn : Nat → Word) : Word :=
  let physBase := (List.range i).foldl (fun b j => b ||| (vpn j <<< (12 + j * 9))) 0
  (List.range' i (levels - i)).foldl (fun b j => b ||| (ppn j <<< (12 + j * 9))) physBase

def pageFault : AccessType → Exception
  | .load => .loadPageFault
  | .store => .storePageFault
  | .instruction => .instructionPageFault

def setCpuError (cpu : Cpu) (address : Word) (accessType : AccessType) : Cpu :=
  (cpu.setException (pageFault accessType) address).setMmu cpu.mmu.flushTlb

/-- The loop of `fetch_pte` from level `i - 1` down, with the table at `a`. A failed
walk has flushed the cache, so what it wrote to the entry is gone. -/
def fetchPteLoop (cpu : Cpu) (address : Word) (accessType : AccessType) (vpn : Nat → Word)
    (a : Word) (entry : TlbEntry) : Nat → HostM (Option (Nat × TlbEntry) × Cpu)
  | 0 => .ok (none, setCpuError cpu address accessType)
  | i + 1 => do
    let pteAddr := a + vpn i * 8
    let (pte, cpu) ← Bus.load cpu pteAddr .w64
    let entry := fillEntry entry pteAddr pte
    if !pte.getLsbD 0 || (!entry.read && entry.write) then
      .ok (none, setCpuError cpu address accessType)
    else if entry.read || entry.execute then .ok (some (i, entry), cpu)
    else
      fetchPteLoop cpu address accessType vpn (((pte >>> 10) &&& 0xfffffffffff) * pageSize) entry i

/-- The entry for a leaf that was found at level `i`. -/
def leafEntry (mmu : Mmu) (address : Word) (i : Nat) (entry : TlbEntry) : TlbEntry :=
  { entry with
    user := entry.pte.getLsbD 4
    accessed := entry.pte.getLsbD 6
    dirty := entry.pte.getLsbD 7
    physBase :=
      if i = 0 then ((entry.pte >>> 10) &&& 0x0fffffffffff) <<< 12
      else superpageBase mmu.getLevels i (mmu.getVpn address) (mmu.getPpn entry.pte) }

def fetchPte (cpu : Cpu) (address : Word) (accessType : AccessType) (entry : TlbEntry) :
    HostM (Option TlbEntry × Cpu) := do
  let (found, cpu) ← fetchPteLoop cpu address accessType (cpu.mmu.getVpn address)
    (cpu.mmu.mppn.setWidth 64) entry cpu.mmu.getLevels
  match found with
  | none => .ok (none, cpu)
  | some (i, entry) =>
    if (List.range i).any fun j => cpu.mmu.getPpn entry.pte j ≠ 0 then
      .ok (none, setCpuError cpu address accessType)
    else .ok (some (leafEntry cpu.mmu address i entry), cpu)

structure TlbScan where
  tlb : Fin 4 → TlbEntry
  oldestAge : Word
  oldestIndex : Fin 4
  hit : Option (Fin 4)

/-- One turn of the loop of `get_tlb_entry`; after a hit only the ages go up. -/
def tlbScanStep (addrMasked : Word) (s : TlbScan) (i : Fin 4) : TlbScan :=
  let entry := s.tlb i
  match s.hit with
  | some _ => { s with tlb := Function.update s.tlb i { entry with age := entry.age + 1 } }
  | none =>
    if addrMasked = entry.virtBase then
      { s with tlb := Function.update s.tlb i { entry with age := 0 }, hit := some i }
    else
      let entry := { entry with age := entry.age + 1 }
      if s.oldestAge < entry.age then
        { s with
          tlb := Function.update s.tlb i entry
          oldestAge := entry.age
          oldestIndex := i }
      else { s with tlb := Function.update s.tlb i entry }

def tlbScan (tlb : Fin 4 → TlbEntry) (addrMasked : Word) : TlbScan :=
  (List.finRange 4).foldl (tlbScanStep addrMasked) ⟨tlb, 0, 0, none⟩

def pageOf (address : Word) : Word := address &&& ~~~0xfff

/-- The entry that is used when there is no TLB. -/
abbrev soleEntry : Fin 4 := 0

/-- The index of the entry that the returned pointer points to. -/
def getTlbEntry (cpu : Cpu) (address : Word) (accessType : AccessType) :
    HostM (Option (Fin 4) × Cpu) :=
  if cpu.host.useTlb then
    let s := tlbScan cpu.mmu.tlbCache (pageOf address)
    let cpu := cpu.setMmu { cpu.mmu with tlbCache := s.tlb }
    match s.hit with
    | some i => .ok (some i, cpu)
    | none => do
      let (entry, cpu) ← fetchPte cpu address accessType (s.tlb s.oldestIndex)
      match entry with
      | some entry =>
        let entry := { entry with virtBase := pageOf address, age := 0 }
        .ok (some s.oldestIndex, cpu.setMmu (cpu.mmu.setEntry s.oldestIndex entry))
      | none => .ok (none, cpu)
  else do
    let (entry, cpu) ← fetchPte cpu address accessType (cpu.mmu.tlbCache soleEntry)
    match entry with
    | some entry => .ok (some soleEntry, cpu.setMmu (cpu.mmu.setEntry soleEntry entry))
    | none => .ok (none, cpu)

/-- The mode an access is made with: `mstatus.MPRV` lets data accesses use `MPP`. -/
def accessMode (cpu : Cpu) (accessType : AccessType) : Mode :=
  if accessType ≠ .instruction ∧ cpu.cregs.readBitMstatus .mprv = 1 then cpu.cregs.readMppMode
  else cpu.mode

/-- The checks of `translate`, all of which end in the same page fault. -/
def permissionFault (entry : TlbEntry) (accessType : AccessType) (cpuMode : Mode) (mxr sum : Bool) :
    Bool :=
  (!entry.read && entry.write && !entry.execute) ||
  (!entry.read && entry.write && entry.execute) ||
  (entry.user && (cpuMode ≠ .user && (!sum || accessType = .instruction))) ||
  (!entry.user && cpuMode ≠ .supervisor) ||
  match accessType with
  | .load => !(entry.read || (entry.execute && mxr))
  | .store => !entry.write
  | .instruction => !entry.execute

def needsUpdate (entry : TlbEntry) (accessType : AccessType) : Bool :=
  !entry.accessed || (accessType = .store && !entry.dirty)

/-- The entry with the Accessed bit set, for a store also the Dirty bit. -/
def markEntry (entry : TlbEntry) (accessType : AccessType) : TlbEntry :=
  let entry := { entry with pte := entry.pte ||| (1#64 <<< 6), accessed := true }
  if accessType = .store then { entry with pte := entry.pte ||| (1#64 <<< 7), dirty := true }
  else entry

def translate (cpu : Cpu) (address : Word) (accessType : AccessType) : HostM (Word × Cpu) :=
  if cpu.mmu.mode = bare then .ok (address, cpu)
  else if accessMode cpu accessType = .machine then .ok (address, cpu)
  else do
    let cpuMode := accessMode cpu accessType
    let (found, cpu) ← getTlbEntry cpu address accessType
    match found with
    | none => .ok (0, cpu)
    | some i =>
      let entry := cpu.mmu.tlbCache i
      let mxr := cpu.cregs.readBitMstatus .mxr ≠ 0
      let sum := cpu.cregs.readBitMstatus .sum ≠ 0
      if permissionFault entry accessType cpuMode mxr sum then
        .ok (0, setCpuError cpu address accessType)
      else if needsUpdate entry accessType then do
        let entry := markEntry entry accessType
        let cpu ← Bus.store (cpu.setMmu (cpu.mmu.setEntry i entry)) entry.pteAddr entry.pte .w64
        .ok (entry.physBase ||| (address &&& 0xfff), cpu)
      else .ok (entry.physBase ||| (address &&& 0xfff), cpu)

def load (cpu : Cpu) (address : Word) (length : Width) : HostM (Word × Cpu) := do
  let (pAddress, cpu) ← translate cpu address .load
  if cpu.excVal.isSome then .ok (0, cpu)
  else Bus.load cpu pAddress length

def fetch (cpu : Cpu) (address : Word) : HostM (Word × Cpu) := do
  let (pAddress, cpu) ← translate cpu address .instruction
  if cpu.excVal.isSome then .ok (0, cpu)
  else do
    let (value, cpu) ← Bus.load cpu pAddress .w32
    if cpu.excVal = some .loadAccessFault then
      .ok (value, { cpu with excVal := some .instructionAccessFault })
    else .ok (value, cpu)

def store (cpu : Cpu) (address value : Word) (length : Width) : HostM Cpu := do
  let (pAddress, cpu) ← translate cpu address .store
  if cpu.excVal.isSome then .ok cpu
  else Bus.store cpu pAddress value length

/-- The root table is kept in 32 bits. -/
def update (cpu : Cpu) : Cpu :=
  let satp := cpu.cregs.load Address.satp
  let mode := Helper.readBits satp 63 60
  let ppn := Helper.readBits satp 43 0
  cpu.setMmu
    (flushTlb { cpu.mmu with mppn := (ppn <<< 12).setWidth 32, mode := mode.setWidth 4 })

end Mmu

end Rv64gcEmu
