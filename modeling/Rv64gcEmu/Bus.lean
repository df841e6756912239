import Rv64gcEmu.Cpu

namespace Rv64gcEmu

/-- The objects that `Bus::bus_devices` points to. -/
inductive DeviceId where
  | ram
  | gpu
  | plic
  | clint
  | virtio
  | syscon
  deriving DecidableEq, Repr

namespace SysconCfg

def poweroffAddr : Word := 0x5555
def rebootAddr : Word := 0x7777

end SysconCfg

namespace Bus

/-- The devices in the order of the constructor of `Cpu`; the command line build
adds its UART after the CLINT. -/
def busDevices (bus : Bus) : List DeviceId :=
  let gpuFirst := match bus.gpu with
    | some (.sdl _) => [DeviceId.gpu]
    | _ => []
  let gpuLater := match bus.gpu with
    | some (.nativeCli _) => [DeviceId.gpu]
    | _ => []
  [.ram] ++ gpuFirst ++ [.plic, .clint] ++ gpuLater ++
    (if bus.virtio.isSome then [.virtio] else []) ++ (if bus.syscon then [.syscon] else [])

def getBaseAddress (bus : Bus) : DeviceId → Word
  | .ram => bus.ram.baseAddr
  | .gpu => GpuCfg.baseAddr
  | .plic => PlicCfg.baseAddr
  | .clint => ClintCfg.baseAddr
  | .virtio => VirtioCfg.baseAddr
  | .syscon => SysconCfg.poweroffAddr

def getEndAddress (bus : Bus) : DeviceId → Word
  | .ram => bus.ram.endAddr
  | .gpu => GpuCfg.endAddr
  | .plic => PlicCfg.endAddr
  | .clint => ClintCfg.endAddr
  | .virtio => VirtioCfg.endAddr
  | .syscon => SysconCfg.rebootAddr

def findBusDevice (bus : Bus) (address : Word) : Option DeviceId :=
  bus.busDevices.find? fun d =>
    bus.getBaseAddress d ≤ address && address < bus.getEndAddress d

/-- `bus_device->load(*this, address, length)`. -/
def deviceLoad (bus : Bus) (device : DeviceId) (address : Word) (length : Width) :
    HostM (Word × Bus) :=
  match device with
  | .ram => do
    let v ← bus.ram.load address length
    .ok (v, bus)
  | .gpu =>
    match bus.gpu with
    | some g => do
      let (v, g) ← g.load address length
      .ok (v, { bus with gpu := some g })
    | none => .error .undefined
  | .plic => do
    let v ← bus.plic.load address
    .ok (v, bus)
  | .clint => do
    let v ← bus.clint.load address length
    .ok (v, bus)
  | .virtio =>
    match bus.virtio with
    | some d => do
      let v ← d.load address
      .ok (v, bus)
    | none => .error .undefined
  | .syscon => .ok (0, bus)

/-- `bus_device->store(*this, address, value, length)`. -/
def deviceStore (bus : Bus) (device : DeviceId) (address value : Word) (length : Width) :
    HostM Bus :=
  match device with
  | .ram => do
    let ram ← bus.ram.store address value length
    .ok { bus with ram := ram }
  | .gpu =>
    match bus.gpu with
    | some g => do
      let g ← g.store address value length
      .ok { bus with gpu := some g }
    | none => .error .undefined
  | .plic => do
    let plic ← bus.plic.store address value
    .ok { bus with plic := plic }
  | .clint => do
    let clint ← bus.clint.store address value length
    .ok { bus with clint := clint }
  | .virtio =>
    match bus.virtio with
    | some d => do
      let d ← d.store address value
      .ok { bus with virtio := some d }
    | none => .error .undefined
  | .syscon =>
    if value = SysconCfg.poweroffAddr ∨ value = SysconCfg.rebootAddr then .error .exit
    else .ok bus

def load (cpu : Cpu) (address : Word) (length : Width) : HostM (Word × Cpu) :=
  match cpu.bus.findBusDevice address with
  | some d => do
    let (v, bus) ← cpu.bus.deviceLoad d address length
    .ok (v, cpu.setBus bus)
  | none => .ok (0, cpu.setException .loadAccessFault 0)

def store (cpu : Cpu) (address value : Word) (length : Width) : HostM Cpu :=
  match cpu.bus.findBusDevice address with
  | some d => do
    let bus ← cpu.bus.deviceStore d address value length
    .ok (cpu.setBus bus)
  | none => .ok (cpu.setException .storeAccessFault 0)

/-- A load either reaches a device, and changes nothing but the bus, or finds none. -/
theorem load_cases {cpu cpu' : Cpu} {address v : Word} {length : Width}
    (h : load cpu address length = .ok (v, cpu')) :
    (∃ d bus, cpu.bus.findBusDevice address = some d ∧
      cpu.bus.deviceLoad d address length = .ok (v, bus) ∧ cpu' = cpu.setBus bus) ∨
    (cpu.bus.findBusDevice address = none ∧ v = 0 ∧
      cpu' = cpu.setException .loadAccessFault 0) := by
  unfold load at h
  split at h
  next d hd =>
    obtain ⟨⟨w, bus⟩, hl, h⟩ := Except.bind_eq_ok_iff.mp h
    obtain ⟨rfl, rfl⟩ := Prod.mk.inj (Except.ok.inj h)
    exact .inl ⟨d, bus, hd, hl, rfl⟩
  next hd =>
    obtain ⟨rfl, rfl⟩ := Prod.mk.inj (Except.ok.inj h)
    exact .inr ⟨hd, rfl, rfl⟩

theorem store_cases {cpu cpu' : Cpu} {address value : Word} {length : Width}
    (h : store cpu address value length = .ok cpu') :
    (∃ d bus, cpu.bus.findBusDevice address = some d ∧
      cpu.bus.deviceStore d address value length = .ok bus ∧ cpu' = cpu.setBus bus) ∨
    (cpu.bus.findBusDevice address = none ∧ cpu' = cpu.setException .storeAccessFault 0) := by
  unfold store at h
  split at h
  next d hd =>
    obtain ⟨bus, hl, h⟩ := Except.bind_eq_ok_iff.mp h
    exact .inl ⟨d, bus, hd, hl, (Except.ok.inj h).symm⟩
  next hd => exact .inr ⟨hd, (Except.ok.inj h).symm⟩

theorem findBusDevice_range {bus : Bus} {address : Word} {d : DeviceId}
    (h : bus.findBusDevice address = some d) :
    bus.getBaseAddress d ≤ address ∧ address < bus.getEndAddress d := by
  simpa using List.find?_some h

/-- The RAM comes first, so an address in its range is served by it. -/
theorem findBusDevice_eq_ram_iff {bus : Bus} {address : Word} :
    bus.findBusDevice address = some .ram ↔
      bus.ram.baseAddr ≤ address ∧ address < bus.ram.endAddr := by
  constructor
  · intro h
    exact findBusDevice_range h
  · intro h
    simp [findBusDevice, busDevices, getBaseAddress, getEndAddress, h]

/-- Of all devices only the GPU is another one after a load. -/
theorem deviceLoad_cases {bus bus' : Bus} {d : DeviceId} {address v : Word} {length : Width}
    (h : bus.deviceLoad d address length = .ok (v, bus')) :
    bus' = bus ∨ ∃ g g', bus.gpu = some g ∧ g.load address length = .ok (v, g') ∧
      bus' = { bus with gpu := some g' } := by
  cases d with
  | gpu =>
    simp only [deviceLoad] at h
    split at h
    next g hg =>
      obtain ⟨⟨w, g'⟩, hl, h⟩ := Except.bind_eq_ok_iff.mp h
      obtain ⟨rfl, rfl⟩ := Prod.mk.inj (Except.ok.inj h)
      exact .inr ⟨g, g', hg, hl, rfl⟩
    next => cases h
  | virtio =>
    simp only [deviceLoad] at h
    split at h
    next =>
      obtain ⟨_, _, h⟩ := Except.bind_eq_ok_iff.mp h
      exact .inl (Prod.mk.inj (Except.ok.inj h)).2.symm
    next => cases h
  | syscon => exact .inl (Prod.mk.inj (Except.ok.inj h)).2.symm
  | _ =>
    obtain ⟨_, _, h⟩ := Except.bind_eq_ok_iff.mp h
    exact .inl (Prod.mk.inj (Except.ok.inj h)).2.symm

theorem deviceLoad_ram {bus bus' : Bus} {d : DeviceId} {address v : Word} {length : Width}
    (h : bus.deviceLoad d address length = .ok (v, bus')) : bus'.ram = bus.ram := by
  rcases deviceLoad_cases h with rfl | ⟨_, _, _, _, rfl⟩
  · rfl
  · rfl

/-- A store reaches one device, and that one alone is another one afterwards. -/
theorem deviceStore_cases {bus bus' : Bus} {d : DeviceId} {address value : Word} {length : Width}
    (h : bus.deviceStore d address value length = .ok bus') :
    (∃ ram, d = .ram ∧ bus.ram.store address value length = .ok ram ∧
      bus' = { bus with ram := ram }) ∨
    (∃ g g', d = .gpu ∧ bus.gpu = some g ∧ g.store address value length = .ok g' ∧
      bus' = { bus with gpu := some g' }) ∨
    (∃ plic, d = .plic ∧ bus' = { bus with plic := plic }) ∨
    (∃ clint, d = .clint ∧ bus' = { bus with clint := clint }) ∨
    (∃ v v', d = .virtio ∧ bus.virtio = some v ∧ v.store address value = .ok v' ∧
      bus' = { bus with virtio := some v' }) ∨
    (d = .syscon ∧ bus' = bus) := by
  cases d with
  | ram =>
    obtain ⟨ram, hs, h⟩ := Except.bind_eq_ok_iff.mp h
    exact .inl ⟨ram, rfl, hs, (Except.ok.inj h).symm⟩
  | gpu =>
    simp only [deviceStore] at h
    split at h
    next g hg =>
      obtain ⟨g', hs, h⟩ := Except.bind_eq_ok_iff.mp h
      exact .inr (.inl ⟨g, g', rfl, hg, hs, (Except.ok.inj h).symm⟩)
    next => cases h
  | plic =>
    obtain ⟨plic, _, h⟩ := Except.bind_eq_ok_iff.mp h
    exact .inr (.inr (.inl ⟨plic, rfl, (Except.ok.inj h).symm⟩))
  | clint =>
    obtain ⟨clint, _, h⟩ := Except.bind_eq_ok_iff.mp h
    exact .inr (.inr (.inr (.inl ⟨clint, rfl, (Except.ok.inj h).symm⟩)))
  | virtio =>
    simp only [deviceStore] at h
    split at h
    next v hv =>
      obtain ⟨v', hs, h⟩ := Except.bind_eq_ok_iff.mp h
      exact .inr (.inr (.inr (.inr (.inl ⟨v, v', rfl, hv, hs, (Except.ok.inj h).symm⟩))))
    next => cases h
  | syscon =>
    simp only [deviceStore] at h
    split at h
    next => cases h
    next => exact .inr (.inr (.inr (.inr (.inr ⟨rfl, (Except.ok.inj h).symm⟩))))

/-- Only a store to the RAM itself changes the RAM. -/
theorem deviceStore_ram {bus bus' : Bus} {d : DeviceId} {address value : Word} {length : Width}
    (h : bus.deviceStore d address value length = .ok bus') (hd : d ≠ .ram) :
    bus'.ram = bus.ram := by
  obtain ⟨_, rfl, _, _⟩ | ⟨_, _, _, _, _, rfl⟩ | ⟨_, _, rfl⟩ | ⟨_, _, rfl⟩ | ⟨_, _, _, _, _, rfl⟩ |
    ⟨_, rfl⟩ := deviceStore_cases h
  · exact absurd rfl hd
  all_goals rfl

end Bus

end Rv64gcEmu
