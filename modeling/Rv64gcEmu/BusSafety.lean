import Rv64gcEmu.LoopCases

namespace Rv64gcEmu

namespace SdlGpu

/-- The address reaches the framebuffer branch of `load` and `store`. -/
def ReachesFramebuffer (g : SdlGpu) (address : Word) : Prop :=
  GpuCfg.fbStart ≤ address ∧ address < g.fbEnd

/-- The framebuffer is as long as its range of addresses, whatever its dimensions were set to. -/
theorem inside_framebuffer_iff {g : SdlGpu} {address : Word} {n : Nat}
    (h : g.ReachesFramebuffer address) :
    (address - GpuCfg.fbStart).toNat + n ≤ g.framebuffer.size ↔
      address.toNat + n ≤ g.fbEnd.toNat := by
  have hb := BitVec.le_def.mp h.1
  have he := BitVec.lt_def.mp h.2
  rw [g.fb_size, BitVec.toNat_sub, BitVec.toNat_sub]
  omega

end SdlGpu

namespace Bus

/-- All of the bytes `address, ..., address + n - 1` belong to a device. -/
def Inside (bus : Bus) (d : DeviceId) (address : Word) (n : Nat) : Prop :=
  bus.getBaseAddress d ≤ address ∧ address.toNat + n ≤ (bus.getEndAddress d).toNat

/-- The bytes that RAM and the framebuffer are asked for exist. -/
structure InBounds (bus : Bus) (address : Word) (length : Width) : Prop where
  ram : bus.findBusDevice address = some .ram →
    (address - bus.ram.baseAddr).toNat + length.bytes ≤ bus.ram.data.size
  framebuffer : ∀ g, bus.findBusDevice address = some .gpu → bus.gpu = some (.sdl g) →
    g.ReachesFramebuffer address →
      (address - GpuCfg.fbStart).toNat + length.bytes ≤ g.framebuffer.size

/-- A load stays in bounds, and is refused when no device holds all of it. -/
def SafeLoad (bus : Bus) (address : Word) (length : Width) : Prop :=
  bus.InBounds address length ∧
  ((∀ d ∈ bus.busDevices, ¬bus.Inside d address length.bytes) →
    ∀ cpu : Cpu, cpu.bus = bus →
      load cpu address length = .ok (0, cpu.setException .loadAccessFault 0))

def SafeStore (bus : Bus) (address value : Word) (length : Width) : Prop :=
  bus.InBounds address length ∧
  ((∀ d ∈ bus.busDevices, ¬bus.Inside d address length.bytes) →
    ∀ cpu : Cpu, cpu.bus = bus →
      store cpu address value length = .ok (cpu.setException .storeAccessFault 0))

/-- The first byte belongs to no device, or the access ends inside the device of its
first byte, and inside the framebuffer when it starts there. -/
def EndsInDevice (bus : Bus) (address : Word) (length : Width) : Prop :=
  ∀ d, bus.findBusDevice address = some d →
    address.toNat + length.bytes ≤ (bus.getEndAddress d).toNat ∧
    ∀ g, d = .gpu → bus.gpu = some (.sdl g) → g.ReachesFramebuffer address →
      address.toNat + length.bytes ≤ g.fbEnd.toNat

theorem findBusDevice_mem {bus : Bus} {address : Word} {d : DeviceId}
    (h : bus.findBusDevice address = some d) : d ∈ bus.busDevices :=
  List.mem_of_find?_eq_some h

/-- The ranges that are fixed by the configuration; that of RAM is not one of them. -/
def fixedRange : DeviceId → Nat × Nat
  | .ram => (0, 0)
  | .gpu => (0xf900000, 0x10000100)
  | .plic => (0xc000000, 0xc208000)
  | .clint => (0x2000000, 0x2010000)
  | .virtio => (0x10001000, 0x10002000)
  | .syscon => (0x5555, 0x7777)

theorem fixedRange_disjoint {d d' : DeviceId} (hne : d ≠ d') :
    (fixedRange d).2 ≤ (fixedRange d').1 ∨ (fixedRange d').2 ≤ (fixedRange d).1 := by
  cases d <;> cases d' <;> first | exact absurd rfl hne | decide

theorem mem_fixedRange {bus : Bus} {address : Word} {d : DeviceId} (hd : d ≠ .ram)
    (h : bus.getBaseAddress d ≤ address ∧ address < bus.getEndAddress d) :
    (fixedRange d).1 ≤ address.toNat ∧ address.toNat < (fixedRange d).2 := by
  have hb := BitVec.le_def.mp h.1
  have he := BitVec.lt_def.mp h.2
  cases d with
  | ram => exact absurd rfl hd
  | gpu => exact ⟨hb, he⟩
  | plic => exact ⟨hb, he⟩
  | clint => exact ⟨hb, he⟩
  | virtio => exact ⟨hb, he⟩
  | syscon => exact ⟨hb, he⟩

/-- No device but the one of the first byte can hold all of an access, RAM being asked first. -/
theorem eq_of_inside {bus : Bus} {address : Word} {d d' : DeviceId} {n : Nat} (hn : 0 < n)
    (hfind : bus.findBusDevice address = some d) (hd : d ≠ .ram)
    (h : bus.Inside d' address n) : d' = d := by
  have hrange : bus.getBaseAddress d' ≤ address ∧ address < bus.getEndAddress d' :=
    ⟨h.1, BitVec.lt_def.mpr (by have := h.2; omega)⟩
  have hd' : d' ≠ .ram := by
    rintro rfl
    have hram := findBusDevice_eq_ram_iff.mpr hrange
    exact hd (Option.some.inj (hfind.symm.trans hram))
  by_contra hne
  have h1 := mem_fixedRange hd (findBusDevice_range hfind)
  have h2 := mem_fixedRange hd' hrange
  have hdis := fixedRange_disjoint hne
  omega

theorem inBounds_of_endsInDevice {bus : Bus} {address : Word} {length : Width}
    (h : bus.EndsInDevice address length) : bus.InBounds address length where
  ram hr := RamDevice.Contains.offset_le ⟨(findBusDevice_range hr).1, (h _ hr).1⟩
  framebuffer g hd hg hfb := (SdlGpu.inside_framebuffer_iff hfb).mpr ((h _ hd).2 g rfl hg hfb)

/-- An access that ends in the device of its first byte is refused only if there is no such device. -/
theorem find_none_of_not_inside {bus : Bus} {address : Word} {length : Width}
    (h : bus.EndsInDevice address length)
    (hout : ∀ d ∈ bus.busDevices, ¬bus.Inside d address length.bytes) :
    bus.findBusDevice address = none := by
  cases hd : bus.findBusDevice address with
  | none => rfl
  | some d =>
    exact absurd ⟨(findBusDevice_range hd).1, (h d hd).1⟩ (hout d (findBusDevice_mem hd))

/-- Conversely, an access in bounds that is served is one that ends in its device. -/
theorem endsInDevice_of_inBounds {bus : Bus} {address : Word} {length : Width}
    (hb : bus.InBounds address length)
    (hout : (∀ d ∈ bus.busDevices, ¬bus.Inside d address length.bytes) →
      bus.findBusDevice address = none) : bus.EndsInDevice address length := by
  intro d hd
  refine ⟨?_, fun g hg hgpu hfb => ?_⟩
  · by_cases hram : d = .ram
    · subst hram
      have hr := findBusDevice_range hd
      exact ((RamDevice.contains_iff_offset hr.1 hr.2).mpr (hb.ram hd)).2
    · by_contra hend
      have hnone := hout fun d' _ hin => by
        obtain rfl := eq_of_inside length.bytes_pos hd hram hin
        exact hend hin.2
      rw [hd] at hnone
      cases hnone
  · subst hg
    exact (SdlGpu.inside_framebuffer_iff hfb).mp (hb.framebuffer g hd hgpu hfb)

/-- A machine on a given bus with nothing pending. -/
def quietCpu (bus : Bus) : Cpu :=
  (Cpu.init bus.ram bus.gpu bus.virtio bus.syscon ⟨true, true, default⟩).setBus bus

theorem load_refused_iff (bus : Bus) (address : Word) (length : Width) :
    (∀ cpu : Cpu, cpu.bus = bus →
      load cpu address length = .ok (0, cpu.setException .loadAccessFault 0)) ↔
      bus.findBusDevice address = none := by
  constructor
  · intro h
    rcases load_cases (h (quietCpu bus) rfl) with ⟨d, bus', _, _, he⟩ | ⟨hd, _⟩
    · have hexc := congrArg Cpu.excVal he
      cases hexc
    · exact hd
  · rintro h cpu rfl
    unfold load
    rw [h]

theorem store_refused_iff (bus : Bus) (address value : Word) (length : Width) :
    (∀ cpu : Cpu, cpu.bus = bus →
      store cpu address value length = .ok (cpu.setException .storeAccessFault 0)) ↔
      bus.findBusDevice address = none := by
  constructor
  · intro h
    rcases store_cases (h (quietCpu bus) rfl) with ⟨d, bus', _, _, he⟩ | ⟨hd, _⟩
    · have hexc := congrArg Cpu.excVal he
      cases hexc
    · exact hd
  · rintro h cpu rfl
    unfold store
    rw [h]

/-- Exactly the accesses that end in the device of their first byte are safe. -/
theorem safe_iff_endsInDevice (bus : Bus) (address : Word) (length : Width) :
    (bus.SafeLoad address length ↔ bus.EndsInDevice address length) ∧
    ∀ value, bus.SafeStore address value length ↔ bus.EndsInDevice address length := by
  refine ⟨?_, fun value => ?_⟩
  · unfold SafeLoad
    rw [load_refused_iff]
    exact ⟨fun h => endsInDevice_of_inBounds h.1 h.2,
      fun h => ⟨inBounds_of_endsInDevice h, find_none_of_not_inside h⟩⟩
  · unfold SafeStore
    rw [store_refused_iff]
    exact ⟨fun h => endsInDevice_of_inBounds h.1 h.2,
      fun h => ⟨inBounds_of_endsInDevice h, find_none_of_not_inside h⟩⟩

/-- A doubleword load from the last four bytes of RAM reads four bytes past its end. -/
theorem load_past_ram_end : ¬ ∀ (bus : Bus) (address : Word) (length : Width),
    bus.SafeLoad address length := by
  intro h
  have hb := (h (Cpu.ofImage [] (by decide)).bus 0x80000ffc .w64).1.ram (by decide)
  exact absurd hb (by decide)

end Bus

end Rv64gcEmu
