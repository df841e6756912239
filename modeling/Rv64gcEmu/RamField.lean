import Rv64gcEmu.PageTable

namespace Rv64gcEmu

namespace RamDevice

/-- The two bytes from an address on. -/
def half (ram : RamDevice) (address : Word) : BitVec 16 :=
  LittleEndian.read ram.data.get (address - ram.baseAddr).toNat 2

def single (ram : RamDevice) (address : Word) : BitVec 32 :=
  LittleEndian.read ram.data.get (address - ram.baseAddr).toNat 4

/-- The bytes of an access, as a word of that width. -/
def value (ram : RamDevice) (address : Word) (length : Width) : BitVec length.bits :=
  LittleEndian.read ram.data.get (address - ram.baseAddr).toNat length.bytes

/-- The RAM after a store that stays inside. -/
def put (ram : RamDevice) (address value : Word) (length : Width) : RamDevice :=
  { ram with
    data := { ram.data with
      get := LittleEndian.write ram.data.get (address - ram.baseAddr).toNat value length.bytes }
    size_eq := ram.size_eq }

variable {ram : RamDevice} {address : Word}

theorem Contains.mono {n m : Nat} (h : ram.Contains address n) (hm : m ≤ n) :
    ram.Contains address m := ⟨h.1, by have := h.2; omega⟩

theorem toNat_add_ofNat {n k : Nat} (h : ram.Contains address n) (hk : k < n) :
    (address + BitVec.ofNat 64 k).toNat = address.toNat + k := by
  have he := h.2
  have hlt := ram.endAddr.isLt
  rw [BitVec.toNat_add, BitVec.toNat_ofNat]
  omega

/-- A part of a range. -/
theorem Contains.part {n k m : Nat} (h : ram.Contains address n) (hm : 0 < m) (hk : k + m ≤ n) :
    ram.Contains (address + BitVec.ofNat 64 k) m := by
  have ht := toNat_add_ofNat h (by omega : k < n)
  refine ⟨?_, by rw [ht]; have := h.2; omega⟩
  rw [BitVec.le_def, ht]
  have := BitVec.le_def.mp h.1
  omega

theorem Contains.offset {n k : Nat} (h : ram.Contains address n) (hk : k < n) :
    (address + BitVec.ofNat 64 k - ram.baseAddr).toNat = (address - ram.baseAddr).toNat + k :=
  byteAt_add h.offset_le hk

theorem value_put (v : Word) (length : Width) :
    (ram.put address v length).value address length = v.setWidth length.bits :=
  LittleEndian.read_write_low _ _ _ _ rfl

/-- A byte that is not among those written. -/
theorem write_of_ge {n : Nat} {x : Word} (v : Word) (h : ¬(x - address).toNat < n) :
    LittleEndian.write ram.data.get (address - ram.baseAddr).toNat v n (x - ram.baseAddr).toNat =
      ram.byteAt x := by
  refine LittleEndian.write_of_not_mem _ _ fun ⟨hle, hlt⟩ => h ?_
  have hsub : x - address = (x - ram.baseAddr) - (address - ram.baseAddr) := by
    rw [BitVec.sub_sub, BitVec.add_comm, BitVec.sub_add_cancel]
  rw [hsub, BitVec.toNat_sub_of_le hle]
  omega

theorem byteAt_put {x : Word} {length : Width} (v : Word) (h : ¬(x - address).toNat < length.bytes) :
    (ram.put address v length).byteAt x = ram.byteAt x := write_of_ge v h

theorem byteAt_put_self (v : Word) : (ram.put address v .w8).byteAt address = LittleEndian.byteOf v 0 := by
  refine (LittleEndian.write_of_mem _ _ ⟨le_refl _, Nat.lt_succ_self _⟩).trans ?_
  rw [Nat.sub_self]

theorem byteAt_put_byte {x : Word} (v : Word) (h : x ≠ address) :
    (ram.put address v .w8).byteAt x = ram.byteAt x := by
  refine byteAt_put v fun hlt => h ?_
  have hz : x - address = 0#64 := BitVec.eq_of_toNat_eq (Nat.lt_one_iff.mp hlt)
  rw [← BitVec.sub_add_cancel x address, hz, BitVec.zero_add]

/-- A store inside a range keeps the bytes outside of it. -/
theorem byteAt_put_part {x : Word} {n k : Nat} {length : Width} (v : Word)
    (h : ram.Contains address n) (hk : k + length.bytes ≤ n)
    (hx : ¬(address.toNat ≤ x.toNat ∧ x.toNat < address.toNat + n)) :
    (ram.put (address + BitVec.ofNat 64 k) v length).byteAt x = ram.byteAt x := by
  refine byteAt_put v fun hlt => hx ?_
  have hadd : x = address + BitVec.ofNat 64 (k + (x - (address + BitVec.ofNat 64 k)).toNat) := by
    rw [BitVec.ofNat_add, ← BitVec.add_assoc, BitVec.ofNat_toNat, BitVec.setWidth_eq,
      BitVec.add_comm, BitVec.sub_add_cancel]
  have hnat := congrArg BitVec.toNat hadd
  rw [toNat_add_ofNat h (by omega)] at hnat
  omega

theorem byteAt_setWord {x : Word} (v : Word) (h : ¬(x - address).toNat < 8) :
    (ram.setWord address v).byteAt x = ram.byteAt x := write_of_ge v h

end RamDevice

namespace Bus

variable {cpu : Cpu} {address : Word}

theorem load_byte (h : cpu.bus.ram.Contains address 1) : ∃ v : Word,
    load cpu address .w8 = .ok (v, cpu) ∧ LittleEndian.byteOf v 0 = cpu.bus.ram.byteAt address :=
  ⟨_, load_ram h, LittleEndian.byteOf_read _ _ (by decide) (by decide)⟩

theorem load_half (h : cpu.bus.ram.Contains address 2) : ∃ v : Word,
    load cpu address .w16 = .ok (v, cpu) ∧ v.setWidth 16 = cpu.bus.ram.half address :=
  ⟨_, load_ram h, LittleEndian.setWidth_read _ _ _ (by decide)⟩

theorem load_single (h : cpu.bus.ram.Contains address 4) : ∃ v : Word,
    load cpu address .w32 = .ok (v, cpu) ∧ v.setWidth 32 = cpu.bus.ram.single address :=
  ⟨_, load_ram h, LittleEndian.setWidth_read _ _ _ (by decide)⟩

theorem store_ram (value : Word) {length : Width} (h : cpu.bus.ram.Contains address length.bytes) :
    store cpu address value length =
      .ok (cpu.setBus (cpu.bus.setRam (cpu.bus.ram.put address value length))) := by
  unfold store
  rw [findBusDevice_of_contains length.bytes_pos h]
  simp only [deviceStore, RamDevice.store_eq_ok_iff.mpr ⟨h.offset_le, rfl⟩]
  rfl

end Bus

end Rv64gcEmu
