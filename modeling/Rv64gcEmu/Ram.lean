import Rv64gcEmu.HostModel

namespace Rv64gcEmu

/-- `RamDevice`; the vector has been resized to the length of the address range. -/
structure RamDevice where
  baseAddr : Word
  endAddr : Word
  data : ByteVec
  size_eq : data.size = (endAddr - baseAddr).toNat

namespace RamDevice

/-- The constructor without an image. -/
def init (romStartAddress romEndOffset : Word) : RamDevice where
  baseAddr := romStartAddress
  endAddr := romStartAddress + romEndOffset
  data := ByteVec.zeros romEndOffset.toNat
  size_eq := by
    simp only [ByteVec.zeros, BitVec.add_comm romStartAddress, BitVec.add_sub_cancel]

/-- The constructor with an image; `set_data` copies it without a look at its length. -/
def ofImage (romStartAddress romEndOffset : Word) (image : List Byte)
    (_ : image.length ≤ romEndOffset.toNat) : RamDevice :=
  { init romStartAddress romEndOffset with
    data := ⟨romEndOffset.toNat, fun i => image.getD i 0⟩
    size_eq := (init romStartAddress romEndOffset).size_eq }

def load (ram : RamDevice) (address : Word) (length : Width) : HostM Word :=
  ram.data.load (address - ram.baseAddr).toNat length

def store (ram : RamDevice) (address value : Word) (length : Width) : HostM RamDevice :=
  let off := (address - ram.baseAddr).toNat
  if off + length.bytes ≤ ram.data.size then
    .ok { ram with
      data := { ram.data with get := LittleEndian.write ram.data.get off value length.bytes }
      size_eq := ram.size_eq }
  else .error .undefined

/-- The byte of RAM at a physical address. -/
def byteAt (ram : RamDevice) (address : Word) : Byte := ram.data.get (address - ram.baseAddr).toNat

/-- All of `address, ..., address + n - 1` lie in the address range of the device. -/
def Contains (ram : RamDevice) (address : Word) (n : Nat) : Prop :=
  ram.baseAddr ≤ address ∧ address.toNat + n ≤ ram.endAddr.toNat

instance (ram : RamDevice) (address : Word) (n : Nat) : Decidable (ram.Contains address n) :=
  inferInstanceAs (Decidable (_ ∧ _))

theorem offset_toNat {ram : RamDevice} {address : Word} (h : ram.baseAddr ≤ address) :
    (address - ram.baseAddr).toNat = address.toNat - ram.baseAddr.toNat := by
  have := BitVec.le_def.mp h
  rw [BitVec.toNat_sub]
  omega

theorem Contains.offset_le {ram : RamDevice} {address : Word} {n : Nat}
    (h : ram.Contains address n) : (address - ram.baseAddr).toNat + n ≤ ram.data.size := by
  obtain ⟨hb, he⟩ := h
  have hle := BitVec.le_def.mp hb
  rw [offset_toNat hb, ram.size_eq, BitVec.toNat_sub]
  omega

/-- For an address inside the range, the host access stays in the vector exactly
when the whole guest access stays in the range. -/
theorem contains_iff_offset {ram : RamDevice} {address : Word} {n : Nat}
    (hb : ram.baseAddr ≤ address) (he : address < ram.endAddr) :
    ram.Contains address n ↔ (address - ram.baseAddr).toNat + n ≤ ram.data.size := by
  constructor
  · exact Contains.offset_le
  · intro h
    have hle := BitVec.le_def.mp hb
    have hlt := BitVec.lt_def.mp he
    rw [offset_toNat hb, ram.size_eq, BitVec.toNat_sub] at h
    exact ⟨hb, by omega⟩

/-- The bytes of RAM from an address on, one by one. -/
theorem byteAt_add {ram : RamDevice} {address : Word} {n k : Nat}
    (h : (address - ram.baseAddr).toNat + n ≤ ram.data.size) (hk : k < n) :
    (address + BitVec.ofNat 64 k - ram.baseAddr).toNat = (address - ram.baseAddr).toNat + k := by
  have hsize := ram.size_eq
  have hlt := (ram.endAddr - ram.baseAddr).isLt
  have hadd : address + BitVec.ofNat 64 k - ram.baseAddr =
      address - ram.baseAddr + BitVec.ofNat 64 k := by
    rw [BitVec.sub_eq_add_neg, BitVec.sub_eq_add_neg, BitVec.add_assoc, BitVec.add_assoc,
      BitVec.add_comm (BitVec.ofNat 64 k)]
  rw [hadd, BitVec.toNat_add, BitVec.toNat_ofNat]
  omega

theorem load_eq_ok_iff {ram : RamDevice} {address v : Word} {length : Width} :
    ram.load address length = .ok v ↔
      (address - ram.baseAddr).toNat + length.bytes ≤ ram.data.size ∧
        LittleEndian.read ram.data.get (address - ram.baseAddr).toNat length.bytes = v :=
  ByteVec.load_eq_ok_iff

theorem store_eq_ok_iff {ram ram' : RamDevice} {address value : Word} {length : Width} :
    ram.store address value length = .ok ram' ↔
      (address - ram.baseAddr).toNat + length.bytes ≤ ram.data.size ∧
        ram' = { ram with
          data := { ram.data with
            get := LittleEndian.write ram.data.get (address - ram.baseAddr).toNat value length.bytes }
          size_eq := ram.size_eq } := by
  unfold store
  rw [Except.ite_error_eq_ok_iff, Except.ok.injEq]
  constructor
  · rintro ⟨h, rfl⟩
    exact ⟨h, rfl⟩
  · rintro ⟨h, rfl⟩
    exact ⟨h, rfl⟩

end RamDevice

end Rv64gcEmu
