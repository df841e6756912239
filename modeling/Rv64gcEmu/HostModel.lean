import Rv64gcEmu.ExceptRules
import Rv64gcEmu.LittleEndian

namespace Rv64gcEmu

abbrev Byte := BitVec 8
abbrev Word := BitVec 64

/-- How the host program stops short of a result: undefined behaviour of the
C++ code (an access outside an object, a division or a shift without a defined
result), or a call of `exit`. Signed sums and products are taken to wrap. -/
inductive Halt where
  | undefined
  | exit
  deriving DecidableEq, Repr

abbrev HostM := Except Halt

/-- The lengths 8, 16, 32 and 64 passed to the bus. -/
inductive Width where
  | w8
  | w16
  | w32
  | w64
  deriving DecidableEq, Repr

def Width.bytes : Width → Nat
  | .w8 => 1
  | .w16 => 2
  | .w32 => 4
  | .w64 => 8

def Width.bits (w : Width) : Nat := 8 * w.bytes

theorem Width.bytes_pos (w : Width) : 0 < w.bytes := by cases w <;> decide

theorem Width.bytes_le (w : Width) : w.bytes ≤ 8 := by cases w <;> decide

theorem Width.bits_le (w : Width) : 8 * w.bytes ≤ 64 := by cases w <;> decide

/-- An index into an array of `size` elements; outside of it the host program is undefined. -/
def checkIndex (size idx : Nat) : HostM Unit :=
  if idx < size then .ok () else .error .undefined

/-- The amount of a shift of an operand of `width` bits. -/
def checkShift (width : Nat) (amount : Word) : HostM Unit :=
  if amount.toNat < width then .ok () else .error .undefined

/-- A signed division, for which the quotient must exist. -/
def checkSignedDiv {w : Nat} (dividend divisor : BitVec w) : HostM Unit :=
  if divisor = 0 ∨ (dividend = BitVec.intMin w ∧ divisor = -1) then .error .undefined else .ok ()

def checkUnsignedDiv {w : Nat} (divisor : BitVec w) : HostM Unit :=
  if divisor = 0 then .error .undefined else .ok ()

/-- A `std::vector<uint8_t>` (or a `uint8_t[]`) of the host. -/
structure ByteVec where
  size : Nat
  get : Nat → Byte

/-- `*reinterpret_cast<T*>(data + off)` on a little-endian host. -/
def ByteVec.load (v : ByteVec) (off : Nat) (w : Width) : HostM Word :=
  if off + w.bytes ≤ v.size then .ok (LittleEndian.read v.get off w.bytes) else .error .undefined

def ByteVec.store (v : ByteVec) (off : Nat) (value : Word) (w : Width) : HostM ByteVec :=
  if off + w.bytes ≤ v.size then .ok { v with get := LittleEndian.write v.get off value w.bytes }
  else .error .undefined

/-- `std::make_unique<uint8_t[]>(n)`. -/
def ByteVec.zeros (n : Nat) : ByteVec := ⟨n, fun _ => 0⟩

theorem ByteVec.load_eq_ok_iff {v : ByteVec} {off : Nat} {w : Width} {x : Word} :
    v.load off w = .ok x ↔ off + w.bytes ≤ v.size ∧ LittleEndian.read v.get off w.bytes = x := by
  unfold ByteVec.load
  rw [Except.ite_error_eq_ok_iff, Except.ok.injEq]

theorem ByteVec.store_eq_ok_iff {v v' : ByteVec} {off : Nat} {value : Word} {w : Width} :
    v.store off value w = .ok v' ↔ off + w.bytes ≤ v.size ∧
      { v with get := LittleEndian.write v.get off value w.bytes } = v' := by
  unfold ByteVec.store
  rw [Except.ite_error_eq_ok_iff, Except.ok.injEq]

end Rv64gcEmu
