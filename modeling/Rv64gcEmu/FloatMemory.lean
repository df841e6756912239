import Rv64gcEmu.InsnEffect
import Rv64gcEmu.RegisterOps
import Rv64gcEmu.TlbReuse

namespace Rv64gcEmu

namespace Mmu

end Mmu

theorem Csr.isFpuEnabled_congr {a b : Csr}
    (h : b.regs Address.mstatus = a.regs Address.mstatus) : b.isFpuEnabled = a.isFpuEnabled := by
  have hload : b.load Address.mstatus = a.load Address.mstatus := by
    change b.regs Address.mstatus ||| _ = a.regs Address.mstatus ||| _
    rw [h]
  unfold isFpuEnabled getFs readBits
  rw [hload]

namespace Mmu

/-- The address is translated for a store, without a fault, to bytes of the RAM. -/
structure StoreReaches (cpu : Cpu) (address : Word) (length : Width) (p : Word) (stored : Cpu) :
    Prop where
  translated : translate cpu address .store = .ok (p, stored)
  quiet : stored.excVal = none
  ram : cpu.bus.ram.Contains p length.bytes

/-- The state after a store that reaches the RAM. -/
def afterStore (stored : Cpu) (p value : Word) (length : Width) : Cpu :=
  stored.setBus (stored.bus.setRam (stored.bus.ram.put p value length))

variable {cpu stored c loaded : Cpu} {address p q value : Word} {length : Width}

theorem StoreReaches.store_eq (h : StoreReaches cpu address length p stored) (value : Word) :
    store cpu address value length = .ok (afterStore stored p value length) := by
  have hram := (translate_range h.translated).contains.mpr h.ram
  unfold store
  simp only [h.translated, Except.ok_bind, h.quiet, Option.isSome_none, Bool.false_eq_true,
    if_false, Bus.store_ram value hram]
  rfl

theorem load_read_of_translate (ht : translate cpu address .load = .ok (q, loaded))
    (hq : loaded.excVal = none) (hram : cpu.bus.ram.Contains q length.bytes) :
    load cpu address length = .ok (LittleEndian.read loaded.bus.ram.data.get
      (q - loaded.bus.ram.baseAddr).toNat length.bytes, loaded) := by
  have hl := Bus.load_ram ((translate_range ht).contains.mpr hram)
  unfold load
  simp only [ht, Except.ok_bind, hq, Option.isSome_none, Bool.false_eq_true, if_false]
  exact hl

theorem load_value_of_translate (ht : translate cpu address .load = .ok (q, loaded))
    (hq : loaded.excVal = none) (hram : cpu.bus.ram.Contains q length.bytes) :
    ∃ v, load cpu address length = .ok (v, loaded) ∧
      v.setWidth length.bits = loaded.bus.ram.value q length :=
  ⟨_, load_read_of_translate ht hq hram, LittleEndian.setWidth_read _ _ _ length.bits_le⟩

end Mmu

/-- The `funct3` of `FLW` and `FSW`, and of `FLD` and `FSD`. -/
def Fmt.memFunct3 : Fmt → BitVec 3
  | .single => 2
  | .double => 3

/-- The bits of the format in a register: a `float` has all ones above it. -/
def Fmt.box (v : Word) : Fmt → Word
  | .single => 0xffffffff#32 ++ v.setWidth 32
  | .double => v

theorem Fmt.boxed_eq (f : Fmt) (v : Word) :
    (if f = .single then v ||| 0xffffffff00000000 else v) = f.box v := by
  cases f with
  | single =>
    have hmask : ∀ i, i < 64 → (0xffffffff00000000 : Word).getLsbD i = decide (32 ≤ i) := by decide
    have hones : ∀ i, i < 32 → (0xffffffff#32).getLsbD i = true := by decide
    rw [if_pos rfl, box]
    apply BitVec.eq_of_getLsbD_eq
    intro i hi
    rw [BitVec.getLsbD_or, hmask i hi, BitVec.getLsbD_append, BitVec.getLsbD_setWidth]
    by_cases h32 : i < 32
    · have hn : ¬32 ≤ i := by omega
      simp [h32, hn]
    · have hn : 32 ≤ i := by omega
      rw [hones _ (by omega)]
      simp [h32, hn]
  | double => exact if_neg (by decide)

section Instructions

variable {cpu stored : Cpu} {d : Decoder} {f : Fmt} {p : Word}

theorem Fdimpl.checked_on {body : Cpu → Decoder → HostM Cpu} (hfs : cpu.cregs.isFpuEnabled = true) :
    checked body cpu d = (body cpu d >>= fun c => .ok (setExceptions c)) := by
  unfold checked
  rw [if_pos hfs]

theorem execute_fother (op : Cpu → Decoder → HostM Cpu) (hfs : cpu.cregs.isFpuEnabled = true)
    (ht : d.opcodeType = some .fother) (h7 : Fdtype.fotherOp d.funct7 = some op) :
    cpu.execute d = (op cpu d >>= fun c => .ok (4, Fdimpl.setExceptions c)) := by
  have hbody : cpu.execute32 d = Fdtype.fother cpu d := by rw [Cpu.execute32, ht]
  rw [Cpu.execute_of_type ht, hbody, Fdtype.fother, Fdimpl.checked_on hfs]
  simp only [h7, bind_assoc]
  rfl

theorem execute_fs (hfs : cpu.cregs.isFpuEnabled = true) (ht : d.opcodeType = some .fs)
    (h3 : d.funct3 = f.memFunct3) : cpu.execute d =
      (Mmu.store cpu (cpu.regs d.rs1 + d.fsOffset) (cpu.fregs d.rs2) f.length >>= fun c =>
        .ok (4, Fdimpl.setExceptions c)) := by
  have hbody : cpu.execute32 d = Fdimpl.checked (Fdimpl.fs f) cpu d := by
    rw [Cpu.execute32, ht]
    simp only [Fdtype.fs]
    unfold Fdimpl.checked
    cases f with
    | single => simp only [h3, Fmt.memFunct3]; rfl
    | double => simp only [h3, Fmt.memFunct3]; rfl
  rw [Cpu.execute_of_type ht, hbody, Fdimpl.checked_on hfs, bind_assoc]
  rfl

theorem execute_fl (hfs : cpu.cregs.isFpuEnabled = true) (ht : d.opcodeType = some .fl)
    (h3 : d.funct3 = f.memFunct3) : cpu.execute d =
      (Mmu.load cpu (cpu.regs d.rs1 + d.flOffset) f.length >>= fun r =>
        .ok (4, Fdimpl.setExceptions (r.2.setFreg d.rd (f.box r.1)))) := by
  have hbody : cpu.execute32 d = Fdimpl.checked (Fdimpl.fl f) cpu d := by
    rw [Cpu.execute32, ht]
    simp only [Fdtype.fl]
    unfold Fdimpl.checked
    cases f with
    | single => simp only [h3, Fmt.memFunct3]; rfl
    | double => simp only [h3, Fmt.memFunct3]; rfl
  rw [Cpu.execute_of_type ht, hbody, Fdimpl.checked_on hfs, Fdimpl.fl]
  simp only [bind_assoc, Except.ok_bind, Fmt.boxed_eq]

end Instructions

/-- The floating-point unit is on, and there is a base in `x6` and a number in `f7`. -/
def floatCpu : Cpu :=
  let cpu := Cpu.ofOperands 0x80000100 0
  (cpu.setCregs (cpu.cregs.setCell Address.mstatus 0x6000)).setFreg 7 0x400921fb54442d18

end Rv64gcEmu
