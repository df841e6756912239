import Rv64gcEmu.MemoryInsn
import Rv64gcEmu.PlicWords
import Rv64gcEmu.RegisterOps

namespace Rv64gcEmu

/-- The number fits into an access of the length. -/
def Width.Fits (length : Width) (v : Word) : Prop := v.toNat < 2 ^ length.bits

instance (length : Width) (v : Word) : Decidable (length.Fits v) :=
  inferInstanceAs (Decidable (_ < _))

namespace VirtioBlkDevice

/-- The number in a register of more than a byte. -/
def wide (d : VirtioBlkDevice) (address : Word) : Option Word :=
  let address := address - VirtioCfg.baseAddr
  if address = VirtioCfg.magicValue then some VirtioCfg.magic
  else if address = VirtioCfg.vendorId then some VirtioCfg.vendor
  else if address = VirtioCfg.deviceFeatures then
    if d.hostFeaturesSel.toNat < 2 then
      some ((d.hostFeatures d.hostFeaturesSel.toNat).setWidth 64)
    else none
  else if address = VirtioCfg.queueNumMax then some VirtioCfg.virtqueueMaxSize
  else if address = VirtioCfg.queuePfn then some (d.queuePfn.setWidth 64)
  else none

end VirtioBlkDevice

namespace SdlGpu

/-- The rows and columns of the terminal make a signed number. -/
def wide (g : SdlGpu) (address : Word) : Option Word :=
  if address = GpuCfg.fbChannels then some (g.channels.setWidth 64)
  else if address = GpuCfg.fbDimensions then some (((g.height <<< 16) ||| g.width).setWidth 64)
  else if address = GpuCfg.termDimensions then
    some (((g.termRows <<< 16) ||| g.termCols).signExtend 64)
  else none

end SdlGpu

namespace Bus

/-- The number that a load from the device gives whatever its length is. -/
def wide (bus : Bus) (device : DeviceId) (address : Word) : Option Word :=
  match device with
  | .gpu =>
    match bus.gpu with
    | some (.sdl g) => g.wide address
    | _ => none
  | .plic => (PlicWord.of address).map fun w => (w.1.get bus.plic).setWidth 64
  | .virtio => bus.virtio.bind fun d => d.wide address
  | _ => none

end Bus

theorem Width.fits_byte (length : Width) (b : Byte) : length.Fits (b.setWidth 64) := by
  have hb := b.isLt
  have h8 : 2 ^ 8 ≤ 2 ^ length.bits := by cases length <;> decide
  unfold Fits
  rw [BitVec.toNat_setWidth_of_le (by decide)]
  omega

theorem Width.fits_zero (length : Width) : length.Fits 0 := length.fits_byte 0

theorem Width.fits_read (length : Width) (mem : Nat → Byte) (off : Nat) :
    length.Fits (LittleEndian.read mem off length.bytes) := by
  have hle : length.bits ≤ 64 := length.bits_le
  have hr : (LittleEndian.read mem off length.bytes : BitVec length.bits).setWidth 64 =
      LittleEndian.read mem off length.bytes := LittleEndian.setWidth_read _ _ _ (Nat.le_refl _)
  unfold Fits
  rw [← hr, BitVec.toNat_setWidth_of_le hle]
  exact BitVec.isLt _

theorem ByteVec.load_fits {m : ByteVec} {off : Nat} {length : Width} {v : Word}
    (h : m.load off length = .ok v) : length.Fits v := by
  obtain ⟨_, rfl⟩ := ByteVec.load_eq_ok_iff.mp h
  exact length.fits_read _ _

theorem ClintDevice.load_fits {c : ClintDevice} {address v : Word} {length : Width}
    (h : c.load address length = .ok v) : length.Fits v := by
  obtain ⟨_, _, h⟩ := Except.bind_eq_ok_iff.mp h
  obtain ⟨_, hs, h⟩ := Except.bind_eq_ok_iff.mp h
  cases length with
  | w64 => cases hs
  | _ =>
    cases Except.ok.inj h
    unfold Width.Fits
    rw [BitVec.toNat_and]
    exact Nat.lt_of_le_of_lt Nat.and_le_right (by decide)

theorem Width.fits_ite {α : Type} {length : Width} {p : Prop} [Decidable p] {x y : Word × α}
    (hx : length.Fits x.1) (hy : length.Fits y.1) : length.Fits (if p then x else y).1 := by
  split
  next => exact hx
  next => exact hy

/-- Every register of the UART is a byte. -/
theorem Uart.load_fits (u : Uart) (address : Word) (length : Width) :
    length.Fits (u.load address).1 := by
  have hbyte : ∀ b : Byte, length.Fits (b.setWidth 64) := length.fits_byte
  exact Width.fits_ite (hbyte _) (Width.fits_ite (hbyte _) (Width.fits_ite (hbyte _)
    (Width.fits_ite (hbyte _) (Width.fits_ite (hbyte _) (Width.fits_ite (hbyte _)
      (Width.fits_ite (hbyte _) (Width.fits_ite (hbyte _) length.fits_zero)))))))

namespace SdlGpu

theorem load_wide {g : SdlGpu} {address w : Word} (length : Width) (h : g.wide address = some w) :
    g.load address length = .ok (w, g) := by
  unfold wide at h
  unfold load
  split at h
  next hc =>
    cases h
    rw [if_pos hc]
  next hc =>
    rw [if_neg hc]
    split at h
    next hd =>
      cases h
      rw [if_pos hd]
    next hd =>
      rw [if_neg hd]
      split at h
      next ht =>
        cases h
        rw [if_pos ht]
      next => cases h

theorem load_fits {g g' : SdlGpu} {address v : Word} {length : Width} (hw : g.wide address = none)
    (h : g.load address length = .ok (v, g')) : length.Fits v := by
  unfold wide at hw
  unfold load at h
  split at hw
  next => cases hw
  next hc =>
    rw [if_neg hc] at h
    split at hw
    next => cases hw
    next hd =>
      rw [if_neg hd] at h
      split at hw
      next => cases hw
      next ht =>
        rw [if_neg ht] at h
        split at h
        next =>
          obtain ⟨w, hl, h⟩ := Except.bind_eq_ok_iff.mp h
          obtain ⟨rfl, _⟩ := Prod.mk.inj (Except.ok.inj h)
          exact ByteVec.load_fits hl
        next =>
          split at h
          next =>
            obtain ⟨rfl, _⟩ := Prod.mk.inj (Except.ok.inj h)
            exact g.uart.load_fits address length
          next =>
            obtain ⟨rfl, _⟩ := Prod.mk.inj (Except.ok.inj h)
            exact length.fits_zero

end SdlGpu

namespace VirtioBlkDevice

theorem load_wide {d : VirtioBlkDevice} {address w : Word} (h : d.wide address = some w) :
    d.load address = .ok w := by
  unfold wide at h
  unfold load
  simp only at h ⊢
  split at h
  next ho => rw [ho]; exact congrArg Except.ok (Option.some.inj h)
  next =>
    split at h
    next ho => rw [ho]; exact congrArg Except.ok (Option.some.inj h)
    next =>
      split at h
      next ho =>
        split at h
        next hs =>
          have hindex : checkIndex 2 d.hostFeaturesSel.toNat = .ok () := if_pos hs
          rw [ho, hindex]
          exact congrArg Except.ok (Option.some.inj h)
        next => cases h
      next =>
        split at h
        next ho => rw [ho]; exact congrArg Except.ok (Option.some.inj h)
        next =>
          split at h
          next ho => rw [ho]; exact congrArg Except.ok (Option.some.inj h)
          next => cases h

/-- The registers in the order of `load`. -/
theorem load_fits {d : VirtioBlkDevice} {address v : Word} (length : Width)
    (hw : d.wide address = none) (h : d.load address = .ok v) : length.Fits v := by
  have hnot : ∀ w, d.wide address ≠ some w := by
    intro w
    rw [hw]
    exact (Option.some_ne_none w).symm
  unfold load at h
  simp only at h
  by_cases hconfig : VirtioCfg.config ≤ address - VirtioCfg.baseAddr
  · rw [if_pos hconfig] at h
    obtain ⟨_, _, h⟩ := Except.bind_eq_ok_iff.mp h
    cases Except.ok.inj h
    exact length.fits_byte _
  rw [if_neg hconfig] at h
  by_cases hmagic : address - VirtioCfg.baseAddr = VirtioCfg.magicValue
  · exact absurd (by rw [wide, hmagic]; rfl) (hnot VirtioCfg.magic)
  rw [if_neg hmagic] at h
  by_cases hversion : address - VirtioCfg.baseAddr = VirtioCfg.version
  · rw [if_pos hversion] at h
    cases Except.ok.inj h
    exact length.fits_byte 1
  rw [if_neg hversion] at h
  by_cases hid : address - VirtioCfg.baseAddr = VirtioCfg.deviceId
  · rw [if_pos hid] at h
    cases Except.ok.inj h
    exact length.fits_byte 2
  rw [if_neg hid] at h
  by_cases hvendor : address - VirtioCfg.baseAddr = VirtioCfg.vendorId
  · exact absurd (by rw [wide, hvendor]; rfl) (hnot VirtioCfg.vendor)
  rw [if_neg hvendor] at h
  by_cases hfeatures : address - VirtioCfg.baseAddr = VirtioCfg.deviceFeatures
  · rw [if_pos hfeatures] at h
    obtain ⟨_, hs, h⟩ := Except.bind_eq_ok_iff.mp h
    have hsel := (Except.ite_error_eq_ok_iff.mp hs).1
    refine absurd ?_ (hnot ((d.hostFeatures d.hostFeaturesSel.toNat).setWidth 64))
    rw [wide, hfeatures]
    exact if_pos hsel
  rw [if_neg hfeatures] at h
  by_cases hmax : address - VirtioCfg.baseAddr = VirtioCfg.queueNumMax
  · exact absurd (by rw [wide, hmax]; rfl) (hnot VirtioCfg.virtqueueMaxSize)
  rw [if_neg hmax] at h
  by_cases hpfn : address - VirtioCfg.baseAddr = VirtioCfg.queuePfn
  · exact absurd (by rw [wide, hpfn]; rfl) (hnot (d.queuePfn.setWidth 64))
  rw [if_neg hpfn] at h
  by_cases hisr : address - VirtioCfg.baseAddr = VirtioCfg.interruptStatus
  · rw [if_pos hisr] at h
    cases Except.ok.inj h
    exact length.fits_byte d.isr
  rw [if_neg hisr] at h
  by_cases hstatus : address - VirtioCfg.baseAddr = VirtioCfg.status
  · rw [if_pos hstatus] at h
    cases Except.ok.inj h
    exact length.fits_byte d.status
  rw [if_neg hstatus] at h
  cases Except.ok.inj h
  exact length.fits_zero

end VirtioBlkDevice

namespace Bus

variable {bus bus' : Bus} {device : DeviceId} {address v w : Word} {length : Width}

theorem deviceLoad_wide (length : Width) (h : bus.wide device address = some w) :
    ∃ bus', bus.deviceLoad device address length = .ok (w, bus') := by
  unfold wide at h
  unfold deviceLoad
  split at h
  next =>
    split at h
    next g hg =>
      rw [hg]
      simp only [GpuDevice.load, g.load_wide length h]
      exact ⟨_, rfl⟩
    next => cases h
  next =>
    obtain ⟨r, hr, rfl⟩ := Option.map_eq_some_iff.mp h
    simp only [bus.plic.load_eq, hr]
    exact ⟨_, rfl⟩
  next =>
    obtain ⟨d, hd, h⟩ := Option.bind_eq_some_iff.mp h
    rw [hd]
    simp only [VirtioBlkDevice.load_wide h]
    exact ⟨_, rfl⟩
  next => cases h

/-- Every other load keeps to its length. -/
theorem deviceLoad_fits (hw : bus.wide device address = none)
    (h : bus.deviceLoad device address length = .ok (v, bus')) : length.Fits v := by
  cases device with
  | ram =>
    obtain ⟨w, hl, h⟩ := Except.bind_eq_ok_iff.mp h
    obtain ⟨rfl, _⟩ := Prod.mk.inj (Except.ok.inj h)
    exact ByteVec.load_fits hl
  | gpu =>
    unfold wide at hw
    simp only [deviceLoad] at h
    cases hg : bus.gpu with
    | none =>
      rw [hg] at h
      cases h
    | some g =>
      rw [hg] at h hw
      obtain ⟨⟨x, g'⟩, hl, h⟩ := Except.bind_eq_ok_iff.mp h
      obtain ⟨rfl, _⟩ := Prod.mk.inj (Except.ok.inj h)
      cases g with
      | sdl g =>
        obtain ⟨⟨y, g''⟩, hs, he⟩ := Except.bind_eq_ok_iff.mp hl
        obtain ⟨rfl, _⟩ := Prod.mk.inj (Except.ok.inj he)
        exact SdlGpu.load_fits hw hs
      | nativeCli g =>
        obtain ⟨rfl, _⟩ := Prod.mk.inj (Except.ok.inj hl)
        exact g.uart.load_fits address length
  | plic =>
    obtain ⟨w, hl, h⟩ := Except.bind_eq_ok_iff.mp h
    obtain ⟨rfl, _⟩ := Prod.mk.inj (Except.ok.inj h)
    have hof : PlicWord.of address = none := Option.map_eq_none_iff.mp hw
    rw [bus.plic.load_eq, hof] at hl
    cases Except.ok.inj hl
    exact length.fits_zero
  | clint =>
    obtain ⟨w, hl, h⟩ := Except.bind_eq_ok_iff.mp h
    obtain ⟨rfl, _⟩ := Prod.mk.inj (Except.ok.inj h)
    exact ClintDevice.load_fits hl
  | virtio =>
    unfold wide at hw
    simp only [deviceLoad] at h
    cases hd : bus.virtio with
    | none =>
      rw [hd] at h
      cases h
    | some d =>
      rw [hd] at h hw
      obtain ⟨x, hl, h⟩ := Except.bind_eq_ok_iff.mp h
      obtain ⟨rfl, _⟩ := Prod.mk.inj (Except.ok.inj h)
      exact VirtioBlkDevice.load_fits length hw hl
  | syscon =>
    obtain ⟨rfl, _⟩ := Prod.mk.inj (Except.ok.inj h)
    exact length.fits_zero

end Bus

open LittleEndian (byteOf)

theorem byteOf_zero_iff (v : Word) : (byteOf v 0).setWidth 64 = v ↔ Width.w8.Fits v := by
  have hnat : ((byteOf v 0).setWidth 64).toNat = v.toNat % 2 ^ 8 := by
    rw [BitVec.toNat_setWidth_of_le (by decide)]
    exact BitVec.toNat_setWidth _ _
  unfold Width.Fits
  constructor
  · intro h
    have hv := congrArg BitVec.toNat h
    rw [hnat] at hv
    exact Nat.lt_of_lt_of_eq (hv ▸ Nat.mod_lt _ (by decide)) rfl
  · intro h
    apply BitVec.eq_of_toNat_eq
    rw [hnat]
    exact Nat.mod_eq_of_lt h

theorem byteOf_of_fits {v : Word} {k : Nat} (h : Width.w8.Fits v) (hk : 0 < k) : byteOf v k = 0 := by
  apply BitVec.eq_of_toNat_eq
  have hle : 2 ^ 8 ≤ 2 ^ (8 * k) := Nat.pow_le_pow_right (by decide) (by omega)
  have hlt : v.toNat < 2 ^ (8 * k) := Nat.lt_of_lt_of_le h hle
  rw [byteOf, BitVec.toNat_setWidth, BitVec.toNat_ushiftRight, Nat.shiftRight_eq_div_pow,
    Nat.div_eq_of_lt hlt]
  rfl

theorem byte_eq_zero_iff (b : Byte) : (0 : Word) = b.setWidth 64 ↔ b = 0 := by
  rw [eq_comm]
  exact BitField.setWidth_eq_zero_iff (by decide)

/-- A word that is one of its bytes is that byte, or zero. -/
theorem word_eq_byteOf_iff (v : Word) (k : Nat) :
    v = (byteOf v k).setWidth 64 ↔ Width.w8.Fits v ∧ (k = 0 ∨ v = 0) := by
  constructor
  · intro h
    have hfits : Width.w8.Fits v := by
      rw [h]
      exact Width.w8.fits_byte _
    refine ⟨hfits, ?_⟩
    by_cases hk : k = 0
    · exact .inl hk
    · rw [byteOf_of_fits hfits (by omega)] at h
      exact .inr h
  · rintro ⟨hfits, rfl | rfl⟩
    · exact ((byteOf_zero_iff v).mpr hfits).symm
    · refine (byte_eq_zero_iff _).mpr ?_
      by_cases hk : k = 0
      · subst hk
        rfl
      · exact byteOf_of_fits hfits (by omega)

/-- When a byte load at `k` in the word `x` gives that byte. From the arrays of the sources it gives
the whole word, from the others zero, unless `k` is zero. -/
def PlicWord.ByteAt (w : PlicWord) (x : Word) (k : Nat) : Prop :=
  match w with
  | .treshold _ | .claim _ => if k = 0 then Width.w8.Fits x else byteOf x k = 0
  | _ => Width.w8.Fits x ∧ (k = 0 ∨ x = 0)

namespace PlicDevice

/-- A byte load at an offset into the word gives that byte of it. -/
def LoadsByte (p : PlicDevice) (address : Word) (k : Nat) : Prop :=
  ∀ v b, p.load address = .ok v → p.load (address + BitVec.ofNat 64 k) = .ok b →
    b = (byteOf v k).setWidth 64

theorem loadsByte_iff (p : PlicDevice) {address : Word} {w : PlicWord} {k : Nat}
    (h : PlicWord.of address = some (w, 0)) (hk : k < 4) :
    p.LoadsByte address k ↔ w.ByteAt ((w.get p).setWidth 64) k := by
  have hload : p.load address = .ok ((w.get p).setWidth 64) := by rw [p.load_eq, h]
  have hiff : ∀ x : Word, p.load (address + BitVec.ofNat 64 k) = .ok x →
      (p.LoadsByte address k ↔ x = (byteOf ((w.get p).setWidth 64) k).setWidth 64) := by
    intro x hx
    constructor
    · intro hl
      exact hl _ _ hload hx
    · intro he v b hv hb
      rw [hload] at hv
      rw [hx] at hb
      cases Except.ok.inj hv
      cases Except.ok.inj hb
      exact he
  have hzero : address + BitVec.ofNat 64 0 = address := BitVec.add_zero address
  by_cases h0 : k = 0
  · subst h0
    rw [hiff _ (by rw [hzero]; exact hload), eq_comm, byteOf_zero_iff]
    unfold PlicWord.ByteAt
    cases w with
    | treshold c => simp only [if_true]
    | claim c => simp only [if_true]
    | _ => exact (and_iff_left (.inl rfl)).symm
  · have hof := PlicWord.of_add h (by omega) hk
    have hnext := p.load_eq (address + BitVec.ofNat 64 k)
    rw [hof] at hnext
    rw [hiff _ hnext]
    unfold PlicWord.ByteAt
    cases w with
    | treshold c =>
      simp only [if_neg h0]
      exact byte_eq_zero_iff _
    | claim c =>
      simp only [if_neg h0]
      exact byte_eq_zero_iff _
    | _ => exact word_eq_byteOf_iff _ _

end PlicDevice

namespace VirtioBlkDevice

def LoadsByte (d : VirtioBlkDevice) (address : Word) (k : Nat) : Prop :=
  ∀ v b, d.load address = .ok v → d.load (address + BitVec.ofNat 64 k) = .ok b →
    b = (byteOf v k).setWidth 64

variable {d : VirtioBlkDevice} {address : Word} {k : Nat}

/-- The number of bytes from the start of the window. -/
def offset (address : Word) : Nat := (address - VirtioCfg.baseAddr).toNat

theorem offset_add (hlt : offset address < 0x1000) (hk : k < 4) :
    offset (address + BitVec.ofNat 64 k) = offset address + k := by
  unfold offset at hlt ⊢
  have hadd : address + BitVec.ofNat 64 k - VirtioCfg.baseAddr =
      address - VirtioCfg.baseAddr + BitVec.ofNat 64 k := by
    rw [BitVec.sub_eq_add_neg, BitVec.sub_eq_add_neg, BitVec.add_assoc, BitVec.add_assoc,
      BitVec.add_comm (BitVec.ofNat 64 k)]
  rw [hadd, BitVec.toNat_add, BitVec.toNat_ofNat]
  omega

theorem load_config (h : 0x100 ≤ offset address) : d.load address =
    if offset address - 0x100 < 8 then .ok ((d.config (offset address - 0x100)).setWidth 64)
    else .error .undefined := by
  have hle : VirtioCfg.config ≤ address - VirtioCfg.baseAddr := BitVec.le_def.mpr h
  have hidx : (address - VirtioCfg.baseAddr - VirtioCfg.config).toNat = offset address - 0x100 :=
    BitVec.toNat_sub_of_le hle
  unfold load checkIndex
  simp only [if_pos hle, hidx]
  split
  next => rfl
  next => rfl

/-- Between the registers nothing is loaded. -/
theorem load_unaligned (h : offset address < 0x100) (hmod : offset address % 4 ≠ 0) :
    d.load address = .ok 0 := by
  have hne : ∀ c : Word, c.toNat % 4 = 0 → ¬address - VirtioCfg.baseAddr = c := by
    intro c hc he
    unfold offset at hmod
    rw [he] at hmod
    exact hmod hc
  have hle : ¬VirtioCfg.config ≤ address - VirtioCfg.baseAddr := by
    intro hc
    have hn := BitVec.le_def.mp hc
    change 0x100 ≤ offset address at hn
    omega
  unfold load
  simp only [if_neg hle, hne VirtioCfg.magicValue rfl, hne VirtioCfg.version rfl,
    hne VirtioCfg.deviceId rfl, hne VirtioCfg.vendorId rfl, hne VirtioCfg.deviceFeatures rfl,
    hne VirtioCfg.queueNumMax rfl, hne VirtioCfg.queuePfn rfl, hne VirtioCfg.interruptStatus rfl,
    hne VirtioCfg.status rfl, if_false]

/-- When a byte load at `k` in the register gives that byte: only the first byte of a register
is ever loaded. -/
def ByteAt (d : VirtioBlkDevice) (address : Word) (k : Nat) : Prop :=
  if offset address < 0x100 then
    ∀ x, d.wide address = some x → if k = 0 then Width.w8.Fits x else byteOf x k = 0
  else k = 0 ∨ 8 ≤ offset address - 0x100 + k ∨ d.config (offset address - 0x100 + k) = 0

theorem loadsByte_register_iff (hlt : offset address < 0x100) (hmod : offset address % 4 = 0)
    (hk : k < 4) : d.LoadsByte address k ↔
      ∀ x, d.wide address = some x → if k = 0 then Width.w8.Fits x else byteOf x k = 0 := by
  have hzero : address + BitVec.ofNat 64 0 = address := BitVec.add_zero address
  have hself : d.LoadsByte address 0 ↔ ∀ v, d.load address = .ok v → Width.w8.Fits v := by
    unfold LoadsByte
    simp only [hzero]
    constructor
    · intro h v hv
      exact (byteOf_zero_iff v).mp (h v v hv hv).symm
    · intro h v b hv hb
      rw [hv] at hb
      cases Except.ok.inj hb
      exact ((byteOf_zero_iff v).mpr (h v hv)).symm
  have hadd := @offset_add address _ (by omega) hk
  by_cases h0 : k = 0
  · subst h0
    rw [hself]
    simp only [if_true]
    cases hw : d.wide address with
    | none => exact iff_of_true (fun v hv => load_fits .w8 hw hv) fun x hx => by cases hx
    | some w =>
      rw [load_wide hw]
      simp only [Except.ok.injEq, Option.some.injEq]
  · have hnext : d.load (address + BitVec.ofNat 64 k) = .ok 0 :=
      load_unaligned (by omega) (by omega)
    unfold LoadsByte
    simp only [hnext, if_neg h0]
    cases hw : d.wide address with
    | none =>
      refine iff_of_true (fun v b hv hb => ?_) fun x hx => by cases hx
      cases Except.ok.inj hb
      rw [byteOf_of_fits (load_fits .w8 hw hv) (by omega)]
      rfl
    | some w =>
      rw [load_wide hw]
      simp only [Except.ok.injEq, Option.some.injEq]
      constructor
      · rintro h x rfl
        exact (byte_eq_zero_iff _).mp (h w 0 rfl rfl)
      · rintro h v b rfl rfl
        exact (byte_eq_zero_iff _).mpr (h w rfl)

theorem loadsByte_config_iff (hge : 0x100 ≤ offset address) (hlt : offset address < 0x1000)
    (hk : k < 4) : d.LoadsByte address k ↔
      (k = 0 ∨ 8 ≤ offset address - 0x100 + k ∨ d.config (offset address - 0x100 + k) = 0) := by
  have hadd := offset_add hlt hk
  have hnext := @load_config d _ (Nat.le_trans hge (hadd ▸ Nat.le_add_right _ k))
  have hindex : offset address + k - 0x100 = offset address - 0x100 + k := by omega
  rw [hadd, hindex] at hnext
  have hfirst := @load_config d _ hge
  have hbyte := Width.w8.fits_byte (d.config (offset address - 0x100))
  unfold LoadsByte
  by_cases h8 : offset address - 0x100 + k < 8
  · rw [hfirst, hnext, if_pos h8, if_pos (by omega)]
    simp only [Except.ok.injEq]
    by_cases h0 : k = 0
    · subst h0
      refine iff_of_true (fun v b hv hb => ?_) (.inl rfl)
      rw [← hv, ← hb, (byteOf_zero_iff _).mpr hbyte, Nat.add_zero]
    · constructor
      · intro h
        have he := h _ _ rfl rfl
        rw [byteOf_of_fits hbyte (by omega)] at he
        exact .inr (.inr ((byte_eq_zero_iff _).mp he.symm))
      · rintro (h | h | h) v b rfl rfl
        · exact absurd h h0
        · omega
        · rw [byteOf_of_fits hbyte (by omega), h]
  · refine iff_of_true (fun v b _ hb => ?_) (.inr (.inl (by omega)))
    rw [hnext, if_neg h8] at hb
    cases hb

theorem loadsByte_iff (hlt : offset address < 0x1000) (hmod : offset address % 4 = 0) (hk : k < 4) :
    d.LoadsByte address k ↔ d.ByteAt address k := by
  unfold ByteAt
  split
  next hreg => exact loadsByte_register_iff hreg hmod hk
  next hreg => exact loadsByte_config_iff (by omega) hlt hk

end VirtioBlkDevice

theorem Load.assign_of_quiet {cpu : Cpu} {rd : BitVec 5} {value : Word}
    (h : (assignIfNoException cpu rd value).excVal = none) :
    cpu.excVal = none ∧ assignIfNoException cpu rd value = cpu.setReg rd value := by
  unfold assignIfNoException at h ⊢
  split at h
  next hq =>
    rw [if_pos hq]
    exact ⟨hq, rfl⟩
  next hq => exact absurd h hq

namespace MemoryInsn

/-- The number that a load writes is a sign-extended one, or fits into the width. -/
def Bounded (length : Width) (signed : Bool) (v : Word) : Prop :=
  if signed then ∃ x : BitVec length.bits, v = x.signExtend 64 else length.Fits v

/-- What the load writes, if it completes, is bounded by its width. -/
def LoadsBounded (cpu : Cpu) (d : Decoder) (length : Width) (signed : Bool) : Prop :=
  ∀ after, cpu.execute d = .ok (4, after) → after.excVal = none →
    Bounded length signed (after.regs d.rd)

/-- The register that is addressed holds a number that fits into the width. -/
def AddressesNarrow (cpu : Cpu) (d : Decoder) (length : Width) : Prop :=
  ∀ p c device w, Mmu.translate cpu (cpu.regs d.rs1 + d.immI) .load = .ok (p, c) →
    c.excVal = none → c.bus.findBusDevice p = some device → c.bus.wide device p = some w →
      length.Fits w

theorem loadsBounded_iff {cpu : Cpu} {d : Decoder} {length : Width} {signed : Bool}
    (h : of d = some (.load length signed)) :
    LoadsBounded cpu d length signed ↔ signed = true ∨ AddressesNarrow cpu d length := by
  have hexec := execute_load cpu h
  cases signed with
  | true =>
    refine iff_of_true (fun after ha hq => ?_) (.inl rfl)
    rw [hexec] at ha
    obtain ⟨c, hl, ha⟩ := Except.bind_eq_ok_iff.mp ha
    cases (Prod.mk.inj (Except.ok.inj ha)).2
    obtain ⟨⟨v, c'⟩, _, hl⟩ := Except.bind_eq_ok_iff.mp hl
    cases Except.ok.inj hl
    obtain ⟨_, heq⟩ := Load.assign_of_quiet hq
    rw [heq]
    exact ⟨v.setWidth length.bits, Function.update_self ..⟩
  | false =>
    constructor
    · intro hb
      refine .inr fun p c device w ht hq hd hw => ?_
      obtain ⟨bus, hl⟩ := Bus.deviceLoad_wide length hw
      have hload : Mmu.load cpu (cpu.regs d.rs1 + d.immI) length = .ok (w, c.setBus bus) := by
        unfold Mmu.load Bus.load
        simp only [ht, Except.ok_bind, hq, Option.isSome_none, Bool.false_eq_true, if_false, hd, hl]
      have hassign : Load.assignIfNoException (c.setBus bus) d.rd w = (c.setBus bus).setReg d.rd w :=
        if_pos hq
      rw [Load.loadOp, hload] at hexec
      have hbound := hb ((c.setBus bus).setReg d.rd w) (hexec.trans (by rw [← hassign]; rfl)) hq
      rw [Cpu.setReg_regs, Function.update_self] at hbound
      exact hbound
    · rintro (hf | hn) after ha hq
      · cases hf
      rw [hexec] at ha
      obtain ⟨c, hl, ha⟩ := Except.bind_eq_ok_iff.mp ha
      cases (Prod.mk.inj (Except.ok.inj ha)).2
      obtain ⟨⟨v, c'⟩, hload, hl⟩ := Except.bind_eq_ok_iff.mp hl
      cases Except.ok.inj hl
      obtain ⟨hq', heq⟩ := Load.assign_of_quiet hq
      rw [heq, Cpu.setReg_regs, Function.update_self]
      obtain ⟨p, t, ht, ⟨hne, _, rfl⟩ | ⟨hqt, hbus⟩⟩ := Mmu.load_cases hload
      · exact absurd hq' hne
      · rcases Bus.load_cases hbus with ⟨device, bus, hd, hdev, rfl⟩ | ⟨_, _, rfl⟩
        · cases hw : t.bus.wide device p with
          | none => exact Bus.deviceLoad_fits hw hdev
          | some w =>
            obtain ⟨bus', hdev'⟩ := Bus.deviceLoad_wide length hw
            cases Except.ok.inj (hdev.symm.trans hdev')
            exact hn p t device v ht hqt hd hw
        · cases hq'

end MemoryInsn

/-- Narrow loads are bounded by their width but for the registers that are loaded whole; and the
bytes of those are bytes of the register if it holds a small number. -/
theorem narrowLoads_iff {cpu : Cpu} {d : Decoder} {length : Width} {signed : Bool}
    (h : MemoryInsn.of d = some (.load length signed)) :
    (MemoryInsn.LoadsBounded cpu d length signed ↔
      signed = true ∨ MemoryInsn.AddressesNarrow cpu d length) ∧
    (∀ address w k, PlicWord.of address = some (w, 0) → k < 4 →
      (cpu.bus.plic.LoadsByte address k ↔ w.ByteAt ((w.get cpu.bus.plic).setWidth 64) k)) ∧
    ∀ disk address k, cpu.bus.virtio = some disk → VirtioBlkDevice.offset address < 0x1000 →
      VirtioBlkDevice.offset address % 4 = 0 → k < 4 →
        (disk.LoadsByte address k ↔ disk.ByteAt address k) :=
  ⟨MemoryInsn.loadsBounded_iff h, fun _ _ _ hw hk => cpu.bus.plic.loadsByte_iff hw hk,
    fun _ _ _ _ hlt hmod hk => VirtioBlkDevice.loadsByte_iff hlt hmod hk⟩

/-- A processor with a disk, and its address in `x6`. -/
def diskCpu (address : Word) : Cpu :=
  (Cpu.init (RamDevice.init 0x80000000 0x1000) none (some (VirtioBlkDevice.init (ByteVec.zeros 0)))
    false ⟨true, true, default⟩).setReg 6 address

/-- `lbu x5, 0(x6)` of the magic number. -/
theorem narrowLoads_iff_magic :
    ¬MemoryInsn.LoadsBounded (diskCpu 0x10001000) ⟨0x00034283⟩ .w8 false := by
  have h := (@narrowLoads_iff (diskCpu 0x10001000) ⟨0x00034283⟩ .w8 false rfl).1
  rw [h]
  rintro (hf | hn)
  · cases hf
  · exact absurd (hn 0x10001000 (diskCpu 0x10001000) .virtio VirtioCfg.magic rfl rfl rfl rfl)
      (by decide)

theorem magic_not_bounded : ¬∀ (cpu : Cpu) (d : Decoder) (length : Width) (signed : Bool),
    MemoryInsn.of d = some (.load length signed) →
      MemoryInsn.LoadsBounded cpu d length signed := by
  intro h
  have hb := h (diskCpu 0x10001000) ⟨0x00034283⟩ .w8 false rfl
  rcases (MemoryInsn.loadsBounded_iff rfl).mp hb with hf | hn
  · cases hf
  · exact absurd (hn 0x10001000 (diskCpu 0x10001000) .virtio VirtioCfg.magic rfl rfl rfl rfl)
      (by decide)

end Rv64gcEmu
