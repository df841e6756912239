import Rv64gcEmu.Clint
import Rv64gcEmu.MaskedView

namespace Rv64gcEmu

open LittleEndian (byteOf)

namespace ClintDevice

/-- The registers, each with the place and the number of its bytes. -/
inductive Register where
  | msip
  | mtimecmp
  | mtime
  deriving DecidableEq

namespace Register

def base : Register → Word
  | msip => ClintCfg.msipAddr
  | mtimecmp => ClintCfg.mtimecmpAddr
  | mtime => ClintCfg.mtimeAddr

def size : Register → Nat
  | msip => 4
  | mtimecmp => 8
  | mtime => 8

/-- All bytes of the access are bytes of the register. -/
def Inside (r : Register) (address : Word) (length : Width) : Prop :=
  r.base.toNat ≤ address.toNat ∧ address.toNat + length.bytes ≤ r.base.toNat + r.size

/-- No byte of the access is. -/
def Outside (r : Register) (address : Word) (length : Width) : Prop :=
  address.toNat + length.bytes ≤ r.base.toNat ∨ r.base.toNat + r.size ≤ address.toNat

/-- The place of the address in the register. -/
def offset (r : Register) (address : Word) : Nat := address.toNat - r.base.toNat

/-- The byte just past the register: the upper bound of its range is inclusive. -/
def past (r : Register) : Word := r.base + BitVec.ofNat 64 r.size

/-- The register that the device takes the address for. -/
def Reaches (r : Register) (address : Word) : Prop :=
  r.base.toNat ≤ address.toNat ∧ address.toNat ≤ r.base.toNat + r.size

theorem inRange_iff (r : Register) (address : Word) :
    Helper.valueInRangeInclusive address r.base r.past = true ↔ r.Reaches address := by
  have hpast : r.past.toNat = r.base.toNat + r.size := by cases r <;> rfl
  simp only [Helper.valueInRangeInclusive, Bool.and_eq_true, decide_eq_true_eq, BitVec.le_def, hpast]
  exact Iff.rfl

/-- The ranges of two registers do not meet, the byte past the end included. -/
theorem Reaches.unique {r q : Register} {address : Word} (h : r.Reaches address)
    (h' : q.Reaches address) : q = r := by
  have h1 : ClintCfg.msipAddr.toNat = 0x2000000 := rfl
  have h2 : ClintCfg.mtimecmpAddr.toNat = 0x2004000 := rfl
  have h3 : ClintCfg.mtimeAddr.toNat = 0x200bff8 := rfl
  unfold Reaches at h h'
  cases r <;> cases q <;> simp only [base, size, h1, h2, h3] at h h' <;> first | rfl | omega

theorem offset_eq {r : Register} {address : Word} (h : r.Reaches address) :
    ((address - r.base) * 8).toNat = 8 * r.offset address ∧ r.offset address ≤ 8 := by
  have hsize : r.size ≤ 8 := by cases r <;> decide
  have h8 : (8 : Word).toNat = 8 := rfl
  obtain ⟨hlo, hhi⟩ := h
  have hsub := BitVec.toNat_sub_of_le (BitVec.le_def.mpr hlo)
  unfold offset
  rw [BitVec.toNat_mul, hsub, h8]
  omega

end Register

def word (c : ClintDevice) : Register → Word
  | .msip => c.msip.setWidth 64
  | .mtimecmp => c.mtimecmp
  | .mtime => c.mtime

def setWord (c : ClintDevice) (r : Register) (v : Word) : ClintDevice :=
  match r with
  | .msip => { c with msip := v.setWidth 32 }
  | .mtimecmp => { c with mtimecmp := v }
  | .mtime => { c with mtime := v }

/-- A byte of a register. -/
def byte (c : ClintDevice) (r : Register) (k : Nat) : Byte := byteOf (c.word r) k

variable {c : ClintDevice} {r : Register} {address value : Word} {length : Width}

/-- The case distinction of both functions. -/
def atRegister {α : Type} (address : Word) (f : Register → α) (other : α) : α :=
  if Helper.valueInRangeInclusive address Register.msip.base Register.msip.past then f .msip
  else if Helper.valueInRangeInclusive address Register.mtimecmp.base Register.mtimecmp.past then
    f .mtimecmp
  else if Helper.valueInRangeInclusive address Register.mtime.base Register.mtime.past then f .mtime
  else other

theorem atRegister_of_reaches {α : Type} {f : Register → α} {other : α} (h : r.Reaches address) :
    atRegister address f other = f r := by
  have hother : ∀ q, q ≠ r → ¬Helper.valueInRangeInclusive address q.base q.past = true :=
    fun q hq hr => hq (h.unique ((q.inRange_iff address).mp hr))
  have hself := (r.inRange_iff address).mpr h
  unfold atRegister
  cases r with
  | msip => exact if_pos hself
  | mtimecmp =>
    rw [if_neg (hother .msip (by decide))]
    exact if_pos hself
  | mtime =>
    rw [if_neg (hother .msip (by decide)), if_neg (hother .mtimecmp (by decide))]
    exact if_pos hself

theorem atRegister_of_none {α : Type} {f : Register → α} {other : α}
    (h : ∀ r : Register, ¬r.Reaches address) : atRegister address f other = other := by
  have hnot : ∀ r : Register, ¬Helper.valueInRangeInclusive address r.base r.past = true :=
    fun r hr => h r ((r.inRange_iff address).mp hr)
  unfold atRegister
  rw [if_neg (hnot .msip), if_neg (hnot .mtimecmp), if_neg (hnot .mtime)]

theorem select_eq (c : ClintDevice) (address : Word) : c.select address =
    atRegister address (fun r => (c.word r, address - r.base)) (0, 0) := rfl

theorem store_eq (c : ClintDevice) (address value : Word) (length : Width) :
    c.store address value length =
      merge (c.select address).1 (c.select address).2 value length >>= fun v =>
        atRegister address (fun r => .ok (c.setWord r v)) (.ok c) := rfl

/-- The bits of an access that is not of 64 bits. -/
theorem lowMask_eq (hl : length ≠ .w64) :
    (1#64 <<< length.bits) - 1 = BitVec.ofNat 64 (2 ^ length.bits - 1) := by
  cases length with
  | w64 => exact absurd rfl hl
  | _ => decide

theorem bits_lt (hl : length ≠ .w64) : length.bits < 64 := by
  cases length with
  | w64 => exact absurd rfl hl
  | _ => decide

theorem read_byte (c : ClintDevice) (r : Register) (off : Nat) (hl : length ≠ .w64) :
    (c.word r >>> (8 * off)) &&& ((1#64 <<< length.bits) - 1) =
      LittleEndian.read (c.byte r) off length.bytes := by
  apply BitVec.eq_of_getLsbD_eq
  intro i hi
  have hbyte : 8 * (off + i / 8) + i % 8 = 8 * off + i := by omega
  have hmod : i % 8 < 8 := by omega
  rw [lowMask_eq hl, BitVec.getLsbD_and, BitField.getLsbD_lowMask, BitVec.getLsbD_ushiftRight,
    LittleEndian.getLsbD_read, byte, LittleEndian.getLsbD_byteOf, hbyte, Width.bits]
  simp [hi, hmod, Bool.and_comm]

/-- No load of 64 bits is defined. -/
theorem load_double (c : ClintDevice) (address : Word) :
    c.load address .w64 = .error .undefined := by
  unfold load
  simp only [checkShift]
  split
  next => rfl
  next => rfl

theorem load_of_reaches (c : ClintDevice) (h : r.Reaches address) (hl : length ≠ .w64) :
    c.load address length = if r.offset address < 8 then
      .ok (LittleEndian.read (c.byte r) (r.offset address) length.bytes) else .error .undefined := by
  have hbits : (BitVec.ofNat 64 length.bits).toNat < 64 := by
    rw [BitVec.toNat_ofNat]
    have := bits_lt hl
    omega
  obtain ⟨hshift, _⟩ := r.offset_eq h
  unfold load checkShift
  simp only [select_eq, atRegister_of_reaches h, hshift, hbits, if_true, Except.ok_bind]
  by_cases hoff : r.offset address < 8
  · have hlt : 8 * r.offset address < 64 := by omega
    rw [if_pos hoff, if_pos hlt, Except.ok_bind, c.read_byte r _ hl]
  · have hge : ¬8 * r.offset address < 64 := by omega
    rw [if_neg hoff, if_neg hge]
    rfl

theorem load_of_none (c : ClintDevice) (h : ∀ r : Register, ¬r.Reaches address)
    (hl : length ≠ .w64) : c.load address length = .ok 0 := by
  have hbits : (BitVec.ofNat 64 length.bits).toNat < 64 := by
    rw [BitVec.toNat_ofNat]
    have := bits_lt hl
    omega
  have hzero : ((0 : Word) * 8).toNat < 64 := by decide
  unfold load checkShift
  simp only [select_eq, atRegister_of_none h, hbits, hzero, if_true, Except.ok_bind]
  exact congrArg Except.ok BitVec.zero_and

/-- The load gives the addressed bytes of the register it is inside of, zero if it is outside
of all three, and something in any case. -/
structure LoadRight (c : ClintDevice) (address : Word) (length : Width) : Prop where
  total : ∃ v, c.load address length = .ok v
  inside : ∀ r : Register, r.Inside address length →
    c.load address length = .ok (LittleEndian.read (c.byte r) (r.offset address) length.bytes)
  outside : (∀ r : Register, r.Outside address length) → c.load address length = .ok 0

theorem Register.Inside.reaches (h : r.Inside address length) :
    r.Reaches address ∧ r.offset address + length.bytes ≤ r.size := by
  obtain ⟨hlo, hhi⟩ := h
  unfold Register.offset
  exact ⟨⟨hlo, by omega⟩, by omega⟩

/-- Only the byte just past a register is outside and taken for the register. -/
theorem Register.Outside.past (h : r.Outside address length) (hr : r.Reaches address) :
    r.offset address = r.size := by
  have hpos := length.bytes_pos
  obtain ⟨hlo, hhi⟩ := hr
  unfold Register.Outside at h
  unfold Register.offset
  omega

/-- That byte can be shifted to only where it follows the register of 32 bits. -/
theorem Register.Outside.msip (h : r.Outside address length) (hr : r.Reaches address)
    (hoff : r.offset address < 8) : r = .msip ∧ r.offset address = 4 := by
  have hsize := h.past hr
  cases r with
  | msip => exact ⟨rfl, hsize⟩
  | _ => exact absurd hoff (by rw [hsize]; decide)

theorem past_iff (h : r.Reaches address) : address = r.past ↔ r.offset address = r.size := by
  have hpast : r.past.toNat = r.base.toNat + r.size := by cases r <;> rfl
  obtain ⟨hlo, hhi⟩ := h
  unfold Register.offset
  rw [← BitVec.toNat_inj, hpast]
  omega

theorem reaches_past (r : Register) : r.Reaches r.past := by
  have hpast : r.past.toNat = r.base.toNat + r.size := by cases r <;> rfl
  unfold Register.Reaches
  rw [hpast]
  omega

/-- Below the byte just past them the registers of 64 bits have an offset that can be shifted by. -/
theorem offset_lt (hr : r.Reaches address) (hcmp : address ≠ Register.past .mtimecmp)
    (htime : address ≠ Register.past .mtime) : r.offset address < 8 := by
  have hsize : r.offset address ≤ r.size := by
    have hhi := hr.2
    unfold Register.offset
    omega
  cases r with
  | msip =>
    have h4 : Register.size .msip = 4 := rfl
    omega
  | mtimecmp =>
    have hne : Register.offset .mtimecmp address ≠ 8 := fun h => hcmp ((past_iff hr).mpr h)
    have h8 : Register.size .mtimecmp = 8 := rfl
    omega
  | mtime =>
    have hne : Register.offset .mtime address ≠ 8 := fun h => htime ((past_iff hr).mpr h)
    have h8 : Register.size .mtime = 8 := rfl
    omega

/-- A load is right exactly when it is not of 64 bits, and not just past one of the registers
of 64 bits. -/
theorem loadRight_iff (c : ClintDevice) (address : Word) (length : Width) :
    c.LoadRight address length ↔ length ≠ .w64 ∧
      address ≠ Register.past .mtimecmp ∧ address ≠ Register.past .mtime := by
  constructor
  · intro h
    obtain ⟨v, hv⟩ := h.total
    have hl : length ≠ .w64 := by
      rintro rfl
      rw [load_double] at hv
      cases hv
    refine ⟨hl, ?_, ?_⟩
    · rintro rfl
      rw [load_of_reaches c (reaches_past .mtimecmp) hl] at hv
      cases hv
    · rintro rfl
      rw [load_of_reaches c (reaches_past .mtime) hl] at hv
      cases hv
  · rintro ⟨hl, hcmp, htime⟩
    by_cases hr : ∃ r : Register, r.Reaches address
    · obtain ⟨r, hr⟩ := hr
      have hoff := offset_lt hr hcmp htime
      have hload := load_of_reaches c hr hl
      rw [if_pos hoff] at hload
      refine ⟨⟨_, hload⟩, fun q hq => ?_, fun hout => ?_⟩
      · obtain rfl := hr.unique hq.reaches.1
        exact hload
      · rw [hload]
        refine congrArg Except.ok ?_
        obtain ⟨rfl, hend⟩ := (hout r).msip hr hoff
        apply BitVec.eq_of_getLsbD_eq
        intro i hi
        rw [LittleEndian.getLsbD_read, hend, byte, LittleEndian.getLsbD_byteOf, word,
          BitVec.getLsbD_setWidth, BitVec.getLsbD_of_ge c.msip _ (by omega)]
        simp
    · have hnone : ∀ r : Register, ¬r.Reaches address := fun r h => hr ⟨r, h⟩
      have hload := load_of_none c hnone hl
      exact ⟨⟨_, hload⟩, fun q hq => absurd hq.reaches.1 (hnone q), fun _ => hload⟩

/-- The bytes of a register behind a store of less than 64 bits. -/
theorem byteOf_merge {w : Word} {off k : Nat} (hl : length ≠ .w64) (hoff : off < 8) (hk : k < 8) :
    byteOf ((w &&& ~~~(((1#64 <<< length.bits) - 1) <<< (8 * off))) |||
      ((value &&& ((1#64 <<< length.bits) - 1)) <<< (8 * off))) k =
      if off ≤ k ∧ k < off + length.bytes then byteOf value (k - off) else byteOf w k := by
  apply BitVec.eq_of_getLsbD_eq
  intro i hi
  have h64 : 8 * k + i < 64 := by omega
  have hbits : length.bits = 8 * length.bytes := rfl
  rw [lowMask_eq hl, LittleEndian.getLsbD_byteOf, BitVec.getLsbD_or, BitVec.getLsbD_and,
    BitVec.getLsbD_not, BitVec.getLsbD_shiftLeft, BitVec.getLsbD_shiftLeft, BitVec.getLsbD_and,
    BitField.getLsbD_lowMask]
  by_cases hlo : off ≤ k
  · have hge : ¬8 * k + i < 8 * off := by omega
    have hsub : 8 * k + i - 8 * off = 8 * (k - off) + i := by omega
    by_cases hhi : k < off + length.bytes
    · have hlt : 8 * (k - off) + i < length.bits := by omega
      have h64' : 8 * (k - off) + i < 64 := by omega
      rw [if_pos ⟨hlo, hhi⟩, LittleEndian.getLsbD_byteOf, hsub]
      simp [hi, h64, hge, hlt, h64']
    · have hnlt : ¬8 * (k - off) + i < length.bits := by omega
      rw [if_neg fun h => hhi h.2, LittleEndian.getLsbD_byteOf, hsub]
      simp [hi, h64, hnlt]
  · have hlt : 8 * k + i < 8 * off := by omega
    rw [if_neg fun h => hlo h.1, LittleEndian.getLsbD_byteOf]
    simp [hi, h64, hlt]

theorem byte_setWord (c : ClintDevice) (r q : Register) (v : Word) {k : Nat} (hk : k < q.size) :
    (c.setWord r v).byte q k = if q = r then byteOf v k else c.byte q k := by
  have hlow : r = .msip → k < r.size → byteOf ((v.setWidth 32).setWidth 64) k = byteOf v k := by
    rintro rfl h4
    have hsize : Register.size .msip = 4 := rfl
    apply BitVec.eq_of_getLsbD_eq
    intro i hi
    have h32 : 8 * k + i < 32 := by omega
    have h64 : 8 * k + i < 64 := by omega
    rw [LittleEndian.getLsbD_byteOf, LittleEndian.getLsbD_byteOf, BitVec.getLsbD_setWidth,
      BitVec.getLsbD_setWidth]
    simp [h32, h64]
  split
  next h =>
    subst h
    cases q with
    | msip => exact hlow rfl hk
    | mtimecmp => rfl
    | mtime => rfl
  next h => cases r <;> cases q <;> first | rfl | exact absurd rfl h

theorem store_of_none (c : ClintDevice) (h : ∀ r : Register, ¬r.Reaches address) (value : Word)
    (length : Width) : c.store address value length = .ok c := by
  have hzero : ((0 : Word) * 8).toNat < 64 := by decide
  rw [store_eq, select_eq, atRegister_of_none h]
  simp only [atRegister_of_none h]
  unfold merge checkShift
  simp only [if_pos hzero]
  split <;> rfl

theorem store_double_of_reaches (c : ClintDevice) (h : r.Reaches address) (value : Word) :
    c.store address value .w64 = .ok (c.setWord r value) := by
  rw [store_eq]
  simp only [atRegister_of_reaches h]
  rfl

theorem store_of_reaches (c : ClintDevice) (h : r.Reaches address) (value : Word)
    (hl : length ≠ .w64) : c.store address value length = if r.offset address < 8 then
      .ok (c.setWord r ((c.word r &&& ~~~(((1#64 <<< length.bits) - 1) <<< (8 * r.offset address))) |||
        ((value &&& ((1#64 <<< length.bits) - 1)) <<< (8 * r.offset address))))
      else .error .undefined := by
  obtain ⟨hshift, _⟩ := r.offset_eq h
  rw [store_eq, select_eq]
  simp only [atRegister_of_reaches h]
  unfold merge checkShift
  simp only [if_pos hl, hshift]
  by_cases hoff : r.offset address < 8
  · have hlt : 8 * r.offset address < 64 := by omega
    rw [if_pos hoff, if_pos hlt]
    rfl
  · have hge : ¬8 * r.offset address < 64 := by omega
    rw [if_neg hoff, if_neg hge]
    rfl

/-- Bits from 32 on are not stored in `msip`. -/
theorem setWord_msip_high (c : ClintDevice) (mask value : Word) :
    c.setWord .msip ((c.word .msip &&& ~~~(mask <<< (8 * 4))) ||| (value <<< (8 * 4))) = c := by
  have hlow : (((c.msip.setWidth 64) &&& ~~~(mask <<< (8 * 4))) |||
      (value <<< (8 * 4))).setWidth 32 = c.msip := by
    apply BitVec.eq_of_getLsbD_eq
    intro i hi
    have h64 : i < 64 := by omega
    simp only [BitVec.getLsbD_setWidth, BitVec.getLsbD_or, BitVec.getLsbD_and, BitVec.getLsbD_not,
      BitVec.getLsbD_shiftLeft, hi, h64, decide_true, Bool.true_and, Bool.not_true,
      Bool.false_and, Bool.not_false, Bool.and_true, Bool.or_false]
  exact congrArg (fun m => { c with msip := m }) hlow

/-- The store replaces the addressed bytes of the register it is inside of, changes nothing if
it is outside of all three, and has a result in any case. -/
structure StoreRight (c : ClintDevice) (address value : Word) (length : Width) : Prop where
  total : ∃ c', c.store address value length = .ok c'
  inside : ∀ r : Register, r.Inside address length →
    ∃ c', c.store address value length = .ok c' ∧ ∀ (q : Register) (k : Nat), k < q.size →
      c'.byte q k = if q = r ∧ r.offset address ≤ k ∧ k < r.offset address + length.bytes then
        byteOf value (k - r.offset address) else c.byte q k
  outside : (∀ r : Register, r.Outside address length) → c.store address value length = .ok c

/-- Just past a register a store of 64 bits must write what the register holds, and just past
those of 64 bits there must be no other. -/
def StoreMet (c : ClintDevice) (address value : Word) (length : Width) : Prop :=
  if length = .w64 then ∀ r : Register, address = r.past → c.setWord r value = c
  else address ≠ Register.past .mtimecmp ∧ address ≠ Register.past .mtime

theorem outside_past (r q : Register) (length : Width) : q.Outside r.past length := by
  have h1 : ClintCfg.msipAddr.toNat = 0x2000000 := rfl
  have h2 : ClintCfg.mtimecmpAddr.toNat = 0x2004000 := rfl
  have h3 : ClintCfg.mtimeAddr.toNat = 0x200bff8 := rfl
  have hle := length.bytes_le
  have hpast : r.past.toNat = r.base.toNat + r.size := by cases r <;> rfl
  unfold Register.Outside
  rw [hpast]
  cases r <;> cases q <;> simp only [Register.base, Register.size, h1, h2, h3] <;> omega

theorem storeRight_of_none (c : ClintDevice) (value : Word) (length : Width)
    (h : ∀ r : Register, ¬r.Reaches address) : c.StoreRight address value length := by
  have hstore := store_of_none c h value length
  exact ⟨⟨_, hstore⟩, fun q hq => absurd hq.reaches.1 (h q), fun _ => hstore⟩

theorem storeRight_double_iff (c : ClintDevice) (address value : Word) :
    c.StoreRight address value .w64 ↔ ∀ r : Register, address = r.past → c.setWord r value = c := by
  constructor
  · rintro h r rfl
    have hout := h.outside fun q => outside_past r q .w64
    rw [store_double_of_reaches c (reaches_past r)] at hout
    exact Except.ok.inj hout
  · intro h
    by_cases hr : ∃ r : Register, r.Reaches address
    · obtain ⟨r, hr⟩ := hr
      have hstore := store_double_of_reaches c hr value
      refine ⟨⟨_, hstore⟩, fun q hq => ⟨_, hstore, fun s k hk => ?_⟩, fun hout => ?_⟩
      · obtain ⟨hq', hend⟩ := hq.reaches
        obtain rfl := hr.unique hq'
        have hbytes : Width.w64.bytes = 8 := rfl
        have hsize : q.size ≤ 8 := by cases q <;> decide
        have hzero : q.offset address = 0 := by omega
        rw [byte_setWord c q s value hk, hzero, hbytes]
        by_cases hs : s = q
        · subst hs
          have hlt : k < 0 + 8 := by omega
          rw [if_pos rfl, if_pos ⟨rfl, Nat.zero_le k, hlt⟩]
          rfl
        · rw [if_neg hs, if_neg fun hx => hs hx.1]
      · rw [hstore, h r ((past_iff hr).mpr ((hout r).past hr))]
    · exact storeRight_of_none c value .w64 fun r h => hr ⟨r, h⟩

theorem byte_merge (c : ClintDevice) (r q : Register) {off k : Nat} (hl : length ≠ .w64)
    (hoff : off < 8) (hk : k < q.size) :
    (c.setWord r ((c.word r &&& ~~~(((1#64 <<< length.bits) - 1) <<< (8 * off))) |||
        ((value &&& ((1#64 <<< length.bits) - 1)) <<< (8 * off)))).byte q k =
      if q = r ∧ off ≤ k ∧ k < off + length.bytes then byteOf value (k - off) else c.byte q k := by
  have hsize : q.size ≤ 8 := by cases q <;> decide
  rw [byte_setWord c r q _ hk]
  by_cases hq : q = r
  · subst hq
    rw [if_pos rfl, byteOf_merge hl hoff (by omega)]
    simp only [true_and]
    rfl
  · rw [if_neg hq, if_neg fun hx => hq hx.1]

theorem storeRight_narrow_iff (c : ClintDevice) (address value : Word) (hl : length ≠ .w64) :
    c.StoreRight address value length ↔
      address ≠ Register.past .mtimecmp ∧ address ≠ Register.past .mtime := by
  constructor
  · intro h
    obtain ⟨c', hc⟩ := h.total
    constructor
    · rintro rfl
      rw [store_of_reaches c (reaches_past .mtimecmp) value hl] at hc
      cases hc
    · rintro rfl
      rw [store_of_reaches c (reaches_past .mtime) value hl] at hc
      cases hc
  · rintro ⟨hcmp, htime⟩
    by_cases hr : ∃ r : Register, r.Reaches address
    · obtain ⟨r, hr⟩ := hr
      have hoff := offset_lt hr hcmp htime
      have hstore := store_of_reaches c hr value hl
      rw [if_pos hoff] at hstore
      refine ⟨⟨_, hstore⟩, fun q hq => ?_, fun hout => ?_⟩
      · obtain rfl := hr.unique hq.reaches.1
        exact ⟨_, hstore, fun q' k hk => byte_merge c q q' hl hoff hk⟩
      · obtain ⟨rfl, hend⟩ := (hout r).msip hr hoff
        rw [hstore, hend, setWord_msip_high]
    · exact storeRight_of_none c value length fun r h => hr ⟨r, h⟩

theorem storeRight_iff (c : ClintDevice) (address value : Word) (length : Width) :
    c.StoreRight address value length ↔ c.StoreMet address value length := by
  unfold StoreMet
  split
  next hl =>
    subst hl
    exact storeRight_double_iff c address value
  next hl => exact storeRight_narrow_iff c address value hl

/-- The registers of the device are memory, but for loads of 64 bits and for what the inclusive
upper bounds of their ranges take in. -/
theorem bytes_iff (c : ClintDevice) (address value : Word) (length : Width) :
    (c.LoadRight address length ↔ length ≠ .w64 ∧
      address ≠ Register.past .mtimecmp ∧ address ≠ Register.past .mtime) ∧
    (c.StoreRight address value length ↔ c.StoreMet address value length) :=
  ⟨loadRight_iff c address length, storeRight_iff c address value length⟩

/-- The time cannot be loaded as a whole, a byte just past the compare register is shifted by 64
bits, and a store just past the software interrupt register changes it. -/
theorem bytes_not_memory :
    init.load ClintCfg.mtimeAddr .w64 = .error .undefined ∧
    init.store (ClintCfg.mtimecmpAddr + 8) 0 .w8 = .error .undefined ∧
    init.store (ClintCfg.msipAddr + 4) 1 .w64 = .ok { init with msip := 1 } ∧
    ¬init.LoadRight ClintCfg.mtimeAddr .w64 ∧
    ¬init.StoreRight (ClintCfg.mtimecmpAddr + 8) 0 .w8 ∧
    ¬init.StoreRight (ClintCfg.msipAddr + 4) 1 .w64 := by
  have hstore : init.store (ClintCfg.mtimecmpAddr + 8) 0 .w8 = .error .undefined := by decide
  refine ⟨by decide, hstore, by decide, fun h => ?_, fun h => ?_, fun h => ?_⟩
  · obtain ⟨v, hv⟩ := h.total
    rw [load_double] at hv
    cases hv
  · obtain ⟨c', hc⟩ := h.total
    rw [hstore] at hc
    cases hc
  · have hout := h.outside fun q => outside_past .msip q .w64
    exact absurd hout (by decide)

end ClintDevice

end Rv64gcEmu
