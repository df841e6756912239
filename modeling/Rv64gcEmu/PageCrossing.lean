import Rv64gcEmu.LoopCases
import Rv64gcEmu.PageTable

namespace Rv64gcEmu

namespace Mmu

/-- The address is mapped to a byte of RAM; the translation leaves `after` behind. -/
structure Maps (cpu : Cpu) (address : Word) (accessType : AccessType) (p : Word) (after : Cpu) :
    Prop where
  translate : translate cpu address accessType = .ok (p, after)
  exc : after.excVal = none
  ram : after.bus.ram.Contains p 1

/-- The page of the address is not accessible. -/
def Refused (cpu : Cpu) (address : Word) (accessType : AccessType) : Prop :=
  ∃ after, translate cpu address accessType = .ok (0, after) ∧
    after.excVal = some (pageFault accessType)

def Touch (cpu : Cpu) (address : Word) (accessType : AccessType) : Prop :=
  (∃ p after, Maps cpu address accessType p after) ∨ Refused cpu address accessType

/-- Byte `k` of an access. -/
abbrev byteAddr (address : Word) (k : Nat) : Word := address + BitVec.ofNat 64 k

theorem Maps.unique {cpu after after' : Cpu} {address p p' : Word} {accessType : AccessType}
    (h : Maps cpu address accessType p after) (h' : Maps cpu address accessType p' after') :
    p' = p ∧ after' = after := by
  have he := h'.translate.symm.trans h.translate
  exact Prod.mk.inj (Except.ok.inj he)

theorem Maps.not_refused {cpu after : Cpu} {address p : Word} {accessType : AccessType}
    (h : Maps cpu address accessType p after) : ¬Refused cpu address accessType := by
  rintro ⟨c, ht, he⟩
  obtain ⟨_, rfl⟩ := Prod.mk.inj (Except.ok.inj (ht.symm.trans h.translate))
  rw [h.exc] at he
  cases he

/-- A page fault leaves the RAM as it was. -/
theorem translate_ram_of_fault {cpu after : Cpu} {address p : Word} {accessType : AccessType}
    (h : translate cpu address accessType = .ok (p, after)) (hexc : cpu.excVal = none)
    (hf : after.excVal = some (pageFault accessType)) : after.bus.ram = cpu.bus.ram := by
  unfold translate at h
  split at h
  next =>
    obtain ⟨_, rfl⟩ := Prod.mk.inj (Except.ok.inj h)
    rfl
  next =>
    split at h
    next =>
      obtain ⟨_, rfl⟩ := Prod.mk.inj (Except.ok.inj h)
      rfl
    next =>
      obtain ⟨⟨found, c⟩, hg, h⟩ := Except.bind_eq_ok_iff.mp h
      have w := getTlbEntry_frame hg
      cases found with
      | none =>
        obtain ⟨_, rfl⟩ := Prod.mk.inj (Except.ok.inj h)
        exact w.ram
      | some i =>
        have hq := (w.quiet rfl).1
        simp only at h
        split at h
        next =>
          obtain ⟨_, rfl⟩ := Prod.mk.inj (Except.ok.inj h)
          exact w.ram
        next =>
          split at h
          next =>
            obtain ⟨c', hs, h⟩ := Except.bind_eq_ok_iff.mp h
            obtain ⟨_, rfl⟩ := Prod.mk.inj (Except.ok.inj h)
            rcases Bus.store_exc hs with he | ⟨he, hb⟩
            · rw [he] at hf
              exact absurd (hf.symm.trans (hq.trans hexc)) (by simp)
            · rw [hb]
              exact w.ram
          next =>
            obtain ⟨_, rfl⟩ := Prod.mk.inj (Except.ok.inj h)
            exact w.ram

/-- A read of `n` bytes: every byte comes from the translation of its own address, and a
page that is not accessible makes the access fault. -/
def ReadsRight (cpu : Cpu) (address : Word) (accessType : AccessType) (n : Nat)
    (result : HostM (Word × Cpu)) : Prop :=
  ((∀ k, k < n → ∃ p after, Maps cpu (byteAddr address k) accessType p after) →
    ∃ v after, result = .ok (v, after) ∧ after.excVal = none ∧
      ∀ k, k < n → ∀ p c, Maps cpu (byteAddr address k) accessType p c →
        LittleEndian.byteOf v k = after.bus.ram.byteAt p) ∧
  ((∃ k, k < n ∧ Refused cpu (byteAddr address k) accessType) →
    ∃ v after, result = .ok (v, after) ∧ after.excVal = some (pageFault accessType) ∧
      after.bus.ram = cpu.bus.ram)

/-- The physical bytes that follow the first one are those of the translations, or happen
to be equal to them. -/
def ReadsThrough (cpu : Cpu) (address : Word) (accessType : AccessType) (n : Nat) : Prop :=
  ∀ p₀ c₀, Maps cpu address accessType p₀ c₀ → c₀.bus.ram.Contains p₀ n ∧
    ∀ k, k < n → ∃ p c, Maps cpu (byteAddr address k) accessType p c ∧
      (p = byteAddr p₀ k ∨ c₀.bus.ram.byteAt p = c₀.bus.ram.byteAt (byteAddr p₀ k))

theorem load_of_maps {cpu c₀ : Cpu} {address p₀ : Word} {accessType : AccessType}
    (h : Maps cpu address accessType p₀ c₀) (length : Width) :
    Bus.load c₀ p₀ length =
      if c₀.bus.ram.Contains p₀ length.bytes then
        .ok (LittleEndian.read c₀.bus.ram.data.get (p₀ - c₀.bus.ram.baseAddr).toNat length.bytes, c₀)
      else .error .undefined := by
  split
  next hin => exact Bus.load_ram hin
  next hout =>
    have hlt : p₀ < c₀.bus.ram.endAddr := by
      have he := h.ram.2
      rw [BitVec.lt_def]
      omega
    unfold Bus.load
    rw [Bus.findBusDevice_of_contains (by omega) h.ram]
    simp only [Bus.deviceLoad, RamDevice.load, ByteVec.load]
    rw [if_neg fun hle => hout ((RamDevice.contains_iff_offset h.ram.1 hlt).mpr hle)]
    rfl

theorem byteOf_read_ram {ram : RamDevice} {p : Word} {length : Width} {k : Nat}
    (h : ram.Contains p length.bytes) (hk : k < length.bytes) :
    LittleEndian.byteOf (LittleEndian.read ram.data.get (p - ram.baseAddr).toNat length.bytes : Word) k =
      ram.byteAt (byteAddr p k) := by
  rw [LittleEndian.byteOf_read _ _ hk length.bits_le, RamDevice.byteAt,
    RamDevice.byteAt_add h.offset_le hk]

/-- A read through the translation of its first byte is right exactly when the bytes
behind that one are. -/
theorem readsRight_iff {cpu : Cpu} {address : Word} {accessType : AccessType} (length : Width)
    {result : HostM (Word × Cpu)} (hexc : cpu.excVal = none)
    (hmaps : ∀ p₀ c₀, Maps cpu address accessType p₀ c₀ → result = Bus.load c₀ p₀ length)
    (hrefused : ∀ c, translate cpu address accessType = .ok (0, c) →
      c.excVal = some (pageFault accessType) → result = .ok (0, c))
    (htouch : ∀ k, k < length.bytes → Touch cpu (byteAddr address k) accessType) :
    ReadsRight cpu address accessType length.bytes result ↔
      ReadsThrough cpu address accessType length.bytes := by
  have hzero : byteAddr address 0 = address := BitVec.add_zero address
  constructor
  · rintro ⟨hall, hsome⟩ p₀ c₀ h₀
    have hres := (hmaps p₀ c₀ h₀).trans (load_of_maps h₀ length)
    have hin : c₀.bus.ram.Contains p₀ length.bytes := by
      by_contra hout
      rw [if_neg hout] at hres
      have hok : ∃ v after, result = .ok (v, after) := by
        by_cases href : ∃ k, k < length.bytes ∧ Refused cpu (byteAddr address k) accessType
        · obtain ⟨v, after, hr, _⟩ := hsome href
          exact ⟨v, after, hr⟩
        · obtain ⟨v, after, hr, _⟩ := hall fun k hk =>
            (htouch k hk).resolve_right fun hr => href ⟨k, hk, hr⟩
          exact ⟨v, after, hr⟩
      obtain ⟨v, after, hr⟩ := hok
      rw [hres] at hr
      cases hr
    rw [if_pos hin] at hres
    have hmapped : ∀ k, k < length.bytes → ∃ p c, Maps cpu (byteAddr address k) accessType p c := by
      intro k hk
      refine (htouch k hk).resolve_right fun hr => ?_
      obtain ⟨v, after, hr', hexc', _⟩ := hsome ⟨k, hk, hr⟩
      obtain ⟨_, rfl⟩ := Prod.mk.inj (Except.ok.inj (hr'.symm.trans hres))
      rw [h₀.exc] at hexc'
      cases hexc'
    refine ⟨hin, fun k hk => ?_⟩
    obtain ⟨p, c, hp⟩ := hmapped k hk
    obtain ⟨v, after, hr, _, hbytes⟩ := hall hmapped
    obtain ⟨rfl, rfl⟩ := Prod.mk.inj (Except.ok.inj (hr.symm.trans hres))
    refine ⟨p, c, hp, .inr ?_⟩
    rw [← hbytes k hk p c hp, byteOf_read_ram hin hk]
  · intro hthrough
    rcases hzero ▸ htouch 0 length.bytes_pos with ⟨p₀, c₀, h₀⟩ | ⟨c, hc, hf⟩
    · obtain ⟨hin, hbytes⟩ := hthrough p₀ c₀ h₀
      have hres := (hmaps p₀ c₀ h₀).trans (Bus.load_ram hin)
      refine ⟨fun _ => ⟨_, _, hres, h₀.exc, fun k hk p c hp => ?_⟩, ?_⟩
      · rw [byteOf_read_ram hin hk]
        obtain ⟨p', c', hp', hsame⟩ := hbytes k hk
        obtain ⟨rfl, _⟩ := hp'.unique hp
        rcases hsame with rfl | hsame
        · rfl
        · exact hsame.symm
      · rintro ⟨k, hk, hr⟩
        obtain ⟨p', c', hp', _⟩ := hbytes k hk
        exact absurd hr hp'.not_refused
    · refine ⟨fun hall => ?_, fun _ => ⟨_, _, hrefused c hc hf, hf, translate_ram_of_fault hc hexc hf⟩⟩
      obtain ⟨p, c', hp⟩ := hall 0 length.bytes_pos
      rw [hzero] at hp
      exact absurd ⟨c, hc, hf⟩ hp.not_refused

theorem load_of_translate {cpu c₀ : Cpu} {address p₀ : Word} {length : Width}
    (h : translate cpu address .load = .ok (p₀, c₀)) :
    load cpu address length = if c₀.excVal.isSome then .ok (0, c₀) else Bus.load c₀ p₀ length := by
  unfold load
  rw [h]
  rfl

theorem loadsRight_iff {cpu : Cpu} {address : Word} {length : Width} (hexc : cpu.excVal = none)
    (htouch : ∀ k, k < length.bytes → Touch cpu (byteAddr address k) .load) :
    ReadsRight cpu address .load length.bytes (load cpu address length) ↔
      ReadsThrough cpu address .load length.bytes := by
  refine readsRight_iff length hexc (fun p₀ c₀ h₀ => ?_) (fun c hc hf => ?_) htouch
  · rw [load_of_translate h₀.translate, h₀.exc]
    rfl
  · rw [load_of_translate hc, hf]
    rfl

theorem fetchesRight_iff {cpu : Cpu} {address : Word} (hexc : cpu.excVal = none)
    (htouch : ∀ k, k < 4 → Touch cpu (byteAddr address k) .instruction) :
    ReadsRight cpu address .instruction 4 (fetch cpu address) ↔
      ReadsThrough cpu address .instruction 4 := by
  refine readsRight_iff .w32 hexc (fun p₀ c₀ h₀ => ?_) (fun c hc hf => ?_) htouch
  · unfold fetch
    rw [h₀.translate, Except.ok_bind]
    simp only [h₀.exc, Option.isSome_none, Bool.false_eq_true, if_false, load_of_maps h₀]
    split
    next =>
      simp only [Except.ok_bind, h₀.exc]
      rfl
    next => rfl
  · unfold fetch
    rw [hc, Except.ok_bind]
    simp only [hf]
    rfl

/-- A write of `n` bytes, whatever the value. -/
def StoresRight (cpu : Cpu) (address : Word) (length : Width) : Prop :=
  ((∀ k, k < length.bytes → ∃ p after, Maps cpu (byteAddr address k) .store p after) →
    ∀ value, ∃ after, store cpu address value length = .ok after ∧ after.excVal = none ∧
      ∀ k, k < length.bytes → ∀ p c, Maps cpu (byteAddr address k) .store p c →
        after.bus.ram.byteAt p = LittleEndian.byteOf value k) ∧
  ((∃ k, k < length.bytes ∧ Refused cpu (byteAddr address k) .store) →
    ∀ value, ∃ after, store cpu address value length = .ok after ∧
      after.excVal = some .storePageFault ∧ after.bus.ram = cpu.bus.ram)

/-- The second page is mapped to the bytes that follow the first one. -/
def StoresThrough (cpu : Cpu) (address : Word) (length : Width) : Prop :=
  ∀ p₀ c₀, Maps cpu address .store p₀ c₀ → c₀.bus.ram.Contains p₀ length.bytes ∧
    ∀ k, k < length.bytes → ∃ c, Maps cpu (byteAddr address k) .store (byteAddr p₀ k) c

/-- The machine after a store to RAM. -/
def stored (c₀ : Cpu) (p₀ value : Word) (n : Nat) : Cpu :=
  c₀.setBus (c₀.bus.setRam
    { c₀.bus.ram with
      data := { c₀.bus.ram.data with
        get := LittleEndian.write c₀.bus.ram.data.get (p₀ - c₀.bus.ram.baseAddr).toNat value n }
      size_eq := c₀.bus.ram.size_eq })

theorem store_of_translate {cpu c₀ : Cpu} {address p₀ value : Word} {length : Width}
    (h : translate cpu address .store = .ok (p₀, c₀)) : store cpu address value length =
      if c₀.excVal.isSome then .ok c₀ else Bus.store c₀ p₀ value length := by
  unfold store
  rw [h]
  rfl

theorem store_of_maps {cpu c₀ : Cpu} {address p₀ : Word} (h : Maps cpu address .store p₀ c₀)
    (value : Word) (length : Width) : store cpu address value length =
      if c₀.bus.ram.Contains p₀ length.bytes then .ok (stored c₀ p₀ value length.bytes)
      else .error .undefined := by
  have hlt : p₀ < c₀.bus.ram.endAddr := by
    have he := h.ram.2
    rw [BitVec.lt_def]
    omega
  rw [store_of_translate h.translate, h.exc]
  simp only [Option.isSome_none, Bool.false_eq_true, if_false, Bus.store,
    Bus.findBusDevice_of_contains (by omega) h.ram, Bus.deviceStore, RamDevice.store,
    ← RamDevice.contains_iff_offset h.ram.1 hlt]
  split <;> rfl

theorem stored_byteAt {c₀ : Cpu} {p₀ value : Word} {n k : Nat} (h : c₀.bus.ram.Contains p₀ n)
    (hk : k < n) :
    (stored c₀ p₀ value n).bus.ram.byteAt (byteAddr p₀ k) = LittleEndian.byteOf value k := by
  have ho := RamDevice.byteAt_add h.offset_le hk
  change LittleEndian.write c₀.bus.ram.data.get (p₀ - c₀.bus.ram.baseAddr).toNat value n
    (byteAddr p₀ k - c₀.bus.ram.baseAddr).toNat = _
  rw [ho, LittleEndian.write_of_mem _ _ (by omega), Nat.add_sub_cancel_left]

/-- A byte that does not stand at its place does not follow the value. -/
theorem stored_byteAt_ne {c₀ : Cpu} {p₀ p : Word} {n k : Nat} (h : c₀.bus.ram.Contains p₀ n)
    (hk : k < n) (hp : p ≠ byteAddr p₀ k) :
    (stored c₀ p₀ (0xff#64 <<< (8 * k)) n).bus.ram.byteAt p =
      (stored c₀ p₀ 0#64 n).bus.ram.byteAt p := by
  have ho := RamDevice.byteAt_add h.offset_le hk
  change LittleEndian.write c₀.bus.ram.data.get (p₀ - c₀.bus.ram.baseAddr).toNat _ n
    (p - c₀.bus.ram.baseAddr).toNat = LittleEndian.write c₀.bus.ram.data.get
    (p₀ - c₀.bus.ram.baseAddr).toNat _ n (p - c₀.bus.ram.baseAddr).toNat
  have hne : (p - c₀.bus.ram.baseAddr).toNat ≠ (p₀ - c₀.bus.ram.baseAddr).toNat + k := by
    intro heq
    rw [← ho] at heq
    exact hp (by simpa using BitVec.eq_of_toNat_eq heq)
  by_cases hin : (p₀ - c₀.bus.ram.baseAddr).toNat ≤ (p - c₀.bus.ram.baseAddr).toNat ∧
      (p - c₀.bus.ram.baseAddr).toNat < (p₀ - c₀.bus.ram.baseAddr).toNat + n
  · rw [LittleEndian.write_of_mem _ _ hin, LittleEndian.write_of_mem _ _ hin]
    exact LittleEndian.byteOf_single _ _ (by omega)
  · rw [LittleEndian.write_of_not_mem _ _ hin, LittleEndian.write_of_not_mem _ _ hin]

theorem storesRight_iff {cpu : Cpu} {address : Word} {length : Width} (hexc : cpu.excVal = none)
    (htouch : ∀ k, k < length.bytes → Touch cpu (byteAddr address k) .store) :
    StoresRight cpu address length ↔ StoresThrough cpu address length := by
  have hzero : byteAddr address 0 = address := BitVec.add_zero address
  constructor
  · rintro ⟨hall, hsome⟩ p₀ c₀ h₀
    have hres := fun value => store_of_maps h₀ value length
    have hmapped : ∀ k, k < length.bytes → ∃ p c, Maps cpu (byteAddr address k) .store p c := by
      intro k hk
      refine (htouch k hk).resolve_right fun hr => ?_
      obtain ⟨after, hs, he, _⟩ := hsome ⟨k, hk, hr⟩ 0
      rw [hres] at hs
      split at hs
      next =>
        cases Except.ok.inj hs
        exact absurd (h₀.exc.symm.trans he) (by simp)
      next => cases hs
    have hin : c₀.bus.ram.Contains p₀ length.bytes := by
      by_contra hout
      obtain ⟨after, hs, _⟩ := hall hmapped 0
      rw [hres, if_neg hout] at hs
      cases hs
    simp only [if_pos hin] at hres
    refine ⟨hin, fun k hk => ?_⟩
    obtain ⟨p, c, hp⟩ := hmapped k hk
    have hbyte : ∀ value, (stored c₀ p₀ value length.bytes).bus.ram.byteAt p =
        LittleEndian.byteOf value k := by
      intro value
      obtain ⟨after, hs, _, hb⟩ := hall hmapped value
      cases Except.ok.inj (hs.symm.trans (hres value))
      exact hb k hk p c hp
    by_cases hpk : p = byteAddr p₀ k
    · exact ⟨c, hpk ▸ hp⟩
    · exfalso
      have hsame := stored_byteAt_ne hin hk hpk
      rw [hbyte, hbyte] at hsame
      exact LittleEndian.byteOf_single_ne k (Nat.lt_of_lt_of_le hk length.bytes_le) hsame
  · intro hthrough
    rcases hzero ▸ htouch 0 length.bytes_pos with ⟨p₀, c₀, h₀⟩ | ⟨c, hc, hf⟩
    · obtain ⟨hin, hbytes⟩ := hthrough p₀ c₀ h₀
      refine ⟨fun _ value => ⟨_, (store_of_maps h₀ value length).trans (if_pos hin), h₀.exc,
        fun k hk p c hp => ?_⟩, ?_⟩
      · obtain ⟨c', hp'⟩ := hbytes k hk
        obtain ⟨rfl, _⟩ := hp'.unique hp
        exact stored_byteAt hin hk
      · rintro ⟨k, hk, hr⟩
        obtain ⟨c', hp'⟩ := hbytes k hk
        exact absurd hr hp'.not_refused
    · refine ⟨fun hall => ?_, fun _ value => ⟨c, ?_, hf, translate_ram_of_fault hc hexc hf⟩⟩
      · obtain ⟨p, c', hp⟩ := hall 0 length.bytes_pos
        rw [hzero] at hp
        exact absurd ⟨c, hc, hf⟩ hp.not_refused
      · rw [store_of_translate hc, hf]
        rfl

/-- Accesses that touch pages which are mapped to RAM or not accessible are right exactly
when the physical bytes that follow the first one are the ones they should reach. -/
theorem crossing_iff (cpu : Cpu) (address : Word) (length : Width) (hexc : cpu.excVal = none) :
    ((∀ k, k < length.bytes → Touch cpu (byteAddr address k) .load) →
      (ReadsRight cpu address .load length.bytes (load cpu address length) ↔
        ReadsThrough cpu address .load length.bytes)) ∧
    ((∀ k, k < length.bytes → Touch cpu (byteAddr address k) .store) →
      (StoresRight cpu address length ↔ StoresThrough cpu address length)) ∧
    ((∀ k, k < 4 → Touch cpu (byteAddr address k) .instruction) →
      (ReadsRight cpu address .instruction 4 (fetch cpu address) ↔
        ReadsThrough cpu address .instruction 4)) :=
  ⟨loadsRight_iff hexc, storesRight_iff hexc, fetchesRight_iff hexc⟩

/-- Two pages of 1 GiB next to each other, both mapped to the start of the RAM. -/
def splitPages : Cpu :=
  let ram := RamDevice.ofImage 0x80000000 0x80000000
    [0xaa, 0, 0, 0, 0, 0, 0, 0, 0x0f, 0, 0, 0x20, 0, 0, 0, 0, 0x0f, 0, 0, 0x20, 0, 0, 0, 0] (by decide)
  let cpu := (Cpu.init ram none none false ⟨true, true, default⟩).setMode .supervisor
  update (cpu.setCregs (cpu.cregs.store Address.satp 0x8000000000080000))

theorem splitPages_maps (accessType : AccessType) (k : Nat) (hk : k < 4) :
    ∃ p c, Maps splitPages (byteAddr 0x7fffffff k) accessType p c := by
  have hcases : k = 0 ∨ k = 1 ∨ k = 2 ∨ k = 3 := by omega
  rcases hcases with rfl | rfl | rfl | rfl
  · cases accessType <;> exact ⟨0xbfffffff, _, rfl, rfl, by decide⟩
  · cases accessType <;> exact ⟨0x80000000, _, rfl, rfl, by decide⟩
  · cases accessType <;> exact ⟨0x80000001, _, rfl, rfl, by decide⟩
  · cases accessType <;> exact ⟨0x80000002, _, rfl, rfl, by decide⟩

theorem crossing_iff_splitPages :
    (ReadsRight splitPages 0x7fffffff .load Width.w16.bytes (load splitPages 0x7fffffff .w16) ↔
      ReadsThrough splitPages 0x7fffffff .load Width.w16.bytes) ∧
    (StoresRight splitPages 0x7fffffff .w16 ↔ StoresThrough splitPages 0x7fffffff .w16) ∧
    (ReadsRight splitPages 0x7fffffff .instruction 4 (fetch splitPages 0x7fffffff) ↔
      ReadsThrough splitPages 0x7fffffff .instruction 4) := by
  obtain ⟨hload, hstore, hfetch⟩ := crossing_iff splitPages 0x7fffffff .w16 rfl
  have htwo : ∀ k, k < Width.w16.bytes → k < 4 := fun k hk => Nat.lt_trans hk (by decide)
  exact ⟨hload fun k hk => .inl (splitPages_maps .load k (htwo k hk)),
    hstore fun k hk => .inl (splitPages_maps .store k (htwo k hk)),
    hfetch fun k hk => .inl (splitPages_maps .instruction k hk)⟩

theorem splitPages_load_wrong : ¬ ∀ (cpu : Cpu) (address : Word) (length : Width),
    cpu.excVal = none → (∀ k, k < length.bytes → Touch cpu (byteAddr address k) .load) →
    ReadsRight cpu address .load length.bytes (load cpu address length) := by
  intro h
  have hmaps : ∀ k, k < 2 → ∃ p c, Maps splitPages (byteAddr 0x7fffffff k) .load p c :=
    fun k hk => splitPages_maps .load k (Nat.lt_trans hk (by decide))
  obtain ⟨v, after, hl, _, hb⟩ := (h splitPages 0x7fffffff .w16 rfl
    fun k hk => .inl (hmaps k hk)).1 hmaps
  have hbytes : (load splitPages 0x7fffffff .w16).map (fun r =>
      (LittleEndian.byteOf r.1 1, r.2.bus.ram.byteAt 0x80000000)) = .ok (0, 0xaa) := rfl
  rw [hl] at hbytes
  obtain ⟨hzero, hlow⟩ := Prod.mk.inj (Except.ok.inj hbytes)
  have hone := hb 1 (by decide) 0x80000000 _ ⟨rfl, rfl, by decide⟩
  rw [hzero, hlow] at hone
  exact absurd hone (by decide)

end Mmu

end Rv64gcEmu
