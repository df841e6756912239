import Rv64gcEmu.MemoryInsn
import Rv64gcEmu.RegisterOps
import Rv64gcEmu.StoreEffect

namespace Rv64gcEmu

section Registers

variable (cpu : Cpu) (r : BitVec 5) (v : Word)

theorem Bus.load_setReg (address : Word) (length : Width) :
    load (cpu.setReg r v) address length =
      (load cpu address length >>= fun x => .ok (x.1, x.2.setReg r v)) := by
  unfold load
  rw [Cpu.setReg_bus]
  cases cpu.bus.findBusDevice address with
  | none => rfl
  | some d =>
    cases hd : cpu.bus.deviceLoad d address length with
    | error e => simp only [hd]; rfl
    | ok x => simp only [hd]; rfl

theorem Bus.store_setReg (address value : Word) (length : Width) :
    store (cpu.setReg r v) address value length =
      (store cpu address value length >>= fun c => .ok (c.setReg r v)) := by
  unfold store
  rw [Cpu.setReg_bus]
  cases cpu.bus.findBusDevice address with
  | none => rfl
  | some d =>
    cases hd : cpu.bus.deviceStore d address value length with
    | error e => simp only [hd]; rfl
    | ok x => simp only [hd]; rfl

namespace Mmu

theorem setCpuError_setReg (address : Word) (accessType : AccessType) :
    setCpuError (cpu.setReg r v) address accessType =
      (setCpuError cpu address accessType).setReg r v := by
  cases accessType <;> rfl

theorem fetchPteLoop_setReg (address : Word) (accessType : AccessType) (vpn : Nat → Word)
    (i : Nat) : ∀ (a : Word) (entry : TlbEntry) (cpu : Cpu),
      fetchPteLoop (cpu.setReg r v) address accessType vpn a entry i =
        (fetchPteLoop cpu address accessType vpn a entry i >>= fun x => .ok (x.1, x.2.setReg r v)) := by
  induction i with
  | zero =>
    intro a entry cpu
    simp only [fetchPteLoop, setCpuError_setReg, Except.ok_bind]
  | succ i ih =>
    intro a entry cpu
    simp only [fetchPteLoop]
    rw [Bus.load_setReg]
    cases Bus.load cpu (a + vpn i * 8) .w64 with
    | error e => rfl
    | ok x =>
      simp only [Except.ok_bind]
      split
      next => simp only [setCpuError_setReg, Except.ok_bind]
      next =>
        split
        next => rfl
        next => exact ih _ _ _

theorem fetchPte_setReg (address : Word) (accessType : AccessType) (entry : TlbEntry) :
    fetchPte (cpu.setReg r v) address accessType entry =
      (fetchPte cpu address accessType entry >>= fun x => .ok (x.1, x.2.setReg r v)) := by
  unfold fetchPte
  rw [fetchPteLoop_setReg]
  simp only [Cpu.setReg_mmu]
  cases fetchPteLoop cpu address accessType (cpu.mmu.getVpn address) (cpu.mmu.mppn.setWidth 64) entry
      cpu.mmu.getLevels with
  | error e => rfl
  | ok x =>
    obtain ⟨found, c⟩ := x
    cases found with
    | none => rfl
    | some p =>
      simp only [Except.ok_bind, Cpu.setReg_mmu, setCpuError_setReg]
      split
      next => rfl
      next => rfl

theorem getTlbEntry_setReg (address : Word) (accessType : AccessType) :
    getTlbEntry (cpu.setReg r v) address accessType =
      (getTlbEntry cpu address accessType >>= fun x => .ok (x.1, x.2.setReg r v)) := by
  have hmmu : ∀ (c : Cpu) (mmu : Mmu), (c.setReg r v).setMmu mmu = (c.setMmu mmu).setReg r v :=
    fun _ _ => rfl
  unfold getTlbEntry
  simp only [Cpu.setReg_mmu, Cpu.setReg_host, hmmu]
  split
  next =>
    split
    next => rfl
    next =>
      rw [fetchPte_setReg]
      cases fetchPte (cpu.setMmu _) address accessType _ with
      | error e => rfl
      | ok x =>
        obtain ⟨found, c⟩ := x
        cases found with
        | none => rfl
        | some e => rfl
  next =>
    rw [fetchPte_setReg]
    cases fetchPte cpu address accessType _ with
    | error e => rfl
    | ok x =>
      obtain ⟨found, c⟩ := x
      cases found with
      | none => rfl
      | some e => rfl

theorem translate_setReg (address : Word) (accessType : AccessType) :
    translate (cpu.setReg r v) address accessType =
      (translate cpu address accessType >>= fun x => .ok (x.1, x.2.setReg r v)) := by
  have hmode : accessMode (cpu.setReg r v) accessType = accessMode cpu accessType := rfl
  unfold translate
  simp only [Cpu.setReg_mmu, hmode]
  split
  next => rfl
  next =>
    split
    next => rfl
    next =>
      rw [getTlbEntry_setReg]
      cases getTlbEntry cpu address accessType with
      | error e => rfl
      | ok x =>
        obtain ⟨found, c⟩ := x
        cases found with
        | none => rfl
        | some i =>
          have hmmu : ∀ mmu : Mmu, (c.setReg r v).setMmu mmu = (c.setMmu mmu).setReg r v :=
            fun _ => rfl
          simp only [Except.ok_bind, Cpu.setReg_mmu, Cpu.setReg_cregs, setCpuError_setReg, hmmu]
          split
          next => rfl
          next =>
            split
            next =>
              rw [Bus.store_setReg]
              cases Bus.store (c.setMmu _) _ _ _ with
              | error e => rfl
              | ok c => rfl
            next => rfl

end Mmu

end Registers

namespace Mmu

/-- What a store leaves of the devices, the RAM and the exception state, and whether it draws. -/
def storeOutcome (cpu : Cpu) (address value : Word) (length : Width) :
    HostM (Bus × Option Exception × Word) × Bool :=
  (store cpu address value length >>= fun c => .ok (c.bus, c.excVal, c.excData),
    match translate cpu address .store with
    | .ok (p, c) =>
      c.excVal = none &&
        (c.bus.findBusDevice p).any fun device => c.bus.renders device p value
    | .error _ => false)

/-- The bits above the length that the store looks at, if the value has the low bits `low`. -/
def storeSeen (cpu : Cpu) (address low : Word) (length : Width) : Word :=
  match translate cpu address .store with
  | .ok (p, c) =>
    if c.excVal = none then
      match c.bus.findBusDevice p with
      | some device => c.bus.seen device p low length &&& length.upper
      | none => 0
    else 0
  | .error _ => 0

theorem storeOutcome_setReg (cpu : Cpu) (r : BitVec 5) (v address value : Word) (length : Width) :
    storeOutcome (cpu.setReg r v) address value length = storeOutcome cpu address value length := by
  unfold storeOutcome store
  rw [translate_setReg]
  cases translate cpu address .store with
  | error e => rfl
  | ok x =>
    obtain ⟨p, c⟩ := x
    simp only [Except.ok_bind, Cpu.setReg_excVal, Cpu.setReg_bus]
    split
    next => rfl
    next =>
      rw [Bus.store_setReg]
      cases Bus.store c p value length with
      | error e => rfl
      | ok c' => rfl

theorem storeOutcome_sees (cpu : Cpu) (address : Word) (length : Width) (v : Word) :
    Sees (fun x => storeOutcome cpu address x length) length v
      (storeSeen cpu address (length.low v) length) := by
  unfold storeOutcome storeSeen store
  cases translate cpu address .store with
  | error e => exact .const fun _ => rfl
  | ok r =>
    obtain ⟨p, c⟩ := r
    simp only [Except.ok_bind]
    by_cases hq : c.excVal = none
    · simp only [hq, Option.isSome_none, Bool.false_eq_true, if_false, if_true, decide_true,
        Bool.true_and]
      unfold Bus.store
      cases c.bus.findBusDevice p with
      | none => exact .const fun _ => rfl
      | some device =>
        have hg : Function.Injective fun r : HostM Bus × Bool =>
            ((r.1 >>= fun bus => .ok (bus, c.excVal, c.excData) :
              HostM (Bus × Option Exception × Word)), r.2) := by
          intro r s h
          obtain ⟨hfst, hsnd⟩ := Prod.mk.inj h
          refine Prod.ext ?_ hsnd
          refine Bus.bind_ok_injective (g := fun bus => (bus, c.excVal, c.excData)) ?_ hfst
          exact fun _ _ hab => congrArg Prod.fst hab
        refine .congr (fun x => ?_) (.map hg (c.bus.effect_sees p length v device))
        unfold Bus.effect
        simp only [Option.any_some]
        cases c.bus.deviceStore device p x length with
        | error e => rfl
        | ok bus => rfl
    · have hsome : c.excVal.isSome = true := by
        rw [Option.isSome_iff_ne_none]
        exact hq
      simp only [hq, hsome, if_true, if_false]
      exact .const fun _ => rfl

end Mmu

/-- `SB`, `SH`, `SW`, and `C.SW`, `C.SWSP`, which mask the register before the store. -/
structure NarrowStore where
  base : BitVec 5
  source : BitVec 5
  offset : Word
  length : Width
  compressed : Bool

namespace NarrowStore

def of (d : Decoder) : Option NarrowStore :=
  if d.insnSize = 2 then
    match d.compressedOpcode, d.compressedFunct3 with
    | 0, 6 => some ⟨d.compressedRs1, d.compressedRs2, Ctype.offsetWord d, .w32, true⟩
    | 2, 6 => some ⟨Ctype.sp, Ctype.lowReg d, Ctype.offsetSwsp d, .w32, true⟩
    | _, _ => none
  else
    match MemoryInsn.of d with
    | some (.store .w64) => none
    | some (.store length) => some ⟨d.rs1, d.rs2, d.immS, length, false⟩
    | _ => none

def address (s : NarrowStore) (cpu : Cpu) : Word := cpu.regs s.base + s.offset

/-- The value that is handed to the bus. -/
def passed (s : NarrowStore) (cpu : Cpu) : Word :=
  if s.compressed then Width.w32.low (cpu.regs s.source) else cpu.regs s.source

variable {cpu : Cpu} {d : Decoder} {s : NarrowStore}

theorem execute_eq (cpu : Cpu) (h : of d = some s) : cpu.execute d =
    (Mmu.store cpu (s.address cpu) (s.passed cpu) s.length >>= fun c => .ok (d.insnSize, c)) := by
  unfold of at h
  split at h
  next hsize =>
    unfold Cpu.execute Cpu.execute16
    simp only [if_pos hsize]
    split at h
    next h0 h6 =>
      cases Option.some.inj h
      rw [h0]
      simp only [Ctype.quadrant0, h6]
      rfl
    next h2 h6 =>
      cases Option.some.inj h
      rw [h2]
      simp only [Ctype.quadrant2, h6]
      rfl
    next => cases h
  next hsize =>
    have hfour : d.insnSize = 4 := d.insnSize_cases.resolve_left hsize
    split at h
    next => cases h
    next length _ hof =>
      cases Option.some.inj h
      rw [MemoryInsn.execute_store cpu hof, hfour]
      rfl
    next => cases h

/-- What executing the store leaves of the devices, the RAM and the exception state. -/
def outcome (s : NarrowStore) (cpu : Cpu) (d : Decoder) :
    HostM (Bus × Option Exception × Word) × Bool :=
  (cpu.execute d >>= fun r => .ok (r.2.bus, r.2.excVal, r.2.excData),
    (Mmu.storeOutcome cpu (s.address cpu) (s.passed cpu) s.length).2)

theorem outcome_eq (cpu : Cpu) (h : of d = some s) : s.outcome cpu d =
    Mmu.storeOutcome cpu (s.address cpu) (s.passed cpu) s.length := by
  unfold outcome
  rw [execute_eq cpu h, bind_assoc]
  rfl

/-- The bits above the width that decide about the outcome. -/
def seen (s : NarrowStore) (cpu : Cpu) : Word :=
  Mmu.storeSeen cpu (s.address cpu) (s.length.low (cpu.regs s.source)) s.length

/-- Two states that differ in the register above the width, and let the store go to the same
address, come out the same. -/
def CarriesWidth (s : NarrowStore) (cpu : Cpu) (d : Decoder) : Prop :=
  ∀ x, s.length.low x = s.length.low (cpu.regs s.source) →
    (cpu.setReg s.source x).regs 0 = cpu.regs 0 →
    (cpu.setReg s.source x).regs s.base = cpu.regs s.base →
      s.outcome (cpu.setReg s.source x) d = s.outcome cpu d

theorem setReg_same {cpu : Cpu} {r q : BitVec 5} {x : Word} (hr : r = q)
    (h : (cpu.setReg r x).regs q = cpu.regs q) : cpu.setReg r x = cpu := by
  subst hr
  rw [Cpu.setReg_regs, Function.update_self] at h
  rw [h]
  unfold Cpu.setReg
  rw [Function.update_eq_self]

theorem length_of_compressed (h : of d = some s) (hc : s.compressed = true) : s.length = .w32 := by
  unfold of at h
  split at h
  next =>
    split at h
    next => cases h; rfl
    next => cases h; rfl
    next => cases h
  next =>
    split at h
    next => cases h
    next => cases h; cases hc
    next => cases h

theorem outcome_setReg (h : of d = some s) {x : Word}
    (hbase : (cpu.setReg s.source x).regs s.base = cpu.regs s.base) :
    s.outcome (cpu.setReg s.source x) d =
      Mmu.storeOutcome cpu (s.address cpu) (s.passed (cpu.setReg s.source x)) s.length := by
  rw [outcome_eq _ h, Mmu.storeOutcome_setReg, address, hbase, ← address]

theorem passed_of_plain (hc : s.compressed = false) : s.passed cpu = cpu.regs s.source := by
  unfold passed
  rw [hc, if_neg (by decide)]

theorem passed_of_compressed (hc : s.compressed = true) :
    s.passed cpu = Width.w32.low (cpu.regs s.source) := if_pos hc

theorem carriesWidth_of_compressed (h : of d = some s) (hc : s.compressed = true) :
    s.CarriesWidth cpu d := by
  intro x hx _ hbase
  rw [length_of_compressed h hc] at hx
  rw [outcome_setReg h hbase, outcome_eq _ h, passed_of_compressed hc, passed_of_compressed hc,
    Cpu.setReg_regs, Function.update_self, hx]

theorem carriesWidth_iff_seen (h : of d = some s) : s.CarriesWidth cpu d ↔
    s.source = 0 ∨ s.base = s.source ∨ s.compressed = true ∨ s.seen cpu = 0 := by
  have hsees := Mmu.storeOutcome_sees cpu (s.address cpu) s.length (cpu.regs s.source)
  cases hc : s.compressed with
  | true => exact iff_of_true (carriesWidth_of_compressed h hc) (.inr (.inr (.inl rfl)))
  | false =>
    have hout : ∀ x, (cpu.setReg s.source x).regs s.base = cpu.regs s.base →
        s.outcome (cpu.setReg s.source x) d =
          Mmu.storeOutcome cpu (s.address cpu) x s.length := by
      intro x hbase
      rw [outcome_setReg h hbase, passed_of_plain hc, Cpu.setReg_regs, Function.update_self]
    have hself : s.outcome cpu d =
        Mmu.storeOutcome cpu (s.address cpu) (cpu.regs s.source) s.length := by
      rw [outcome_eq _ h, passed_of_plain hc]
    constructor
    · intro hw
      by_cases h0 : s.source = 0
      · exact .inl h0
      by_cases hb : s.base = s.source
      · exact .inr (.inl hb)
      refine .inr (.inr (.inr (hsees.same.mp fun x hx => ?_)))
      have hbase : (cpu.setReg s.source x).regs s.base = cpu.regs s.base :=
        Function.update_of_ne hb ..
      have he := hw x hx (Function.update_of_ne (Ne.symm h0) ..) hbase
      rwa [hout x hbase, hself] at he
    · intro hcond x hx hzero hbase
      rcases hcond with h0 | hb | hfalse | hs
      · rw [setReg_same h0 hzero]
      · rw [setReg_same hb.symm hbase]
      · cases hfalse
      · rw [hout x hbase, hself]
        exact hsees.same.mpr hs x hx

/-- `C.SW` and `SW` of a register to an address. -/
theorem compressed_iff_seen {d' : Decoder} {s' : NarrowStore} (h : of d = some s)
    (h' : of d' = some s') (hc : s.compressed = false) (hc' : s'.compressed = true)
    (h32 : s.length = .w32) (hsource : s'.source = s.source)
    (haddress : s'.address cpu = s.address cpu) :
    s'.outcome cpu d' = s.outcome cpu d ↔ cpu.regs s.source &&& s.seen cpu = 0 := by
  have hsees := Mmu.storeOutcome_sees cpu (s.address cpu) s.length (cpu.regs s.source)
  rw [outcome_eq cpu h, outcome_eq cpu h', passed_of_plain hc, passed_of_compressed hc', hsource,
    haddress, length_of_compressed h' hc', eq_comm, ← h32]
  exact hsees.low h32

/-- A store carries only its width unless the device looks at the bits above. -/
theorem store_carries_iff (h : of d = some s) :
    (s.CarriesWidth cpu d ↔
      s.source = 0 ∨ s.base = s.source ∨ s.compressed = true ∨ s.seen cpu = 0) ∧
    ∀ d' s', of d' = some s' → s.compressed = false → s'.compressed = true → s.length = .w32 →
      s'.source = s.source → s'.address cpu = s.address cpu →
        (s'.outcome cpu d' = s.outcome cpu d ↔ cpu.regs s.source &&& s.seen cpu = 0) :=
  ⟨carriesWidth_iff_seen h, fun _ _ h' hc hc' h32 hsource haddress =>
    compressed_iff_seen h h' hc hc' h32 hsource haddress⟩

end NarrowStore

/-- `x9` holds a number to store to the RAM at `x8`; `sw x9, 0(x8)` and `c.sw x9, 0(x8)`. -/
def wordCpu (address value : Word) : Cpu := ((Cpu.ofOperands 0 0).setReg 8 address).setReg 9 value

def wordStore : NarrowStore := ⟨8, 9, 0, .w32, false⟩

def compressedStore : NarrowStore := ⟨8, 9, 0, .w32, true⟩

theorem store_carries_iff_word :
    (wordStore.CarriesWidth (wordCpu 0x80000100 0x100000002) ⟨0x00942023⟩ ↔
      wordStore.source = 0 ∨ wordStore.base = wordStore.source ∨ wordStore.compressed = true ∨
        wordStore.seen (wordCpu 0x80000100 0x100000002) = 0) ∧
    compressedStore.outcome (wordCpu 0x80000100 0x100000002) ⟨0xc004⟩ =
      wordStore.outcome (wordCpu 0x80000100 0x100000002) ⟨0x00942023⟩ := by
  have h := @NarrowStore.store_carries_iff (wordCpu 0x80000100 0x100000002) ⟨0x00942023⟩ wordStore rfl
  exact ⟨h.1, (h.2 ⟨0xc004⟩ compressedStore rfl rfl rfl rfl rfl rfl).mpr (by decide)⟩

/-- The upper half of the register decides whether an interrupt is completed. -/
theorem completion_sees_upper : ¬∀ (cpu : Cpu) (d : Decoder) (s : NarrowStore),
    NarrowStore.of d = some s → s.CarriesWidth cpu d := by
  intro h
  have hw := h (wordCpu 0xc201004 1) ⟨0x00942023⟩ wordStore rfl
  have hs := (NarrowStore.carriesWidth_iff_seen rfl).mp hw
  exact absurd hs (by decide)

end Rv64gcEmu
