import Rv64gcEmu.ControlTransfer
import Rv64gcEmu.Rv64
import Rv64gcEmu.StoredBytes

namespace Rv64gcEmu

open Rv64 (Hart Regs)

namespace RamDevice

/-- The RAM as a memory of bytes. -/
def bytes (ram : RamDevice) : ByteMemory 64 := fun x =>
  if ram.Contains x 1 then some (ram.byteAt x) else none

variable {ram : RamDevice} {address : Word}

theorem bytes_isSome {x : Word} : (ram.bytes x).isSome ↔ ram.Contains x 1 := by
  unfold bytes
  split
  next h => simp [h]
  next h => simp [h]

/-- The range ends below the last address, so that no access in it wraps around. -/
theorem contains_iff_forall {n : Nat} (hn : 0 < n) :
    (∀ k < n, ram.Contains (address + BitVec.ofNat 64 k) 1) ↔ ram.Contains address n := by
  constructor
  · intro h
    induction n with
    | zero => omega
    | succ n ih =>
      by_cases hz : n = 0
      · subst hz
        have h0 := h 0 hn
        rwa [BitVec.add_zero] at h0
      · have hpart := ih (by omega) fun k hk => h k (by omega)
        have hlast := (h n (by omega)).2
        have hend := hpart.2
        have hlt := ram.endAddr.isLt
        rw [BitVec.toNat_add, BitVec.toNat_ofNat] at hlast
        exact ⟨hpart.1, by omega⟩
  · intro h k hk
    exact h.part (by omega) (by omega)

theorem covers_iff {n : Nat} (hn : 0 < n) : ram.bytes.Covers address n ↔ ram.Contains address n := by
  rw [← contains_iff_forall hn]
  exact forall₂_congr fun _ _ => bytes_isSome

theorem bytes_of_contains {x : Word} (h : ram.Contains x 1) : ram.bytes x = some (ram.byteAt x) :=
  if_pos h

theorem load_bytes {n : Nat} {v : BitVec (8 * n)} (hn : 0 < n)
    (h : ram.bytes.load address n = some v) : ram.Contains address n ∧
      LittleEndian.read (fun k => ram.byteAt (address + BitVec.ofNat 64 k)) 0 n = v := by
  obtain ⟨hc, hv⟩ := ByteMemory.load_eq_some_iff.mp h
  have hc' := (covers_iff hn).mp hc
  refine ⟨hc', ?_⟩
  rw [← hv]
  refine LittleEndian.read_congr fun k hk => ?_
  have hb := bytes_of_contains (hc'.part (m := 1) (by omega) (by omega : k + 1 ≤ n))
  rw [Nat.zero_add, hb, Option.getD_some]

/-- What the hart loads is in the RAM. -/
theorem value_of_load {length : Width} {v : BitVec length.bits}
    (h : ram.bytes.load address length.bytes = some v) :
    ram.Contains address length.bytes ∧ ram.value address length = v := by
  obtain ⟨hc, hv⟩ := load_bytes length.bytes_pos h
  exact ⟨hc, (value_eq_read hc).trans hv⟩

/-- What the hart stores is the RAM after a store of a value with those bytes. -/
theorem bytes_put {length : Width} {n : Nat} {v : BitVec n} {v' : Word} {m : ByteMemory 64}
    (h : ram.bytes.store address length.bytes v = some m)
    (hv : ∀ k < length.bytes, LittleEndian.byteOf v' k = LittleEndian.byteOf v k) :
    ram.Contains address length.bytes ∧ (ram.put address v' length).bytes = m := by
  obtain ⟨hc, rfl⟩ := ByteMemory.store_eq_some_iff.mp h
  have hc' := (covers_iff length.bytes_pos).mp hc
  refine ⟨hc', ?_⟩
  funext x
  have hiff : (ram.put address v' length).Contains x 1 ↔ ram.Contains x 1 := Iff.rfl
  unfold bytes
  by_cases hx : ram.Contains x 1
  · rw [if_pos (hiff.mpr hx), if_pos hx, byteAt_put_eq hc']
    by_cases hlt : (x - address).toNat < length.bytes
    · rw [if_pos hlt, if_pos hlt, hv _ hlt]
    · rw [if_neg hlt, if_neg hlt]
  · have hlt : ¬(x - address).toNat < length.bytes := by
      intro hlt
      have hpart := hc'.part (m := 1) (by omega) (by omega : (x - address).toNat + 1 ≤ length.bytes)
      rw [BitVec.ofNat_toNat, BitVec.setWidth_eq, BitVec.add_comm, BitVec.sub_add_cancel] at hpart
      exact hx hpart
    rw [if_neg (mt hiff.mp hx), if_neg hlt, if_neg hx]

end RamDevice

namespace Cpu

/-- Everything but the registers, the `pc`, the cache of translations and the contents of the RAM
is as before. -/
structure SameSystem (a b : Cpu) : Prop where
  excVal : b.excVal = a.excVal
  cregs : b.cregs = a.cregs
  mode : b.mode = a.mode
  sleep : b.sleep = a.sleep
  root : Mmu.SameRoot a.mmu b.mmu
  gpu : b.bus.gpu = a.bus.gpu
  virtio : b.bus.virtio = a.bus.virtio
  host : b.host = a.host

namespace SameSystem

theorem refl (a : Cpu) : SameSystem a a := ⟨rfl, rfl, rfl, rfl, .refl _, rfl, rfl, rfl⟩

theorem trans {a b c : Cpu} (h : SameSystem a b) (h' : SameSystem b c) : SameSystem a c where
  excVal := h'.excVal.trans h.excVal
  cregs := h'.cregs.trans h.cregs
  mode := h'.mode.trans h.mode
  sleep := h'.sleep.trans h.sleep
  root := h.root.trans h'.root
  gpu := h'.gpu.trans h.gpu
  virtio := h'.virtio.trans h.virtio
  host := h'.host.trans h.host

theorem setReg (a : Cpu) (r : BitVec 5) (v : Word) : SameSystem a (a.setReg r v) :=
  ⟨rfl, rfl, rfl, rfl, .refl _, rfl, rfl, rfl⟩

theorem setPc (a : Cpu) (pc : Word) : SameSystem a (a.setPc pc) :=
  ⟨rfl, rfl, rfl, rfl, .refl _, rfl, rfl, rfl⟩

theorem afterStore (a : Cpu) (p v : Word) (length : Width) :
    SameSystem a (Mmu.afterStore a p v length) := ⟨rfl, rfl, rfl, rfl, .refl _, rfl, rfl, rfl⟩

end SameSystem

/-- No interrupt is taken, and the disk has nothing to do. -/
structure Undisturbed (cpu : Cpu) : Prop where
  awake : cpu.sleep = false
  quiet : cpu.excVal = none
  uninterrupted : Interrupt.masked cpu = true ∨ cpu.cregs.load Address.mie = 0
  disk : ∀ v, cpu.bus.virtio = some v → v.queueNotify = VirtioCfg.queueNotifyReset

theorem Undisturbed.of_same {a b : Cpu} (h : SameSystem a b) (ha : a.Undisturbed) :
    b.Undisturbed where
  awake := h.sleep.trans ha.awake
  quiet := h.excVal.trans ha.quiet
  uninterrupted := by
    have hm := ha.uninterrupted
    unfold Interrupt.masked at hm ⊢
    rw [h.mode, h.cregs, h.sleep]
    exact hm
  disk v hv := ha.disk v (h.virtio ▸ hv)

/-- What the accesses to the memory depend on is as before. -/
structure SameMemory (a b : Cpu) : Prop where
  ram : b.bus.ram = a.bus.ram
  mmu : b.mmu = a.mmu
  mode : b.mode = a.mode
  status : b.cregs.regs Address.mstatus = a.cregs.regs Address.mstatus
  host : b.host = a.host

theorem SameMemory.setReg (a : Cpu) (r : BitVec 5) (v : Word) : SameMemory a (a.setReg r v) :=
  ⟨rfl, rfl, rfl, rfl, rfl⟩

theorem SameMemory.setPc (a : Cpu) (pc : Word) : SameMemory a (a.setPc pc) :=
  ⟨rfl, rfl, rfl, rfl, rfl⟩

theorem SameMemory.status_load {a b : Cpu} (h : SameMemory a b) :
    b.cregs.load Address.mstatus = a.cregs.load Address.mstatus := by
  change b.cregs.regs Address.mstatus ||| _ = a.cregs.regs Address.mstatus ||| _
  rw [h.status]

theorem SameMemory.accessMode {a b : Cpu} (h : SameMemory a b) (t : AccessType) :
    Mmu.accessMode b t = Mmu.accessMode a t := by
  unfold Mmu.accessMode Csr.readBitMstatus Csr.readMppMode Csr.readBit Csr.readBits
  rw [h.mode, h.status_load]

theorem SameMemory.active {a b : Cpu} (h : SameMemory a b) {t : AccessType} :
    Mmu.Active b t ↔ Mmu.Active a t :=
  ⟨fun hb => ⟨h.mmu ▸ hb.mode, h.accessMode t ▸ hb.accessMode⟩,
    fun ha => ⟨h.mmu.symm ▸ ha.mode, (h.accessMode t).symm ▸ ha.accessMode⟩⟩

end Cpu

open Cpu (SameMemory SameSystem)

/-- An access by translation to bytes of the RAM leaves the program what it was. -/
structure Cpu.Found (bytes : Cpu → ByteMemory 64) (Holds : Cpu → Prop) (cpu : Cpu) (address : Word)
    (n : Nat) (p : Word) (c : Cpu) : Prop where
  same : SameSystem cpu c
  regs : c.regs = cpu.regs
  pc : c.pc = cpu.pc
  holds : Holds c
  mem : bytes c = bytes cpu
  contains : c.bus.ram.Contains p n
  load : c.bus.ram.bytes.load p n = (bytes cpu).load address n

/-- The bytes that a program sees, as long as the processor is in a state that `Holds`, and the
accesses that it may make. -/
structure MemoryView where
  mem : Cpu → ByteMemory 64
  Holds : Cpu → Prop
  Reach : AccessType → Word → Nat → Prop
  keep : ∀ {a b}, SameMemory a b → mem b = mem a ∧ (Holds a → Holds b)
  access : ∀ {cpu t address n}, Holds cpu → Reach t address n → 0 < n →
    (mem cpu).Covers address n →
      ∃ p c, Mmu.translate cpu address t = .ok (p, c) ∧ Cpu.Found mem Holds cpu address n p c
  put : ∀ {cpu address length p c} (v : Word), Holds cpu → Reach .store address length.bytes →
    (mem cpu).Covers address length.bytes → Mmu.translate cpu address .store = .ok (p, c) →
      Holds (Mmu.afterStore c p v length) ∧
        (mem cpu).store address length.bytes v = some (mem (Mmu.afterStore c p v length))

namespace MemoryView

variable (view : MemoryView)

/-- The hart that the processor stands for. -/
def hart (cpu : Cpu) : Hart where
  pc := cpu.pc
  regs := ⟨cpu.operand, if_pos rfl⟩
  mem := view.mem cpu

variable {view} {cpu c : Cpu}

theorem hart_reg (h0 : cpu.regs 0 = 0) (r : BitVec 5) : (view.hart cpu).regs.get r = cpu.regs r :=
  ControlInsn.operand_eq h0 r

theorem hart_of_regs {a b : Cpu} (hpc : b.pc = a.pc) (hregs : ∀ r, r ≠ 0 → b.regs r = a.regs r) :
    view.hart b = { view.hart a with mem := view.mem b } := by
  have h : (view.hart b).regs = (view.hart a).regs := by
    refine Regs.ext (funext fun r => ?_)
    change (if r = 0 then 0 else b.regs r) = if r = 0 then 0 else a.regs r
    split
    next => rfl
    next hr => exact hregs r hr
  change (⟨b.pc, (view.hart b).regs, view.mem b⟩ : Hart) = ⟨a.pc, (view.hart a).regs, view.mem b⟩
  rw [hpc, h]

theorem hart_congr {a b : Cpu} (hpc : b.pc = a.pc) (hregs : ∀ r, r ≠ 0 → b.regs r = a.regs r)
    (hmem : view.mem b = view.mem a) : view.hart b = view.hart a := by
  rw [hart_of_regs hpc hregs, hmem]
  rfl

theorem hart_setPc (cpu : Cpu) (pc : Word) :
    view.hart (cpu.setPc pc) = (view.hart cpu).jump pc :=
  congrArg (fun m => (⟨pc, (view.hart cpu).regs, m⟩ : Hart)) (view.keep (.setPc cpu pc)).1

theorem hart_setReg (cpu : Cpu) (rd : BitVec 5) (v pc : Word) :
    view.hart ((cpu.setReg rd v).setPc pc) = (view.hart cpu).next rd v pc := by
  have hregs : (view.hart (cpu.setReg rd v)).regs = (view.hart cpu).regs.set rd v := by
    refine Regs.ext (funext fun r => ?_)
    simp only [Regs.set, hart, Cpu.operand, Cpu.setReg_regs, Function.update_apply]
    by_cases hr : r = 0
    · rw [if_pos hr, if_neg fun h => h.2 hr, if_pos hr]
    · rw [if_neg hr, if_neg hr]
      exact if_congr (and_iff_left hr).symm rfl rfl
  rw [hart_setPc]
  change (⟨pc, (view.hart (cpu.setReg rd v)).regs, view.mem (cpu.setReg rd v)⟩ : Hart) = _
  rw [hregs, (view.keep (.setReg cpu rd v)).1]
  rfl

/-- Clearing `x0` is nothing to the hart. -/
theorem hart_clear (cpu : Cpu) : view.hart (cpu.setReg 0 0) = view.hart cpu :=
  (hart_setReg cpu 0 0 cpu.pc).trans ((view.hart cpu).next_zero 0 cpu.pc)

/-- The program finds everything as before. -/
structure Kept (view : MemoryView) (cpu c : Cpu) : Prop where
  same : SameSystem cpu c
  regs : c.regs = cpu.regs
  pc : c.pc = cpu.pc
  holds : view.Holds c
  mem : view.mem c = view.mem cpu

theorem Kept.hart (h : view.Kept cpu c) : view.hart c = view.hart cpu :=
  hart_congr h.pc (fun r _ => congrFun h.regs r) h.mem

section Accesses

variable {address : Word} {length : Width}

theorem covers_of_load {n : Nat} {m : ByteMemory 64} {x : BitVec (8 * n)}
    (h : m.load address n = some x) : m.Covers address n := (ByteMemory.load_eq_some_iff.mp h).1

theorem load_of_hart {x : BitVec (8 * length.bytes)} (hq : cpu.excVal = none)
    (h : view.Holds cpu) (hr : view.Reach .load address length.bytes)
    (hl : (view.mem cpu).load address length.bytes = some x) :
    ∃ p c, Mmu.load cpu address length = .ok (LittleEndian.read c.bus.ram.data.get
      (p - c.bus.ram.baseAddr).toNat length.bytes, c) ∧ view.Kept cpu c ∧
        c.bus.ram.value p length = x := by
  obtain ⟨p, c, ht, hf⟩ := view.access h hr length.bytes_pos (covers_of_load hl)
  obtain ⟨hc, hv⟩ := RamDevice.value_of_load (hf.load.trans hl)
  refine ⟨p, c, ?_, ⟨hf.same, hf.regs, hf.pc, hf.holds, hf.mem⟩, hv⟩
  unfold Mmu.load
  simp only [ht, Except.ok_bind, hf.same.excVal.trans hq, Option.isSome_none, Bool.false_eq_true,
    if_false]
  exact Bus.load_ram hc

theorem store_of_hart {m : ByteMemory 64} (v : Word) (hq : cpu.excVal = none)
    (h : view.Holds cpu) (hr : view.Reach .store address length.bytes)
    (hs : (view.mem cpu).store address length.bytes v = some m) :
    ∃ c, Mmu.store cpu address v length = .ok c ∧ SameSystem cpu c ∧ view.Holds c ∧
      view.hart c = { view.hart cpu with mem := m } := by
  have hc := (ByteMemory.store_eq_some_iff.mp hs).1
  obtain ⟨p, c, ht, hf⟩ := view.access h hr length.bytes_pos hc
  obtain ⟨hholds, hm⟩ := view.put v h hr hc ht
  obtain rfl := Option.some.inj (hm.symm.trans hs)
  refine ⟨Mmu.afterStore c p v length, ?_, hf.same.trans (.afterStore c p v length), hholds, ?_⟩
  · unfold Mmu.store
    simp only [ht, Except.ok_bind, hf.same.excVal.trans hq, Option.isSome_none,
      Bool.false_eq_true, if_false]
    exact Bus.store_ram v hf.contains
  · exact hart_of_regs hf.pc fun r _ => congrFun hf.regs r

/-- The word that the hart finds at its `pc` is the one that is fetched. -/
theorem fetched_of_load {w : BitVec 32} (hs : cpu.sleep = false) (hq : cpu.excVal = none)
    (h : view.Holds cpu) (hr : view.Reach .instruction cpu.pc 4)
    (hw : (view.mem cpu).load cpu.pc 4 = some w) :
    ∃ c, cpu.Fetched c ⟨w⟩ ∧ view.Kept (cpu.setReg 0 0) c := by
  have hkeep := view.keep (.setReg cpu 0 0)
  rw [← hkeep.1] at hw
  obtain ⟨p, c, ht, hf⟩ := view.access (hkeep.2 h) hr (by decide) (covers_of_load hw)
  obtain ⟨hc, hv⟩ := @RamDevice.value_of_load _ _ .w32 w (hf.load.trans hw)
  have hquiet := hf.same.excVal.trans hq
  have hl := @Bus.load_ram c p .w32 hc
  have hfetch : Mmu.fetch (cpu.setReg 0 0) cpu.pc = .ok (LittleEndian.read c.bus.ram.data.get
      (p - c.bus.ram.baseAddr).toNat 4, c) := by
    unfold Mmu.fetch
    simp only [ht, Except.ok_bind, hquiet, Option.isSome_none, Bool.false_eq_true, if_false, hl]
    rfl
  refine ⟨c, ⟨hs, ⟨_, hfetch, ?_⟩, hquiet⟩, hf.same, hf.regs, hf.pc, hf.holds, hf.mem⟩
  rw [← hv]
  exact congrArg Decoder.mk (LittleEndian.setWidth_read _ _ _ (by decide)).symm

end Accesses

end MemoryView

end Rv64gcEmu
