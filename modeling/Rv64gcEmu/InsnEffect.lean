import Rv64gcEmu.LoopCases

namespace Rv64gcEmu

namespace Cpu

/-- What no instruction changes but the atomics and those of the system opcode. -/
structure Frame (a b : Cpu) : Prop where
  csr : ∀ x, x ≠ Address.fflags → b.cregs.regs x = a.cregs.regs x
  mode : b.mode = a.mode
  sleep : b.sleep = a.sleep
  reservations : b.reservations = a.reservations
  host : b.host = a.host

namespace Frame

theorem refl (a : Cpu) : Frame a a := ⟨fun _ _ => rfl, rfl, rfl, rfl, rfl⟩

theorem trans {a b c : Cpu} (h : Frame a b) (h' : Frame b c) : Frame a c where
  csr x hx := (h'.csr x hx).trans (h.csr x hx)
  mode := h'.mode.trans h.mode
  sleep := h'.sleep.trans h.sleep
  reservations := h'.reservations.trans h.reservations
  host := h'.host.trans h.host

theorem of_coreEq {a b : Cpu} (h : CoreEq a b) : Frame a b where
  csr _ _ := by rw [h.cregs]
  mode := h.mode
  sleep := h.sleep
  reservations := h.reservations
  host := h.host

end Frame

/-- No access to memory, and no exception. -/
structure Quiet (a b : Cpu) : Prop extends Frame a b where
  excVal : b.excVal = a.excVal
  bus : b.bus = a.bus
  mmu : b.mmu = a.mmu

namespace Quiet

theorem refl (a : Cpu) : Quiet a a := ⟨.refl a, rfl, rfl, rfl⟩

theorem trans {a b c : Cpu} (h : Quiet a b) (h' : Quiet b c) : Quiet a c where
  toFrame := h.toFrame.trans h'.toFrame
  excVal := h'.excVal.trans h.excVal
  bus := h'.bus.trans h.bus
  mmu := h'.mmu.trans h.mmu

theorem setReg (a : Cpu) (r : BitVec 5) (v : Word) : Quiet a (a.setReg r v) :=
  ⟨⟨fun _ _ => rfl, rfl, rfl, rfl, rfl⟩, rfl, rfl, rfl⟩

theorem setFreg (a : Cpu) (r : BitVec 5) (v : Word) : Quiet a (a.setFreg r v) :=
  ⟨⟨fun _ _ => rfl, rfl, rfl, rfl, rfl⟩, rfl, rfl, rfl⟩

theorem setPc (a : Cpu) (pc : Word) : Quiet a (a.setPc pc) :=
  ⟨⟨fun _ _ => rfl, rfl, rfl, rfl, rfl⟩, rfl, rfl, rfl⟩

end Quiet

/-- The bookkeeping of the floating-point exceptions. -/
structure FlagsOnly (a b : Cpu) : Prop extends Frame a b where
  regs : b.regs = a.regs
  fregs : b.fregs = a.fregs
  pc : b.pc = a.pc
  excVal : b.excVal = a.excVal
  bus : b.bus = a.bus
  mmu : b.mmu = a.mmu

namespace FlagsOnly

theorem refl (a : Cpu) : FlagsOnly a a := ⟨.refl a, rfl, rfl, rfl, rfl, rfl, rfl⟩

theorem trans {a b c : Cpu} (h : FlagsOnly a b) (h' : FlagsOnly b c) : FlagsOnly a c where
  toFrame := h.toFrame.trans h'.toFrame
  regs := h'.regs.trans h.regs
  fregs := h'.fregs.trans h.fregs
  pc := h'.pc.trans h.pc
  excVal := h'.excVal.trans h.excVal
  bus := h'.bus.trans h.bus
  mmu := h'.mmu.trans h.mmu

theorem quiet {a b : Cpu} (h : FlagsOnly a b) : Quiet a b := ⟨h.toFrame, h.excVal, h.bus, h.mmu⟩

theorem setFenv (a : Cpu) (flags : FeFlags) : FlagsOnly a (a.setFenv flags) :=
  ⟨⟨fun _ _ => rfl, rfl, rfl, rfl, rfl⟩, rfl, rfl, rfl, rfl, rfl, rfl⟩

theorem setFpuException (a : Cpu) (e : Word) : FlagsOnly a (Fdimpl.setFpuException a e) :=
  ⟨⟨fun _ hx => Function.update_of_ne hx _ _, rfl, rfl, rfl, rfl⟩, rfl, rfl, rfl, rfl, rfl, rfl⟩

theorem invalidIf (p : Bool) (a : Cpu) : FlagsOnly a (Fdimpl.invalidIf p a) := by
  unfold Fdimpl.invalidIf
  split
  next => exact .setFpuException a _
  next => exact .refl a

theorem ite_setFpuException (p : Prop) [Decidable p] (a : Cpu) (e : Word) :
    FlagsOnly a (if p then Fdimpl.setFpuException a e else a) := by
  split
  next => exact .setFpuException a _
  next => exact .refl a

theorem setExceptions (a : Cpu) : FlagsOnly a (Fdimpl.setExceptions a) := by
  unfold Fdimpl.setExceptions
  exact (ite_setFpuException _ _ _).trans ((ite_setFpuException _ _ _).trans
    ((ite_setFpuException _ _ _).trans ((ite_setFpuException _ _ _).trans (.setFenv _ _))))

theorem fdround {f : Fmt} (val : f.Bits) (a : Cpu) (d : Decoder) :
    FlagsOnly a (Fdimpl.fdround val a d).2 := by
  unfold Fdimpl.fdround
  simp only
  split
  all_goals
    split
    next => exact .setFenv a _
    next => exact (FlagsOnly.setFenv a _).trans (.setFpuException _ _)

theorem fdConvCheck {f : Fmt} {t : IntType} {val : f.Bits} {a b : Cpu} {v : Word}
    (h : Fdimpl.fdConvCheck t val a = .ok (v, b)) : FlagsOnly a b := by
  unfold Fdimpl.fdConvCheck at h
  simp only at h
  split at h
  next => cases h
  next =>
    obtain ⟨_, rfl⟩ := Prod.mk.inj (Except.ok.inj h)
    exact (FlagsOnly.invalidIf _ a).trans (.setFenv _ _)

end FlagsOnly

end Cpu

/-- A write to a register shows, unless that is `x0` or holds the value. -/
theorem Cpu.update_regs_iff {cpu : Cpu} (rd : BitVec 5) (v : Word) :
    (∀ r, r ≠ 0 → Function.update cpu.regs rd v r = cpu.regs r) ↔ rd = 0 ∨ cpu.regs rd = v := by
  constructor
  · intro h
    by_cases hr : rd = 0
    · exact .inl hr
    · have hv := h rd hr
      rw [Function.update_self] at hv
      exact .inr hv.symm
  · intro h r hr
    by_cases hrd : r = rd
    · subst hrd
      rw [Function.update_self, h.resolve_left hr]
    · rw [Function.update_of_ne hrd]

/-- The destination register of a load, with what an unchecked failed load leaves in it. -/
inductive Dest where
  | reg (r : BitVec 5)
  | freg (r : BitVec 5) (fault : Word)
  deriving DecidableEq

/-- The access to memory that an instruction makes. -/
inductive Access where
  | load (address : Word) (length : Width) (dest : Dest) (checked : Bool)
  | store (address value : Word) (length : Width)
  deriving DecidableEq

namespace Dest

def write (dest : Dest) (cpu : Cpu) (v : Word) : Cpu :=
  match dest with
  | reg r => cpu.setReg r v
  | freg r _ => cpu.setFreg r v

def faultValue : Dest → Word
  | reg _ => 0
  | freg _ fault => fault

end Dest

/-- The access of a compressed instruction. -/
def access16 (cpu : Cpu) (d : Decoder) : Option Access :=
  let base := cpu.regs d.compressedRs1
  let stack := cpu.regs Ctype.sp
  match d.compressedOpcode, d.compressedFunct3 with
  | 0, 1 => some (.load (base + Ctype.offsetDouble d) .w64 (.freg d.compressedRd 0) false)
  | 0, 2 => some (.load (base + Ctype.offsetWord d) .w32 (.reg d.compressedRd) false)
  | 0, 3 => some (.load (base + Ctype.offsetDouble d) .w64 (.reg d.compressedRd) false)
  | 0, 5 => some (.store (base + Ctype.offsetDouble d) (cpu.fregs d.compressedRs1) .w64)
  | 0, 6 => some (.store (base + Ctype.offsetWord d)
      (((cpu.regs d.compressedRs2).setWidth 32).setWidth 64) .w32)
  | 0, 7 => some (.store (base + Ctype.offsetDouble d) (cpu.regs d.compressedRs2) .w64)
  | 2, 1 => some (.load (stack + Ctype.offsetLdsp d) .w64 (.freg d.rd 0) false)
  | 2, 2 => some (.load (stack + Ctype.offsetLwsp d) .w32 (.reg d.rd) false)
  | 2, 3 => some (.load (stack + Ctype.offsetLdsp d) .w64 (.reg d.rd) false)
  | 2, 5 => some (.store (stack + Ctype.offsetSdsp d) (cpu.fregs (Ctype.lowReg d)) .w64)
  | 2, 6 => some (.store (stack + Ctype.offsetSwsp d)
      (((cpu.regs (Ctype.lowReg d)).setWidth 32).setWidth 64) .w32)
  | 2, 7 => some (.store (stack + Ctype.offsetSdsp d) (cpu.regs (Ctype.lowReg d)) .w64)
  | _, _ => none

/-- The width that the low bits of `funct3` stand for. -/
def widthOf (funct3 : BitVec 3) : Width :=
  match funct3 &&& 3 with
  | 0 => .w8
  | 1 => .w16
  | 2 => .w32
  | _ => .w64

/-- The access of an instruction of 32 bits, apart from the atomics. -/
def access32 (cpu : Cpu) (d : Decoder) : Option Access :=
  match d.opcodeType, d.funct3 with
  | some .load, 7 => none
  | some .load, f => some (.load (cpu.regs d.rs1 + d.immI) (widthOf f) (.reg d.rd) true)
  | some .s, f =>
    if f < 4 then some (.store (cpu.regs d.rs1 + d.immS) (cpu.regs d.rs2) (widthOf f)) else none
  | some .fl, f =>
    if cpu.cregs.isFpuEnabled ∧ (f = 2 ∨ f = 3) then
      some (.load (cpu.regs d.rs1 + d.flOffset) (widthOf f)
        (.freg d.rd (if f = 2 then 0xffffffff00000000 else 0)) false)
    else none
  | some .fs, f =>
    if cpu.cregs.isFpuEnabled ∧ (f = 2 ∨ f = 3) then
      some (.store (cpu.regs d.rs1 + d.fsOffset) (cpu.fregs d.rs2) (widthOf f))
    else none
  | _, _ => none

def dataAccess (cpu : Cpu) (d : Decoder) : Option Access :=
  if d.insnSize = 2 then access16 cpu d else access32 cpu d

/-- What an instruction does, as far as memory and exceptions are concerned. -/
inductive Effect (cpu : Cpu) (after : Cpu) : Option Access → Prop
  /-- Registers, `pc` and flags only. -/
  | quiet (h : cpu.Quiet after) : Effect cpu after none
  /-- An illegal instruction. -/
  | refused {c : Cpu} {x : Word} (flags : cpu.FlagsOnly c)
      (eq : (c.setException .illegalInstruction x).FlagsOnly after) : Effect cpu after none
  | loaded {address v value : Word} {length : Width} {rd : BitVec 5} {c : Cpu}
      (load : Mmu.load cpu address length = .ok (v, c))
      (eq : after = Load.assignIfNoException c rd value) :
      Effect cpu after (some (.load address length (.reg rd) true))
  | loadedUnchecked {address v value : Word} {length : Width} {dest : Dest} {c : Cpu}
      (load : Mmu.load cpu address length = .ok (v, c)) (fault : v = 0 → value = dest.faultValue)
      (eq : (dest.write c value).FlagsOnly after) :
      Effect cpu after (some (.load address length dest false))
  | stored {address value : Word} {length : Width} {c : Cpu}
      (store : Mmu.store cpu address value length = .ok c) (eq : c.FlagsOnly after) :
      Effect cpu after (some (.store address value length))

end Rv64gcEmu
