import Rv64gcEmu.FcsrViews

namespace Rv64gcEmu

open CsrInsn (csrHandlers form)

/-- An instruction that was legal before still is. -/
def KeepsLegal (a b : Cpu) : Prop :=
  a.excVal ≠ some .illegalInstruction → b.excVal ≠ some .illegalInstruction

namespace KeepsLegal

theorem of_excVal {a b : Cpu} (h : b.excVal = a.excVal) : KeepsLegal a b := by
  intro ha
  rw [h]
  exact ha

theorem trans {a b c : Cpu} (h : KeepsLegal a b) (h' : KeepsLegal b c) : KeepsLegal a c :=
  fun ha => h' (h ha)

theorem busLoad {a b : Cpu} {address v : Word} {length : Width}
    (h : Bus.load a address length = .ok (v, b)) : KeepsLegal a b := by
  rcases Bus.load_cases h with ⟨d, bus, _, _, rfl⟩ | ⟨_, _, rfl⟩
  · exact of_excVal rfl
  · exact fun _ => by simp

theorem busStore {a b : Cpu} {address value : Word} {length : Width}
    (h : Bus.store a address value length = .ok b) : KeepsLegal a b := by
  rcases Bus.store_exc h with he | ⟨he, _⟩
  · exact of_excVal he
  · intro _
    rw [he]
    simp

theorem of_faulted {a b : Cpu} {address : Word} {accessType : AccessType}
    (h : Mmu.Faulted b address accessType) : KeepsLegal a b := by
  intro _
  rw [h.excVal]
  cases accessType <;> simp [Mmu.pageFault]

theorem translate {a b : Cpu} {address p : Word} {accessType : AccessType}
    (h : Mmu.translate a address accessType = .ok (p, b)) : KeepsLegal a b := by
  rcases Mmu.translate_cases h with ⟨_, rfl⟩ | ⟨c, hg, rfl⟩ | ⟨_, i, c, hg, hcheck⟩
  · exact of_excVal rfl
  · exact of_faulted ((Mmu.getTlbEntry_frame hg).fault rfl)
  · have hc : KeepsLegal a c := of_excVal ((Mmu.getTlbEntry_frame hg).quiet rfl).1
    rcases Mmu.checkEntry_cases hcheck with ⟨_, rfl⟩ | ⟨_, ⟨_, rfl⟩ | ⟨_, hs⟩⟩
    · exact of_faulted (Mmu.setCpuError_faulted c address accessType)
    · exact hc
    · have hs' := busStore hs
      intro ha
      exact hs' (hc ha)

theorem load {a b : Cpu} {address v : Word} {length : Width}
    (h : Mmu.load a address length = .ok (v, b)) : KeepsLegal a b := by
  obtain ⟨p, c, ht, ⟨_, _, rfl⟩ | ⟨_, hl⟩⟩ := Mmu.load_cases h
  · exact translate ht
  · exact (translate ht).trans (busLoad hl)

theorem store {a b : Cpu} {address value : Word} {length : Width}
    (h : Mmu.store a address value length = .ok b) : KeepsLegal a b := by
  obtain ⟨p, c, ht, ⟨_, rfl⟩ | ⟨_, hs⟩⟩ := Mmu.store_cases h
  · exact translate ht
  · exact (translate ht).trans (busStore hs)

end KeepsLegal

namespace Decoder

/-- `C.FSD` and `C.FSDSP`. -/
def isFloatStore16 (d : Decoder) : Bool :=
  d.insnSize = 2 && d.compressedFunct3 = 5 && (d.compressedOpcode = 0 || d.compressedOpcode = 2)

/-- The instruction names a floating-point register, or one of the three CSRs. -/
inductive NamesFp (d : Decoder) : Prop
  | float (h : d.isFloat32 = true)
  | load (h : d.isFloatLoad16 = true)
  | store (h : d.isFloatStore16 = true)
  | csr (target : FpCsr) (h : d.isCsr = true) (ha : d.csr = target.address) (hf : (form d).isSome)

variable {d : Decoder}

theorem insn_ne_zero_of_size (h : d.insnSize = 4) : d.insn ≠ 0 := by
  intro hz
  simp [insnSize, compressedOpcode, hz] at h

theorem insn_ne_zero_of_funct3 (h : d.compressedFunct3 ≠ 0) : d.insn ≠ 0 := by
  intro hz
  simp [compressedFunct3, hz] at h

theorem NamesFp.insn_ne_zero (h : d.NamesFp) : d.insn ≠ 0 := by
  cases h with
  | float h =>
    simp only [isFloat32, Bool.and_eq_true, decide_eq_true_eq] at h
    exact insn_ne_zero_of_size h.1
  | load h =>
    simp only [isFloatLoad16, Bool.and_eq_true, decide_eq_true_eq] at h
    refine insn_ne_zero_of_funct3 ?_
    rw [h.1.2]
    decide
  | store h =>
    simp only [isFloatStore16, Bool.and_eq_true, decide_eq_true_eq] at h
    refine insn_ne_zero_of_funct3 ?_
    rw [h.1.2]
    decide
  | csr _ h _ _ =>
    simp only [isCsr, Bool.and_eq_true, decide_eq_true_eq] at h
    exact insn_ne_zero_of_size h.1

end Decoder

/-- What an instruction does that floating-point state is closed to. -/
structure Refuses (before after : Cpu) : Prop where
  exc : after.excVal = some .illegalInstruction
  fregs : after.fregs = before.fregs
  regs : after.regs = before.regs
  fp : SameFp before after
  bus : after.bus = before.bus

variable {cpu after : Cpu} {d : Decoder}

theorem Fdimpl.checked_off {body : Cpu → Decoder → HostM Cpu} (hoff : cpu.cregs.isFpuEnabled = false) :
    checked body cpu d = .ok (cpu.setException .illegalInstruction 0) := by
  unfold checked
  rw [hoff]
  rfl

theorem Fdtype.fused_off {op : Fmt → Cpu → Decoder → HostM Cpu}
    (hoff : cpu.cregs.isFpuEnabled = false) :
    fused op cpu d = .ok (cpu.setException .illegalInstruction 0) := Fdimpl.checked_off hoff

/-- All seven opcodes go through `check_fs` first. -/
theorem execute32_off (hf : d.opcodeType.any OpcodeType.isFloat = true)
    (hoff : cpu.cregs.isFpuEnabled = false) :
    cpu.execute32 d = .ok (cpu.setException .illegalInstruction 0) := by
  unfold Cpu.execute32
  split
  case h_7 | h_8 | h_13 => exact Fdimpl.checked_off hoff
  case h_9 | h_10 | h_11 | h_12 => exact Fdtype.fused_off hoff
  all_goals
    rename d.opcodeType = _ => ht
    rw [ht] at hf
    simp [OpcodeType.isFloat] at hf

theorem execute16_floatStore (hs : d.isFloatStore16 = true) (h : cpu.execute16 d = .ok after) :
    ∃ address value, Mmu.store cpu address value .w64 = .ok after := by
  simp only [Decoder.isFloatStore16, Bool.and_eq_true, Bool.or_eq_true, decide_eq_true_eq] at hs
  obtain ⟨⟨_, h5⟩, hq⟩ := hs
  unfold Cpu.execute16 at h
  rcases hq with hq | hq
  · rw [hq] at h
    simp only [Ctype.quadrant0, h5] at h
    exact ⟨_, _, h⟩
  · rw [hq] at h
    simp only [Ctype.quadrant2, h5] at h
    exact ⟨_, _, h⟩

theorem csrHandlers_fp_excVal (target : FpCsr) (rhs : Word) (op : CsrOp) :
    (csrHandlers target.address cpu d target.address rhs op).excVal = cpu.excVal := by
  cases target with
  | fflags => rfl
  | frm => rfl
  | fcsr => rfl

/-- The compressed accesses and the CSR instructions never look at `FS`. -/
theorem execute_keepsLegal {size : Word} (hn : d.NamesFp) (hf : d.isFloat32 = false)
    (h : cpu.execute d = .ok (size, after)) : KeepsLegal cpu after := by
  cases hn with
  | float hf' =>
    rw [hf] at hf'
    cases hf'
  | csr target hd ha hform =>
    obtain ⟨⟨op, imm⟩, hform⟩ := Option.isSome_iff_exists.mp hform
    refine .of_excVal ?_
    rw [Cpu.execute_csr hd h, CsrInsn.funct3_of_form cpu hform, ha]
    exact csrHandlers_fp_excVal target _ op
  | load hl =>
    rcases Cpu.execute_cases h with ⟨_, _, hx⟩ | ⟨hs, _, _⟩
    · obtain ⟨_, rd, v, c, hload, rfl⟩ := execute16_floatLoad hl hx
      exact (KeepsLegal.load hload).trans (.of_excVal rfl)
    · simp [Decoder.isFloatLoad16, hs] at hl
  | store hs =>
    rcases Cpu.execute_cases h with ⟨_, _, hx⟩ | ⟨h4, _, _⟩
    · obtain ⟨_, _, hstore⟩ := execute16_floatStore hs hx
      exact .store hstore
    · simp [Decoder.isFloatStore16, h4] at hs

/-- With `FS` off, the 32-bit opcodes are refused, and nothing else. -/
theorem refuses_iff {before fetched : Cpu} (hf : before.Fetched fetched d) (hn : d.NamesFp)
    (hoff : before.cregs.isFpuEnabled = false) :
    (∃ size after, before._loop = .ok (size, after) ∧ Refuses fetched after) ↔ d.isFloat32 = true := by
  rw [Cpu.loop_of_fetched hf hn.insn_ne_zero]
  have hoff' : fetched.cregs.isFpuEnabled = false := by
    rw [hf.coreEq.cregs]
    exact hoff
  constructor
  · rintro ⟨size, after, h, hr⟩
    by_contra hfloat
    have hlegal := execute_keepsLegal hn (Bool.not_eq_true _ ▸ hfloat) h
    refine hlegal ?_ hr.exc
    rw [hf.exc]
    simp
  · intro hfloat
    simp only [Decoder.isFloat32, Bool.and_eq_true, decide_eq_true_eq] at hfloat
    have hne : d.insnSize ≠ 2 := by
      rw [hfloat.1]
      decide
    refine ⟨d.insnSize, fetched.setException .illegalInstruction 0, ?_, ⟨rfl, rfl, rfl, fun _ => rfl, rfl⟩⟩
    unfold Cpu.execute
    simp only [if_neg hne, execute32_off hfloat.2 hoff']
    rfl

/-- `csrrwi x0, frm, 1`, from a reset. -/
def lazyRounding : Cpu := Cpu.ofImage [0x73, 0xd0, 0x20, 0x00] (by decide)

def writeRounding : Decoder := ⟨0x0020d073⟩

theorem lazyRounding_fetched : lazyRounding.Fetched (lazyRounding.setReg 0 0) writeRounding :=
  ⟨rfl, ⟨_, rfl, rfl⟩, rfl⟩

theorem writeRounding_namesFp : writeRounding.NamesFp := .csr .frm rfl rfl rfl

theorem refuses_iff_lazyRounding :
    (∃ size after, lazyRounding._loop = .ok (size, after) ∧ Refuses (lazyRounding.setReg 0 0) after) ↔
      writeRounding.isFloat32 = true :=
  refuses_iff lazyRounding_fetched writeRounding_namesFp rfl

theorem lazyRounding_not_refused : ¬ ∀ (before fetched : Cpu) (d : Decoder),
    before.Fetched fetched d → d.NamesFp → before.cregs.isFpuEnabled = false →
    ∃ size after, before._loop = .ok (size, after) ∧ Refuses fetched after := by
  intro h
  obtain ⟨size, after, hl, hr⟩ := h _ _ _ lazyRounding_fetched writeRounding_namesFp rfl
  have hx : lazyRounding._loop = .ok (4, CsrInsn.funct3 (lazyRounding.setReg 0 0) writeRounding) := rfl
  obtain ⟨_, rfl⟩ := Prod.mk.inj (Except.ok.inj (hx.symm.trans hl))
  have hexc : (none : Option Exception) = some .illegalInstruction := hr.exc
  cases hexc

namespace FS

def dirty : Word := 3

end FS

/-- The `FS` field of `mstatus`, and of `sstatus`. -/
structure SameFs (a b : Cpu) : Prop where
  fs : b.cregs.getFs = a.cregs.getFs
  view : b.cregs.readBits Address.sstatus 14 13 = a.cregs.readBits Address.sstatus 14 13

theorem SameFs.of_mstatus {a b : Cpu}
    (h : b.cregs.regs Address.mstatus = a.cregs.regs Address.mstatus) : SameFs a b := by
  constructor
  · change Helper.readBits (b.cregs.regs Address.mstatus ||| 0x200000000) 14 13 =
      Helper.readBits (a.cregs.regs Address.mstatus ||| 0x200000000) 14 13
    rw [h]
  · change Helper.readBits (b.cregs.regs Address.mstatus &&& Mask.sstatus) 14 13 =
      Helper.readBits (a.cregs.regs Address.mstatus &&& Mask.sstatus) 14 13
    rw [h]

/-- Some floating-point register or one of the three CSRs is no longer what it was. -/
def ChangesFp (before after : Cpu) : Prop := after.fregs ≠ before.fregs ∨ ¬SameFp before after

/-- Of `mstatus` and the three CSRs, one instruction writes one side only. -/
def OneSide (a b : Cpu) : Prop :=
  b.cregs.regs Address.mstatus = a.cregs.regs Address.mstatus ∨ SameFp a b

namespace OneSide

theorem of_cregs {a b : Cpu} (h : b.cregs = a.cregs) : OneSide a b := .inl (by rw [h])

theorem store {a b : Cpu} {csr : Csr} {address : BitVec 12} {v : Word}
    (hc : csr = a.cregs.store address v) (h : b.cregs = csr) : OneSide a b := by
  subst hc
  by_cases hm : Csr.cellOf address = Address.mstatus
  · refine .inr fun target => ?_
    have hne : target.address ≠ Csr.cellOf address := by
      rw [hm]
      cases target <;> simp [FpCsr.address]
    rw [h, Csr.store_of_ne hne]
  · refine .inl ?_
    rw [h, Csr.store_of_ne (Ne.symm hm)]

/-- A return writes `mstatus` only. -/
theorem of_returned {a b : Cpu} {level : Level} (h : Returned level a b) : OneSide a b :=
  .inr fun target => h.cell (by cases target <;> simp [FpCsr.address])

theorem csrHandlers (csr : BitVec 12) {rhs : Word} {op : CsrOp} :
    OneSide cpu (csrHandlers csr cpu d csr rhs op) := by
  refine @CsrInsn.csrHandlers_cases (fun handler => OneSide cpu (handler cpu d csr rhs op)) csr
    (.inl rfl) (.inl rfl) (.inl rfl) ?_ (.of_cregs rfl) ?_ ?_ (store rfl rfl)
  · unfold CsrInsn.csrSatpHandler
    simp only
    split
    next => exact store rfl rfl
    next => exact store rfl rfl
  · unfold CsrInsn.csrEnforcedReadonlyHandler
    simp only
    split
    next => exact of_cregs rfl
    next => exact of_cregs rfl
  · unfold CsrInsn.csrPrivledgedHandler
    split
    next => exact of_cregs rfl
    next => exact store rfl rfl

theorem environment : OneSide cpu (CsrInsn.environment cpu d) := by
  unfold CsrInsn.environment
  split
  next =>
    unfold CsrInsn.sfencevma
    simp only
    split
    next => exact of_cregs rfl
    next => exact of_cregs rfl
  next =>
    split
    next => exact of_cregs rfl
    next =>
      split
      next => exact of_cregs rfl
      next =>
        split
        next =>
          unfold CsrInsn.ecall
          split <;> exact of_cregs rfl
        next => exact of_cregs rfl
        next =>
          split
          next => exact of_cregs rfl
          next =>
            rcases CsrInsn.sret_cases cpu d with ⟨hi, _⟩ | ⟨hret, _⟩
            · rw [hi]
              exact of_cregs rfl
            · exact of_returned hret
          next =>
            rcases CsrInsn.mret_cases cpu d with ⟨hi, _⟩ | ⟨hret, _⟩
            · rw [hi]
              exact of_cregs rfl
            · exact of_returned hret
          next => exact of_cregs rfl
        next =>
          split
          next => exact of_cregs rfl
          next => exact of_cregs rfl
        next => exact of_cregs rfl

theorem funct3 : OneSide cpu (CsrInsn.funct3 cpu d) := by
  unfold CsrInsn.funct3
  split
  next => exact environment
  next => exact csrHandlers d.csr
  next => exact csrHandlers d.csr
  next => exact csrHandlers d.csr
  next => exact csrHandlers d.csr
  next => exact csrHandlers d.csr
  next => exact csrHandlers d.csr
  next => exact of_cregs rfl

end OneSide

/-- An instruction that changes floating-point state does not record it. -/
theorem execute_sameFs {size : Word} (h : cpu.execute d = .ok (size, after))
    (hch : ChangesFp cpu after) : SameFs cpu after := by
  cases Cpu.execute_ran h with
  | plain _ _ heff => exact .of_mstatus (heff.frame.csr _ (by decide))
  | atomic _ _ ha => exact .of_mstatus (by rw [(Atomic.funct3_frame ha).cregs])
  | csr _ _ hc =>
    have hfregs : after.fregs = cpu.fregs := hc ▸ (CsrInsn.funct3_frame cpu d).fregs
    have hside := @OneSide.funct3 cpu d
    rw [← hc] at hside
    rcases hside with hm | hfp
    · exact .of_mstatus hm
    · rcases hch with hf | hs
      · exact absurd hfregs hf
      · exact absurd hfp hs

/-- `fmv.d.x f1, x5`, with `FS` at its initial value. -/
def initialMove : Cpu :=
  let cpu := (Cpu.ofImage [0xd3, 0x80, 0x02, 0xf2] (by decide)).setReg 5 1
  cpu.setCregs (cpu.cregs.setCell Address.mstatus 0x2000)

def moveToFloat : Decoder := ⟨0xf20280d3⟩

/-- The machine behind the move. -/
def initialMoved : Cpu := (initialMove.setFreg 1 1).setFenv FeFlags.clear

theorem initialMove_execute : initialMove.execute moveToFloat = .ok (4, initialMoved) := rfl

theorem initialMove_changesFp : ChangesFp initialMove initialMoved := by
  refine .inl fun h => ?_
  have h1 := congrFun h 1
  exact absurd h1 (by decide)

theorem execute_sameFs_initialMove : SameFs initialMove initialMoved :=
  execute_sameFs initialMove_execute initialMove_changesFp

theorem initialMove_not_dirty : ¬ ∀ (cpu after : Cpu) (d : Decoder) (size : Word),
    cpu.cregs.isFpuEnabled = true → cpu.execute d = .ok (size, after) → ChangesFp cpu after →
    after.cregs.getFs = FS.dirty ∧ after.cregs.readBits Address.sstatus 14 13 = FS.dirty := by
  intro h
  have hfs := (h _ _ _ _ rfl initialMove_execute initialMove_changesFp).1
  exact absurd hfs (by decide)

end Rv64gcEmu
