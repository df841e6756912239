import Rv64gcEmu.FcsrViews
import Rv64gcEmu.ReadonlyCsr

namespace Rv64gcEmu

open BitField (getLsbD_one_shiftLeft)
open FpCsr (getLsbD_and_lowMask exceptMask_eq fcsrMask_eq roundingModeMask_eq)

namespace CsrInsn

/-- The value that an instruction, executed next, puts into `rd`, when it is not refused. -/
def returned (cpu : Cpu) (d : Decoder) (op : CsrOp) (imm : Bool) : Option Word :=
  let fetched := (cpu.setReg 0 0).clearException
  let after := csrHandlers d.csr fetched d d.csr (operand fetched d imm) op
  if after.excVal = none then some (after.regs d.rd) else none

/-- What an instruction that only reads may change: nothing that a later read can tell. -/
structure OnlyReads (before after : Cpu) (d : Decoder) : Prop where
  unseen : ∀ (later : Decoder) (op : CsrOp) (imm : Bool), form later = some (op, imm) →
    later.csr ≠ Address.time → later.csr ≠ Address.cycle →
    returned after later op imm = returned before later op imm
  again : ∀ (op : CsrOp) (imm : Bool), form d = some (op, imm) → d.csr ≠ Address.time →
    d.csr ≠ Address.cycle → d.rd ≠ 0 → after.excVal = none →
    returned after d op imm = some (after.regs d.rd)
  status : before.cregs.load Address.sstatus = before.cregs.load Address.mstatus &&& Mask.sstatus ∧
    after.cregs.load Address.sstatus = after.cregs.load Address.mstatus &&& Mask.sstatus

/-- The cells agree already with what the views add to them. -/
structure ViewsAgree (csr : Csr) (address : BitVec 12) : Prop where
  status : (csr.regs Address.mstatus).getLsbD 33 = true
  flags : address = Address.fflags ∨ address = Address.fcsr → ∀ i, i < 5 →
    (csr.regs Address.fcsr).getLsbD i = (csr.regs Address.fflags).getLsbD i

/-- What the handlers read. -/
def readValue (csr : Csr) (address : BitVec 12) : Word :=
  if address = Address.fcsr then csr.regs Address.fcsr &&& 0xff
  else if address = Address.fflags then csr.regs Address.fflags &&& FExcept.mask
  else if address = Address.frm then csr.regs Address.fcsr >>> 5 &&& roundingModeMask
  else csr.load address

/-- The handlers of two CSRs refuse a read. -/
def Refuses (cpu : Cpu) (address : BitVec 12) : Prop :=
  (address = Address.mstatus ∧ cpu.mode = .user) ∨
    (address = Address.satp ∧ cpu.cregs.readBitMstatus .tvm = 1)

instance (cpu : Cpu) (address : BitVec 12) : Decidable (Refuses cpu address) :=
  inferInstanceAs (Decidable (_ ∨ _))

section Handlers

variable {cpu : Cpu} {d : Decoder} {op : CsrOp} {rhs : Word}

theorem csrHandlers_refused {csr : BitVec 12} (h : Refuses cpu csr) :
    (csrHandlers csr cpu d csr rhs op).excVal = some .illegalInstruction := by
  rcases h with ⟨rfl, hm⟩ | ⟨rfl, ht⟩
  · rw [csrHandlers_mstatus, csrPrivledgedHandler, if_pos hm]
    rfl
  · rw [csrHandlers_satp, satpHandler_excVal, if_pos ht]

theorem csrHandlers_result {csr : BitVec 12} (hc : csr ≠ Address.cycle) (h : ¬Refuses cpu csr) :
    (csrHandlers csr cpu d csr rhs op).excVal = cpu.excVal ∧
      (csrHandlers csr cpu d csr rhs op).regs d.rd = readValue cpu.cregs csr := by
  have hself : ∀ (f : BitVec 5 → Word) (v : Word), Function.update f d.rd v d.rd = v :=
    fun f v => Function.update_self d.rd v f
  unfold csrHandlers readValue
  split
  next hf =>
    subst hf
    exact ⟨rfl, hself _ _⟩
  next =>
    split
    next hf =>
      subst hf
      exact ⟨rfl, hself _ _⟩
    next =>
      split
      next hf =>
        subst hf
        exact ⟨rfl, hself _ _⟩
      next =>
        split
        next hs =>
          subst hs
          have ht : cpu.cregs.readBitMstatus .tvm ≠ 1 := fun ht => h (.inr ⟨rfl, ht⟩)
          rw [satpHandler_excVal, if_neg ht, satpHandler_regs]
          exact ⟨rfl, hself _ _⟩
        next =>
          split
          next => exact ⟨rfl, hself _ _⟩
          next =>
            split
            next hm =>
              have hu : cpu.mode ≠ .user := fun hu => h (.inl ⟨hm, hu⟩)
              rw [csrPrivledgedHandler, if_neg hu]
              exact ⟨rfl, hself _ _⟩
            next => exact ⟨rfl, hself _ _⟩

end Handlers

theorem returned_eq {d : Decoder} (hc : d.csr ≠ Address.cycle) (cpu : Cpu) (op : CsrOp)
    (imm : Bool) : returned cpu d op imm =
      if Refuses cpu d.csr then none else some (readValue cpu.cregs d.csr) := by
  unfold returned
  by_cases h : Refuses cpu d.csr
  · have he := @csrHandlers_refused (cpu.setReg 0 0).clearException d op
      (operand (cpu.setReg 0 0).clearException d imm) d.csr h
    simp only [he, reduceCtorEq, if_false, if_pos h]
  · obtain ⟨he, hv⟩ := @csrHandlers_result (cpu.setReg 0 0).clearException d op
      (operand (cpu.setReg 0 0).clearException d imm) d.csr hc h
    simp only [he, hv, if_neg h]
    rfl

/-- What a read sees of the cells is the same. -/
structure SameView (a b : Csr) : Prop where
  cells : ∀ x, x ≠ Address.fflags → x ≠ Address.frm → x ≠ Address.fcsr → b.regs x = a.regs x
  flags : ∀ i, i < 5 → (b.regs Address.fflags).getLsbD i = (a.regs Address.fflags).getLsbD i
  fcsr : ∀ i, i < 8 → (b.regs Address.fcsr).getLsbD i = (a.regs Address.fcsr).getLsbD i

theorem SameView.refl (a : Csr) : SameView a a := ⟨fun _ _ _ _ => rfl, fun _ _ => rfl, fun _ _ => rfl⟩

theorem SameView.load {a b : Csr} (h : SameView a b) {x : BitVec 12} (h1 : x ≠ Address.fflags)
    (h2 : x ≠ Address.frm) (h3 : x ≠ Address.fcsr) : b.load x = a.load x := by
  unfold Csr.load
  rw [h.cells Address.mstatus (by decide) (by decide) (by decide),
    h.cells Address.mie (by decide) (by decide) (by decide),
    h.cells Address.mip (by decide) (by decide) (by decide),
    h.cells Address.mideleg (by decide) (by decide) (by decide), h.cells x h1 h2 h3]

theorem SameView.readValue {a b : Csr} (h : SameView a b) (x : BitVec 12) :
    readValue b x = readValue a x := by
  unfold CsrInsn.readValue
  split
  next =>
    apply BitVec.eq_of_getLsbD_eq
    intro i _
    rw [getLsbD_and_lowMask fcsrMask_eq, getLsbD_and_lowMask fcsrMask_eq]
    by_cases hi : i < 8
    · rw [h.fcsr i hi]
    · simp [hi]
  next h3 =>
    split
    next =>
      apply BitVec.eq_of_getLsbD_eq
      intro i _
      rw [getLsbD_and_lowMask exceptMask_eq, getLsbD_and_lowMask exceptMask_eq]
      by_cases hi : i < 5
      · rw [h.flags i hi]
      · simp [hi]
    next h1 =>
      split
      next =>
        apply BitVec.eq_of_getLsbD_eq
        intro i _
        rw [getLsbD_and_lowMask roundingModeMask_eq, getLsbD_and_lowMask roundingModeMask_eq]
        by_cases hi : i < 3
        · rw [BitVec.getLsbD_ushiftRight, BitVec.getLsbD_ushiftRight, h.fcsr _ (by omega)]
        · simp [hi]
      next h2 => exact h.load h1 h2 h3

theorem SameView.refuses {a b : Cpu} (h : SameView a.cregs b.cregs) (hm : b.mode = a.mode)
    (x : BitVec 12) : Refuses b x ↔ Refuses a x := by
  have hload := h.load (x := Address.mstatus) (by decide) (by decide) (by decide)
  unfold Refuses Csr.readBitMstatus Csr.readBit
  rw [hm, hload]

/-- Bit 33 of `mstatus` is read as set. -/
theorem load_mstatus_iff {a : Csr} :
    a.load Address.mstatus = a.regs Address.mstatus ↔ (a.regs Address.mstatus).getLsbD 33 = true := by
  have hone : (0x200000000 : Word) = 1#64 <<< 33 := by decide
  change a.regs Address.mstatus ||| 0x200000000 = a.regs Address.mstatus ↔ _
  rw [hone]
  constructor
  · intro h
    have hb := congrArg (fun v => v.getLsbD 33) h
    simpa using hb
  · intro h
    apply BitVec.eq_of_getLsbD_eq
    intro i hi
    rw [BitVec.getLsbD_or, getLsbD_one_shiftLeft]
    by_cases h33 : i = 33
    · subst h33
      rw [h, Bool.true_or]
    · simp [h33]

/-- What `sstatus` lacks is that bit. -/
theorem load_sstatus_iff {a : Csr} :
    a.load Address.sstatus = a.load Address.mstatus &&& Mask.sstatus ↔
      (a.regs Address.mstatus).getLsbD 33 = true := by
  rw [← load_mstatus_iff]
  constructor
  · intro h
    rw [load_mstatus_iff]
    change a.regs Address.mstatus &&& Mask.sstatus =
      (a.regs Address.mstatus ||| 0x200000000) &&& Mask.sstatus at h
    have hb := congrArg (fun v => v.getLsbD 33) h
    have hm : Mask.sstatus.getLsbD 33 = true := by decide
    simpa [hm] using hb
  · intro h
    rw [h]
    rfl

section Reads

variable {cpu : Cpu} {d : Decoder} {op : CsrOp} {rhs : Word}

theorem fflags_read (hop : ∀ v, op v rhs = v) {a : Csr}
    (ha : a = (csrHandlers Address.fflags cpu d Address.fflags rhs op).cregs) :
    (∀ i, i < 5 → (a.regs Address.fflags).getLsbD i = (cpu.cregs.regs Address.fflags).getLsbD i) ∧
      ∀ i, i < 8 → (a.regs Address.fcsr).getLsbD i =
        if i < 5 then (cpu.cregs.regs Address.fflags).getLsbD i
        else (cpu.cregs.regs Address.fcsr).getLsbD i := by
  obtain ⟨hg, hf⟩ := @FpCsr.fflags_cells cpu d op rhs
    (cpu.cregs.regs Address.fflags &&& FExcept.mask) (hop _).symm
  subst ha
  refine ⟨fun i hi => ?_, fun i hi => ?_⟩
  · rw [hg, FpCsr.getLsbD_insert_low (le_refl 5) hi exceptMask_eq exceptMask_eq,
      getLsbD_and_lowMask exceptMask_eq, decide_eq_true hi, Bool.true_and]
  · by_cases h5 : i < 5
    · rw [hf, FpCsr.getLsbD_insert_low (by decide) h5 exceptMask_eq fcsrMask_eq, if_pos h5,
        getLsbD_and_lowMask exceptMask_eq, decide_eq_true h5, Bool.true_and]
    · have h64 : i < 64 := by omega
      rw [hf, if_neg h5, BitVec.getLsbD_or, BitVec.getLsbD_and, BitVec.getLsbD_not, exceptMask_eq,
        BitField.getLsbD_lowMask, getLsbD_and_lowMask fcsrMask_eq, ← exceptMask_eq,
        getLsbD_and_lowMask exceptMask_eq]
      simp [h5, h64]

theorem fcsr_read (hop : ∀ v, op v rhs = v) {a : Csr}
    (ha : a = (csrHandlers Address.fcsr cpu d Address.fcsr rhs op).cregs) :
    (∀ i, i < 5 → (a.regs Address.fflags).getLsbD i =
        ((cpu.cregs.regs Address.fcsr).getLsbD i || (cpu.cregs.regs Address.fflags).getLsbD i)) ∧
      ∀ i, i < 8 → (a.regs Address.fcsr).getLsbD i =
        ((cpu.cregs.regs Address.fcsr).getLsbD i ||
          (decide (i < 5) && (cpu.cregs.regs Address.fflags).getLsbD i)) := by
  obtain ⟨hg, hf⟩ := @FpCsr.fcsr_cells cpu d op rhs
    (cpu.cregs.regs Address.fcsr ||| (cpu.cregs.regs Address.fflags &&& FExcept.mask)) (hop _).symm
  subst ha
  refine ⟨fun i hi => ?_, fun i hi => ?_⟩
  · rw [hg, FpCsr.getLsbD_insert_low (le_refl 5) hi exceptMask_eq exceptMask_eq, BitVec.getLsbD_or,
      getLsbD_and_lowMask exceptMask_eq, decide_eq_true hi, Bool.true_and]
  · rw [hf, getLsbD_and_lowMask fcsrMask_eq, decide_eq_true hi, Bool.true_and, BitVec.getLsbD_or,
      getLsbD_and_lowMask exceptMask_eq]

theorem frm_read (hop : ∀ v, op v rhs = v) {a : Csr}
    (ha : a = (csrHandlers Address.frm cpu d Address.frm rhs op).cregs) :
    a.regs Address.fflags = cpu.cregs.regs Address.fflags ∧
      ∀ i, i < 8 → (a.regs Address.fcsr).getLsbD i = (cpu.cregs.regs Address.fcsr).getLsbD i := by
  obtain ⟨hg, hf⟩ := @FpCsr.frm_cells cpu d op rhs (cpu.cregs.regs Address.fcsr >>> 5) (hop _).symm
  subst ha
  refine ⟨hg, fun i hi => ?_⟩
  have h64 : i < 64 := by omega
  rw [hf, getLsbD_and_lowMask fcsrMask_eq, BitVec.getLsbD_or, BitVec.getLsbD_and,
    BitVec.getLsbD_not, FpCsr.getLsbD_frmMask h64, BitVec.getLsbD_shiftLeft]
  by_cases h5 : i < 5
  · have hle : ¬5 ≤ i := by omega
    simp [h5, hle, hi, h64]
  · have hle : 5 ≤ i := by omega
    have hsub : 5 + (i - 5) = i := by omega
    simp [h5, hle, hi, h64, hsub]

/-- The handlers of the other CSRs store what they have loaded. -/
theorem csrHandlers_stores_back (hop : ∀ v, op v rhs = v) {csr : BitVec 12}
    (h1 : csr ≠ Address.fflags) (h2 : csr ≠ Address.frm) (h3 : csr ≠ Address.fcsr)
    (hm : csr = Address.mstatus → (cpu.cregs.regs Address.mstatus).getLsbD 33 = true) :
    (csrHandlers csr cpu d csr rhs op).cregs = cpu.cregs := by
  have hstore : cpu.cregs.store csr (op (cpu.cregs.load csr) rhs) = cpu.cregs := by
    rw [hop]
    by_cases hs : csr = Address.mstatus
    · rw [hs, load_mstatus_iff.mpr (hm hs)]
      exact cpu.cregs.setCell_self Address.mstatus
    · exact Csr.store_load hs cpu.cregs
  unfold csrHandlers
  simp only [h1, h2, h3, if_false]
  split
  next hs =>
    subst hs
    rw [satpHandler_cregs, hstore]
  next =>
    split
    next => rfl
    next =>
      split
      next => rw [enforcedReadonlyHandler_cregs]
      next =>
        split
        next =>
          unfold csrPrivledgedHandler
          split
          next => rfl
          next => exact hstore
        next => exact hstore

theorem csrHandlers_sameView (hop : ∀ v, op v rhs = v) {csr : BitVec 12}
    (h : ViewsAgree cpu.cregs csr) :
    SameView cpu.cregs (csrHandlers csr cpu d csr rhs op).cregs := by
  by_cases h1 : csr = Address.fflags
  · subst h1
    obtain ⟨hg, hf⟩ := @fflags_read cpu d op rhs hop _ rfl
    refine ⟨fun x hx1 hx2 hx3 => csrHandlers_cell hx1 hx1 hx2 hx3, hg, fun i hi => ?_⟩
    rw [hf i hi]
    split
    next h5 => exact (h.flags (.inl rfl) i h5).symm
    next => rfl
  by_cases h2 : csr = Address.frm
  · subst h2
    obtain ⟨hg, hf⟩ := @frm_read cpu d op rhs hop _ rfl
    refine ⟨fun x hx1 hx2 hx3 => csrHandlers_cell hx2 hx1 hx2 hx3, fun i _ => ?_, hf⟩
    rw [hg]
  by_cases h3 : csr = Address.fcsr
  · subst h3
    obtain ⟨hg, hf⟩ := @fcsr_read cpu d op rhs hop _ rfl
    refine ⟨fun x hx1 hx2 hx3 => csrHandlers_cell hx3 hx1 hx2 hx3, fun i hi => ?_, fun i hi => ?_⟩
    · rw [hg i hi, h.flags (.inr rfl) i hi, Bool.or_self]
    · rw [hf i hi]
      by_cases h5 : i < 5
      · rw [h.flags (.inr rfl) i h5, decide_eq_true h5, Bool.true_and, Bool.or_self]
      · rw [decide_eq_false h5, Bool.false_and, Bool.or_false]
  rw [csrHandlers_stores_back hop h1 h2 h3 fun _ => h.status]
  exact .refl _

/-- A read of `fflags` or of `fcsr` brings the two together. -/
theorem flags_of_unseen (hop : ∀ v, op v rhs = v) {csr : BitVec 12} {a : Csr}
    (ha : a = (csrHandlers csr cpu d csr rhs op).cregs)
    (hflags : readValue a Address.fflags = readValue cpu.cregs Address.fflags)
    (hfcsr : readValue a Address.fcsr = readValue cpu.cregs Address.fcsr)
    (h : csr = Address.fflags ∨ csr = Address.fcsr) {i : Nat} (hi : i < 5) :
    (cpu.cregs.regs Address.fcsr).getLsbD i = (cpu.cregs.regs Address.fflags).getLsbD i := by
  have h8 : i < 8 := by omega
  have hg := congrArg (fun v => v.getLsbD i) hflags
  have hf := congrArg (fun v => v.getLsbD i) hfcsr
  change (a.regs Address.fflags &&& FExcept.mask).getLsbD i =
    (cpu.cregs.regs Address.fflags &&& FExcept.mask).getLsbD i at hg
  change (a.regs Address.fcsr &&& 0xff).getLsbD i =
    (cpu.cregs.regs Address.fcsr &&& 0xff).getLsbD i at hf
  rw [getLsbD_and_lowMask exceptMask_eq, getLsbD_and_lowMask exceptMask_eq, decide_eq_true hi,
    Bool.true_and, Bool.true_and] at hg
  rw [getLsbD_and_lowMask fcsrMask_eq, getLsbD_and_lowMask fcsrMask_eq, decide_eq_true h8,
    Bool.true_and, Bool.true_and] at hf
  rcases h with rfl | rfl
  · obtain ⟨_, hf'⟩ := fflags_read hop ha
    rw [hf' i h8, if_pos hi] at hf
    exact hf.symm
  · obtain ⟨hg', hf'⟩ := fcsr_read hop ha
    rw [hg' i hi] at hg
    rw [hf' i h8, decide_eq_true hi, Bool.true_and] at hf
    exact hf.symm.trans hg

end Reads

/-- A read goes unseen exactly when the cells agree already with what the views make of them. -/
theorem onlyReads_iff {before fetched : Cpu} {d : Decoder} {op : CsrOp} {imm : Bool}
    (hf : before.Fetched fetched d) (hop : d.opcode = OpcodeType.code .csr)
    (hform : form d = some (op, imm)) (hw : d.writesCsr = false) :
    ∃ after, before._loop = .ok (4, after) ∧
      (OnlyReads fetched after d ↔ ViewsAgree fetched.cregs d.csr) := by
  have hd : d.isCsr = true := by simp [Decoder.isCsr, insnSize_of_csr hop, opcodeType_of_csr hop]
  have hid := op_of_not_writes hd hf.regs_zero hform hw
  refine ⟨_, loop_of_csr hf hop, ?_⟩
  rw [funct3_of_form fetched hform]
  have hmode := (@csrHandlers_inPlace fetched d (operand fetched d imm) op d.csr).mode
  constructor
  · intro h
    have hread : ∀ (later : Decoder) (op' : CsrOp) (imm' : Bool), form later = some (op', imm') →
        later.csr ≠ Address.time → later.csr ≠ Address.cycle →
        (∀ c : Cpu, ¬Refuses c later.csr) →
        readValue (csrHandlers d.csr fetched d d.csr (operand fetched d imm) op).cregs later.csr =
          readValue fetched.cregs later.csr := by
      intro later op' imm' hl ht hc hr
      have hs := h.unseen later op' imm' hl ht hc
      rw [returned_eq hc, returned_eq hc, if_neg (hr _), if_neg (hr _)] at hs
      exact Option.some.inj hs
    have hnever : ∀ {x : BitVec 12}, x ≠ Address.mstatus → x ≠ Address.satp →
        ∀ c : Cpu, ¬Refuses c x := fun h1 h2 c hr => hr.elim (fun hr => h1 hr.1) fun hr => h2 hr.1
    refine ⟨load_sstatus_iff.mp h.status.1, fun hcsr i hi => ?_⟩
    refine @flags_of_unseen fetched d op _ hid d.csr _ rfl ?_ ?_ hcsr i hi
    · exact hread (FpCsr.readInsn .fflags) opSet false rfl (by decide) (by decide)
        (hnever (by decide) (by decide))
    · exact hread (FpCsr.readInsn .fcsr) opSet false rfl (by decide) (by decide)
        (hnever (by decide) (by decide))
  · intro h
    have hview := @csrHandlers_sameView fetched d op (operand fetched d imm) hid d.csr h
    refine ⟨fun later op' imm' _ _ hc => ?_, fun op' imm' _ _ hc _ hexc => ?_, ?_⟩
    · rw [returned_eq hc, returned_eq hc, hview.readValue]
      simp only [hview.refuses hmode]
    · by_cases hr : Refuses fetched d.csr
      · rw [csrHandlers_refused hr] at hexc
        cases hexc
      · have hv := (@csrHandlers_result fetched d op (operand fetched d imm) d.csr hc hr).2
        rw [returned_eq hc, if_neg (mt (hview.refuses hmode d.csr).mp hr), hview.readValue, hv]
    · rw [load_sstatus_iff, load_sstatus_iff,
        hview.cells Address.mstatus (by decide) (by decide) (by decide)]
      exact ⟨h.status, h.status⟩

/-- `csrrs x5, mstatus, x0`. -/
def statusReader : Cpu := Cpu.ofImage [0xf3, 0x22, 0x00, 0x30] (by decide)

def readStatus : Decoder := ⟨0x300022f3⟩

theorem statusReader_fetched : statusReader.Fetched (statusReader.setReg 0 0) readStatus :=
  ⟨rfl, ⟨_, rfl, rfl⟩, rfl⟩

theorem onlyReads_iff_statusReader : ∃ after, statusReader._loop = .ok (4, after) ∧
    (OnlyReads (statusReader.setReg 0 0) after readStatus ↔
      ViewsAgree (statusReader.setReg 0 0).cregs readStatus.csr) :=
  @onlyReads_iff _ _ _ opSet false statusReader_fetched rfl rfl rfl

/-- `csrrs x6, sstatus, x0` returns another value afterwards. -/
theorem statusReader_seen : ¬ ∀ (before fetched after : Cpu) (d : Decoder) (op : CsrOp)
    (imm : Bool), before.Fetched fetched d → d.opcode = OpcodeType.code .csr →
    form d = some (op, imm) → d.writesCsr = false → before._loop = .ok (4, after) →
    OnlyReads fetched after d := by
  intro h
  have hloop := loop_of_csr statusReader_fetched rfl
  have hk := h _ _ _ _ opSet false statusReader_fetched rfl rfl rfl hloop
  exact absurd (hk.unseen ⟨0x10002373⟩ opSet false rfl (by decide) (by decide)) (by decide)

end CsrInsn

end Rv64gcEmu
