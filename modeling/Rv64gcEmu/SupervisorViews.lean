import Rv64gcEmu.MaskedView
import Rv64gcEmu.Turn

namespace Rv64gcEmu

open MaskedView (MaskedCell)

/-- The CSRs through which Supervisor mode sees a machine register. -/
inductive SupervisorView where
  | sstatus
  | sie
  | sip
  deriving DecidableEq

namespace SupervisorView

def address : SupervisorView → BitVec 12
  | sstatus => Address.sstatus
  | sie => Address.sie
  | sip => Address.sip

/-- The machine register behind the view. -/
def machine : SupervisorView → BitVec 12
  | sstatus => Address.mstatus
  | sie => Address.mie
  | sip => Address.mip

def readMask (view : SupervisorView) (csr : Csr) : Word :=
  match view with
  | sstatus => Mask.sstatus
  | sie => csr.regs Address.mideleg
  | sip => csr.regs Address.mideleg

def writeMask (view : SupervisorView) (csr : Csr) : Word :=
  match view with
  | sstatus => Mask.sstatus
  | sie => csr.regs Address.mideleg
  | sip => csr.regs Address.mideleg &&& Mask.ssip

theorem regs_mideleg_setCell (view : SupervisorView) (csr : Csr) (v : Word) :
    (csr.setCell view.machine v).regs Address.mideleg = csr.regs Address.mideleg := by
  rw [Csr.setCell_regs, Function.update_of_ne]
  cases view <;> simp [machine]

/-- The view as a cell behind two masks, of which `mideleg` is a register of its own. -/
def cell (view : SupervisorView) : MaskedCell Csr 64 where
  get csr := csr.regs view.machine
  set csr v := csr.setCell view.machine v
  readMask := view.readMask
  writeMask := view.writeMask
  get_set csr v := by rw [Csr.setCell_regs, Function.update_self]
  set_get csr := Csr.setCell_self csr view.machine
  set_set csr v v' := by
    unfold Csr.setCell
    rw [Function.update_idem]
  readMask_set csr v := by
    unfold readMask
    rw [regs_mideleg_setCell]
  writeMask_set csr v := by
    unfold writeMask
    rw [regs_mideleg_setCell]
  writeMask_le csr := by
    cases view with
    | sstatus => exact BitVec.and_self
    | sie => exact BitVec.and_self
    | sip =>
      change csr.regs Address.mideleg &&& Mask.ssip &&& csr.regs Address.mideleg = _
      rw [BitVec.and_comm, ← BitVec.and_assoc, BitVec.and_self]
      rfl

/-- `Csr::load` and `Csr::store` see the machine register through the two masks. -/
theorem load_eq (view : SupervisorView) (csr : Csr) :
    csr.load view.address = view.cell.load csr := by
  cases view <;> rfl

theorem store_eq (view : SupervisorView) (csr : Csr) (v : Word) :
    csr.store view.address v = view.cell.store csr v := by
  cases view <;> rfl

theorem regs_store (view : SupervisorView) (csr : Csr) (v : Word) {i : Nat} (hi : i < 64) :
    ((csr.store view.address v).regs view.machine).getLsbD i =
      if (view.writeMask csr).getLsbD i then v.getLsbD i
      else (csr.regs view.machine).getLsbD i := by
  have hget : (csr.store view.address v).regs view.machine =
      MaskedView.merge (view.writeMask csr) (csr.regs view.machine) v := by
    rw [store_eq]
    exact view.cell.get_store csr v
  rw [hget, MaskedView.getLsbD_merge hi]

end SupervisorView

/-- Only `mstatus` does not keep what was loaded from it: one of its bits is read as set. -/
theorem Csr.store_load {address : BitVec 12} (h : address ≠ Address.mstatus) (csr : Csr) :
    csr.store address (csr.load address) = csr := by
  by_cases hv : ∃ view : SupervisorView, address = view.address
  · obtain ⟨view, rfl⟩ := hv
    rw [view.load_eq, view.store_eq, view.cell.store_load]
  · have h1 : address ≠ Address.sstatus := fun he => hv ⟨.sstatus, he⟩
    have h2 : address ≠ Address.sie := fun he => hv ⟨.sie, he⟩
    have h3 : address ≠ Address.sip := fun he => hv ⟨.sip, he⟩
    unfold Csr.store Csr.load
    simp only [if_neg h, if_neg h1, if_neg h2, if_neg h3, Csr.setCell_self]

/-- The three views are lenses on `mstatus`, `mie` and `mip`. -/
theorem supervisorViews_lens (csr : Csr) (v v' : Word) :
    ((∀ i, i < 64 → ((csr.store Address.sstatus v).regs Address.mstatus).getLsbD i =
        if Mask.sstatus.getLsbD i then v.getLsbD i else (csr.regs Address.mstatus).getLsbD i) ∧
      (csr.store Address.sstatus v).load Address.sstatus = v &&& Mask.sstatus) ∧
    ((∀ i, i < 64 → ((csr.store Address.sie v).regs Address.mie).getLsbD i =
        if (csr.regs Address.mideleg).getLsbD i then v.getLsbD i
        else (csr.regs Address.mie).getLsbD i) ∧
      (csr.store Address.sie v).load Address.sie = v &&& csr.regs Address.mideleg) ∧
    (∀ i, ((csr.store Address.sip v).regs Address.mip).getLsbD i ≠
        (csr.regs Address.mip).getLsbD i →
      i = Mask.ssipBit ∧ (csr.regs Address.mideleg).getLsbD Mask.ssipBit = true) ∧
    ∀ view : SupervisorView,
      (csr.store view.address v).store view.address v' = csr.store view.address v' ∧
      csr.store view.address (csr.load view.address) = csr ∧
      ∀ x, x ≠ view.machine → (csr.store view.address v).regs x = csr.regs x := by
  refine ⟨⟨fun i hi => SupervisorView.sstatus.regs_store csr v hi, ?_⟩,
    ⟨fun i hi => SupervisorView.sie.regs_store csr v hi, ?_⟩, fun i hne => ?_,
    fun view => ⟨?_, ?_, fun x hx => ?_⟩⟩
  · exact SupervisorView.sstatus.cell.load_store csr v rfl
  · exact SupervisorView.sie.cell.load_store csr v rfl
  · by_cases hi : i < 64
    · have hbit := SupervisorView.sip.regs_store csr v hi
      have hmask : (SupervisorView.sip.writeMask csr).getLsbD i = true := by
        by_contra hm
        rw [if_neg hm] at hbit
        exact hne hbit
      change (csr.regs Address.mideleg &&& Mask.ssip).getLsbD i = true at hmask
      rw [BitVec.getLsbD_and, Bool.and_eq_true] at hmask
      have hssip : i = Mask.ssipBit := by
        have hs := hmask.2
        rw [Mask.ssip, BitField.getLsbD_one_shiftLeft, Bool.and_eq_true, decide_eq_true_eq,
          decide_eq_true_eq] at hs
        exact hs.2
      exact ⟨hssip, hssip ▸ hmask.1⟩
    · rw [BitVec.getLsbD_of_ge _ _ (by omega), BitVec.getLsbD_of_ge _ _ (by omega)] at hne
      exact absurd rfl hne
  · rw [view.store_eq, view.store_eq, view.store_eq, view.cell.store_store]
  · exact Csr.store_load (by cases view <;> decide) csr
  · refine Csr.store_of_ne ?_ v
    cases view <;> exact hx

end Rv64gcEmu
