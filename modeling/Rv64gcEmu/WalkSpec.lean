import Rv64gcEmu.LoopCases
import Rv64gcEmu.Translate

namespace Rv64gcEmu

/-- The paging modes of `satp`. -/
inductive SvMode where
  | sv39
  | sv48
  | sv57
  deriving DecidableEq

namespace SvMode

def code : SvMode → BitVec 4
  | sv39 => 8
  | sv48 => 9
  | sv57 => 10

def levels : SvMode → Nat
  | sv39 => 3
  | sv48 => 4
  | sv57 => 5

end SvMode

namespace Mmu

open Paging (Leaf)

/-- The MMU works with the mode and the root table that `satp` holds, below 4 GiB. -/
structure Rooted (cpu : Cpu) (sv : SvMode) (root : Word) : Prop where
  mode : (cpu.cregs.load Address.satp).extractLsb' 60 4 = sv.code
  table : root = ((cpu.cregs.load Address.satp).extractLsb' 0 44).setWidth 64 * 4096
  below : root < 0x100000000
  inForce : SameRoot (update cpu).mmu cpu.mmu

/-- The fields of `satp` that `Mmu::update` takes over. -/
theorem readBits_satp (satp : Word) :
    (Helper.readBits satp 63 60).setWidth 4 = satp.extractLsb' 60 4 ∧
      Helper.readBits satp 43 0 = (satp.extractLsb' 0 44).setWidth 64 := by
  refine ⟨BitField.setWidth_field satp 60 4, ?_⟩
  rw [← BitField.field_eq_of_setWidth]
  rfl

theorem Rooted.mode_eq {cpu : Cpu} {sv : SvMode} {root : Word} (h : Rooted cpu sv root) :
    cpu.mmu.mode = sv.code := by
  rw [h.inForce.1, ← h.mode, ← (readBits_satp _).1]
  rfl

theorem Rooted.levels_eq {cpu : Cpu} {sv : SvMode} {root : Word} (h : Rooted cpu sv root) :
    cpu.mmu.getLevels = sv.levels := by
  unfold getLevels
  rw [h.mode_eq]
  cases sv <;> rfl

theorem Rooted.root_eq {cpu : Cpu} {sv : SvMode} {root : Word} (h : Rooted cpu sv root) :
    cpu.mmu.mppn.setWidth 64 = root := by
  have hm : cpu.mmu.mppn = (Helper.readBits (cpu.cregs.load Address.satp) 43 0 <<< 12).setWidth 32 :=
    h.inForce.2
  have h12 : ∀ x : Word, x <<< 12 = x * 4096 := fun x => by
    rw [BitVec.shiftLeft_eq_mul_twoPow]
    rfl
  rw [hm, (readBits_satp _).2, h12, ← h.table]
  apply BitVec.eq_of_toNat_eq
  have hlt := BitVec.lt_def.mp h.below
  have h32 : (0x100000000 : Word).toNat = 2 ^ 32 := rfl
  rw [BitVec.toNat_setWidth, BitVec.toNat_setWidth]
  omega

/-- The checks of `translate` are the rules of the architecture. -/
theorem refuses_eq_not_permits {cpu : Cpu} {accessType : AccessType} {pte : Word} {userMode : Bool}
    (hv : Paging.invalid pte = false)
    (hmode : accessMode cpu accessType = if userMode then .user else .supervisor) :
    refuses cpu pte accessType = !Paging.permits pte accessType.kind userMode
      ((cpu.cregs.load Address.mstatus).getLsbD 18) ((cpu.cregs.load Address.mstatus).getLsbD 19) := by
  have hbit : ∀ k, k < 64 → decide (Helper.readBit (cpu.cregs.load Address.mstatus) k ≠ 0) =
      (cpu.cregs.load Address.mstatus).getLsbD k := by
    intro k hk
    rw [readBit_eq hk]
    cases (cpu.cregs.load Address.mstatus).getLsbD k <;> rfl
  have hsum : decide (cpu.cregs.readBitMstatus .sum ≠ 0) =
      (cpu.cregs.load Address.mstatus).getLsbD 18 := hbit 18 (by omega)
  have hmxr : decide (cpu.cregs.readBitMstatus .mxr ≠ 0) =
      (cpu.cregs.load Address.mstatus).getLsbD 19 := hbit 19 (by omega)
  have hrw : Paging.writable pte = true → Paging.readable pte = true := by
    intro hw
    simpa [Paging.invalid, hw] using (Bool.or_eq_false_iff.mp hv).2
  unfold refuses permissionFault Paging.permits
  rw [hmode, hsum, hmxr]
  generalize (cpu.cregs.load Address.mstatus).getLsbD 18 = sum
  generalize (cpu.cregs.load Address.mstatus).getLsbD 19 = mxr
  generalize Paging.user pte = u
  generalize Paging.executable pte = x
  revert hrw
  generalize Paging.readable pte = r
  generalize Paging.writable pte = w
  revert r w x u sum mxr
  cases accessType <;> cases userMode <;> decide

theorem lookup_eq_access {cpu : Cpu} {sv : SvMode} {root address : Word} {accessType : AccessType}
    {userMode : Bool} (hroot : Rooted cpu sv root)
    (hmode : accessMode cpu accessType = if userMode then .user else .supervisor) :
    lookup cpu address accessType = Paging.access cpu.memory root sv.levels address accessType.kind
      userMode ((cpu.cregs.load Address.mstatus).getLsbD 18)
      ((cpu.cregs.load Address.mstatus).getLsbD 19) := by
  unfold lookup findLeaf Paging.access
  rw [hroot.root_eq, hroot.levels_eq]
  cases hw : Paging.walk cpu.memory address root sv.levels with
  | none => rfl
  | some leaf =>
    have hr := refuses_eq_not_permits (Paging.walk_leaf hw).1 hmode
    rw [Option.filter_filter, Option.filter_some, Option.filter_some, hr, Bool.not_not,
      Bool.and_comm]

/-- Without a cached entry, a translation is an access of the architecture: the physical
address and a mark in the leaf, or the page fault of the access. -/
theorem translate_eq_access {cpu : Cpu} {sv : SvMode} {root address : Word}
    {accessType : AccessType} {userMode : Bool} (hroot : Rooted cpu sv root)
    (htables : ∀ x ∈ Paging.walkReads cpu.memory address root sv.levels, cpu.bus.ram.Contains x 8)
    (hmiss : Misses cpu address) (hexc : cpu.excVal = none)
    (hmode : accessMode cpu accessType = if userMode then .user else .supervisor) :
    ∃ v after, translate cpu address accessType = .ok (v, after) ∧
      match Paging.access cpu.memory root sv.levels address accessType.kind userMode
          ((cpu.cregs.load Address.mstatus).getLsbD 18)
          ((cpu.cregs.load Address.mstatus).getLsbD 19) with
      | some leaf => v = leaf.physical address ∧ after.excVal = none ∧
          after.bus = cpu.bus.setRam
            (cpu.bus.ram.setWord leaf.addr (Paging.mark leaf.pte accessType.kind))
      | none => after.excVal = some (pageFault accessType) ∧ after.excData = address ∧
          after.bus = cpu.bus := by
  have hact : Active cpu accessType := by
    constructor
    · rw [hroot.mode_eq]
      cases sv <;> decide
    · rw [hmode]
      cases userMode <;> decide
  have hram : TablesInRam cpu address := by
    unfold TablesInRam
    rw [hroot.root_eq, hroot.levels_eq]
    exact htables
  obtain ⟨tlb, ht⟩ := translate_of_miss hact hram hmiss
  rw [← lookup_eq_access hroot hmode]
  refine ⟨_, _, ht, ?_⟩
  cases lookup cpu address accessType with
  | some leaf => exact ⟨rfl, hexc, rfl⟩
  | none => exact ⟨rfl, rfl, rfl⟩

/-- Supervisor mode with a root table whose first entry is a page of 1 GiB. -/
def gigapage : Cpu :=
  let cpu := (Cpu.ofImage [0x0f, 0, 0, 0x20, 0, 0, 0, 0] (by decide)).setMode .supervisor
  update (cpu.setCregs (cpu.cregs.store Address.satp 0x8000000000080000))

theorem gigapage_rooted : Rooted gigapage .sv39 0x80000000 := ⟨rfl, rfl, by decide, rfl, rfl⟩

theorem gigapage_tables : ∀ x ∈ Paging.walkReads gigapage.memory 0x1234 0x80000000
    SvMode.sv39.levels, gigapage.bus.ram.Contains x 8 := by
  have hreads : Paging.walkReads gigapage.memory 0x1234 0x80000000 SvMode.sv39.levels =
      [0x80000000] := by decide +kernel
  rw [hreads]
  intro x hx
  obtain rfl := List.mem_singleton.mp hx
  decide

theorem translate_eq_access_gigapage : ∃ v after,
    translate gigapage 0x1234 .store = .ok (v, after) ∧
      match Paging.access gigapage.memory 0x80000000 SvMode.sv39.levels 0x1234 AccessType.store.kind
          false ((gigapage.cregs.load Address.mstatus).getLsbD 18)
          ((gigapage.cregs.load Address.mstatus).getLsbD 19) with
      | some leaf => v = leaf.physical 0x1234 ∧ after.excVal = none ∧
          after.bus = gigapage.bus.setRam
            (gigapage.bus.ram.setWord leaf.addr (Paging.mark leaf.pte AccessType.store.kind))
      | none => after.excVal = some (pageFault .store) ∧ after.excData = 0x1234 ∧
          after.bus = gigapage.bus :=
  @translate_eq_access gigapage .sv39 0x80000000 0x1234 .store false gigapage_rooted
    gigapage_tables (fun _ => rfl) rfl rfl

end Mmu

end Rv64gcEmu
