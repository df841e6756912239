import Rv64gcEmu.AddressSpace
import Rv64gcEmu.IsaRun

open Transition

namespace Rv64gcEmu

open Rv64 (Hart Sized)

theorem AddressSpace.InUse.of_same {space : AddressSpace} {a b : Cpu} (h : Cpu.SameMemory a b)
    (ha : space.InUse a) : space.InUse b := by
  refine ⟨.of_same h ha.toSameSpace, ?_⟩
  rw [h.ram]
  exact ha.rest

/-- The program sees the bytes of its pages. -/
def AddressSpace.view (space : AddressSpace) : MemoryView where
  mem := space.mem
  Holds := space.InUse
  Reach := space.Reach
  keep h := ⟨congrArg (fun ram : RamDevice => ram.bytes.through space.place) h.ram, .of_same h⟩
  access h hr hn hc := h.found hr hn hc
  put v h hr hc ht := h.stored v hr hc ht

theorem AddressSpace.inUse_start (space : AddressSpace) : space.InUse space.start :=
  ⟨.refl space.sound, fun _ _ _ => rfl⟩

namespace Cpu

/-- Behind page tables that map its pages apart from each other and from the tables, a program runs
as a hart of the instruction set whose memory is that of its virtual addresses; the tables get marks
at most, and no other byte of the RAM changes. -/
theorem isa_refined_virtual {space : AddressSpace} {steps : List (Step Hart Sized)} {h : Hart}
    (hu : space.start.Undisturbed)
    (run : Steps (Rv64.Step isaDecode) (space.view.hart space.start) steps h)
    (hr : ∀ t ∈ steps, StepReaches space.view t) (he : ∀ t ∈ steps, StepExact t) :
    (∀ envs : List Env, envs.length = steps.length → (∀ env ∈ envs, space.start.Accepts env) →
      ∃ turns cpu, Turns space.start turns cpu ∧ turns.map (·.label.env) = envs) ∧
    ∀ turns cpu, Turns space.start turns cpu → turns.length = steps.length →
      (∀ t ∈ turns, space.start.Accepts t.label.env) →
        space.view.hart cpu = h ∧
        turns.map (fun t => space.view.hart t.before) = steps.map (·.before) ∧
        (∀ x, Mmu.InTables space.start x →
          Paging.SameButMarks (cpu.memory x) (space.start.memory x)) ∧
        ∀ x, (∀ a, space.place a ≠ some x) → ¬Mmu.TableByte space.start x →
          cpu.bus.ram.byteAt x = space.start.bus.ram.byteAt x := by
  obtain ⟨hex, hall⟩ := refined_of_view hu space.inUse_start run hr he
  refine ⟨hex, fun turns cpu hturns hlen ha => ?_⟩
  obtain ⟨hhart, huse, hmap⟩ := hall turns cpu hturns hlen ha
  exact ⟨hhart, hmap, huse.tables, huse.rest⟩

end Cpu

namespace Mmu

open Paging (Leaf)

/-- `c.li x5, 1` and `addi x6, x5, 2`, at the virtual address `0x1000`. -/
def secondPage : Cpu :=
  let ram := ((RamDevice.init 0x80000000 0x2000).put 0x80000000 0x2000000f .w64).put 0x80001000
    0x2283134285 .w64
  let cpu := (Cpu.init ram none none false ⟨true, true, default⟩).setMode .supervisor
  update ((cpu.setCregs (cpu.cregs.store Address.satp 0x8000000000080000)).setPc 0x1000)

theorem rootEntry_toNat (v : BitVec 9) :
    (0x80000000 + v.setWidth 64 * 8 : Word).toNat = 0x80000000 + v.toNat * 8 := by
  have hv := v.isLt
  bv_omega

theorem rootEntry_lt (v : BitVec 9) {x : Word}
    (h : (x - (0x80000000 + v.setWidth 64 * 8)).toNat < 8) : x.toNat < 0x80001000 := by
  have hv := v.isLt
  have hx := x.isLt
  rw [BitVec.toNat_sub, rootEntry_toNat] at h
  omega

def inSecondPage (page : Word) : Bool := page = 0x1000

theorem secondPage_entry (v : BitVec 9) :
    (Paging.invalid (secondPage.memory (0x80000000 + v.setWidth 64 * 8)) ||
      Paging.isLeaf (secondPage.memory (0x80000000 + v.setWidth 64 * 8))) = true := by
  revert v
  decide +kernel

/-- A walk ends at the root. -/
theorem secondPage_reads (va : Word) : Paging.walkReads secondPage.memory va 0x80000000 3 =
    [0x80000000 + (Paging.vpn va 2).setWidth 64 * 8] :=
  if_pos (secondPage_entry (Paging.vpn va 2))

theorem secondPage_tableByte {x : Word} (h : TableByte secondPage x) : x.toNat < 0x80001000 := by
  obtain ⟨y, ⟨va, hy⟩, hlt⟩ := h
  have hy : y ∈ Paging.walkReads secondPage.memory va 0x80000000 3 := hy
  rw [secondPage_reads] at hy
  obtain rfl := List.mem_singleton.mp hy
  exact rootEntry_lt (Paging.vpn va 2) hlt

theorem inSecondPage_iff {a : Word} : inSecondPage (pageOf a) = true ↔ pageOf a = pageOf 0x1000 :=
  decide_eq_true_iff

theorem secondPage_leaf : findLeaf secondPage 0x1000 = some ⟨2, 0x80000000, 0x2000000f⟩ := by
  decide +kernel

theorem secondPage_place {a p : Word} (h : place secondPage inSecondPage a = some p) :
    p = 0x80001000 + (a - 0x1000) ∧ a - 0x1000 = a &&& 0xfff := by
  unfold place at h
  split at h
  next hpage =>
    have hpage := inSecondPage_iff.mp hpage
    have hbase : frameOf ⟨2, 0x80000000, 0x2000000f⟩ (pageOf 0x1000) = 0x80001000 := by decide
    have hsame := @physical_samePage 0x80001000 _ _ (by decide) hpage.symm
    have hoff := pageOf_add_offset a
    rw [findLeaf_samePage _ hpage, secondPage_leaf, Option.map_some, Option.some.injEq, physical_eq,
      hpage, hbase, hsame] at h
    rw [hpage] at hoff
    have hbound : pageOf 0x1000 = 0x1000 := by decide
    rw [hbound] at hoff
    generalize a &&& 0xfff = off at hoff
    exact ⟨h.symm, by bv_omega⟩
  next => cases h

theorem secondPage_tables {a : Word} (h : inSecondPage (pageOf a) = true) :
    TablesInRam secondPage a := by
  have hpage := inSecondPage_iff.mp h
  change ∀ x ∈ Paging.walkReads secondPage.memory a 0x80000000 3, secondPage.bus.ram.Contains x 8
  rw [secondPage_reads, vpn_samePage hpage]
  intro x hx
  obtain rfl := List.mem_singleton.mp hx
  decide

end Mmu

def secondPageSpace : AddressSpace where
  start := Mmu.secondPage
  pages := Mmu.inSecondPage
  active t := by
    cases t <;> exact ⟨by decide, by decide⟩
  sound := Mmu.update_sound _
  tables _ := Mmu.secondPage_tables
  alone a b p ha hb := by
    have h := (Mmu.secondPage_place ha).1.symm.trans (Mmu.secondPage_place hb).1
    bv_omega
  apart a p h ht := by
    have hlt := Mmu.secondPage_tableByte ht
    have hoff := Nat.and_le_right (n := a.toNat) (m := 0xfff)
    obtain ⟨rfl, hsub⟩ := Mmu.secondPage_place h
    rw [hsub, BitVec.toNat_add, BitVec.toNat_and] at hlt
    change (0x80001000 + (a.toNat &&& 0xfff)) % 2 ^ 64 < _ at hlt
    omega

namespace Cpu

theorem secondPage_undisturbed : Mmu.secondPage.Undisturbed where
  awake := rfl
  quiet := rfl
  uninterrupted := .inl rfl
  disk v hv := by cases hv

theorem isa_refined_virtual_sum : ∃ turns cpu, Turns Mmu.secondPage turns cpu ∧ turns.length = 2 ∧
    cpu.pc = 0x1006 ∧ cpu.regs 6 = 3 := by
  let hart := secondPageSpace.view.hart Mmu.secondPage
  have first : Rv64.Step isaDecode hart ⟨2, .opImm .add 5 0 1⟩ (hart.next 5 1 0x1002) :=
    ⟨by decide +kernel, rfl⟩
  have second : Rv64.Step isaDecode (hart.next 5 1 0x1002) ⟨4, .opImm .add 6 5 2⟩
      ((hart.next 5 1 0x1002).next 6 3 0x1006) := ⟨by decide +kernel, rfl⟩
  have hreach : ∀ pc : Word, pc = 0x1000 ∨ pc = 0x1002 →
      secondPageSpace.Reach .instruction pc 4 := by
    rintro pc (rfl | rfl) <;> exact ⟨rfl, by decide, by decide, by decide +kernel⟩
  have h := @isa_refined_virtual secondPageSpace _ _ secondPage_undisturbed
    (.step (.step .start first) second) (by
      simp only [List.mem_cons, List.not_mem_nil, or_false]
      rintro t (rfl | rfl)
      · exact ⟨hreach _ (.inr rfl), trivial⟩
      · exact ⟨hreach _ (.inl rfl), trivial⟩) (by
      simp only [List.mem_cons, List.not_mem_nil, or_false]
      rintro t (rfl | rfl) hf
      all_goals cases hf)
  have haccepts : ∀ env, Mmu.secondPage.Accepts env := fun _ => .inl rfl
  obtain ⟨turns, cpu, hturns, henvs⟩ := h.1 [⟨1, .idle⟩, ⟨0, .idle⟩] rfl fun env _ => haccepts env
  have hlen : turns.length = 2 := (List.length_map _).symm.trans (congrArg List.length henvs)
  have hend := (h.2 turns cpu hturns hlen fun t _ => haccepts _).1
  exact ⟨turns, cpu, hturns, hlen, congrArg Hart.pc hend,
    congrArg (fun h : Hart => h.regs.get 6) hend⟩

end Cpu

end Rv64gcEmu
