import Rv64gcEmu.AmoSpec
import Rv64gcEmu.ImmediateDecoding
import Rv64gcEmu.IsaOps

namespace Rv64gcEmu

open Rv64 (Hart Instr)

/-- The instructions of `size` bytes that the emulator executes as the instruction set has it. The
shift `SRAI` fails, and a compressed jump keeps the lowest bit of its target. -/
def InstrExact (size : Word) (h : Hart) : Instr → Prop
  | .op f _ rs1 rs2 => OpExact f (h.regs.get rs1) (h.regs.get rs2)
  | .opImm f _ _ _ => f = .sra → size = 2
  | .jalr _ rs1 _ => size = 2 → (h.regs.get rs1).getLsbD 0 = false
  | _ => True

/-- The accesses of an instruction are among those that may be made. -/
def MemoryView.Reaches (view : MemoryView) (h : Hart) : Instr → Prop
  | .load n _ _ rs1 imm => view.Reach .load (h.regs.get rs1 + imm) n
  | .store n rs1 _ imm => view.Reach .store (h.regs.get rs1 + imm) n
  | .amo _ n _ rs1 _ => view.Reach .load (h.regs.get rs1) n ∧ view.Reach .store (h.regs.get rs1) n
  | _ => True

open Cpu (SameSystem)

namespace MemoryView

/-- The processor after an instruction, before its length is added: the hart that it then stands
for is `h`. -/
structure Becomes (view : MemoryView) (cpu : Cpu) (size : Word) (h : Hart) (after : Cpu) : Prop where
  same : SameSystem cpu after
  holds : view.Holds after
  hart : view.hart (after.setPc (after.pc + size)) = h

variable {view : MemoryView} {cpu c after : Cpu} {size : Word} {h : Hart}

namespace Becomes

theorem of_kept (hk : view.Kept cpu c) (hb : view.Becomes c size h after) :
    view.Becomes cpu size h after := ⟨hk.same.trans hb.same, hb.holds, hb.hart⟩

theorem setReg (hv : view.Holds cpu) (size : Word) (rd : BitVec 5) (v : Word) :
    view.Becomes cpu size ((view.hart cpu).next rd v ((view.hart cpu).pc + size))
      (cpu.setReg rd v) :=
  ⟨.setReg cpu rd v, (view.keep (.setReg cpu rd v)).2 hv, hart_setReg cpu rd v _⟩

theorem setPc (hv : view.Holds cpu) (size target : Word) :
    view.Becomes cpu size ((view.hart cpu).jump target) (cpu.setPc (target - size)) where
  same := .setPc cpu _
  holds := (view.keep (.setPc cpu _)).2 hv
  hart := by
    refine (hart_setPc _ _).trans ?_
    rw [hart_setPc]
    change (view.hart cpu).jump (target - size + size) = _
    rw [BitVec.sub_add_cancel]

theorem link (hv : view.Holds cpu) (size target : Word) (rd : BitVec 5) (v : Word) :
    view.Becomes cpu size ((view.hart cpu).next rd v target)
      ((cpu.setPc (target - size)).setReg rd v) where
  same := (SameSystem.setPc cpu _).trans (.setReg _ rd v)
  holds := (view.keep (.setReg _ rd v)).2 ((view.keep (.setPc cpu _)).2 hv)
  hart := by
    refine (hart_setReg (cpu.setPc (target - size)) rd v _).trans ?_
    rw [hart_setPc]
    change (view.hart cpu).next rd v (target - size + size) = _
    rw [BitVec.sub_add_cancel]

/-- A store was all that the instruction did. -/
theorem of_stored {m : ByteMemory 64} (hs : SameSystem cpu c) (hv : view.Holds c)
    (hm : view.hart c = { view.hart cpu with mem := m }) (size : Word) :
    view.Becomes cpu size (({ view.hart cpu with mem := m } : Hart).jump (cpu.pc + size)) c := by
  refine ⟨hs, hv, ?_⟩
  have hpc : c.pc = cpu.pc := congrArg Hart.pc hm
  rw [hart_setPc, hm, hpc]

theorem fallThrough (hv : view.Holds cpu) (size : Word) :
    view.Becomes cpu size ((view.hart cpu).jump ((view.hart cpu).pc + size)) cpu :=
  ⟨.refl cpu, hv, hart_setPc cpu _⟩

end Becomes

end MemoryView

open MemoryView (hart_reg)

namespace Cpu

variable {view : MemoryView} {cpu after : Cpu} {d : Decoder} {size v : Word} {h' : Hart}

section Accesses

variable {address : Word} {length : Width}

theorem loads_of_hart {signed : Bool} {x : BitVec (8 * length.bytes)} (hq : cpu.excVal = none)
    (hv : view.Holds cpu) (hr : view.Reach .load address length.bytes)
    (hl : (view.mem cpu).load address length.bytes = some x) : ∃ v c,
      Mmu.load cpu address length = .ok (v, c) ∧ view.Kept cpu c ∧
        v.setWidth (8 * length.bytes) = x ∧ MemoryInsn.cast length signed v = Rv64.extend signed x := by
  obtain ⟨p, c, hload, hk, hx⟩ := MemoryView.load_of_hart hq hv hr hl
  refine ⟨_, c, hload, hk, ?_, ?_⟩
  · rw [← hx]
    exact LittleEndian.setWidth_read _ _ _ length.bits_le
  · rw [MemoryInsn.cast_read, ← hx]
    rfl

/-- The bytes that are stored are those of the value. -/
theorem stores_of_hart {n : Nat} {x : BitVec n} {m : ByteMemory 64} (hq : cpu.excVal = none)
    (hv : view.Holds cpu) (hr : view.Reach .store address length.bytes)
    (hs : (view.mem cpu).store address length.bytes x = some m)
    (hbytes : ∀ k < length.bytes, LittleEndian.byteOf v k = LittleEndian.byteOf x k) :
    ∃ c, Mmu.store cpu address v length = .ok c ∧ SameSystem cpu c ∧ view.Holds c ∧
      view.hart c = { view.hart cpu with mem := m } := by
  refine MemoryView.store_of_hart v hq hv hr ?_
  obtain ⟨hc, rfl⟩ := ByteMemory.store_eq_some_iff.mp hs
  refine ByteMemory.store_eq_some_iff.mpr ⟨hc, funext fun y => ?_⟩
  split
  next hy => rw [hbytes _ hy]
  next => rfl

end Accesses

section Memory

theorem load_of_decode {n : Nat} {signed : Bool} (hop : d.insn.extractLsb' 0 7 = 0x03)
    (h : Rv64.decodeLoad d.insn = some (n, signed)) :
    ∃ length : Width, n = length.bytes ∧ MemoryInsn.of d = some (.load length signed) := by
  have ht : d.opcodeType = some .load := Decoder.opcodeType_of_opcode hop
  unfold Rv64.decodeLoad at h
  split at h
  all_goals cases h
  all_goals
    rename_i h3
    have hf := d.funct3_eq.trans h3
    unfold MemoryInsn.of
    simp only [ht, hf]
  · exact ⟨.w8, rfl, rfl⟩
  · exact ⟨.w16, rfl, rfl⟩
  · exact ⟨.w32, rfl, rfl⟩
  · exact ⟨.w64, rfl, rfl⟩
  · exact ⟨.w8, rfl, rfl⟩
  · exact ⟨.w16, rfl, rfl⟩
  · exact ⟨.w32, rfl, rfl⟩

theorem store_of_decode {n : Nat} (hop : d.insn.extractLsb' 0 7 = 0x23)
    (h : Rv64.decodeStore d.insn = some n) :
    ∃ length : Width, n = length.bytes ∧ MemoryInsn.of d = some (.store length) := by
  have ht : d.opcodeType = some .s := Decoder.opcodeType_of_opcode hop
  unfold Rv64.decodeStore at h
  split at h
  all_goals cases h
  all_goals
    rename_i h3
    have hf := d.funct3_eq.trans h3
    unfold MemoryInsn.of
    simp only [ht, hf]
  · exact ⟨.w8, rfl, rfl⟩
  · exact ⟨.w16, rfl, rfl⟩
  · exact ⟨.w32, rfl, rfl⟩
  · exact ⟨.w64, rfl, rfl⟩

theorem exec_load {n : Nat} {signed : Bool} (hq : cpu.excVal = none) (hv : view.Holds cpu)
    (h0 : cpu.regs 0 = 0) (hop : d.insn.extractLsb' 0 7 = 0x03) (hd : Rv64.decodeLoad d.insn = some (n, signed))
    (hr : view.Reach .load ((view.hart cpu).regs.get (d.insn.extractLsb' 15 5) + Rv64.immI d.insn) n)
    (hx : (Instr.load n signed (d.insn.extractLsb' 7 5) (d.insn.extractLsb' 15 5)
      (Rv64.immI d.insn)).exec 4 (view.hart cpu) = some h') :
    ∃ after, cpu.execute d = .ok (4, after) ∧ view.Becomes cpu 4 h' after := by
  obtain ⟨length, rfl, hof⟩ := load_of_decode hop hd
  obtain ⟨x, hl, hx⟩ := Option.bind_eq_some_iff.mp hx
  cases Option.some.inj hx
  rw [hart_reg h0] at hl hr
  obtain ⟨v, c, hload, hk, -, hcast⟩ := @loads_of_hart view cpu _ length signed x hq hv hr hl
  have hassign : Load.assignIfNoException c d.rd (MemoryInsn.cast length signed v) =
      c.setReg d.rd (MemoryInsn.cast length signed v) := if_pos (hk.same.excVal.trans hq)
  have haddress : cpu.regs d.rs1 + d.immI =
      cpu.regs (d.insn.extractLsb' 15 5) + Rv64.immI d.insn := by
    rw [d.immI_eq, d.rs1_eq]
    rfl
  have hexec := MemoryInsn.execute_load cpu hof
  rw [Load.loadOp, haddress, hload, Except.ok_bind, Except.ok_bind, hassign] at hexec
  refine ⟨_, hexec, .of_kept hk ?_⟩
  rw [hcast, d.rd_eq, ← hk.hart]
  exact .setReg hk.holds 4 _ _

theorem exec_store {n : Nat} (hq : cpu.excVal = none) (hv : view.Holds cpu)
    (h0 : cpu.regs 0 = 0) (hop : d.insn.extractLsb' 0 7 = 0x23) (hd : Rv64.decodeStore d.insn = some n)
    (hr : view.Reach .store
      ((view.hart cpu).regs.get (d.insn.extractLsb' 15 5) + (InsnWord.immS d.insn).signExtend 64) n)
    (hx : (Instr.store n (d.insn.extractLsb' 15 5) (d.insn.extractLsb' 20 5)
      ((InsnWord.immS d.insn).signExtend 64)).exec 4 (view.hart cpu) = some h') :
    ∃ after, cpu.execute d = .ok (4, after) ∧ view.Becomes cpu 4 h' after := by
  obtain ⟨length, rfl, hof⟩ := store_of_decode hop hd
  obtain ⟨m, hs, hx⟩ := Option.bind_eq_some_iff.mp hx
  cases Option.some.inj hx
  rw [hart_reg h0, hart_reg h0, ← d.rs1_eq, ← d.rs2_eq] at hs
  rw [hart_reg h0, ← d.rs1_eq] at hr
  obtain ⟨c, hstore, hsame, hholds, hm⟩ := stores_of_hart hq hv hr hs fun _ _ => rfl
  have hexec := MemoryInsn.execute_store cpu hof
  rw [d.immS_eq] at hexec
  have hrun := hexec.trans (congrArg (· >>= fun c => Except.ok ((4 : Word), c)) hstore)
  exact ⟨_, hrun, .of_stored hsame hholds hm 4⟩

theorem funct5_eq (d : Decoder) : d.funct5 = d.insn.extractLsb' 27 5 := by
  have hcut : ∀ x : BitVec 7, ((x &&& 0x7c) >>> 2).setWidth 5 = x.extractLsb' 2 5 := by decide
  rw [Decoder.funct5, hcut, d.funct7_eq]
  apply BitVec.eq_of_getLsbD_eq
  intro i hi
  have hadd : 25 + (2 + i) = 27 + i := by omega
  have hlt : 2 + i < 7 := by omega
  simp only [BitVec.getLsbD_extractLsb', hi, hlt, hadd, decide_true, Bool.true_and]

/-- The atomic operation as the emulator has it. -/
def amoKind : Rv64.Amo → AmoKind
  | .swap => .swap
  | .add => .add
  | .xor => .xor
  | .and => .and
  | .or => .or
  | .min => .min
  | .max => .max
  | .minu => .minu
  | .maxu => .maxu

theorem amoKind_funct5 (f : Rv64.Amo) : (amoKind f).funct5 = f.code := by
  cases f <;> rfl

theorem amoKind_combine {n : Nat} (f : Rv64.Amo) (a b : BitVec n) :
    (amoKind f).combine a b = f.combine a b := by
  cases f with
  | min => exact (Atomic.smin_eq a b).symm
  | max => exact (Atomic.smax_eq a b).symm
  | minu => exact (Atomic.umin_eq a b).symm
  | maxu => exact (Atomic.umax_eq a b).symm
  | swap | add | xor | and | or => rfl

/-- The bytes that are stored are those of the low part of the value. -/
theorem byteOf_setWidth {w : Nat} (v : Word) {k : Nat} (hk : 8 * k + 8 ≤ w) :
    LittleEndian.byteOf (v.setWidth w) k = LittleEndian.byteOf v k := by
  apply BitVec.eq_of_getLsbD_eq
  intro i hi
  have hw : 8 * k + i < w := by omega
  rw [LittleEndian.getLsbD_byteOf, LittleEndian.getLsbD_byteOf, BitVec.getLsbD_setWidth]
  simp [hw]

theorem amoOp_of_hart {length : Width} {f : Rv64.Amo} {m : ByteMemory 64}
    {result : BitVec (8 * length.bytes) → BitVec (8 * length.bytes) → Word}
    {old : BitVec (8 * length.bytes)} (hq : cpu.excVal = none) (hv : view.Holds cpu)
    (hr : view.Reach .load (cpu.regs d.rs1) length.bytes)
    (hr' : view.Reach .store (cpu.regs d.rs1) length.bytes)
    (hresult : ∀ a b, (result a b).setWidth (8 * length.bytes) = (amoKind f).combine a b)
    (hl : (view.mem cpu).load (cpu.regs d.rs1) length.bytes = some old)
    (hs : (view.mem cpu).store (cpu.regs d.rs1) length.bytes
      (f.combine old ((cpu.regs d.rs2).setWidth (8 * length.bytes))) = some m) :
    ∃ after, Atomic.amoOp length (8 * length.bytes) result cpu d = .ok after ∧
      view.Becomes cpu 4 (({ view.hart cpu with mem := m } : Hart).next d.rd (old.signExtend 64)
        ((view.hart cpu).pc + 4)) after := by
  obtain ⟨v, c, hload, hk, hlow, -⟩ := @loads_of_hart view cpu _ length true old hq hv hr hl
  rw [← hk.regs] at hs
  rw [← hk.mem] at hs
  rw [← hk.regs] at hr'
  have hbytes : ∀ k < length.bytes,
      LittleEndian.byteOf (result old ((c.regs d.rs2).setWidth (8 * length.bytes))) k =
        LittleEndian.byteOf (f.combine old ((c.regs d.rs2).setWidth (8 * length.bytes))) k := by
    intro k hlt
    rw [← amoKind_combine, ← hresult]
    exact (byteOf_setWidth _ (by omega)).symm
  obtain ⟨c', hstore, hsame, hholds, hm⟩ :=
    stores_of_hart (hk.same.excVal.trans hq) hk.holds hr' hs hbytes
  refine ⟨c'.setReg d.rd (old.signExtend 64), ?_, (hk.same.trans hsame).trans (.setReg _ d.rd _),
    (view.keep (.setReg c' d.rd _)).2 hholds, ?_⟩
  · unfold Atomic.amoOp
    rw [hk.regs] at hstore
    simp only [hload, Except.ok_bind, hlow, hk.regs, hstore]
  · have hpc : c'.pc = cpu.pc := (congrArg Hart.pc hm).trans hk.pc
    refine (MemoryView.hart_setReg _ _ _ _).trans ?_
    rw [hm, hk.hart]
    exact congrArg (Hart.next _ d.rd _) (congrArg (· + 4) hpc)

theorem aligned_of_toNat {x m : Word} (h : x.toNat % m.toNat = 0) : x % m = 0 := by
  apply BitVec.eq_of_toNat_eq
  rw [BitVec.toNat_umod]
  exact h

theorem exec_amo {f : Rv64.Amo} {n : Nat} (hq : cpu.excVal = none) (hv : view.Holds cpu)
    (h0 : cpu.regs 0 = 0) (hop : d.insn.extractLsb' 0 7 = 0x2f)
    (hd : Rv64.decodeAmo d.insn = some (f, n))
    (hr : view.Reach .load ((view.hart cpu).regs.get (d.insn.extractLsb' 15 5)) n ∧
      view.Reach .store ((view.hart cpu).regs.get (d.insn.extractLsb' 15 5)) n)
    (hx : (Instr.amo f n (d.insn.extractLsb' 7 5) (d.insn.extractLsb' 15 5)
      (d.insn.extractLsb' 20 5)).exec 4 (view.hart cpu) = some h') :
    ∃ after, cpu.execute d = .ok (4, after) ∧ view.Becomes cpu 4 h' after := by
  have ht : d.opcodeType = some .atomic := Decoder.opcodeType_of_opcode hop
  obtain ⟨g, hg, hd⟩ := Option.bind_eq_some_iff.mp hd
  have hcode : g.code = d.insn.extractLsb' 27 5 := by simpa using List.find?_some hg
  have hf5 : d.funct5 = (amoKind g).funct5 := by
    rw [amoKind_funct5, hcode, funct5_eq]
  unfold Instr.exec at hx
  simp only [hart_reg h0, ← d.rs1_eq, ← d.rs2_eq, ← d.rd_eq] at hx hr
  split at hx
  next hmod =>
    obtain ⟨old, hl, hx⟩ := Option.bind_eq_some_iff.mp hx
    obtain ⟨m, hs, hx⟩ := Option.bind_eq_some_iff.mp hx
    cases Option.some.inj hx
    split at hd
    next h3 =>
      obtain ⟨rfl, rfl⟩ := Prod.mk.inj (Option.some.inj hd)
      obtain ⟨result, hresult, hamo⟩ := Atomic.amow_eq cpu hf5
      obtain ⟨after, hrun, hbecomes⟩ :=
        @amoOp_of_hart view cpu d .w32 g m result old hq hv hr.1 hr.2 hresult hl hs
      have halign : Atomic.checkAlign cpu d .w32 = cpu := if_neg (not_not.mpr (aligned_of_toNat hmod))
      rw [halign] at hamo
      refine ⟨after, ?_, hbecomes⟩
      rw [execute_of_type ht, execute32, ht]
      simp only [Atomic.funct3, d.funct3_eq, h3]
      exact congrArg (· >>= fun c => Except.ok ((4 : Word), c)) (hamo.trans hrun)
    next h3 =>
      obtain ⟨rfl, rfl⟩ := Prod.mk.inj (Option.some.inj hd)
      obtain ⟨result, hresult, hamo⟩ := Atomic.amod_eq cpu hf5
      obtain ⟨after, hrun, hbecomes⟩ :=
        @amoOp_of_hart view cpu d .w64 g m result old hq hv hr.1 hr.2 hresult hl hs
      have halign : Atomic.checkAlign cpu d .w64 = cpu := if_neg (not_not.mpr (aligned_of_toNat hmod))
      rw [halign] at hamo
      refine ⟨after, ?_, hbecomes⟩
      rw [execute_of_type ht, execute32, ht]
      simp only [Atomic.funct3, d.funct3_eq, h3]
      exact congrArg (· >>= fun c => Except.ok ((4 : Word), c)) (hamo.trans hrun)
    next => cases hd
  next => cases hx

end Memory

section Control

def branchOp : Rv64.Cond → BranchOp
  | .eq => .beq
  | .ne => .bne
  | .lt => .blt
  | .ge => .bge
  | .ltu => .bltu
  | .geu => .bgeu

theorem branchOp_funct3 (c : Rv64.Cond) : (branchOp c).funct3 = c.code := by
  cases c <;> rfl

theorem taken_iff (c : Rv64.Cond) (a b : Word) : (branchOp c).Taken a b ↔ c.holds a b = true := by
  cases c with
  | eq => exact (decide_eq_true_iff (p := a = b)).symm
  | ne => exact (decide_eq_true_iff (p := a ≠ b)).symm
  | lt => exact BitVec.slt_iff_toInt_lt.symm
  | ge => exact BitVec.sle_iff_toInt_le.symm
  | ltu => exact (BitVec.ult_iff_lt.trans BitVec.lt_def).symm
  | geu => exact (BitVec.ule_iff_le.trans BitVec.le_def).symm

theorem exec_control {insn : ControlInsn} (h0 : cpu.regs 0 = 0) (h : insn.Encodes d.insn) :
    cpu.execute d = .ok (4, insn.executed cpu d) := by
  obtain ⟨t, ht⟩ := ControlInsn.opcodeType_of_encodes h
  rw [execute_of_type ht, ControlInsn.execute32_eq h0 h]
  rfl

theorem exec_branch {c : Rv64.Cond} (hv : view.Holds cpu) (h0 : cpu.regs 0 = 0)
    (hop : d.insn.extractLsb' 0 7 = 0x63) (hc : c.code = d.insn.extractLsb' 12 3)
    (hx : (Instr.branch c (d.insn.extractLsb' 15 5) (d.insn.extractLsb' 20 5)
      ((InsnWord.immB d.insn).signExtend 64)).exec 4 (view.hart cpu) = some h') :
    ∃ after, cpu.execute d = .ok (4, after) ∧ view.Becomes cpu 4 h' after := by
  cases Option.some.inj hx
  have hexec := @exec_control cpu d (.branch (branchOp c)) h0
    ⟨hop, hc.symm.trans (branchOp_funct3 c).symm⟩
  refine ⟨_, hexec, ?_⟩
  have htarget : ControlInsn.target d.insn cpu (.branch (branchOp c)) = (view.hart cpu).pc +
      if c.holds ((view.hart cpu).regs.get (d.insn.extractLsb' 15 5))
        ((view.hart cpu).regs.get (d.insn.extractLsb' 20 5)) then (InsnWord.immB d.insn).signExtend 64
      else 4 := by
    unfold ControlInsn.target
    simp only [taken_iff]
    split
    next ht => exact (congrArg (cpu.pc + ·) (if_pos ht)).symm
    next ht => exact (congrArg (cpu.pc + ·) (if_neg ht)).symm
  rw [← htarget]
  exact .setPc hv 4 _

theorem exec_jal (hv : view.Holds cpu) (h0 : cpu.regs 0 = 0)
    (hop : d.insn.extractLsb' 0 7 = 0x6f) :
    ∃ after, cpu.execute d = .ok (4, after) ∧ view.Becomes cpu 4 ((view.hart cpu).next
      (d.insn.extractLsb' 7 5) ((view.hart cpu).pc + 4)
      ((view.hart cpu).pc + (InsnWord.immJ d.insn).signExtend 64)) after := by
  have hexec := @exec_control cpu d .jal h0 hop
  refine ⟨_, hexec, ?_⟩
  rw [← d.rd_eq]
  exact .link hv 4 _ d.rd _

theorem exec_jalr (hv : view.Holds cpu) (h0 : cpu.regs 0 = 0)
    (hop : d.insn.extractLsb' 0 7 = 0x67) (h3 : d.insn.extractLsb' 12 3 = 0) :
    ∃ after, cpu.execute d = .ok (4, after) ∧ view.Becomes cpu 4 ((view.hart cpu).next
      (d.insn.extractLsb' 7 5) ((view.hart cpu).pc + 4)
      (((view.hart cpu).regs.get (d.insn.extractLsb' 15 5) + Rv64.immI d.insn) &&& ~~~1)) after := by
  have hexec := @exec_control cpu d .jalr h0 ⟨hop, h3⟩
  refine ⟨_, hexec, ?_⟩
  rw [← d.rd_eq]
  exact .link hv 4 _ d.rd _

end Control

/-- An instruction that a word stands for is executed as the instruction set has it. -/
theorem execute_decoded {instr : Instr} (hq : cpu.excVal = none) (hv : view.Holds cpu)
    (h0 : cpu.regs 0 = 0) (hd : Rv64.decode d.insn = some instr)
    (hx : instr.exec 4 (view.hart cpu) = some h') (hr : view.Reaches (view.hart cpu) instr)
    (he : InstrExact 4 (view.hart cpu) instr) :
    ∃ after, cpu.execute d = .ok (4, after) ∧ view.Becomes cpu 4 h' after := by
  have hwrites : ∀ {v : Word}, cpu.Writes d v →
      some ((view.hart cpu).next (d.insn.extractLsb' 7 5) v ((view.hart cpu).pc + 4)) = some h' →
      ∃ after, cpu.execute d = .ok (4, after) ∧ view.Becomes cpu 4 h' after := by
    intro v hw hx
    cases Option.some.inj hx
    rw [← d.rd_eq]
    exact ⟨_, hw, .setReg hv 4 d.rd v⟩
  unfold Rv64.decode at hd
  split at hd
  next hop =>
    obtain ⟨⟨n, signed⟩, hl, hd⟩ := Option.map_eq_some_iff.mp hd
    subst hd
    exact exec_load hq hv h0 hop hl hr hx
  next hop =>
    split at hd
    next =>
      cases Option.some.inj hd
      cases Option.some.inj hx
      have ht : d.opcodeType = some .fence := Decoder.opcodeType_of_opcode hop
      refine ⟨cpu, ?_, .fallThrough hv 4⟩
      rw [execute_of_type ht, execute32, ht]
      rfl
    next => cases hd
  next hop =>
    obtain ⟨⟨f, imm⟩, hi, hd⟩ := Option.map_eq_some_iff.mp hd
    subst hd
    have hs : f ≠ .sra := fun hf => absurd (he hf) (by decide)
    have hw := @writes_imm cpu d f imm hop hi hs
    rw [← hart_reg h0, d.rs1_eq] at hw
    exact hwrites hw hx
  next hop =>
    cases Option.some.inj hd
    have ht : d.opcodeType = some .auipc := Decoder.opcodeType_of_opcode hop
    refine hwrites ((writes_iff ht).mpr ?_) hx
    rw [execute32, ht, ← d.upperImm_eq]
    rfl
  next hop =>
    obtain ⟨⟨f, imm⟩, hi, hd⟩ := Option.map_eq_some_iff.mp hd
    subst hd
    have hw := @writes_immWord cpu d f imm hop hi
    rw [← hart_reg h0, d.rs1_eq] at hw
    exact hwrites hw hx
  next hop =>
    obtain ⟨n, hs, hd⟩ := Option.map_eq_some_iff.mp hd
    subst hd
    exact exec_store hq hv h0 hop hs hr hx
  next hop =>
    obtain ⟨⟨f, n⟩, ha, hd⟩ := Option.map_eq_some_iff.mp hd
    subst hd
    exact exec_amo hq hv h0 hop ha hr hx
  next hop =>
    cases Option.some.inj hd
    have ht : d.opcodeType = some .lui := Decoder.opcodeType_of_opcode hop
    refine hwrites ((writes_iff ht).mpr ?_) hx
    rw [execute32, ht, ← d.upperImm_eq]
    rfl
  next hop =>
    obtain ⟨c, hc, hd⟩ := Option.map_eq_some_iff.mp hd
    subst hd
    have hcode : c.code = d.insn.extractLsb' 12 3 := by simpa using List.find?_some hc
    exact exec_branch hv h0 hop hcode hx
  next hop =>
    split at hd
    next h3 =>
      cases Option.some.inj hd
      cases Option.some.inj hx
      exact exec_jalr hv h0 hop h3
    next => cases hd
  next hop =>
    cases Option.some.inj hd
    cases Option.some.inj hx
    exact exec_jal hv h0 hop
  next =>
    obtain ⟨f, hf, hd⟩ := Option.map_eq_some_iff.mp hd
    subst hd
    have hcode := List.find?_some hf
    have hexact : OpExact f ((view.hart cpu).regs.get (d.insn.extractLsb' 15 5))
        ((view.hart cpu).regs.get (d.insn.extractLsb' 20 5)) := he
    rw [hart_reg h0, hart_reg h0, ← d.rs1_eq, ← d.rs2_eq] at hexact
    have hw := @writes_op cpu d f (by simpa using hcode) hexact
    rw [← hart_reg h0, ← hart_reg h0 d.rs2, d.rs1_eq, d.rs2_eq] at hw
    exact hwrites hw hx

end Cpu

end Rv64gcEmu
