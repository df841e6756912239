import Rv64gcEmu.BootRun

open Transition

namespace Rv64gcEmu

open Boot (Filled contents overlay)
open Cpu (Accepts Env StepExact Undisturbed)
open Rv64 (Hart Regs Sized)

namespace TestCpu

def toHostOffset : Nat := 0x1000

def toHostOffsetC : Nat := 0x3000

def dramBase : Word := 0x80000000

/-- `SIZE_KIB(64)`. -/
def dramSize : Word := 0x10000

/-- One of the two bytes is set that a test reports its end with. -/
def reported (cpu : Cpu) : Bool :=
  cpu.bus.ram.data.get toHostOffset ≠ 0 || cpu.bus.ram.data.get toHostOffsetC ≠ 0

/-- The loop of `test_binary`, which is left behind the last of the turns that there is time for. -/
def testLoop (cpu : Cpu) : List Env → HostM Bool
  | [] => .ok false
  | env :: envs => do
    let cpu ← cpu.loop env
    if reported cpu then .ok (cpu.regs 10 = 0)
    else if cpu.excVal.isSome && cpu.cregs.regs Address.mtvec = 0 && cpu.cregs.regs Address.stvec = 0
    then .ok false
    else testLoop cpu.clearException envs

/-- `test_binary`, in the build for the tests. -/
def testBinary (binary : List Byte) (useTlb : Bool) (fpu : Fpu) (envs : List Env) : HostM Bool := do
  let dram ← (RamDevice.init dramBase dramSize).setData binary
  testLoop (Cpu.init dram none none false ⟨useTlb, true, fpu⟩) envs

/-- The hart at the first byte of the binary. -/
def program (binary : List Byte) : Hart where
  pc := dramBase
  regs := Regs.zero.set 2 (dramBase + dramSize)
  mem := contents dramBase dramSize (overlay binary 0 fun _ => 0)

/-- The hart has written one of the two bytes. -/
def Told (h : Hart) : Prop :=
  (h.mem (dramBase + 0x1000)).getD 0 ≠ 0 ∨ (h.mem (dramBase + 0x3000)).getD 0 ≠ 0

instance (h : Hart) : Decidable (Told h) := inferInstanceAs (Decidable (_ ∨ _))

/-- The program sees the RAM of the tests, untranslated. -/
def board : MemoryView where
  mem cpu := cpu.bus.ram.bytes
  Holds cpu := (∀ t, ¬Mmu.Active cpu t) ∧ cpu.bus.ram.baseAddr = dramBase ∧
    cpu.bus.ram.endAddr = dramBase + dramSize
  Reach _ _ _ := True
  keep h := ⟨congrArg RamDevice.bytes h.ram, fun ⟨ha, hr⟩ =>
    ⟨(MemoryView.physical.keep h).2 ha, h.ram ▸ hr⟩⟩
  access {cpu t address n} h _ hn hc := ⟨address, cpu, Mmu.translate_inactive address (h.1 t),
    .refl cpu, rfl, rfl, h, rfl, (RamDevice.covers_iff hn).mp hc, rfl⟩
  put {cpu address length p c} v h _ hc ht := by
    have hput := MemoryView.physical.put v h.1 trivial hc ht
    rw [Mmu.translate_inactive address (h.1 .store)] at ht
    obtain ⟨rfl, rfl⟩ := Prod.mk.inj (Except.ok.inj ht)
    exact ⟨⟨hput.1, h.2⟩, hput.2⟩

variable {cpu : Cpu}

theorem hart_byte (h : board.Holds cpu) {off : Word} (hoff : off < dramSize) :
    ((board.hart cpu).mem (dramBase + off)).getD 0 = cpu.bus.ram.data.get off.toNat := by
  obtain ⟨_, hbase, hstop⟩ := h
  have hlt : off.toNat < 0x10000 := BitVec.lt_def.mp hoff
  have hadd : (dramBase + off).toNat = 0x80000000 + off.toNat := by
    rw [BitVec.toNat_add]
    change (0x80000000 + off.toNat) % 2 ^ 64 = _
    omega
  have hc : cpu.bus.ram.Contains (dramBase + off) 1 := by
    unfold RamDevice.Contains
    rw [hbase, hstop, BitVec.le_def, hadd]
    change 0x80000000 ≤ 0x80000000 + off.toNat ∧ 0x80000000 + off.toNat + 1 ≤ 0x80010000
    omega
  have hmem : (board.hart cpu).mem (dramBase + off) = some (cpu.bus.ram.byteAt (dramBase + off)) :=
    RamDevice.bytes_of_contains hc
  rw [hmem, Option.getD_some, RamDevice.byteAt, hbase, BitVec.add_comm, BitVec.add_sub_cancel]

theorem reported_iff (h : board.Holds cpu) : reported cpu = true ↔ Told (board.hart cpu) := by
  unfold reported Told
  rw [hart_byte h (by decide), hart_byte h (by decide), Bool.or_eq_true, decide_eq_true_eq,
    decide_eq_true_eq]
  exact Iff.rfl

/-- The machine between two turns of a test. -/
structure Testing (cpu : Cpu) : Prop extends cpu.Undisturbed where
  test : cpu.host.cpuTest = true
  holds : board.Holds cpu

/-- One turn of the loop is a step of the hart, and the test goes on unless the hart has told its
result. -/
theorem testLoop_step {i : Sized} {h' : Hart} (ht : Testing cpu)
    (hs : Rv64.Step isaDecode (board.hart cpu) i h') (he : StepExact ⟨board.hart cpu, i, h'⟩)
    (env : Env) : ∃ next, Testing next ∧ board.hart next = h' ∧
      ∀ envs, testLoop cpu (env :: envs) =
        if Told h' then .ok (h'.regs.get 10 = 0) else testLoop next envs := by
  have haccepts : cpu.Accepts env := .inl ht.test
  obtain ⟨p, after, hturn, rfl, rfl, hu, hv, _⟩ := Cpu.loop_isa ht.toUndisturbed ht.holds
    haccepts hs ⟨trivial, by cases i.instr <;> first | exact trivial | exact ⟨trivial, trivial⟩⟩ he
  have hsame : Cpu.SameMemory after after.clearException := ⟨rfl, rfl, rfl, rfl, rfl⟩
  have hkeep := board.keep hsame
  refine ⟨after.clearException, ⟨⟨hu.awake, rfl, hu.uninterrupted, hu.disk⟩,
    hturn.host.symm ▸ ht.test, hkeep.2 hv⟩, MemoryView.hart_congr rfl (fun _ _ => rfl) hkeep.1,
    fun envs => ?_⟩
  have hloop : cpu.loop p.env = .ok after := Cpu.loop_iff_turn.mpr ⟨p, rfl, hturn⟩
  have hreg : after.regs 10 = (board.hart after).regs.get 10 := rfl
  rw [testLoop, hloop, Except.ok_bind, hu.quiet, hreg]
  by_cases htold : Told (board.hart after)
  · rw [if_pos htold, if_pos ((reported_iff hv).mpr htold)]
  · rw [if_neg htold, if_neg (mt (reported_iff hv).mp htold)]
    rfl

variable {steps : List (Step Hart Sized)} {s : Hart}

/-- As long as the hart has told nothing, the test goes on with it. -/
theorem testLoop_run {start : Cpu} (ht : Testing start)
    (run : Steps (Rv64.Step isaDecode) (board.hart start) steps s)
    (he : ∀ t ∈ steps, StepExact t) (hq : ∀ t ∈ steps, ¬Told t.after) {envs : List Env}
    (hlen : envs.length = steps.length) : ∃ cpu, Testing cpu ∧ board.hart cpu = s ∧
      ∀ rest, testLoop start (envs ++ rest) = testLoop cpu rest := by
  induction run generalizing envs with
  | start =>
    obtain rfl := List.length_eq_zero_iff.mp hlen
    exact ⟨start, ht, rfl, fun _ => rfl⟩
  | @step steps s s' i run hs ih =>
    obtain ⟨before, env, rfl⟩ := (List.eq_nil_or_concat envs).resolve_left (by
      rintro rfl
      cases hlen)
    obtain ⟨cpu, hcpu, rfl, hloop⟩ := ih (fun t ht => he t (List.mem_cons_of_mem _ ht))
      (fun t ht => hq t (List.mem_cons_of_mem _ ht)) (by simpa using hlen)
    obtain ⟨next, hnext, hhart, hstep⟩ := testLoop_step hcpu hs (he _ List.mem_cons_self) env
    refine ⟨next, hnext, hhart, fun rest => ?_⟩
    rw [List.concat_eq_append, List.append_assoc, hloop, List.singleton_append, hstep, if_neg (hq _ List.mem_cons_self)]

/-- The machine on which a binary is tested. -/
theorem testing_init {binary : List Byte} {ram : RamDevice} {useTlb : Bool} {fpu : Fpu}
    (hr : Filled dramBase dramSize (overlay binary 0 fun _ => 0) ram) :
    Testing (Cpu.init ram none none false ⟨useTlb, true, fpu⟩) ∧
      board.hart (Cpu.init ram none none false ⟨useTlb, true, fpu⟩) = program binary := by
  refine ⟨⟨⟨rfl, rfl, .inr rfl, nofun⟩, rfl, fun t ha => ha.mode rfl, hr.first, hr.stop⟩, ?_⟩
  have hregs : ∀ r, (Cpu.init ram none none false ⟨useTlb, true, fpu⟩).operand r =
      (program binary).regs.get r := by
    intro r
    simp only [Cpu.operand, Cpu.init, program, Regs.set, Regs.zero, hr.stop, Function.update_apply]
    by_cases h0 : r = 0
    · subst h0
      rfl
    · have hne : r ≠ 0#5 := h0
      simp [hne]
  change (⟨ram.baseAddr, ⟨_, _⟩, ram.bytes⟩ : Hart) = _
  rw [hr.contents, hr.first]
  exact congrArg (fun regs => (⟨dramBase, regs, (program binary).mem⟩ : Hart))
    (Regs.ext (funext hregs))

/-- A binary passes its test exactly when its program, run as the instruction set has it, reports
its end with zero in `a0` while there is time, and fails when the time is up before that. -/
theorem test_binary_verdict {binary : List Byte} (hfit : binary.length ≤ dramSize.toNat)
    (useTlb : Bool) (fpu : Fpu) (run : Steps (Rv64.Step isaDecode) (program binary) steps s)
    (he : ∀ t ∈ steps, StepExact t) (hq : ∀ t ∈ steps, ¬Told t.after) :
    (∀ envs : List Env, envs.length = steps.length →
      testBinary binary useTlb fpu envs = .ok false) ∧
    ∀ i s', Rv64.Step isaDecode s i s' → StepExact ⟨s, i, s'⟩ → Told s' →
      ∀ envs : List Env, steps.length < envs.length →
        testBinary binary useTlb fpu envs = .ok (s'.regs.get 10 = 0) := by
  obtain ⟨ram, hram⟩ : ∃ ram, (RamDevice.init dramBase dramSize).setData binary = .ok ram :=
    Boot.exists_memcpy ((Nat.zero_add _).trans_le hfit)
  obtain ⟨htest, hhart⟩ := @testing_init binary ram useTlb fpu ((Filled.init _ _).memcpy hram)
  rw [← hhart] at run
  have hbinary : ∀ envs, testBinary binary useTlb fpu envs =
      testLoop (Cpu.init ram none none false ⟨useTlb, true, fpu⟩) envs := by
    intro envs
    rw [testBinary, hram, Except.ok_bind]
  constructor
  · intro envs hlen
    obtain ⟨cpu, _, _, hloop⟩ := testLoop_run htest run he hq hlen
    have hend := hloop []
    rw [List.append_nil] at hend
    rw [hbinary, hend, testLoop]
  · intro i s' hs hex htold envs hlen
    obtain ⟨cpu, hcpu, rfl, hloop⟩ :=
      testLoop_run htest run he hq (List.length_take_of_le (Nat.le_of_lt hlen))
    obtain ⟨env, rest, hrest⟩ : ∃ env rest, envs.drop steps.length = env :: rest :=
      List.exists_cons_of_length_pos (by rw [List.length_drop]; omega)
    obtain ⟨_, _, _, hstep⟩ := testLoop_step hcpu hs hex env
    rw [hbinary, ← List.take_append_drop steps.length envs, hloop, hrest, hstep, if_pos htold]

/-- `auipc a1, 1` and `sw a1, -1(a1)`: the second byte that is stored is at `toHostOffset`. -/
def reporting : List Byte := [0x97, 0x15, 0x00, 0x00, 0xa3, 0xaf, 0xb5, 0xfe]

theorem test_binary_verdict_reporting :
    testBinary reporting true default [⟨0, .idle⟩, ⟨0, .idle⟩] = .ok true := by
  have auipc : Rv64.Step isaDecode (program reporting) ⟨4, .auipc 11 0x1000⟩
      ((program reporting).next 11 0x80001000 0x80000004) := ⟨by decide, rfl⟩
  have hquiet : ¬Told ((program reporting).next 11 0x80001000 0x80000004) := by decide
  have sw : Rv64.Step isaDecode ((program reporting).next 11 0x80001000 0x80000004)
      ⟨4, .store 4 11 11 (-1)⟩ _ := ⟨by decide, rfl⟩
  exact (test_binary_verdict (by decide) true default (.step .start auipc)
    (by simp only [List.mem_singleton, forall_eq]; exact trivial)
    (by simp only [List.mem_singleton, forall_eq]; exact hquiet)).2 _ _ sw trivial (by decide) _
    (by decide)

end TestCpu

end Rv64gcEmu
