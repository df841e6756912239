import Rv64gcEmu.InterruptChoice

namespace Rv64gcEmu

/-- The register that a trap to the level records its cause in. -/
def Level.causeCsr : Level → BitVec 12
  | supervisor => Address.scause
  | machine => Address.mcause

namespace Trap

theorem Taken.recorded {before after : Cpu} {cause : Cause} {level : Level}
    (h : Taken before cause level after) :
    after.cregs.load level.causeCsr = cause.value ∧
      ∀ other ≠ level, after.cregs.load other.causeCsr = before.cregs.load other.causeCsr := by
  have hne : ∀ l : Level, l.causeCsr ≠ Address.mstatus := fun l => by cases l <;> decide
  have hload : ∀ (csr : Csr) (l : Level), csr.load l.causeCsr = csr.regs l.causeCsr :=
    fun csr l => by cases l <;> rfl
  constructor
  · rw [hload, h.cregs, Csr.stackStatus_regs _ _ _ (hne level)]
    cases level <;> rfl
  · intro other ho
    rw [hload, hload, h.cregs, Csr.stackStatus_regs _ _ _ (hne other),
      Csr.saveTrap_of_not_mem _ _ _ _ ?_]
    cases level <;> cases other <;> first | exact absurd rfl ho | decide

end Trap

namespace Interrupt

open Cpu (Polled)

/-- The causes that are looked for, the first of which is taken. -/
def causes : List Interrupt :=
  [.machineExternal, .machineSoftware, .machineTimer, .supervisorExternal, .supervisorSoftware,
    .supervisorTimer]

/-- The state behind the device polling, which a mode with its interrupts off does not reach. -/
def devicesPolled (cpu : Cpu) : HostM Cpu := if masked cpu then .ok cpu else updatePending cpu

variable {cpu after c : Cpu} {i : Interrupt} {s : Word}

/-- The cause is enabled and pending and no earlier one is; its bit is cleared in `mip`, and the
trap records it at one level. -/
structure Consumed (cpu : Cpu) (s : Word) (i : Interrupt) (after : Cpu) : Prop where
  pending : (cpu.cregs.load Address.mie &&& s).getLsbD i.code = true
  first : ∃ earlier later, causes = earlier ++ i :: later ∧
    ∀ j ∈ earlier, (cpu.cregs.load Address.mie &&& s).getLsbD j.code = false
  cleared : after.cregs.load Address.mip = s &&& ~~~(1#64 <<< i.code)
  recorded : ∃ level : Level,
    (process after i).cregs.load level.causeCsr = BitVec.ofNat 64 (2 ^ 63 + i.code) ∧
    ∀ other ≠ level, (process after i).cregs.load other.causeCsr = cpu.cregs.load other.causeCsr

/-- Nothing is cleared and nothing is recorded in the first half of a turn. -/
structure Idle (cpu : Cpu) (s : Word) (after : Cpu) : Prop where
  mip : after.cregs.load Address.mip = s
  cause : ∀ level : Level, after.cregs.load level.causeCsr = cpu.cregs.load level.causeCsr
  half : ∀ (before : Cpu) (env : Cpu.Env), before.ticked env = .ok cpu →
    before.poll env = .ok (none, after) ∧
      ∀ level : Level, (after.interrupted none).cregs.load level.causeCsr =
        before.cregs.load level.causeCsr

theorem load_causeCsr_of_polled (h : Polled cpu c) (level : Level) :
    c.cregs.load level.causeCsr = cpu.cregs.load level.causeCsr := by
  cases level with
  | supervisor => exact h.csr Address.scause (by decide) (by decide) (by decide)
  | machine => exact h.csr Address.mcause (by decide) (by decide) (by decide)

theorem devicesPolled_polled (h : devicesPolled cpu = .ok c) : Polled cpu c := by
  unfold devicesPolled at h
  split at h
  next =>
    cases Except.ok.inj h
    exact .refl cpu
  next => exact updatePending_polled h

theorem value_eq (i : Interrupt) :
    (Trap.Cause.interrupt i).value = BitVec.ofNat 64 (2 ^ 63 + i.code) := by
  cases i <;> rfl

theorem select_some (h : select c = (some i, after)) :
    (∃ earlier later, causes = earlier ++ i :: later ∧
      ∀ j ∈ earlier, (c.cregs.load Address.mie &&& c.cregs.load Address.mip).getLsbD j.code = false) ∧
    (c.cregs.load Address.mie &&& c.cregs.load Address.mip).getLsbD i.code = true ∧
    after = c.setCregs (c.cregs.writeBit Address.mip i.code 0) := by
  unfold select at h
  split at h
  next p bit hf =>
    obtain ⟨hi, ha⟩ := Prod.mk.inj h
    cases Option.some.inj hi
    obtain ⟨hp, earlier, later, horder, hnone⟩ := List.find?_eq_some_iff_append.mp hf
    have hbit : ∀ q ∈ order, (decide (c.cregs.load Address.mie &&& c.cregs.load Address.mip &&&
        (1#64 <<< q.2) ≠ 0)) =
        (c.cregs.load Address.mie &&& c.cregs.load Address.mip).getLsbD q.1.code := by
      intro q hq
      obtain ⟨hcode, hlt⟩ := mem_order_code hq
      rw [← hcode, Bool.eq_iff_iff, decide_eq_true_eq, and_one_shiftLeft_ne_zero hlt]
    have hmem := List.mem_of_find?_eq_some hf
    refine ⟨⟨earlier.map Prod.fst, later.map Prod.fst, ?_, ?_⟩, ?_, ?_⟩
    · have hcauses : causes = order.map Prod.fst := rfl
      rw [hcauses, horder, List.map_append, List.map_cons]
    · intro j hj
      obtain ⟨q, hq, rfl⟩ := List.mem_map.mp hj
      have hn := hnone q hq
      rw [hbit q (by rw [horder]; exact List.mem_append_left _ hq), Bool.not_eq_true'] at hn
      exact hn
    · rw [hbit _ hmem] at hp
      exact hp
    · rw [← (mem_order_code hmem).1]
      exact ha.symm
  next =>
    obtain ⟨hi, _⟩ := Prod.mk.inj h
    cases hi

theorem select_none (h : select c = (none, after)) : after = c := by
  unfold select at h
  split at h
  next =>
    obtain ⟨hi, _⟩ := Prod.mk.inj h
    cases hi
  next =>
    obtain ⟨_, ha⟩ := Prod.mk.inj h
    exact ha.symm

/-- The devices are polled first, and then a cause is looked for in the state that this leaves. -/
theorem devicesPolled_select {pending : Option Interrupt}
    (h : getPendingInterrupt cpu = .ok (pending, after)) :
    ∃ c, devicesPolled cpu = .ok c ∧ (pending = none ∧ after = c ∨ select c = (pending, after)) := by
  unfold devicesPolled
  cases hm : masked cpu with
  | true =>
    obtain ⟨rfl, rfl⟩ := Prod.mk.inj (Except.ok.inj ((getPendingInterrupt_of_masked hm).symm.trans h))
    exact ⟨cpu, rfl, .inl ⟨rfl, rfl⟩⟩
  | false =>
    rw [getPendingInterrupt_eq hm] at h
    obtain ⟨c, hc, h⟩ := Except.bind_eq_ok_iff.mp h
    exact ⟨c, hc, .inr (Except.ok.inj h)⟩

theorem idle_of_polled (hc : devicesPolled cpu = .ok c)
    (h : getPendingInterrupt cpu = .ok (none, c)) : Idle cpu (c.cregs.load Address.mip) c where
  mip := rfl
  cause := load_causeCsr_of_polled (devicesPolled_polled hc)
  half before env ht := by
    have hpolled := (Cpu.ticked_polled ht).trans (devicesPolled_polled hc)
    refine ⟨?_, load_causeCsr_of_polled hpolled⟩
    rw [Cpu.poll_eq, ht, Except.ok_bind, h]

theorem consumed_of_select (hc : devicesPolled cpu = .ok c) (h : select c = (some i, after)) :
    Consumed cpu (c.cregs.load Address.mip) i after := by
  have hpolled := devicesPolled_polled hc
  obtain ⟨hfirst, hpending, rfl⟩ := select_some h
  have hmie : c.cregs.load Address.mie = cpu.cregs.load Address.mie :=
    hpolled.csr Address.mie (by decide) (by decide) (by decide)
  rw [hmie] at hfirst hpending
  have htaken := (Trap.process_taken (c.setCregs (c.cregs.writeBit Address.mip i.code 0))
    (.interrupt i)).recorded
  refine ⟨hpending, hfirst, rfl, _, ?_, fun other ho => (htaken.2 other ho).trans ?_⟩
  · rw [← value_eq]
    exact htaken.1
  · exact load_causeCsr_of_polled (hpolled.trans (.writeMip c _ _)) other

/-- An interrupt that the poll gives is consumed, once and at one level, and a poll that gives none
leaves everything pending. -/
theorem getPendingInterrupt_consumed {pending : Option Interrupt}
    (h : getPendingInterrupt cpu = .ok (pending, after)) :
    ∃ c, devicesPolled cpu = .ok c ∧
      match pending with
      | some i => Consumed cpu (c.cregs.load Address.mip) i after
      | none => Idle cpu (c.cregs.load Address.mip) after := by
  obtain ⟨c, hc, ⟨rfl, rfl⟩ | hs⟩ := devicesPolled_select h
  · exact ⟨after, hc, idle_of_polled hc h⟩
  refine ⟨c, hc, ?_⟩
  cases pending with
  | none =>
    cases select_none hs
    exact idle_of_polled hc h
  | some i => exact consumed_of_select hc hs

theorem getPendingInterrupt_consumed_openFirmware : ∃ cpu c after,
    getPendingInterrupt cpu = .ok (some .supervisorSoftware, after) ∧
      devicesPolled cpu = .ok c ∧
      Consumed cpu (c.cregs.load Address.mip) .supervisorSoftware after := by
  obtain ⟨cpu, after, _, _, h⟩ := openFirmware_reached
  obtain ⟨c, hc, hconsumed⟩ := getPendingInterrupt_consumed h
  exact ⟨cpu, c, after, h, hc, hconsumed⟩

end Interrupt

end Rv64gcEmu
