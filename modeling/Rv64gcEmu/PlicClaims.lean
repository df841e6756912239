import Rv64gcEmu.Plic
import Rv64gcEmu.Since
import Rv64gcEmu.Transition
import Rv64gcEmu.Uart
import Rv64gcEmu.Virtio

namespace Rv64gcEmu

open Transition (Step Steps)

namespace PlicCfg

/-- The registers of context 1. -/
def enableOneAddr : Word := enableAddr + 0x80
def claimOneAddr : Word := tresholdClaimAddr + contextOffset + 4

end PlicCfg

/-- An interrupt source. -/
abbrev Source := { n : Word // 1 ≤ n ∧ n ≤ 31 }

/-- What happens to the PLIC from outside. -/
inductive PlicOp where
  | raise (n : Source)
  | enable (address value : Word)
  | complete (n : Source)

namespace PlicOp

def apply (p : PlicDevice) : PlicOp → HostM PlicDevice
  | raise n => p.updatePending n
  | enable address value => p.store address value
  | complete n => p.store PlicCfg.claimOneAddr n

/-- The stores to the enable words stay in those of context 1. -/
def InContext : PlicOp → Prop
  | enable address _ => PlicCfg.enableOneAddr ≤ address ∧ address ≤ PlicCfg.enableEndAddr
  | _ => True

end PlicOp

namespace Source

def disk : Source := ⟨VirtioCfg.irqn, by decide⟩

def uart : Source := ⟨Cfg.uartIrqn, by decide⟩

variable (n : Source)

theorem toNat_pos : 0 < n.1.toNat := by
  have h := BitVec.le_def.mp n.2.1
  have h1 : (1 : Word).toNat = 1 := rfl
  omega

theorem toNat_lt : n.1.toNat < 32 := by
  have h := BitVec.le_def.mp n.2.2
  have h31 : (31 : Word).toNat = 31 := rfl
  omega

theorem ne_zero : n.1 ≠ 0 := by
  intro h
  have hp := n.toNat_pos
  rw [h] at hp
  exact absurd hp (by decide)

theorem word_eq : (n.1 % 1024) / 32 = 0 := by
  apply BitVec.eq_of_toNat_eq
  have h := n.toNat_lt
  rw [BitVec.toNat_udiv, BitVec.toNat_umod]
  change n.1.toNat % 1024 / 32 = 0
  omega

theorem offset_eq : (n.1 % 1024) % 32 = n.1 := by
  apply BitVec.eq_of_toNat_eq
  have h := n.toNat_lt
  rw [BitVec.toNat_umod, BitVec.toNat_umod]
  change n.1.toNat % 1024 % 32 = n.1.toNat
  omega

theorem index_lt : (n.1 / 4).toNat < 32 := by
  have h := n.toNat_lt
  rw [BitVec.toNat_udiv]
  change n.1.toNat / 4 < 32
  omega

end Source

namespace PlicDevice

/-- The source is enabled for context 1. -/
def Enabled (p : PlicDevice) (n : Source) : Prop := p.isEnabled 1 n = .ok true

theorem isEnabled_one (p : PlicDevice) (n : Source) :
    p.isEnabled 1 n = .ok (((p.enable 32 >>> n.1.toNat) &&& 1) = 1) := by
  unfold isEnabled
  rw [n.word_eq, n.offset_eq]
  rfl

theorem and_one_eq_one_iff {w : BitVec 32} {k : Nat} :
    (w >>> k) &&& 1 = 1 ↔ w.getLsbD k = true := by
  constructor
  · intro h
    have hb := congrArg (fun v => v.getLsbD 0) h
    simpa using hb
  · intro h
    apply BitVec.eq_of_getLsbD_eq
    intro i hi
    by_cases hz : i = 0
    · subst hz
      simpa using h
    · simp [hz]

theorem enabled_iff {p : PlicDevice} {n : Source} :
    p.Enabled n ↔ (p.enable 32).getLsbD n.1.toNat = true := by
  unfold Enabled
  rw [isEnabled_one, Except.ok.injEq, decide_eq_true_iff, and_one_eq_one_iff]

/-- What a guest reads from the claim register of context 1. -/
theorem load_claimOne (p : PlicDevice) :
    p.load PlicCfg.claimOneAddr = .ok ((p.claim 1).setWidth 64) := rfl

theorem updatePending_eq (p : PlicDevice) (n : Source) : p.updatePending n = .ok
    { p with
      pending := Function.update p.pending (n.1 / 4).toNat
        (p.pending (n.1 / 4).toNat ||| (1#32 <<< n.1.toNat))
      claim := if (p.enable 32).getLsbD n.1.toNat then
          Function.update p.claim 1 (n.1.setWidth 32)
        else p.claim } := by
  unfold updatePending updateClaim checkIndex checkShift
  simp only [n.index_lt, n.toNat_lt, if_true, Except.ok_bind, isEnabled_one, n.ne_zero, or_false,
    and_one_eq_one_iff, decide_eq_true_eq]
  split
  next => rfl
  next => rfl

theorem updatePending_claimOne (p : PlicDevice) (n : Source) {p' : PlicDevice}
    (h : p.updatePending n = .ok p') : p'.load PlicCfg.claimOneAddr =
      if (p.enable 32).getLsbD n.1.toNat then .ok n.1 else p.load PlicCfg.claimOneAddr := by
  have hd := Except.ok.inj ((p.updatePending_eq n).symm.trans h)
  have hfit : (n.1.setWidth 32).setWidth 64 = n.1 := by
    apply BitVec.eq_of_toNat_eq
    have hlt := n.toNat_lt
    rw [BitVec.toNat_setWidth, BitVec.toNat_setWidth]
    omega
  rw [← hd]
  simp only [load_claimOne]
  split
  next => rw [Function.update_self, hfit]
  next => rfl

theorem complete_eq (p : PlicDevice) (n : Source) : p.store PlicCfg.claimOneAddr n = .ok
    { p with
      pending := Function.update p.pending (n.1 / 4).toNat
        (p.pending (n.1 / 4).toNat &&& ~~~(1#32 <<< n.1.toNat))
      claim := Function.update p.claim 1 0 } := by
  have hs : p.store PlicCfg.claimOneAddr n = p.clearPending n := rfl
  rw [hs]
  unfold clearPending updateClaim checkIndex checkShift
  simp only [n.index_lt, n.toNat_lt, if_true, Except.ok_bind, or_true]
  rfl

theorem enable_eq (p : PlicDevice) {address : Word} (value : Word)
    (h : PlicCfg.enableOneAddr ≤ address ∧ address ≤ PlicCfg.enableEndAddr) :
    p.store address value = .ok
      { p with enable :=
          Function.update p.enable ((address - PlicCfg.enableAddr) / 4).toNat (value.setWidth 32) } := by
  obtain ⟨hlo, hhi⟩ := h
  rw [BitVec.le_def] at hlo hhi
  have e1 : PlicCfg.enableOneAddr.toNat = 0xc002080 := rfl
  have e2 : PlicCfg.enableEndAddr.toNat = 0xc0020ff := rfl
  have e3 : PlicCfg.enableAddr.toNat = 0xc002000 := rfl
  have e4 : PlicCfg.sourcePrioEndAddr.toNat = 0xc000fff := rfl
  have e5 : PlicCfg.pendingEndAddr.toNat = 0xc00107f := rfl
  have hprio : Helper.valueInRangeInclusive address PlicCfg.sourcePrioAddr
      PlicCfg.sourcePrioEndAddr = false := by
    simp only [Helper.valueInRangeInclusive, Bool.and_eq_false_iff, decide_eq_false_iff_not,
      BitVec.le_def]
    omega
  have hpend : Helper.valueInRangeInclusive address PlicCfg.pendingAddr
      PlicCfg.pendingEndAddr = false := by
    simp only [Helper.valueInRangeInclusive, Bool.and_eq_false_iff, decide_eq_false_iff_not,
      BitVec.le_def]
    omega
  have hen : Helper.valueInRangeInclusive address PlicCfg.enableAddr
      PlicCfg.enableEndAddr = true := by
    simp only [Helper.valueInRangeInclusive, Bool.and_eq_true, decide_eq_true_eq, BitVec.le_def]
    omega
  have hidx : ((address - PlicCfg.enableAddr) / 4).toNat < 64 := by
    rw [BitVec.toNat_udiv, BitVec.toNat_sub, e3]
    change _ / 4 < 64
    omega
  unfold store checkIndex
  simp only [hprio, hpend, hen, Bool.false_eq_true, if_false, if_true, hidx, Except.ok_bind]

end PlicDevice

theorem PlicOp.apply_ok (p : PlicDevice) {op : PlicOp} (h : op.InContext) :
    ∃ p', op.apply p = .ok p' := by
  cases op with
  | raise n => exact ⟨_, p.updatePending_eq n⟩
  | enable address value => exact ⟨_, p.enable_eq value h⟩
  | complete n => exact ⟨_, p.complete_eq n⟩

/-- An operation with the PLIC that it found. -/
structure PlicEvent where
  op : PlicOp
  found : PlicDevice

/-- The PLIC with what has happened to it since the start, the last operation first. -/
structure PlicRun where
  start : PlicDevice
  device : PlicDevice
  history : List PlicEvent

namespace PlicEvent

/-- The source was raised while it was enabled. -/
def Claims (e : PlicEvent) (n : Source) : Prop := e.op = .raise n ∧ e.found.Enabled n

/-- Some source was raised while it was enabled, or one was completed. -/
def Decides (e : PlicEvent) : Prop := (∃ n, e.Claims n) ∨ ∃ n, e.op = .complete n

end PlicEvent

namespace PlicRun

def init (start : PlicDevice) : PlicRun := ⟨start, start, []⟩

structure Next (s : PlicRun) (op : PlicOp) (s' : PlicRun) : Prop where
  context : op.InContext
  apply : op.apply s.device = .ok s'.device
  history : s'.history = ⟨op, s.device⟩ :: s.history
  start : s'.start = s.start

/-- The source was raised, and has not been completed since. -/
def Outstanding (s : PlicRun) (n : Source) : Prop :=
  Since (fun e => e.op = .raise n) (fun e => e.op = .complete n) s.history

/-- The last source that was raised while it was enabled, with no completion since; where there is
none of either, the one of the claim register at the start. -/
def LastClaimed (s : PlicRun) (n : Source) : Prop :=
  Since (fun e => e.Claims n) PlicEvent.Decides s.history ∨
    (∀ e ∈ s.history, ¬e.Decides) ∧ s.start.load PlicCfg.claimOneAddr = .ok n.1

def Claimable (s : PlicRun) (n : Source) : Prop := s.Outstanding n ∧ s.device.Enabled n

/-- A guest that reads the claim register gets a source that is waiting, if there is one. -/
def NoneLost (s : PlicRun) : Prop :=
  (∃ n, s.Claimable n) → ∃ n : Source, s.device.load PlicCfg.claimOneAddr = .ok n.1 ∧ s.Claimable n

/-- The enable bit of a source behind a store to an enable word: the 32 sources are those
of the first word. -/
def EnabledBy (s : PlicRun) (address value : Word) (n : Source) : Prop :=
  if (address - PlicCfg.enableAddr) / 4 = 32 then value.getLsbD n.1.toNat = true
  else s.device.Enabled n

/-- A completion of the only source that waits; a store to the enable words that leaves
the source that was claimed last waiting, or none at all. -/
def Safe (s : PlicRun) : PlicOp → Prop
  | .raise _ => True
  | .enable address value =>
      (∃ n, s.Outstanding n ∧ s.EnabledBy address value n) →
        ∃ n, s.LastClaimed n ∧ s.Outstanding n ∧ s.EnabledBy address value n
  | .complete n => ∀ m, m ≠ n → ¬s.Claimable m

/-- The claim register holds the source that was claimed last. -/
def Registered (s : PlicRun) : Prop :=
  ∀ n : Source, s.device.load PlicCfg.claimOneAddr = .ok n.1 ↔ s.LastClaimed n

variable {s s' : PlicRun} {op : PlicOp} {n m : Source}

namespace Next

theorem outstanding_iff (h : Next s op s') :
    s'.Outstanding m ↔ op = .raise m ∨ op ≠ .complete m ∧ s.Outstanding m := by
  unfold Outstanding
  rw [h.history, Since.cons_iff]

theorem outstanding_of_raise (h : Next s (.raise n) s') :
    s'.Outstanding m ↔ m = n ∨ s.Outstanding m := by
  rw [h.outstanding_iff]
  simp [eq_comm]

theorem outstanding_of_enable {address value : Word} (h : Next s (.enable address value) s') :
    s'.Outstanding m ↔ s.Outstanding m := by
  rw [h.outstanding_iff]
  simp

theorem outstanding_of_complete (h : Next s (.complete n) s') :
    s'.Outstanding m ↔ m ≠ n ∧ s.Outstanding m := by
  rw [h.outstanding_iff]
  simp [eq_comm]

theorem raise_device (h : Next s (.raise n) s') : s'.device.enable = s.device.enable ∧
    s'.device.load PlicCfg.claimOneAddr =
      if (s.device.enable 32).getLsbD n.1.toNat then .ok n.1
      else s.device.load PlicCfg.claimOneAddr := by
  have hd := Except.ok.inj ((s.device.updatePending_eq n).symm.trans h.apply)
  exact ⟨by rw [← hd], s.device.updatePending_claimOne n h.apply⟩

theorem complete_device (h : Next s (.complete n) s') : s'.device.enable = s.device.enable ∧
    s'.device.load PlicCfg.claimOneAddr = .ok 0 := by
  have hd := Except.ok.inj ((s.device.complete_eq n).symm.trans h.apply)
  rw [← hd]
  exact ⟨rfl, rfl⟩

theorem enable_device {address value : Word} (h : Next s (.enable address value) s') :
    (s'.device.Enabled m ↔ s.EnabledBy address value m) ∧
      s'.device.load PlicCfg.claimOneAddr = s.device.load PlicCfg.claimOneAddr := by
  have hd := Except.ok.inj ((s.device.enable_eq value h.context).symm.trans h.apply)
  refine ⟨?_, by rw [← hd]; rfl⟩
  rw [PlicDevice.enabled_iff, ← hd]
  unfold EnabledBy
  split
  next h32 =>
    have hlt := m.toNat_lt
    have hidx : ((address - PlicCfg.enableAddr) / 4).toNat = 32 := by
      rw [h32]
      rfl
    simp only [hidx, Function.update_self, BitVec.getLsbD_setWidth, hlt, decide_true, Bool.true_and]
  next h32 =>
    have hidx : 32 ≠ ((address - PlicCfg.enableAddr) / 4).toNat := by
      intro hx
      apply h32
      apply BitVec.eq_of_toNat_eq
      exact hx.symm
    simp only [Function.update_of_ne hidx]
    exact PlicDevice.enabled_iff.symm

theorem enabled_congr (h : s'.device.enable = s.device.enable) :
    s'.device.Enabled m ↔ s.device.Enabled m := by
  rw [PlicDevice.enabled_iff, PlicDevice.enabled_iff, h]

theorem lastClaimed_of_decides (h : Next s op s') (hd : PlicEvent.Decides ⟨op, s.device⟩) :
    s'.LastClaimed m ↔ PlicEvent.Claims ⟨op, s.device⟩ m := by
  unfold LastClaimed
  rw [h.history, Since.cons_iff]
  constructor
  · rintro ((hm | ⟨hn, _⟩) | ⟨hn, _⟩)
    · exact hm
    · exact absurd hd hn
    · exact absurd hd (hn _ List.mem_cons_self)
  · exact fun hm => .inl (.inl hm)

theorem lastClaimed_of_not_decides (h : Next s op s') (hd : ¬PlicEvent.Decides ⟨op, s.device⟩) :
    s'.LastClaimed m ↔ s.LastClaimed m := by
  have hm : ¬PlicEvent.Claims ⟨op, s.device⟩ m := fun hm => hd (.inl ⟨m, hm⟩)
  unfold LastClaimed
  rw [h.history, h.start, Since.cons_iff, List.forall_mem_cons]
  simp only [hm, hd, not_false_eq_true, false_or, true_and]

/-- What decides puts its source into the claim register, and nothing else changes it. -/
theorem registered (h : Next s op s') (hs : s.Registered) : s'.Registered := by
  intro m
  cases op with
  | raise n =>
    obtain ⟨_, hclaim⟩ := h.raise_device
    by_cases hn : s.device.Enabled n
    · rw [h.lastClaimed_of_decides (.inl ⟨n, rfl, hn⟩), hclaim,
        if_pos (PlicDevice.enabled_iff.mp hn)]
      constructor
      · intro heq
        obtain rfl := Subtype.ext (Except.ok.inj heq)
        exact ⟨rfl, hn⟩
      · rintro ⟨heq, _⟩
        rw [PlicOp.raise.inj heq]
    · have hd : ¬PlicEvent.Decides ⟨.raise n, s.device⟩ := by
        rintro (⟨k, hk, hen⟩ | ⟨k, hk⟩)
        · exact hn (PlicOp.raise.inj hk ▸ hen)
        · cases hk
      rw [h.lastClaimed_of_not_decides hd, hclaim,
        if_neg fun hb => hn (PlicDevice.enabled_iff.mpr hb)]
      exact hs m
  | enable address value =>
    have hd : ¬PlicEvent.Decides ⟨.enable address value, s.device⟩ := by
      rintro (⟨k, hk, _⟩ | ⟨k, hk⟩)
      · cases hk
      · cases hk
    rw [h.lastClaimed_of_not_decides hd, (@enable_device s s' m address value h).2]
    exact hs m
  | complete n =>
    rw [h.lastClaimed_of_decides (.inr ⟨n, rfl⟩), h.complete_device.2]
    refine iff_of_false (fun heq => m.ne_zero (Except.ok.inj heq).symm) ?_
    rintro ⟨heq, _⟩
    cases heq

/-- One operation keeps the claim register right exactly when it is one of the safe ones. -/
theorem noneLost_iff (h : Next s op s') (hr : s.Registered) (hs : s.NoneLost) :
    s'.NoneLost ↔ s.Safe op := by
  cases op with
  | raise n =>
    refine iff_of_true ?_ trivial
    obtain ⟨hen, hclaim⟩ := h.raise_device
    rintro ⟨m, ho, he⟩
    rw [h.outstanding_of_raise] at ho
    rw [enabled_congr hen] at he
    by_cases hn : s.device.Enabled n
    · refine ⟨n, ?_, h.outstanding_of_raise.mpr (.inl rfl), (enabled_congr hen).mpr hn⟩
      rw [hclaim, if_pos (PlicDevice.enabled_iff.mp hn)]
    · have hold : s.Claimable m := by
        rcases ho with rfl | ho
        · exact absurd he hn
        · exact ⟨ho, he⟩
      obtain ⟨k, hk, hko, hke⟩ := hs ⟨m, hold⟩
      refine ⟨k, ?_, h.outstanding_of_raise.mpr (.inr hko), (enabled_congr hen).mpr hke⟩
      rw [hclaim, if_neg (fun hb => hn (PlicDevice.enabled_iff.mpr hb))]
      exact hk
  | enable address value =>
    have hiff : ∀ m, s'.Claimable m ↔ s.Outstanding m ∧ s.EnabledBy address value m := fun m =>
      and_congr h.outstanding_of_enable h.enable_device.1
    have hclaim := (@enable_device s s' ⟨1, by decide⟩ address value h).2
    unfold NoneLost Safe
    simp only [hiff, hclaim, hr _]
  | complete n =>
    obtain ⟨hen, hclaim⟩ := h.complete_device
    have hiff : ∀ m, s'.Claimable m ↔ m ≠ n ∧ s.Claimable m := by
      intro m
      unfold Claimable
      rw [h.outstanding_of_complete, enabled_congr hen, and_assoc]
    constructor
    · intro hx m hm hc
      obtain ⟨k, hk, _⟩ := hx ⟨m, (hiff m).mpr ⟨hm, hc⟩⟩
      rw [hclaim] at hk
      exact k.ne_zero (Except.ok.inj hk).symm
    · rintro hx ⟨m, hc⟩
      obtain ⟨hm, hc⟩ := (hiff m).mp hc
      exact absurd hc (hx m hm)

end Next

/-- Along a sequence of operations no interrupt is lost, exactly when every operation is
one of the safe ones. -/
theorem noneLost_iff_safe {start : PlicDevice} {steps : List (Step PlicRun PlicOp)}
    (run : Steps Next (init start) steps s) :
    (∀ t ∈ steps, t.after.NoneLost) ↔ ∀ t ∈ steps, t.before.Safe t.label := by
  have hstart : (init start).Registered := fun n =>
    ⟨fun h => .inr ⟨fun _ he => absurd he List.not_mem_nil, h⟩, fun h =>
      h.elim (fun hs => absurd hs Since.not_nil) And.right⟩
  have hnone : (init start).NoneLost := fun ⟨_, ho, _⟩ => absurd ho Since.not_nil
  exact run.forall_iff (I := fun s => s.Registered ∧ s.NoneLost)
    (fun _ _ _ h hs => h.noneLost_iff hs.1 hs.2) (fun _ _ _ h hs hg => ⟨h.registered hs.1, hg⟩)
    ⟨hstart, hnone⟩

/-- Both are enabled and raised; the guest completes the second. -/
theorem earlyCompletion_run : ∃ steps s, Steps Next (init PlicDevice.init) steps s ∧
    ∃ t ∈ steps, t.after.Claimable Source.disk ∧
      t.after.device.load PlicCfg.claimOneAddr = .ok 0 := by
  have enable := @Steps.step _ _ Next (init PlicDevice.init) _ _ ⟨_, _, _⟩
    (.enable PlicCfg.enableOneAddr 0x402) .start
    ⟨And.intro (by decide) (by decide), PlicDevice.enable_eq _ _ (by decide), rfl, rfl⟩
  have raiseOne := @Steps.step _ _ Next _ _ _ ⟨_, _, _⟩ (.raise Source.disk) enable
    ⟨trivial, PlicDevice.updatePending_eq _ _, rfl, rfl⟩
  have raiseTen := @Steps.step _ _ Next _ _ _ ⟨_, _, _⟩ (.raise Source.uart) raiseOne
    ⟨trivial, PlicDevice.updatePending_eq _ _, rfl, rfl⟩
  have complete := @Steps.step _ _ Next _ _ _ ⟨_, _, _⟩ (.complete Source.uart) raiseTen
    ⟨trivial, PlicDevice.complete_eq _ _, rfl, rfl⟩
  refine ⟨_, _, complete, _, List.mem_cons_self, ⟨?_, ?_⟩, rfl⟩
  · refine ⟨[⟨.complete Source.uart, _⟩, ⟨.raise Source.uart, _⟩], ⟨.raise Source.disk, _⟩, _, rfl, rfl,
      ?_⟩
    intro x hx
    simp only [List.mem_cons, List.not_mem_nil, or_false] at hx
    rcases hx with rfl | rfl
    · exact fun h => absurd (PlicOp.complete.inj h) (by decide)
    · simp
  · rw [PlicDevice.enabled_iff]
    rfl

theorem noneLost_iff_safe_earlyCompletion : ∃ steps s, Steps Next (init PlicDevice.init) steps s ∧
    ((∀ t ∈ steps, t.after.NoneLost) ↔ ∀ t ∈ steps, t.before.Safe t.label) := by
  obtain ⟨steps, s, run, _⟩ := earlyCompletion_run
  exact ⟨steps, s, run, noneLost_iff_safe run⟩

theorem earlyCompletion_loses : ¬ ∀ (steps : List (Step PlicRun PlicOp)) (s : PlicRun),
    Steps Next (init PlicDevice.init) steps s → ∀ t ∈ steps, t.after.NoneLost := by
  intro h
  obtain ⟨steps, s, run, t, ht, hc, hl⟩ := earlyCompletion_run
  obtain ⟨n, hn, _⟩ := h steps s run t ht ⟨Source.disk, hc⟩
  rw [hl] at hn
  exact n.ne_zero (Except.ok.inj hn).symm

end PlicRun

end Rv64gcEmu
