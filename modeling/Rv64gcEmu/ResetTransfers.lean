import Rv64gcEmu.DiskAccesses
import Rv64gcEmu.Since
import Rv64gcEmu.VirtioQueue

namespace Rv64gcEmu

open Transition (Step Steps)

/-- A store of the machine, a tick of the disk, or anything that leaves the disk alone. -/
inductive DiskEvent where
  | store (address value : Word) (length : Width)
  | tick
  | other
  deriving DecidableEq

namespace VirtioBlkDevice

variable {a b : Cpu} {v w : VirtioBlkDevice}

/-- Whatever is in memory, a tick moves the clock and does nothing else. -/
def Idle (v : VirtioBlkDevice) : Prop :=
  ∀ cpu : Cpu, cpu.bus.virtio = some v → tick cpu = .ok (toBus cpu { v with clock := v.clock + 1 })

/-- The notification that is outstanding falls due `n` ticks from now. -/
def DueAfter (v : VirtioBlkDevice) (n : Nat) : Prop :=
  v.queueNotify ≠ VirtioCfg.queueNotifyReset ∧
    v.clock + BitVec.ofNat 64 n = v.notifyClock + VirtioCfg.diskDelay

theorem idle_iff (hv : a.bus.virtio = some v) : v.Idle ↔ ¬v.Due := by
  constructor
  · intro hi hd
    have htick := hi a hv
    rw [tick_of_due hv hd] at htick
    obtain ⟨c, _, htick⟩ := Except.bind_eq_ok_iff.mp htick
    obtain ⟨w, _, htick⟩ := Except.bind_eq_ok_iff.mp htick
    -- a tick that serves the request takes the notification back
    have hdisk := congrArg (fun x : Cpu => x.bus.virtio.map queueNotify) (Except.ok.inj htick)
    exact hd.1 (Option.some.inj hdisk).symm
  · intro hd cpu hc
    exact tick_of_not_due hc hd

/-- The parts that the delay depends on, `n` ticks later. -/
structure Waits (v : VirtioBlkDevice) (n : Nat) (w : VirtioBlkDevice) : Prop where
  queueNotify : w.queueNotify = v.queueNotify
  notifyClock : w.notifyClock = v.notifyClock
  clock : w.clock = v.clock + BitVec.ofNat 64 n

theorem Waits.refl (v : VirtioBlkDevice) : Waits v 0 v := ⟨rfl, rfl, (BitVec.add_zero _).symm⟩

theorem Waits.due_iff {n : Nat} (h : Waits v n w) : w.Due ↔ v.DueAfter n := by
  unfold Due DueAfter
  rw [h.queueNotify, h.notifyClock, h.clock]

theorem Waits.trans {u : VirtioBlkDevice} {m n : Nat} (h : Waits u m v) (h' : Waits v n w) :
    Waits u (n + m) w where
  queueNotify := h'.queueNotify.trans h.queueNotify
  notifyClock := h'.notifyClock.trans h.notifyClock
  clock := by
    rw [h'.clock, h.clock, BitVec.add_assoc, ← BitVec.ofNat_add, Nat.add_comm]

end VirtioBlkDevice

namespace DiskRun

open VirtioBlkDevice (Waits)

def Next (a : Cpu) (e : DiskEvent) (b : Cpu) : Prop :=
  match e with
  | .store address value length => Bus.store a address value length = .ok b
  | .tick => VirtioBlkDevice.tick a = .ok b
  | .other => b.bus.virtio = a.bus.virtio

/-- The driver writes a register of the disk. -/
def Writes (register : Word) (p : Word → Prop) (t : Step Cpu DiskEvent) : Prop :=
  ∃ address value length, t.label = .store address value length ∧
    t.before.bus.findBusDevice address = some .virtio ∧
    address - VirtioCfg.baseAddr = register ∧ p value

def Resets : Step Cpu DiskEvent → Prop :=
  Writes VirtioCfg.status fun value => (value &&& 0xff).setWidth 8 = 0#8

def Notifies : Step Cpu DiskEvent → Prop := Writes VirtioCfg.queueNotify fun _ => True

/-- The disk takes up a request. -/
def Serves (t : Step Cpu DiskEvent) : Prop :=
  t.label = .tick ∧ ∃ v, t.before.bus.virtio = some v ∧ v.Due

/-- A tick between a reset and the next notification transfers nothing, and up to the first
request after a reset the used index is 0. -/
def Stopped (t : Step Cpu DiskEvent) (earlier : List (Step Cpu DiskEvent)) : Prop :=
  t.label = .tick → ∀ v, t.before.bus.virtio = some v →
    (Since Resets Notifies earlier → v.Idle) ∧ (Since Resets Serves earlier → v.id = 0)

def ticks (steps : List (Step Cpu DiskEvent)) : Nat := steps.countP (·.label = .tick)

/-- `r` is a reset after which the driver has not notified, and `later` are the steps since. -/
structure ResetAt (later : List (Step Cpu DiskEvent)) (r : Step Cpu DiskEvent)
    (earlier : List (Step Cpu DiskEvent)) : Prop where
  split : ∃ before, earlier = later ++ r :: before
  resets : Resets r
  silent : ∀ x ∈ later, ¬Notifies x

/-- The tick is not the one for which a notification that a reset found outstanding was
waiting. -/
def NotLeftOver (t : Step Cpu DiskEvent) (earlier : List (Step Cpu DiskEvent)) : Prop :=
  t.label = .tick → ∀ later r, ResetAt later r earlier →
    ∀ v, r.before.bus.virtio = some v → ¬v.DueAfter (ticks later)

theorem since_iff {earlier : List (Step Cpu DiskEvent)} :
    Since Resets Notifies earlier ↔ ∃ later r, ResetAt later r earlier := by
  constructor
  · rintro ⟨later, r, before, h, hr, hn⟩
    exact ⟨later, r, ⟨before, h⟩, hr, hn⟩
  · rintro ⟨later, r, ⟨before, h⟩, hr, hn⟩
    exact ⟨later, r, before, h, hr, hn⟩

theorem ResetAt.cons_cases {t r : Step Cpu DiskEvent} {later earlier : List (Step Cpu DiskEvent)}
    (h : ResetAt later r (t :: earlier)) : later = [] ∧ r = t ∨
      ∃ later', later = t :: later' ∧ ¬Notifies t ∧ ResetAt later' r earlier := by
  obtain ⟨⟨before, hsplit⟩, hr, hn⟩ := h
  cases later with
  | nil => exact .inl ⟨rfl, (List.cons.inj hsplit).1.symm⟩
  | cons x later =>
    obtain ⟨rfl, rfl⟩ := List.cons.inj hsplit
    exact .inr ⟨later, rfl, hn t List.mem_cons_self, ⟨before, rfl⟩, hr,
      fun x hx => hn x (List.mem_cons_of_mem _ hx)⟩

theorem ticks_cons (t : Step Cpu DiskEvent) (steps : List (Step Cpu DiskEvent)) :
    ticks (t :: steps) = ticks [t] + ticks steps := by
  unfold ticks
  rw [← List.countP_append, List.singleton_append]

variable {a b : Cpu} {e : DiskEvent} {v w : VirtioBlkDevice}

/-- What a store to the registers does to the delay and to the used index. -/
theorem store_waits {address value : Word} (h : v.store address value = .ok w) :
    (address - VirtioCfg.baseAddr ≠ VirtioCfg.queueNotify → Waits v 0 w) ∧
      w.id = if address - VirtioCfg.baseAddr = VirtioCfg.status ∧ (value &&& 0xff).setWidth 8 = 0#8
        then 0 else v.id := by
  refine ⟨fun hn => ?_, (VirtioBlkDevice.store_id h).2⟩
  have hclock : v.clock = v.clock + BitVec.ofNat 64 0 := (BitVec.add_zero _).symm
  cases VirtioBlkDevice.store_cases h with
  | reset => exact ⟨rfl, rfl, hclock⟩
  | acknowledge => exact ⟨rfl, rfl, hclock⟩
  | notify ho => exact absurd ho hn
  | other _ _ _ h => exact ⟨h.queueNotify, h.notifyClock, h.clock.trans hclock⟩

/-- Everything that a step can do to the delay and to the used index. -/
theorem Next.step (h : Next a e b) (hv : a.bus.virtio = some v) : ∃ w, b.bus.virtio = some w ∧
    (¬Notifies ⟨a, e, b⟩ → ¬Serves ⟨a, e, b⟩ → Waits v (ticks [⟨a, e, b⟩]) w) ∧
      (Resets ⟨a, e, b⟩ → w.id = 0) ∧
        (¬Serves ⟨a, e, b⟩ → v.id = 0 → w.id = 0) := by
  cases e with
  | other =>
    refine ⟨v, Eq.trans h hv, fun _ _ => .refl v, ?_, fun _ => id⟩
    rintro ⟨_, _, _, hlabel, _⟩
    cases hlabel
  | tick =>
    have hno : ¬Resets ⟨a, .tick, b⟩ := by
      rintro ⟨_, _, _, hlabel, _⟩
      cases hlabel
    by_cases hd : v.Due
    · have hs : Serves ⟨a, .tick, b⟩ := ⟨rfl, v, hv, hd⟩
      have htick : VirtioBlkDevice.tick a = .ok b := h
      rw [VirtioBlkDevice.tick_of_due hv hd] at htick
      obtain ⟨c, _, htick⟩ := Except.bind_eq_ok_iff.mp htick
      obtain ⟨w, _, htick⟩ := Except.bind_eq_ok_iff.mp htick
      cases Except.ok.inj htick
      exact ⟨w.settle, rfl, fun _ hn => absurd hs hn, fun hr => absurd hr hno, fun hn => absurd hs hn⟩
    · have htick : VirtioBlkDevice.tick a = .ok b := h
      rw [VirtioBlkDevice.tick_of_not_due hv hd] at htick
      cases Except.ok.inj htick
      exact ⟨_, rfl, fun _ _ => ⟨rfl, rfl, rfl⟩, fun hr => absurd hr hno, fun _ => id⟩
  | store address value length =>
    have hstore : Bus.store a address value length = .ok b := h
    obtain ⟨w, hw, ⟨hd, hs⟩ | ⟨hd, rfl⟩⟩ := VirtioBlkDevice.busStore_cases hstore hv
    · obtain ⟨hwaits, hid⟩ := store_waits hs
      refine ⟨w, hw, fun hn _ => hwaits fun ho => ?_, ?_, fun _ hz => ?_⟩
      · exact hn ⟨address, value, length, rfl, hd, ho, trivial⟩
      · rintro ⟨_, _, _, hlabel, _, ho, hz⟩
        cases hlabel
        exact hid.trans (if_pos ⟨ho, hz⟩)
      · rw [hid, hz, ite_self]
    · refine ⟨w, hw, fun _ _ => .refl w, ?_, fun _ => id⟩
      rintro ⟨_, _, _, hlabel, hd', _⟩
      cases hlabel
      exact absurd hd' hd

/-- A register of the disk is written when there is one. -/
theorem Writes.disk {register : Word} {p : Word → Prop} (h : Next a e b)
    (hw : Writes register p ⟨a, e, b⟩) : ∃ v, a.bus.virtio = some v := by
  obtain ⟨address, value, length, rfl, hd, _⟩ := hw
  have hstore : Bus.store a address value length = .ok b := h
  rcases Bus.store_cases hstore with ⟨d, bus, hd', hs, _⟩ | ⟨hd', _⟩
  · cases Option.some.inj (hd.symm.trans hd')
    obtain ⟨v, _, hv, _⟩ := (Bus.deviceStore_layout hs).2.2 rfl
    exact ⟨v, hv⟩
  · rw [hd'] at hd
    cases hd

/-- After a reset the delay goes on from what the reset found, and the used index is 0. -/
structure Carried (earlier : List (Step Cpu DiskEvent)) (cpu : Cpu) : Prop where
  waits : ∀ later r, ResetAt later r earlier → ∃ v w, r.before.bus.virtio = some v ∧
    cpu.bus.virtio = some w ∧ Waits v (ticks later) w
  id : Since Resets Serves earlier → ∃ w, cpu.bus.virtio = some w ∧ w.id = 0

theorem Resets.not_notifies {t : Step Cpu DiskEvent} (h : Resets t) : ¬Notifies t := by
  obtain ⟨_, _, _, hlabel, _, ho, _⟩ := h
  rintro ⟨_, _, _, hlabel', _, ho', _⟩
  cases hlabel.symm.trans hlabel'
  exact absurd (ho.symm.trans ho') (by decide)

theorem Resets.not_serves {t : Step Cpu DiskEvent} (h : Resets t) : ¬Serves t := by
  obtain ⟨_, _, _, hlabel, _⟩ := h
  rintro ⟨hlabel', _⟩
  cases hlabel.symm.trans hlabel'

theorem Carried.stopped_iff_notLeftOver {earlier : List (Step Cpu DiskEvent)} (hc : Carried earlier a) :
    Stopped ⟨a, e, b⟩ earlier ↔ NotLeftOver ⟨a, e, b⟩ earlier := by
  constructor
  · intro hs he later r hr v hv hdue
    obtain ⟨v', w, hv', hw, hwaits⟩ := hc.waits later r hr
    cases Option.some.inj (hv.symm.trans hv')
    have hidle := (hs he w hw).1 (since_iff.mpr ⟨later, r, hr⟩)
    exact (VirtioBlkDevice.idle_iff hw).mp hidle (hwaits.due_iff.mpr hdue)
  · intro hn he w hw
    constructor
    · intro hsince
      obtain ⟨later, r, hr⟩ := since_iff.mp hsince
      obtain ⟨v, w', hv, hw', hwaits⟩ := hc.waits later r hr
      cases Option.some.inj (hw.symm.trans hw')
      exact (VirtioBlkDevice.idle_iff hw).mpr fun hd => hn he later r hr v hv (hwaits.due_iff.mp hd)
    · intro hsince
      obtain ⟨w', hw', hid⟩ := hc.id hsince
      cases Option.some.inj (hw.symm.trans hw')
      exact hid

theorem Carried.step {earlier : List (Step Cpu DiskEvent)} (h : Next a e b) (hc : Carried earlier a)
    (hs : Stopped ⟨a, e, b⟩ earlier) : Carried (⟨a, e, b⟩ :: earlier) b where
  waits later r hr := by
    rcases hr.cons_cases with ⟨rfl, rfl⟩ | ⟨later', rfl, hn, hr'⟩
    · obtain ⟨v, hv⟩ := Writes.disk h hr.resets
      obtain ⟨w, hw, hwaits, _⟩ := h.step hv
      have hnone : ticks [⟨a, e, b⟩] = 0 := by
        obtain ⟨_, _, _, rfl, _⟩ := hr.resets
        rfl
      rw [hnone] at hwaits
      exact ⟨v, w, hv, hw, hwaits hr.resets.not_notifies hr.resets.not_serves⟩
    · obtain ⟨u, v, hu, hv, hwaits⟩ := hc.waits later' r hr'
      obtain ⟨w, hw, hstep, _⟩ := h.step hv
      have hno : ¬Serves ⟨a, e, b⟩ := by
        rintro ⟨he, v', hv', hd⟩
        have hidle := (hs he v' hv').1 (since_iff.mpr ⟨later', r, hr'⟩)
        exact (VirtioBlkDevice.idle_iff hv').mp hidle hd
      rw [ticks_cons]
      exact ⟨u, w, hu, hw, hwaits.trans (hstep hn hno)⟩
  id hsince := by
    rcases Since.cons_iff.mp hsince with hr | ⟨hn, hsince⟩
    · obtain ⟨v, hv⟩ := Writes.disk h hr
      obtain ⟨w, hw, _, hid, _⟩ := h.step hv
      exact ⟨w, hw, hid hr⟩
    · obtain ⟨v, hv, hz⟩ := hc.id hsince
      obtain ⟨w, hw, _, _, hid⟩ := h.step hv
      exact ⟨w, hw, hid hn hz⟩

/-- In a run every tick between a reset and the next notification leaves memory, image and
interrupt alone, and every first request after a reset starts at used index 0, exactly when
no tick meets a notification that a reset found outstanding. -/
theorem stopped_iff (start s : Cpu) (steps : List (Step Cpu DiskEvent))
    (run : Steps Next start steps s) :
    (∀ t earlier, t :: earlier <:+ steps → Stopped t earlier) ↔
      ∀ t earlier, t :: earlier <:+ steps → NotLeftOver t earlier := by
  refine run.forall_past_iff (I := Carried) (fun _ _ _ _ _ hc => hc.stopped_iff_notLeftOver)
    (fun _ _ _ _ h hc hs => hc.step h hs) ⟨?_, fun hs => absurd hs Since.not_nil⟩
  rintro later r ⟨⟨before, hsplit⟩, _, _⟩
  cases later <;> cases hsplit

/-- A machine whose disk has been notified `clock` ticks ago. -/
def notified (clock : Word) : Cpu :=
  VirtioBlkDevice.toBus QueueState.queueMachine (QueueState.delayedDisk clock)

theorem notified_reset (n : Nat) (hn : n ≤ 500) : ∃ steps,
    Steps Next QueueState.queueMachine steps (notified (BitVec.ofNat 64 n)) ∧
      Since Resets Notifies steps := by
  induction n with
  | zero =>
    have hnotify : Next QueueState.queueMachine
        (.store (VirtioCfg.baseAddr + VirtioCfg.queueNotify) 0 .w32) (notified 0) :=
      VirtioBlkDevice.busStore_of_store rfl (by decide) (VirtioBlkDevice.store_queueNotify _ _)
    have hreset : Next (notified 0) (.store (VirtioCfg.baseAddr + VirtioCfg.status) 0 .w32)
        (notified 0) :=
      VirtioBlkDevice.busStore_of_store rfl (by decide)
        (VirtioBlkDevice.store_status (by decide) (by decide))
    exact ⟨_, .step (.step .start hnotify) hreset, Since.cons_iff.mpr
      (.inl ⟨_, _, _, rfl, by decide, by decide, by decide⟩)⟩
  | succ n ih =>
    obtain ⟨steps, run, hsince⟩ := ih (by omega)
    have hd : ¬(QueueState.delayedDisk (BitVec.ofNat 64 n)).Due :=
      VirtioBlkDevice.not_due_of_lt hn (BitVec.zero_add _).symm
    have htick : Next (notified (BitVec.ofNat 64 n)) .tick (notified (BitVec.ofNat 64 (n + 1))) := by
      rw [BitVec.ofNat_add]
      exact VirtioBlkDevice.tick_of_not_due rfl hd
    refine ⟨_, .step run htick, Since.cons_iff.mpr (.inr ⟨?_, hsince⟩)⟩
    rintro ⟨_, _, _, hlabel, _⟩
    cases hlabel

/-- The notification before a reset is served after it. -/
theorem notified_served : ∃ c, VirtioBlkDevice.tick (notified 500) = .ok c := ⟨_, rfl⟩

theorem reset_served : ∃ steps s, Steps Next QueueState.queueMachine steps s ∧
    ∃ t earlier, t :: earlier <:+ steps ∧ ¬Stopped t earlier := by
  obtain ⟨steps, run, hsince⟩ := notified_reset 500 (le_refl 500)
  obtain ⟨c, hc⟩ := notified_served
  have htick : Next (notified (BitVec.ofNat 64 500)) .tick c := hc
  refine ⟨_, c, .step run htick, _, _, List.suffix_refl _, fun hs => ?_⟩
  have hidle := (hs rfl (QueueState.delayedDisk 500) rfl).1 hsince
  exact (@VirtioBlkDevice.idle_iff (notified 500) _ rfl).mp hidle (by decide)

theorem stopped_iff_notified : ∃ steps s, Steps Next QueueState.queueMachine steps s ∧
    ((∀ t earlier, t :: earlier <:+ steps → Stopped t earlier) ↔
      ∀ t earlier, t :: earlier <:+ steps → NotLeftOver t earlier) := by
  obtain ⟨steps, s, run, _⟩ := reset_served
  exact ⟨steps, s, run, stopped_iff _ _ _ run⟩

theorem reset_not_stopped : ¬ ∀ (start s : Cpu) (steps : List (Step Cpu DiskEvent)),
    Steps Next start steps s → ∀ t earlier, t :: earlier <:+ steps → Stopped t earlier := by
  intro h
  obtain ⟨steps, s, run, t, earlier, hsuffix, hs⟩ := reset_served
  exact hs (h _ s steps run t earlier hsuffix)

end DiskRun

end Rv64gcEmu
