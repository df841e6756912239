import Rv64gcEmu.DiskAccesses
import Rv64gcEmu.Since
import Rv64gcEmu.Transition

namespace Rv64gcEmu

open Transition (Step Steps)

namespace VirtioBlkDevice

/-- What a store does to the interrupt status. -/
theorem store_isr {v w : VirtioBlkDevice} {address value : Word} (h : v.store address value = .ok w) :
    (address - VirtioCfg.baseAddr = VirtioCfg.status ∧ (value &&& 0xff).setWidth 8 = 0#8 ∧
        w.isr = 0) ∨
      (address - VirtioCfg.baseAddr = VirtioCfg.interruptAck ∧ w.isr = ~~~(value.setWidth 8)) ∨
      (¬(address - VirtioCfg.baseAddr = VirtioCfg.status ∧ (value &&& 0xff).setWidth 8 = 0#8) ∧
        address - VirtioCfg.baseAddr ≠ VirtioCfg.interruptAck ∧ w.isr = v.isr) := by
  cases store_cases h with
  | reset ho hz => exact .inl ⟨ho, hz, rfl⟩
  | acknowledge ho => exact .inr (.inl ⟨ho, rfl⟩)
  | notify ho =>
    rw [ho]
    exact .inr (.inr ⟨fun h => absurd h.1 (by decide), by decide, rfl⟩)
  | other hs ha _ h => exact .inr (.inr ⟨hs, ha, h.isr⟩)

end VirtioBlkDevice

/-- What the interrupt status goes through: a request is begun, a register is stored to,
or something else happens to the disk. -/
inductive IsrEvent where
  | raise
  | store (address value : Word)
  | other

namespace IsrEvent

/-- A request raises bit 0, and nothing raises another. -/
def Raises (b : Nat) : IsrEvent → Prop
  | .raise => b = 0
  | _ => False

def Acknowledges : IsrEvent → Word → Prop
  | .store address value, value' =>
      address - VirtioCfg.baseAddr = VirtioCfg.interruptAck ∧ value = value'
  | _, _ => False

def Resets : IsrEvent → Prop
  | .store address value =>
      address - VirtioCfg.baseAddr = VirtioCfg.status ∧ (value &&& 0xff).setWidth 8 = 0#8
  | _ => False

/-- An acknowledge with the bit set, or a reset. -/
def Clears (b : Nat) (e : IsrEvent) : Prop :=
  (∃ value, e.Acknowledges value ∧ value.getLsbD b = true) ∨ e.Resets

end IsrEvent

open IsrEvent (Raises Clears)

/-- The disk, and what has happened to it since it was made, the latest event first. -/
structure IsrRun where
  device : VirtioBlkDevice
  history : List IsrEvent

namespace IsrRun

def Next (s : IsrRun) (e : IsrEvent) (s' : IsrRun) : Prop :=
  s'.history = e :: s.history ∧
    match e with
    | .raise => s'.device = s.device.raiseIsr
    | .store address value => s.device.store address value = .ok s'.device
    | .other => s'.device.isr = s.device.isr

def init (data : ByteVec) : IsrRun := ⟨.init data, []⟩

/-- The bit has been raised since it was last acknowledged or the disk reset. -/
def Pending (s : IsrRun) (b : Nat) : Prop := Since (Raises b) (Clears b) s.history

/-- The status has the bits that are pending, and no others. -/
def Tracks (s : IsrRun) : Prop := ∀ b, s.device.isr.getLsbD b = true ↔ s.Pending b

/-- After a step the status is what it should be: an acknowledge has set no bit, there is
no configuration change, and the interrupt is reported while bit 0 is pending. -/
structure Kept (t : Step IsrRun IsrEvent) : Prop where
  status : t.after.Tracks
  acknowledge : ∀ value, t.label.Acknowledges value →
    ∀ b, t.after.device.isr.getLsbD b = true → t.before.device.isr.getLsbD b = true
  config : t.after.device.isr.getLsbD 1 = false
  interrupting : t.after.device.isInterrupting.isSome ↔ t.after.Pending 0

/-- The acknowledge names every bit that is not set. -/
def NamesClear (t : Step IsrRun IsrEvent) : Prop :=
  ∀ value, t.label.Acknowledges value →
    ∀ b < 8, value.getLsbD b = true ∨ t.before.device.isr.getLsbD b = true

theorem not_pending {s : IsrRun} {b : Nat} (hb : b ≠ 0) : ¬s.Pending b := by
  rintro ⟨_, e, _, _, he, _⟩
  cases e with
  | raise => exact hb he
  | _ => exact he

theorem isInterrupting_isSome (v : VirtioBlkDevice) :
    v.isInterrupting.isSome ↔ v.isr.getLsbD 0 = true := by
  have hbit : v.isr &&& 0x1 ≠ 0 ↔ v.isr.getLsbD 0 = true :=
    @and_one_shiftLeft_ne_zero 8 v.isr 0 (by decide)
  rw [← hbit]
  unfold VirtioBlkDevice.isInterrupting
  split
  next h => exact iff_of_true rfl h
  next h => exact iff_of_false (by decide) h

/-- The rest follows from the bits. -/
theorem kept_of_tracks {s s' : IsrRun} {e : IsrEvent} (h : Next s e s') (hs : s.Tracks)
    (hs' : s'.Tracks) : Kept ⟨s, e, s'⟩ where
  status := hs'
  acknowledge value he b hb := by
    have hp : Since (Raises b) (Clears b) s'.history := (hs' b).mp hb
    rw [h.1, Since.cons_iff] at hp
    cases e with
    | store =>
      rcases hp with hr | ⟨_, hp⟩
      · exact hr.elim
      · exact (hs b).mpr hp
    | _ => exact he.elim
  config := Bool.eq_false_iff.mpr fun hb => not_pending (by decide) ((hs' 1).mp hb)
  interrupting := (isInterrupting_isSome s'.device).trans (hs' 0)

/-- An event that clears no bit and raises none leaves the pending ones. -/
theorem tracks_of_quiet {s s' : IsrRun} {e : IsrEvent} (hhistory : s'.history = e :: s.history)
    (hr : ∀ b, ¬Raises b e) (hc : ∀ b, ¬Clears b e) (hisr : s'.device.isr = s.device.isr)
    (hs : s.Tracks) : s'.Tracks := by
  intro b
  unfold Pending
  rw [hisr, hhistory, Since.cons_iff, hs b]
  simp only [hr b, hc b, false_or, not_false_eq_true, true_and]
  rfl

theorem tracks_raise {s s' : IsrRun} (h : Next s .raise s') (hs : s.Tracks) : s'.Tracks := by
  have hclears : ∀ b, ¬Clears b .raise := by
    rintro b (⟨_, he, _⟩ | he)
    · exact he
    · exact he
  intro b
  unfold Pending
  rw [h.1, h.2, Since.cons_iff, VirtioBlkDevice.raiseIsr, BitVec.getLsbD_or, Bool.or_eq_true, hs b]
  have hone : (0x1#8).getLsbD b = true ↔ b = 0 := by simp [BitVec.getLsbD_one]
  rw [show (0x1 : Byte) = 0x1#8 from rfl, hone, or_comm]
  simp only [hclears b, not_false_eq_true, true_and]
  rfl

theorem tracks_reset {s s' : IsrRun} {e : IsrEvent} (h : Next s e s') (he : e.Resets)
    (hisr : s'.device.isr = 0) : s'.Tracks := by
  intro b
  unfold Pending
  rw [hisr, h.1, Since.cons_iff]
  have hr : ¬Raises b e := by
    cases e with
    | raise => exact he.elim
    | _ => exact id
  have hc : Clears b e := .inr he
  simp [hr, hc]

/-- An acknowledge leaves the bits that its value does not have. -/
theorem tracks_acknowledge {s s' : IsrRun} {address value : Word}
    (h : Next s (.store address value) s') (ha : address - VirtioCfg.baseAddr = VirtioCfg.interruptAck)
    (hisr : s'.device.isr = ~~~(value.setWidth 8)) (hs : s.Tracks) :
    s'.Tracks ↔ ∀ b < 8, value.getLsbD b = true ∨ s.device.isr.getLsbD b = true := by
  have hclears : ∀ b, Clears b (.store address value) ↔ value.getLsbD b = true := by
    intro b
    constructor
    · rintro (⟨_, ⟨_, rfl⟩, hb⟩ | ⟨hstatus, _⟩)
      · exact hb
      · rw [ha] at hstatus
        exact absurd hstatus (by decide)
    · intro hb
      exact .inl ⟨value, ⟨ha, rfl⟩, hb⟩
  have hpending : ∀ b, s'.Pending b ↔ ¬value.getLsbD b = true ∧ s.device.isr.getLsbD b = true := by
    intro b
    rw [hs b, ← hclears b]
    unfold Pending
    rw [h.1, Since.cons_iff]
    exact or_iff_right id
  have hbit : ∀ b < 8, (s'.device.isr.getLsbD b = true ↔ ¬value.getLsbD b = true) := by
    intro b hb
    rw [hisr, BitVec.getLsbD_not, BitVec.getLsbD_setWidth]
    simp [hb]
  constructor
  · intro h' b hb
    by_contra hn
    obtain ⟨hv, hi⟩ := not_or.mp hn
    exact hi ((hpending b).mp ((h' b).mp ((hbit b hb).mpr hv))).2
  · intro h' b
    rw [hpending b]
    by_cases hb : b < 8
    · rw [hbit b hb]
      exact ⟨fun hv => ⟨hv, (h' b hb).resolve_left hv⟩, And.left⟩
    · rw [BitVec.getLsbD_of_ge s'.device.isr b (by omega),
        BitVec.getLsbD_of_ge s.device.isr b (by omega)]
      simp

theorem Next.kept_iff_namesClear {s s' : IsrRun} {e : IsrEvent} (h : Next s e s') (hs : s.Tracks) :
    Kept ⟨s, e, s'⟩ ↔ NamesClear ⟨s, e, s'⟩ := by
  have hquiet : (∀ value, ¬e.Acknowledges value) → s'.Tracks →
      (Kept ⟨s, e, s'⟩ ↔ NamesClear ⟨s, e, s'⟩) := fun ha hs' =>
    iff_of_true (kept_of_tracks h hs hs') fun value he => absurd he (ha value)
  cases e with
  | raise => exact hquiet (fun _ => id) (tracks_raise h hs)
  | other =>
    refine hquiet (fun _ => id) (tracks_of_quiet h.1 (fun _ => id) ?_ h.2 hs)
    rintro b (⟨_, he, _⟩ | he)
    · exact he
    · exact he
  | store address value =>
    rcases VirtioBlkDevice.store_isr h.2 with hreset | hack | hsame
    · obtain ⟨ho, hz, hisr⟩ := hreset
      refine hquiet ?_ (tracks_reset h ⟨ho, hz⟩ hisr)
      rintro _ ⟨ha, _⟩
      rw [ho] at ha
      exact absurd ha (by decide)
    · obtain ⟨ha, hisr⟩ := hack
      have hiff := tracks_acknowledge h ha hisr hs
      constructor
      · rintro hk _ ⟨_, rfl⟩
        exact hiff.mp hk.status
      · intro hn
        exact kept_of_tracks h hs (hiff.mpr (hn value ⟨ha, rfl⟩))
    · obtain ⟨hreset, hack, hisr⟩ := hsame
      have ha : ∀ value', ¬(IsrEvent.store address value).Acknowledges value' := fun _ he => hack he.1
      refine hquiet ha (tracks_of_quiet h.1 (fun _ => id) ?_ hisr hs)
      rintro b (⟨value', he, _⟩ | he)
      · exact ha value' he
      · exact hreset he

/-- Along every run from the start, the status follows what was raised and acknowledged
exactly when each acknowledge names all bits that are not set. -/
theorem kept_iff (data : ByteVec) (s : IsrRun) (steps : List (Step IsrRun IsrEvent))
    (run : Steps Next (init data) steps s) :
    (∀ t ∈ steps, Kept t) ↔ ∀ t ∈ steps, NamesClear t := by
  refine run.forall_iff (fun s e s' h hs => h.kept_iff_namesClear hs) (fun s e s' _ _ hk => hk.status) ?_
  intro b
  refine iff_of_false ?_ Since.not_nil
  have hz : (init data).device.isr.getLsbD b = false := BitVec.getLsbD_zero
  rw [hz]
  decide

/-- One request, and the driver acknowledges just what it finds. -/
theorem acknowledged_run : ∃ steps s, Steps Next (init (ByteVec.zeros 0x200)) steps s ∧
    ∃ t ∈ steps, t.label = .store (VirtioCfg.baseAddr + VirtioCfg.interruptAck) 1 ∧
      t.after.device.isr = 0xfe := by
  have request := @Steps.step _ _ Next (init (ByteVec.zeros 0x200)) _ _ ⟨_, _⟩ .raise .start
    ⟨rfl, rfl⟩
  have ack := @Steps.step _ _ Next _ _ _ ⟨_, _⟩
    (.store (VirtioCfg.baseAddr + VirtioCfg.interruptAck) 1) request ⟨rfl, rfl⟩
  exact ⟨_, _, ack, _, List.mem_cons_self, rfl, rfl⟩

theorem kept_iff_acknowledged : ∃ steps s, Steps Next (init (ByteVec.zeros 0x200)) steps s ∧
    ((∀ t ∈ steps, Kept t) ↔ ∀ t ∈ steps, NamesClear t) := by
  obtain ⟨steps, s, run, _⟩ := acknowledged_run
  exact ⟨steps, s, run, kept_iff _ _ _ run⟩

/-- The acknowledge of bit 0 sets bits 1 to 7. -/
theorem acknowledged_configChange : ¬ ∀ (data : ByteVec) (s : IsrRun)
    (steps : List (Step IsrRun IsrEvent)), Steps Next (init data) steps s → ∀ t ∈ steps, Kept t := by
  intro h
  obtain ⟨steps, s, run, t, ht, _, hisr⟩ := acknowledged_run
  have hc := (h _ s steps run t ht).config
  rw [hisr] at hc
  exact absurd hc (by decide)

end IsrRun

namespace VirtioBlkDevice

open IsrRun (Next)

/-- In any history the one disk is followed by the other, with no further request begun. -/
def Follows (v w : VirtioBlkDevice) : Prop :=
  ∀ history, ∃ later steps, Steps Next ⟨v, history⟩ steps ⟨w, later ++ history⟩ ∧
    IsrEvent.raise ∉ later

theorem Follows.refl (v : VirtioBlkDevice) : Follows v v := fun _ => ⟨[], [], .start, by simp⟩

theorem Follows.trans {u v w : VirtioBlkDevice} (h : Follows u v) (h' : Follows v w) :
    Follows u w := by
  intro history
  obtain ⟨later, steps, run, hno⟩ := h history
  obtain ⟨later', steps', run', hno'⟩ := h' (later ++ history)
  refine ⟨later' ++ later, steps' ++ steps, ?_, ?_⟩
  · rw [List.append_assoc]
    exact run.append run'
  · exact fun hmem => (List.mem_append.mp hmem).elim hno' hno

theorem follows_of_isr {v w : VirtioBlkDevice} (h : w.isr = v.isr) : Follows v w :=
  fun _ => ⟨[.other], _, .step .start ⟨rfl, h⟩, by simp⟩

theorem follows_of_store {v w : VirtioBlkDevice} {address value : Word}
    (h : v.store address value = .ok w) : Follows v w :=
  fun _ => ⟨[.store address value], _, .step .start ⟨rfl, h⟩, by simp⟩

/-- The same of the disk on the bus. -/
def BusFollows (a b : Cpu) : Prop :=
  ∀ v, a.bus.virtio = some v → ∃ w, b.bus.virtio = some w ∧ Follows v w

variable {a b c : Cpu} {v : VirtioBlkDevice}

theorem BusFollows.trans (h : BusFollows a b) (h' : BusFollows b c) : BusFollows a c := by
  intro u hu
  obtain ⟨v, hv, huv⟩ := h u hu
  obtain ⟨w, hw, hvw⟩ := h' v hv
  exact ⟨w, hw, huv.trans hvw⟩

theorem busFollows_of_eq (h : b.bus.virtio = a.bus.virtio) : BusFollows a b :=
  fun v hv => ⟨v, h.trans hv, .refl v⟩

theorem busFollows_toBus {w : VirtioBlkDevice} (hv : a.bus.virtio = some v) (h : w.isr = v.isr) :
    BusFollows a (toBus a w) := by
  intro u hu
  cases Option.some.inj (hv.symm.trans hu)
  exact ⟨w, rfl, follows_of_isr h⟩

theorem store_follows {address value : Word} {length : Width}
    (h : Bus.store a address value length = .ok b) : BusFollows a b := by
  intro v hv
  obtain ⟨w, hw, ⟨_, hs⟩ | ⟨_, rfl⟩⟩ := busStore_cases h hv
  · exact ⟨w, hw, follows_of_store hs⟩
  · exact ⟨w, hw, .refl w⟩

theorem busFollows_alongRequest : AlongRequest BusFollows where
  refl _ := busFollows_of_eq rfl
  trans := .trans
  load h := busFollows_of_eq (load_accessed h).2
  store := store_follows
  image _ hv := busFollows_toBus (ofBus_eq_ok_iff.mp hv) rfl
  index hv := busFollows_toBus (ofBus_eq_ok_iff.mp hv) rfl

/-- A tick that serves a request raises the interrupt and begins no other request; a tick
that does not leaves the interrupt status alone. -/
theorem tick_follows (hv : a.bus.virtio = some v) (h : tick a = .ok b) :
    ∃ w, b.bus.virtio = some w ∧ if v.Due then Follows v.raiseIsr w else w.isr = v.isr := by
  by_cases hd : v.Due
  · rw [tick_of_due hv hd] at h
    obtain ⟨c, hc, h⟩ := Except.bind_eq_ok_iff.mp h
    obtain ⟨w, hw, h⟩ := Except.bind_eq_ok_iff.mp h
    cases Except.ok.inj h
    refine ⟨w.settle, rfl, ?_⟩
    rw [if_pos hd]
    obtain ⟨u, hu, hf⟩ := busFollows_alongRequest.accessDisk hc v.raiseIsr rfl
    cases Option.some.inj (hu.symm.trans (ofBus_eq_ok_iff.mp hw))
    exact hf.trans (follows_of_isr rfl)
  · rw [tick_of_not_due hv hd] at h
    cases Except.ok.inj h
    refine ⟨_, rfl, ?_⟩
    rw [if_neg hd]

end VirtioBlkDevice

end Rv64gcEmu
