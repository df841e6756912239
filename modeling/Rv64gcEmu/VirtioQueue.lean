import Rv64gcEmu.Transition
import Rv64gcEmu.UsedRing

namespace Rv64gcEmu

open Bus (SameLayout)
open Transition (Step Steps)
open Virtq (ChainReady Placed SameUsed UsedRing)

/-- The machine, and what has gone over its queue: the heads that are published, the one
that is in the ring and not yet counted, and those that `access_disk` has read. -/
structure QueueState where
  cpu : Cpu
  published : List (BitVec 16)
  prepared : Option (BitVec 16)
  served : List (BitVec 16)
  notified : Bool

/-- What the driver does, and the ticks of the device between. -/
inductive QueueEvent where
  | ring (head : BitVec 16)
  | publish
  | notify (value : Word)
  | tick
  | other

namespace VirtioBlkDevice

/-- The heads that the next tick processes: one if the disk is due, none else. -/
def processed (cpu : Cpu) : List (BitVec 16) :=
  match cpu.bus.virtio with
  | none => []
  | some v =>
    if v.Due then
      match readRequest v.raiseIsr (toBus cpu v.raiseIsr) with
      | .ok (r, _) => [r.head]
      | .error _ => []
    else []

theorem processed_of_due {cpu : Cpu} {v : VirtioBlkDevice} (hv : cpu.bus.virtio = some v)
    (hd : v.Due) (hp : Placed v.vq cpu.bus.ram)
    (hc : ChainReady v.vq cpu.bus.ram (v.vq.head cpu.bus.ram)) :
    processed cpu = [v.vq.head cpu.bus.ram] := by
  have hr := @readRequest_ram (toBus cpu v.raiseIsr) v.raiseIsr hp.num hp.avail hc
  unfold processed
  simp only [hv, if_pos hd, hr]
  rfl

theorem processed_of_not_due {cpu : Cpu} {v : VirtioBlkDevice} (hv : cpu.bus.virtio = some v)
    (hd : ¬v.Due) : processed cpu = [] := by
  unfold processed
  simp only [hv, if_neg hd]

end VirtioBlkDevice

open VirtioBlkDevice (processed)

/-- The rest of the machine, which keeps away from the rings and of the disk changes the
acknowledged interrupt at most. -/
structure Unrelated (vq : Virtq) (a b : Cpu) : Prop where
  layout : SameLayout a.bus b.bus
  avail : ∀ i < vq.availSize, b.bus.ram.byteAt (vq.avail + BitVec.ofNat 64 i) =
    a.bus.ram.byteAt (vq.avail + BitVec.ofNat 64 i)
  used : SameUsed vq a.bus.ram b.bus.ram
  disk : ∃ v isr, a.bus.virtio = some v ∧ b.bus.virtio = some { v with isr := isr }

/-- One step of the driver, which publishes the k-th head in slot `k mod num`, or of the device. -/
inductive QueueStep (vq : Virtq) : QueueState → QueueEvent → QueueState → Prop
  | ring {s : QueueState} {head : BitVec 16} {cpu : Cpu} (hp : s.prepared = none)
      (h : Bus.store s.cpu (vq.availEntry (s.published.length % vq.num.toNat)) (head.setWidth 64)
        .w16 = .ok cpu) : QueueStep vq s (.ring head) { s with cpu := cpu, prepared := some head }
  | publish {s : QueueState} {head : BitVec 16} {cpu : Cpu} (hp : s.prepared = some head)
      (h : Bus.store s.cpu (vq.avail + 2)
        ((BitVec.ofNat 16 (s.published.length + 1)).setWidth 64) .w16 = .ok cpu) :
      QueueStep vq s .publish { s with
        cpu := cpu, published := s.published ++ [head], prepared := none, notified := false }
  | notify {s : QueueState} {value : Word} {cpu : Cpu}
      (h : Bus.store s.cpu (VirtioCfg.baseAddr + VirtioCfg.queueNotify) value .w32 = .ok cpu) :
      QueueStep vq s (.notify value) { s with cpu := cpu, notified := true }
  | tick {s : QueueState} {cpu : Cpu}
      (hready : ∀ head ∈ s.published.drop s.served.length, vq.ChainReady s.cpu.bus.ram head)
      (h : VirtioBlkDevice.tick s.cpu = .ok cpu) :
      QueueStep vq s .tick { s with cpu := cpu, served := s.served ++ processed s.cpu }
  | other {s : QueueState} {cpu : Cpu} (h : Unrelated vq s.cpu cpu) :
      QueueStep vq s .other { s with cpu := cpu }

namespace QueueState

/-- The disk has been reset, its queue lies in the RAM, and nothing has been published. -/
structure Fresh (vq : Virtq) (s : QueueState) : Prop where
  placed : Placed vq s.cpu.bus.ram
  registers : s.cpu.bus.findBusDevice (VirtioCfg.baseAddr + VirtioCfg.queueNotify) = some .virtio
  disk : ∃ v, s.cpu.bus.virtio = some v ∧ v.vq = vq ∧ v.id = 0 ∧
    v.queueNotify = VirtioCfg.queueNotifyReset
  avail : s.cpu.bus.ram.half (vq.avail + 2) = 0
  used : s.cpu.bus.ram.half (vq.used + 2) = 0
  published : s.published = []
  prepared : s.prepared = none
  served : s.served = []
  notified : s.notified = false

/-- No notification is outstanding: the last one came after the last publication, and the
disk has taken it back. -/
def Quiet (s : QueueState) : Prop :=
  s.notified = true ∧ ∃ v, s.cpu.bus.virtio = some v ∧ v.queueNotify = VirtioCfg.queueNotifyReset

/-- Every published chain has been processed once and in order, and the used ring says so. -/
structure AllServed (vq : Virtq) (s : QueueState) : Prop where
  served : s.served = s.published
  idx : s.cpu.bus.ram.half (vq.used + 2) = BitVec.ofNat 16 s.published.length
  entries : ∀ k head, s.published[k]? = some head → s.published.length ≤ k + vq.num.toNat →
    s.cpu.bus.ram.single (vq.usedEntry (k % vq.num.toNat)) = head.setWidth 32

/-- When the delay is over, one chain is waiting, its head stands also in the slot behind
its own, and the used entry has nothing in its upper half; the free-running index of 16
bits leads to the slot that the driver expects. -/
structure Timely (vq : Virtq) (s : QueueState) : Prop where
  one : s.published.length = s.served.length + 1
  slot : s.published.getLast? = some (vq.head s.cpu.bus.ram)
  wrap : s.served.length % 2 ^ 16 % vq.num.toNat = s.served.length % vq.num.toNat
  upper : s.cpu.bus.ram.half (vq.usedEntry (s.served.length % vq.num.toNat) + 2) = 0

/-- The condition on one step: a notification is not the reset value, and the disk finds
what it needs when its delay is over. -/
def Met (vq : Virtq) (t : Step QueueState QueueEvent) : Prop :=
  match t.label with
  | .notify value => value.setWidth 32 ≠ VirtioCfg.queueNotifyReset
  | .tick => ∀ v, t.before.cpu.bus.virtio = some v → v.Due → t.before.Timely vq
  | _ => True

/-- What holds between two steps of a run that starts on `bus`. -/
structure Invariant (vq : Virtq) (bus : Bus) (s : QueueState) : Prop where
  layout : SameLayout bus s.cpu.bus
  disk : ∃ v, s.cpu.bus.virtio = some v ∧ v.vq = vq ∧ v.id = BitVec.ofNat 16 s.served.length ∧
    (s.notified = true → v.queueNotify = VirtioCfg.queueNotifyReset → s.served = s.published)
  served : s.served <+: s.published
  ring : UsedRing vq s.served s.cpu.bus.ram

variable {vq : Virtq} {bus : Bus} {s s' : QueueState}

theorem Fresh.invariant (h : s.Fresh vq) : s.Invariant vq s.cpu.bus where
  layout := .refl _
  disk := by
    obtain ⟨v, hv, hvq, hid, _⟩ := h.disk
    refine ⟨v, hv, hvq, ?_, fun hn => ?_⟩
    · rw [hid, h.served]
      rfl
    · rw [h.notified] at hn
      cases hn
  served := by rw [h.served]; exact List.nil_prefix
  ring := by
    refine ⟨?_, fun k head hk => ?_⟩
    · rw [h.used, h.served]
      rfl
    · rw [h.served] at hk
      cases hk

/-- A store of the driver into the available ring. -/
theorem Invariant.store_avail {cpu : Cpu} {i : Nat} {value : Word} (hp : Placed vq bus.ram)
    (h : s.Invariant vq bus) (hi : i + 2 ≤ vq.availSize)
    (hs : Bus.store s.cpu (vq.avail + BitVec.ofNat 64 i) value .w16 = .ok cpu) :
    ({ s with cpu := cpu } : QueueState).Invariant vq bus := by
  have hpl := hp.layout h.layout
  have hc : s.cpu.bus.ram.Contains (vq.avail + BitVec.ofNat 64 i) 2 :=
    hpl.avail.part (by decide) hi
  have hout : (vq.avail + BitVec.ofNat 64 i).toNat + 2 ≤ vq.used.toNat := by
    rw [RamDevice.toNat_add_ofNat hpl.avail (by omega)]
    have := hpl.apart
    omega
  rw [Bus.store_ram value hc] at hs
  cases Except.ok.inj hs
  have hsame : SameUsed vq s.cpu.bus.ram
      (s.cpu.bus.ram.put (vq.avail + BitVec.ofNat 64 i) value .w16) :=
    .put value hpl.used hc (.inl hout)
  exact ⟨h.layout.trans ⟨rfl, rfl, rfl, rfl, rfl⟩, h.disk, h.served,
    h.ring.same hsame hpl.used hpl.num⟩

theorem Invariant.notify {cpu : Cpu} {value : Word}
    (hr : bus.findBusDevice (VirtioCfg.baseAddr + VirtioCfg.queueNotify) = some .virtio)
    (h : s.Invariant vq bus) (hne : value.setWidth 32 ≠ VirtioCfg.queueNotifyReset)
    (hs : Bus.store s.cpu (VirtioCfg.baseAddr + VirtioCfg.queueNotify) value .w32 = .ok cpu) :
    ({ s with cpu := cpu, notified := true } : QueueState).Invariant vq bus := by
  obtain ⟨v, hv, hvq, hid, _⟩ := h.disk
  rw [← h.layout.findBusDevice] at hr
  unfold Bus.store at hs
  simp only [hr, Bus.deviceStore, hv, VirtioBlkDevice.store_queueNotify, Except.ok_bind] at hs
  cases Except.ok.inj hs
  refine ⟨h.layout.trans ⟨rfl, rfl, rfl, by rw [hv]; rfl, rfl⟩, ⟨_, rfl, hvq, hid, ?_⟩, h.served, h.ring⟩
  intro _ hreset
  exact absurd hreset hne

theorem Invariant.idle {v : VirtioBlkDevice} (h : s.Invariant vq bus)
    (hv : s.cpu.bus.virtio = some v) : ({ s with
      cpu := VirtioBlkDevice.toBus s.cpu { v with clock := v.clock + 1 } } : QueueState).Invariant
        vq bus := by
  obtain ⟨w, hw, hvq, hid, hdone⟩ := h.disk
  cases Option.some.inj (hv.symm.trans hw)
  exact ⟨h.layout.trans (VirtioBlkDevice.toBus_layout hv), ⟨_, rfl, hvq, hid, hdone⟩, h.served, h.ring⟩

/-- One chain is waiting, and its head is the one that the disk finds. -/
theorem Invariant.published_eq (h : s.Invariant vq bus) (ht : s.Timely vq) :
    s.published = s.served ++ [vq.head s.cpu.bus.ram] := by
  obtain ⟨rest, hrest⟩ := h.served
  have hlen := ht.one
  rw [← hrest, List.length_append] at hlen
  obtain ⟨head, rfl⟩ := List.length_eq_one_iff.mp (by omega : rest.length = 1)
  have hlast := ht.slot
  rw [← hrest, List.getLast?_concat] at hlast
  rw [← hrest, Option.some.inj hlast]

/-- The turn of the disk for the one chain that is waiting. -/
theorem Invariant.request {v : VirtioBlkDevice} {cpu : Cpu} (hp : Placed vq bus.ram)
    (h : s.Invariant vq bus) (hv : s.cpu.bus.virtio = some v) (hd : v.Due) (ht : s.Timely vq)
    (hready : ∀ head ∈ s.published.drop s.served.length, vq.ChainReady s.cpu.bus.ram head)
    (hs : VirtioBlkDevice.tick s.cpu = .ok cpu) :
    ({ s with cpu := cpu, served := s.served ++ processed s.cpu } : QueueState).Invariant vq bus := by
  obtain ⟨w, hw, rfl, hid, _⟩ := h.disk
  cases Option.some.inj (hv.symm.trans hw)
  have hpl := hp.layout h.layout
  have hpub := h.published_eq ht
  have hchain : v.vq.ChainReady s.cpu.bus.ram (v.vq.head s.cpu.bus.ram) := by
    refine hready _ ?_
    rw [hpub, List.drop_left]
    exact List.mem_singleton_self _
  rw [VirtioBlkDevice.processed_of_due hv hd hpl hchain]
  obtain ⟨ram, w, hsame, hwvq, hwid, hwreset, rfl⟩ :=
    VirtioBlkDevice.tick_ram hv hd hpl hchain hs
  have hnext : v.id + 1 = BitVec.ofNat 16 (s.served.length + 1) := by
    rw [hid]
    exact (BitVec.ofNat_add _ 1).symm
  have hslot : v.id.toNat % v.vq.num.toNat = s.served.length % v.vq.num.toNat := by
    rw [hid, BitVec.toNat_ofNat]
    exact ht.wrap
  have hu := (hsame.contains v.vq.used v.vq.usedSize).mpr hpl.used
  have hupper : ram.half (v.vq.usedEntry (s.served.length % v.vq.num.toNat) + 2) = 0 := by
    have hlt := Nat.mod_lt s.served.length hpl.num
    rw [Virtq.usedEntry_high, hsame.half hpl.used (by unfold Virtq.usedSize; omega),
      ← Virtq.usedEntry_high]
    exact ht.upper
  have hring : UsedRing v.vq (s.served ++ [v.vq.head s.cpu.bus.ram]) _ :=
    (h.ring.same hsame hpl.used hpl.num).push hu hpl.num hnext hupper
  rw [← hslot] at hring
  refine ⟨h.layout.trans ⟨?_, ?_, rfl, ?_, rfl⟩, ⟨w, rfl, hwvq, ?_, fun _ _ => hpub.symm⟩, ?_, hring⟩
  · exact hsame.baseAddr
  · exact hsame.endAddr
  · rw [hv]
    rfl
  · rw [hwid, hnext, List.length_append]
    rfl
  · rw [hpub]

theorem Invariant.step {e : QueueEvent} (hp : Placed vq bus.ram)
    (hr : bus.findBusDevice (VirtioCfg.baseAddr + VirtioCfg.queueNotify) = some .virtio)
    (h : s.Invariant vq bus) (hs : QueueStep vq s e s') (hm : Met vq ⟨s, e, s'⟩) :
    s'.Invariant vq bus := by
  cases hs with
  | ring _ hs =>
    rw [Virtq.availEntry_eq] at hs
    have hlt := Nat.mod_lt s.published.length hp.num
    have hi := h.store_avail hp (by unfold Virtq.availSize; omega) hs
    exact ⟨hi.layout, hi.disk, hi.served, hi.ring⟩
  | publish _ hs =>
    have hi := h.store_avail hp (by unfold Virtq.availSize; omega : 2 + 2 ≤ vq.availSize) hs
    obtain ⟨v, hv, hvq, hid, _⟩ := hi.disk
    exact ⟨hi.layout, ⟨v, hv, hvq, hid, nofun⟩, hi.served.trans (List.prefix_append _ _), hi.ring⟩
  | notify hs => exact h.notify hr hm hs
  | tick hready hs =>
    obtain ⟨v, hv, _⟩ := h.disk
    by_cases hd : v.Due
    · exact h.request hp hv hd (hm v hv hd) hready hs
    · rw [VirtioBlkDevice.tick_of_not_due hv hd] at hs
      cases Except.ok.inj hs
      rw [VirtioBlkDevice.processed_of_not_due hv hd, List.append_nil]
      exact h.idle hv
  | other hs =>
    have hpl := hp.layout h.layout
    obtain ⟨v, hv, hvq, hid, hdone⟩ := h.disk
    obtain ⟨w, isr, hw, hw'⟩ := hs.disk
    cases Option.some.inj (hv.symm.trans hw)
    exact ⟨h.layout.trans hs.layout, ⟨_, hw', hvq, hid, hdone⟩, h.served,
      h.ring.same hs.used hpl.used hpl.num⟩

/-- In a run whose steps all meet the condition, the disk has served every chain once and
in order whenever no notification is outstanding. -/
theorem served_of_met {start : QueueState} {steps : List (Step QueueState QueueEvent)}
    (hf : start.Fresh vq) (run : Steps (QueueStep vq) start steps s) (hm : ∀ t ∈ steps, Met vq t)
    (hq : s.Quiet) : s.AllServed vq := by
  have hi : s.Invariant vq start.cpu.bus :=
    run.invariant (fun _ _ _ hs hi hm => hi.step hf.placed hf.registers hs hm) hf.invariant hm
  obtain ⟨v, hv, hvq, hid, hdone⟩ := hi.disk
  obtain ⟨hn, w, hw, hreset⟩ := hq
  cases Option.some.inj (hv.symm.trans hw)
  have hserved := hdone hn hreset
  have hpl := hf.placed.layout hi.layout
  refine ⟨hserved, ?_, ?_⟩
  · rw [← hserved]
    exact hi.ring.idx
  · rw [← hserved]
    intro k head hk hl
    exact hi.ring.single hpl.used hpl.num hk hl

def smallQueue : Virtq := ⟨4, 0x100, 0x80000000, 0x80000040, 0x80000100⟩

/-- Four descriptors: the chain 0, 1, 2 and a second header that leads to 1. -/
def descriptors : List Byte :=
  [0x00, 0x02, 0x00, 0x80, 0, 0, 0, 0, 0x10, 0, 0, 0, 1, 0, 1, 0,
    0x00, 0x04, 0x00, 0x80, 0, 0, 0, 0, 1, 0, 0, 0, 3, 0, 2, 0,
    0x00, 0x06, 0x00, 0x80, 0, 0, 0, 0, 1, 0, 0, 0, 2, 0, 0, 0,
    0x00, 0x02, 0x00, 0x80, 0, 0, 0, 0, 0x10, 0, 0, 0, 1, 0, 1, 0]

def smallDisk : VirtioBlkDevice := { VirtioBlkDevice.init (ByteVec.zeros 0x200) with vq := smallQueue }

def queueMachine : Cpu :=
  Cpu.init (RamDevice.ofImage 0x80000000 0x1000 descriptors (by decide)) none (some smallDisk) false
    ⟨true, true, default⟩

def unpublished : QueueState := ⟨queueMachine, [], none, [], false⟩

theorem unpublished_fresh : unpublished.Fresh smallQueue where
  placed := ⟨by decide, by decide, by decide, by decide⟩
  registers := by decide
  disk := ⟨smallDisk, rfl, rfl, rfl, rfl⟩
  avail := by decide
  used := by decide
  published := rfl
  prepared := rfl
  served := rfl
  notified := rfl

/-- The RAM once a head has been published. -/
def publishedRam (head : BitVec 16) : RamDevice :=
  (queueMachine.bus.ram.put (smallQueue.availEntry 0) (head.setWidth 64) .w16).put
    (smallQueue.avail + 2) ((BitVec.ofNat 16 1).setWidth 64) .w16

def ringed (head : BitVec 16) : Cpu :=
  queueMachine.setBus (queueMachine.bus.setRam
    (queueMachine.bus.ram.put (smallQueue.availEntry 0) (head.setWidth 64) .w16))

def counted (head : BitVec 16) : Cpu :=
  queueMachine.setBus (queueMachine.bus.setRam (publishedRam head))

def delayedDisk (clock : Word) : VirtioBlkDevice :=
  { smallDisk with queueNotify := 0, clock := clock }

/-- The disk has been notified, and its delay goes on. -/
def delayed (head : BitVec 16) (clock : Word) : QueueState where
  cpu := VirtioBlkDevice.toBus (counted head) (delayedDisk clock)
  published := [head]
  prepared := none
  served := []
  notified := true

theorem unpublished_notified (head : BitVec 16) : ∃ steps,
    Steps (QueueStep smallQueue) unpublished steps (delayed head 0) ∧
      ∀ t ∈ steps, Met smallQueue t := by
  have hentry : queueMachine.bus.ram.Contains (smallQueue.availEntry 0) 2 := by decide
  have hidx : queueMachine.bus.ram.Contains (smallQueue.avail + 2) 2 := by decide
  have hreg : queueMachine.bus.findBusDevice (VirtioCfg.baseAddr + VirtioCfg.queueNotify) =
      some .virtio := by decide
  have ring : Bus.store queueMachine (smallQueue.availEntry 0) (head.setWidth 64) .w16 =
      .ok (ringed head) := Bus.store_ram _ hentry
  have publish : Bus.store (ringed head) (smallQueue.avail + 2) ((BitVec.ofNat 16 1).setWidth 64)
      .w16 = .ok (counted head) := Bus.store_ram _ hidx
  have notify : Bus.store (counted head) (VirtioCfg.baseAddr + VirtioCfg.queueNotify) 0 .w32 =
      .ok (delayed head 0).cpu := by
    have hlayout : SameLayout queueMachine.bus (counted head).bus := ⟨rfl, rfl, rfl, rfl, rfl⟩
    have hdisk : (counted head).bus.virtio = some smallDisk := rfl
    rw [← hlayout.findBusDevice] at hreg
    exact VirtioBlkDevice.busStore_of_store hdisk hreg (VirtioBlkDevice.store_queueNotify _ _)
  refine ⟨_, .step (.step (.step .start (.ring rfl ring)) (.publish rfl publish)) (.notify notify), ?_⟩
  intro t ht
  simp only [List.mem_cons, List.not_mem_nil, or_false] at ht
  rcases ht with rfl | rfl | rfl
  · change (0 : Word).setWidth 32 ≠ VirtioCfg.queueNotifyReset
    decide
  · trivial
  · trivial

/-- The delay passes without a turn of the disk. -/
theorem delayed_idle (head : BitVec 16) {clock : Word}
    (hready : smallQueue.ChainReady (publishedRam head) head) (hd : ¬(delayedDisk clock).Due) :
    QueueStep smallQueue (delayed head clock) .tick (delayed head (clock + 1)) ∧
      Met smallQueue ⟨delayed head clock, .tick, delayed head (clock + 1)⟩ := by
  have hvirtio : (delayed head clock).cpu.bus.virtio = some (delayedDisk clock) := rfl
  have hnone := VirtioBlkDevice.processed_of_not_due hvirtio hd
  have htick := VirtioBlkDevice.tick_of_not_due hvirtio hd
  have hnext : ({ delayedDisk clock with clock := (delayedDisk clock).clock + 1 } : VirtioBlkDevice) =
      delayedDisk (clock + 1) := rfl
  have hcpu : VirtioBlkDevice.toBus (delayed head clock).cpu (delayedDisk (clock + 1)) =
      (delayed head (clock + 1)).cpu := VirtioBlkDevice.toBus_toBus _ _ _
  rw [hnext, hcpu] at htick
  refine ⟨?_, fun v hv hdue => ?_⟩
  · have hready' : ∀ x ∈ (delayed head clock).published.drop (delayed head clock).served.length,
        smallQueue.ChainReady (delayed head clock).cpu.bus.ram x := by
      intro x hx
      rw [List.mem_singleton.mp hx]
      exact hready
    have hstep := QueueStep.tick hready' htick
    rw [hnone] at hstep
    exact hstep
  · cases Option.some.inj hv
    exact absurd hdue hd

/-- The disk is due for a head that has been published. -/
theorem unpublished_delayed {head : BitVec 16}
    (hready : smallQueue.ChainReady (publishedRam head) head) (n : Nat) (hn : n ≤ 500) :
    ∃ steps, Steps (QueueStep smallQueue) unpublished steps (delayed head (BitVec.ofNat 64 n)) ∧
      ∀ t ∈ steps, Met smallQueue t := by
  induction n with
  | zero => exact unpublished_notified head
  | succ n ih =>
    obtain ⟨steps, run, hm⟩ := ih (by omega)
    have hd : ¬(delayedDisk (BitVec.ofNat 64 n)).Due :=
      VirtioBlkDevice.not_due_of_lt hn (BitVec.zero_add _).symm
    obtain ⟨hstep, hmet⟩ := delayed_idle head hready hd
    have hnext : BitVec.ofNat 64 n + 1 = BitVec.ofNat 64 (n + 1) := (BitVec.ofNat_add n 1).symm
    rw [hnext] at hstep hmet
    exact ⟨_, .step run hstep, List.forall_mem_cons.mpr ⟨hmet, hm⟩⟩

theorem delayed_ready {head : BitVec 16} (h : head = 0 ∨ head = 3) :
    smallQueue.ChainReady (publishedRam head) head ∧ smallQueue.ChainReady (publishedRam head) 0 ∧
      smallQueue.head (publishedRam head) = 0 ∧
      ∃ c, VirtioBlkDevice.tick (delayed head 500).cpu = .ok c := by
  rcases h with rfl | rfl
  · exact ⟨⟨by decide, by decide, by decide, by decide, by decide, by decide⟩,
      ⟨by decide, by decide, by decide, by decide, by decide, by decide⟩, by decide, _, rfl⟩
  · exact ⟨⟨by decide, by decide, by decide, by decide, by decide, by decide⟩,
      ⟨by decide, by decide, by decide, by decide, by decide, by decide⟩, by decide, _, rfl⟩

/-- The chain that the disk takes up is the one whose head is in slot 1, with nothing in it. -/
theorem delayed_served {head : BitVec 16} (h : head = 0 ∨ head = 3) :
    ∃ s, QueueStep smallQueue (delayed head 500) .tick s ∧ s.Quiet ∧ s.published = [head] ∧
      s.served = [0] := by
  obtain ⟨hready, hready₀, hhead, c, hc⟩ := delayed_ready h
  have hd : (delayedDisk 500).Due := by decide
  have hlayout : SameLayout unpublished.cpu.bus (counted head).bus := ⟨rfl, rfl, rfl, rfl, rfl⟩
  have hp : smallQueue.Placed (publishedRam head) := unpublished_fresh.placed.layout hlayout
  have hc₀ : smallQueue.ChainReady (publishedRam head) (smallQueue.head (publishedRam head)) := by
    rw [hhead]
    exact hready₀
  have hready' : ∀ x ∈ (delayed head 500).published.drop (delayed head 500).served.length,
      smallQueue.ChainReady (delayed head 500).cpu.bus.ram x := by
    intro x hx
    rw [List.mem_singleton.mp hx]
    exact hready
  have hvirtio : (delayed head 500).cpu.bus.virtio = some (delayedDisk 500) := rfl
  have hvq : (delayedDisk 500).vq = smallQueue := rfl
  have hram : (delayed head 500).cpu.bus.ram = publishedRam head := rfl
  rw [← hvq, ← hram] at hp hc₀
  have hproc := VirtioBlkDevice.processed_of_due hvirtio hd hp hc₀
  obtain ⟨ram, w, _, _, _, hreset, hafter⟩ := VirtioBlkDevice.tick_ram hvirtio hd hp hc₀ hc
  refine ⟨_, .tick hready' hc, ⟨rfl, w, ?_, hreset⟩, rfl, ?_⟩
  · rw [hafter]
    rfl
  · rw [hproc, hvq, hram, hhead]
    rfl

theorem served_of_met_unpublished : ∃ steps s, Steps (QueueStep smallQueue) unpublished steps s ∧
    s.published = [0] ∧ s.AllServed smallQueue := by
  obtain ⟨s, hstep, hq, hpub, _⟩ := delayed_served (.inl rfl)
  obtain ⟨steps, run, hm⟩ := unpublished_delayed (delayed_ready (.inl rfl)).1 500 (le_refl 500)
  have ht : (delayed 0 500).Timely smallQueue := ⟨by decide, by decide, by decide, by decide⟩
  have hmet : Met smallQueue ⟨delayed 0 500, .tick, s⟩ := fun _ _ _ => ht
  exact ⟨_, s, .step run hstep, hpub, served_of_met unpublished_fresh (.step run hstep)
    (List.forall_mem_cons.mpr ⟨hmet, hm⟩) hq⟩

theorem chain_missed : ¬ ∀ (vq : Virtq) (start s : QueueState)
    (steps : List (Step QueueState QueueEvent)), start.Fresh vq →
    Steps (QueueStep vq) start steps s → s.Quiet → s.AllServed vq := by
  intro h
  obtain ⟨s, hstep, hq, hpub, hserved⟩ := delayed_served (.inr rfl)
  obtain ⟨steps, run, _⟩ := unpublished_delayed (delayed_ready (.inr rfl)).1 500 (le_refl 500)
  have hs := (h smallQueue unpublished s _ unpublished_fresh (.step run hstep) hq).served
  rw [hpub, hserved] at hs
  exact absurd hs (by decide)

end QueueState

end Rv64gcEmu
