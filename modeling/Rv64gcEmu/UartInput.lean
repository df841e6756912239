import Rv64gcEmu.Conserved
import Rv64gcEmu.Gpu

namespace Rv64gcEmu

open Transition (Step Steps gathered)

namespace Uart

theorem dispatchInterrupt_frame (u : Uart) :
    u.dispatchInterrupt.val = u.val ∧ u.dispatchInterrupt.lsr = u.lsr := by
  unfold dispatchInterrupt
  simp only
  split
  next => exact ⟨rfl, rfl⟩
  next => split <;> exact ⟨rfl, rfl⟩

theorem store_frame (u : Uart) (address value : Word) :
    (u.store address value).val = u.val ∧ (u.store address value).lsr = u.lsr := by
  unfold store
  split
  next => exact ⟨rfl, rfl⟩
  split
  next => exact dispatchInterrupt_frame _
  repeat' split
  all_goals exact ⟨rfl, rfl⟩

theorem isInterrupting_frame (u : Uart) :
    u.isInterrupting.2.val = u.val ∧ u.isInterrupting.2.lsr = u.lsr := by
  unfold isInterrupting
  split <;> exact ⟨rfl, rfl⟩

theorem load_thr (u : Uart) (h : u.lsr &&& Cfg.lsrDr ≠ 0) : ∃ u', u.load Cfg.thr =
    (u.val.setWidth 64, u') ∧ u'.lsr = u.lsr &&& ~~~Cfg.lsrDr := by
  have hframe := dispatchInterrupt_frame { u with lsr := u.lsr &&& ~~~Cfg.lsrDr }
  refine ⟨_, ?_, hframe.2⟩
  unfold load
  rw [if_pos rfl, if_pos h]
  simp only [hframe.1]

end Uart

namespace NativeGpu

/-- `GpuDevice::stdin_reader` with one byte; the byte `0xff` is taken for the end of the input, as
`char` is signed. -/
def stdinReader (g : NativeGpu) (c : Byte) : NativeGpu :=
  if c ≠ 0xff then { g with readChar := c } else g

def dataReady (g : NativeGpu) : Bool := g.uart.lsr &&& Cfg.lsrDr ≠ 0

/-- The bytes in the two cells, the oldest first. -/
def inFlight (g : NativeGpu) : List Byte :=
  (if g.dataReady then [g.uart.val] else []) ++ (if g.readChar ≠ 0 then [g.readChar] else [])

theorem inFlight_congr {g g' : NativeGpu} (hval : g'.uart.val = g.uart.val)
    (hlsr : g'.uart.lsr = g.uart.lsr) (hcell : g'.readChar = g.readChar) :
    g'.inFlight = g.inFlight := by
  unfold inFlight dataReady
  rw [hval, hlsr, hcell]

/-- Both cells are empty. -/
def Drained (g : NativeGpu) : Prop := g.dataReady = false ∧ g.readChar = 0

theorem inFlight_eq_nil_iff (g : NativeGpu) : g.inFlight = [] ↔ g.Drained := by
  unfold inFlight Drained
  cases g.dataReady <;> by_cases hc : g.readChar = 0 <;> simp [hc]

theorem dataReady_setDr (l : Byte) : ((l ||| Cfg.lsrDr) &&& Cfg.lsrDr ≠ 0) := by
  revert l
  decide

theorem dataReady_clearDr (l : Byte) : (l &&& ~~~Cfg.lsrDr) &&& Cfg.lsrDr = 0 := by
  revert l
  decide

theorem ready_iff (l : Byte) : (l.setWidth 64).getLsbD 0 = decide (l &&& Cfg.lsrDr ≠ 0) := by
  revert l
  decide

theorem stdinReader_inFlight (g : NativeGpu) (c : Byte) : (g.stdinReader c).inFlight =
    (if g.dataReady then [g.uart.val] else []) ++
      (if c = 0xff then (if g.readChar ≠ 0 then [g.readChar] else [])
      else if c ≠ 0 then [c] else []) := by
  unfold stdinReader
  by_cases hc : c = 0xff
  · rw [if_neg (not_not.mpr hc), if_pos hc]
    rfl
  · rw [if_pos hc, if_neg hc]
    rfl

variable {g g' : NativeGpu}

/-- A tick moves the byte of the first cell to the second, if there is one. -/
theorem tick_cases (h : GpuDevice.tick (.nativeCli g) .idle = .ok (.nativeCli g')) :
    (g.readChar ≠ 0 ∧ g'.dataReady = true ∧ g'.uart.val = g.readChar ∧ g'.readChar = 0) ∨
      (g.readChar = 0 ∧ g'.uart = g.uart ∧ g'.readChar = 0) := by
  unfold GpuDevice.tick at h
  simp only at h
  split at h
  next hc =>
    cases h
    have hframe := Uart.dispatchInterrupt_frame
      { g.uart with val := g.readChar, lsr := g.uart.lsr ||| Cfg.lsrDr }
    refine .inl ⟨hc, ?_, hframe.1, rfl⟩
    unfold dataReady Uart.putchar
    rw [hframe.2, decide_eq_true_iff]
    exact dataReady_setDr _
  next hc =>
    cases h
    exact .inr ⟨not_not.mp hc, rfl, rfl⟩

theorem tick_inFlight (h : GpuDevice.tick (.nativeCli g) .idle = .ok (.nativeCli g')) :
    g'.inFlight = if g.readChar ≠ 0 then [g.readChar] else g.inFlight := by
  rcases tick_cases h with ⟨hc, hready, hval, hcell⟩ | ⟨hc, huart, hcell⟩
  · unfold inFlight
    rw [if_pos hc, hready, hval, hcell]
    rfl
  · rw [if_neg (not_not.mpr hc)]
    exact inFlight_congr (congrArg Uart.val huart) (congrArg Uart.lsr huart) (hcell.trans hc.symm)

theorem tick_dataReady (h : GpuDevice.tick (.nativeCli g) .idle = .ok (.nativeCli g'))
    (hr : g.dataReady = true) : g'.dataReady = true := by
  rcases tick_cases h with ⟨_, hready, _⟩ | ⟨_, huart, _⟩
  · exact hready
  · unfold dataReady at hr ⊢
    rwa [huart]

theorem loadLsr_eq {length : Width} {v : Word}
    (h : GpuDevice.load (.nativeCli g) Cfg.lsr length = .ok (v, .nativeCli g')) :
    g' = g ∧ v.getLsbD 0 = g.dataReady := by
  cases h
  exact ⟨rfl, ready_iff g.uart.lsr⟩

theorem loadThr_eq {length : Width} {v : Word} (hr : g.dataReady = true)
    (h : GpuDevice.load (.nativeCli g) Cfg.thr length = .ok (v, .nativeCli g')) :
    g.inFlight = v.setWidth 8 :: g'.inFlight := by
  obtain ⟨u, hu, hlsr⟩ := Uart.load_thr g.uart (of_decide_eq_true hr)
  unfold GpuDevice.load at h
  simp only [hu] at h
  cases h
  have hclear : (⟨u, g.readChar⟩ : NativeGpu).dataReady = false := by
    unfold dataReady
    rw [hlsr, dataReady_clearDr]
    rfl
  have hbyte : (g.uart.val.setWidth 64).setWidth 8 = g.uart.val := by
    rw [BitVec.setWidth_setWidth_of_le _ (by decide), BitVec.setWidth_eq]
  unfold inFlight
  rw [hclear, hr, hbyte]
  rfl

theorem store_frame {address value : Word} {length : Width}
    (h : GpuDevice.store (.nativeCli g) address value length = .ok (.nativeCli g')) :
    g'.uart.val = g.uart.val ∧ g'.uart.lsr = g.uart.lsr ∧ g'.readChar = g.readChar := by
  cases h
  have hframe := Uart.store_frame g.uart address value
  exact ⟨hframe.1, hframe.2, rfl⟩

theorem poll_frame {irqn : Option Word}
    (h : GpuDevice.isInterrupting (.nativeCli g) = (irqn, .nativeCli g')) :
    g'.uart.val = g.uart.val ∧ g'.uart.lsr = g.uart.lsr ∧ g'.readChar = g.readChar := by
  cases h
  have hframe := Uart.isInterrupting_frame g.uart
  exact ⟨hframe.1, hframe.2, rfl⟩

end NativeGpu

namespace UartInput

inductive Event where
  | receive (c : Byte)
  | tick
  | loadLsr
  | loadThr (c : Byte)
  | store (address value : Word)
  | poll
  deriving DecidableEq

/-- The device, and whether data ready was set when the guest looked. -/
structure Line where
  device : NativeGpu
  ready : Bool

def init : Line := ⟨⟨Uart.init, 0⟩, false⟩

/-- The reader thread, the tick, the guest and the interrupt poll take turns in any order; the guest
loads the data register when the line status has shown data ready. -/
inductive Next (s : Line) : Event → Line → Prop
  | receive (c : Byte) : Next s (.receive c) ⟨s.device.stdinReader c, s.ready⟩
  | tick {g : NativeGpu} (h : GpuDevice.tick (.nativeCli s.device) .idle = .ok (.nativeCli g)) :
      Next s .tick ⟨g, s.ready⟩
  | loadLsr {length : Width} {v : Word} {g : NativeGpu}
      (h : GpuDevice.load (.nativeCli s.device) Cfg.lsr length = .ok (v, .nativeCli g)) :
      Next s .loadLsr ⟨g, v.getLsbD 0⟩
  | loadThr {length : Width} {v : Word} {g : NativeGpu} (hr : s.ready = true)
      (h : GpuDevice.load (.nativeCli s.device) Cfg.thr length = .ok (v, .nativeCli g)) :
      Next s (.loadThr (v.setWidth 8)) ⟨g, false⟩
  | store {address value : Word} {length : Width} {g : NativeGpu}
      (h : GpuDevice.store (.nativeCli s.device) address value length = .ok (.nativeCli g)) :
      Next s (.store address value) ⟨g, s.ready⟩
  | poll {irqn : Option Word} {g : NativeGpu}
      (h : GpuDevice.isInterrupting (.nativeCli s.device) = (irqn, .nativeCli g)) :
      Next s .poll ⟨g, s.ready⟩

def received (t : Step Line Event) : List Byte :=
  match t.label with
  | .receive c => [c]
  | _ => []

def read (t : Step Line Event) : List Byte :=
  match t.label with
  | .loadThr c => [c]
  | _ => []

/-- A byte comes when the first cell is empty, and is not one that means nothing; a tick comes when
the second cell is empty, or there is nothing to move. -/
def Keeps (t : Step Line Event) : Prop :=
  match t.label with
  | .receive c => t.before.device.readChar = 0 ∧ c ≠ 0 ∧ c ≠ 0xff
  | .tick => t.before.device.readChar = 0 ∨ t.before.device.dataReady = false
  | _ => True

/-- The guest has not been told of a byte that is gone. -/
def Told (s : Line) : Prop := s.ready = true → s.device.dataReady = true

section Steps

variable {s s' : Line} {a : Event}

theorem Next.told (h : Next s a s') (hs : Told s) : Told s' := by
  cases h with
  | receive c =>
    intro hr
    have hdr := hs hr
    unfold NativeGpu.stdinReader
    split
    next => exact hdr
    next => exact hdr
  | tick h => exact fun hr => NativeGpu.tick_dataReady h (hs hr)
  | loadLsr h =>
    obtain ⟨rfl, hv⟩ := NativeGpu.loadLsr_eq h
    exact fun hr => hv.symm.trans hr
  | loadThr hr h => exact fun hr => absurd hr Bool.false_ne_true
  | store h =>
    obtain ⟨_, hlsr, _⟩ := NativeGpu.store_frame h
    exact fun hr => (congrArg (fun l => decide (l &&& Cfg.lsrDr ≠ 0)) hlsr).trans (hs hr)
  | poll h =>
    obtain ⟨_, hlsr, _⟩ := NativeGpu.poll_frame h
    exact fun hr => (congrArg (fun l => decide (l &&& Cfg.lsrDr ≠ 0)) hlsr).trans (hs hr)

/-- A step that keeps the bytes moves them along. -/
theorem Next.conserves (h : Next s a s') (hs : Told s) (hk : Keeps ⟨s, a, s'⟩) :
    s.device.inFlight ++ received ⟨s, a, s'⟩ = read ⟨s, a, s'⟩ ++ s'.device.inFlight := by
  cases h with
  | receive c =>
    obtain ⟨hcell, h0, hff⟩ := hk
    simp only [received, read, List.nil_append]
    rw [NativeGpu.stdinReader_inFlight, if_neg hff, if_pos h0, NativeGpu.inFlight,
      if_neg (not_not.mpr hcell), List.append_nil]
  | tick h =>
    simp only [received, read, List.nil_append, List.append_nil]
    rw [NativeGpu.tick_inFlight h]
    split
    next hcell =>
      have hdr := hk.resolve_left hcell
      unfold NativeGpu.inFlight
      rw [hdr, if_pos hcell]
      rfl
    next => rfl
  | loadLsr h =>
    obtain ⟨rfl, _⟩ := NativeGpu.loadLsr_eq h
    exact List.append_nil _
  | loadThr hr h => exact (List.append_nil _).trans (NativeGpu.loadThr_eq (hs hr) h)
  | store h =>
    obtain ⟨hval, hlsr, hcell⟩ := NativeGpu.store_frame h
    exact (List.append_nil _).trans (NativeGpu.inFlight_congr hval hlsr hcell).symm
  | poll h =>
    obtain ⟨hval, hlsr, hcell⟩ := NativeGpu.poll_frame h
    exact (List.append_nil _).trans (NativeGpu.inFlight_congr hval hlsr hcell).symm

/-- Any other step loses a byte. -/
theorem Next.loses (h : Next s a s') (hk : ¬Keeps ⟨s, a, s'⟩) :
    (read ⟨s, a, s'⟩).length + s'.device.inFlight.length <
      s.device.inFlight.length + (received ⟨s, a, s'⟩).length := by
  cases h with
  | receive c =>
    simp only [received, read, List.length_nil, Nat.zero_add]
    rw [NativeGpu.stdinReader_inFlight, NativeGpu.inFlight]
    simp only [List.length_append, List.length_singleton]
    by_cases hff : c = 0xff
    · rw [if_pos hff]
      omega
    rw [if_neg hff]
    by_cases h0 : c = 0
    · rw [if_neg (not_not.mpr h0), List.length_nil]
      omega
    have hcell : ¬s.device.readChar = 0 := fun hcell => hk ⟨hcell, h0, hff⟩
    rw [if_pos h0, if_pos hcell, List.length_singleton, List.length_singleton]
    omega
  | tick h =>
    obtain ⟨hcell, hdr⟩ := not_or.mp hk
    have hdr : s.device.dataReady = true := (Bool.not_eq_false _).mp hdr
    simp only [received, read, List.length_nil, Nat.zero_add, Nat.add_zero]
    rw [NativeGpu.tick_inFlight h, if_pos hcell, NativeGpu.inFlight, hdr, if_pos hcell]
    exact Nat.lt_succ_self 1
  | loadLsr h => exact absurd trivial hk
  | loadThr hr h => exact absurd trivial hk
  | store h => exact absurd trivial hk
  | poll h => exact absurd trivial hk

end Steps

variable {steps : List (Step Line Event)} {s : Line}

theorem told_init : Told init := fun h => absurd h Bool.false_ne_true

theorem init_inFlight : init.device.inFlight = [] := rfl

/-- In a run that keeps the bytes the guest reads a prefix of what came in; and what it has read from a
device that it has drained is all that came in exactly in those runs. -/
theorem read_prefix_received (run : Steps Next init steps s) :
    ((∀ t ∈ steps, Keeps t) → gathered read steps <+: gathered received steps) ∧
      (s.device.Drained → (gathered read steps = gathered received steps ↔ ∀ t ∈ steps, Keeps t)) := by
  have hconserved : (∀ t ∈ steps, Keeps t) →
      gathered received steps = gathered read steps ++ s.device.inFlight := by
    intro hk
    exact run.conserved (I := Told) (fun _ _ _ h hs => h.told hs) (fun _ _ _ h hs => h.conserves hs)
      told_init hk
  refine ⟨fun hk => ⟨_, (hconserved hk).symm⟩, fun hd => ⟨fun heq => ?_, fun hk => ?_⟩⟩
  · have hall := run.all_of_conserved (I := Told) (fun _ _ _ h hs => h.told hs)
      (fun _ _ _ h hs => h.conserves hs) (fun _ _ _ h _ => h.loses) told_init
    apply hall.2
    rw [heq, (NativeGpu.inFlight_eq_nil_iff _).mpr hd, init_inFlight]
    exact Nat.add_comm _ _
  · rw [hconserved hk, (NativeGpu.inFlight_eq_nil_iff _).mpr hd, List.append_nil]

/-- The guest reads the one byte that came. -/
theorem read_prefix_received_one : ∃ steps s, Steps Next init steps s ∧
    gathered received steps = [0x61] ∧ gathered read steps = gathered received steps := by
  have run := (((Steps.start.step (Next.receive (s := init) 0x61)).step (.tick rfl)).step
    (@Next.loadLsr _ .w8 _ _ rfl)).step (@Next.loadThr _ .w8 _ _ rfl rfl)
  refine ⟨_, _, run, rfl, ((read_prefix_received run).2 ⟨rfl, rfl⟩).mpr fun t ht => ?_⟩
  simp only [List.mem_cons, List.not_mem_nil, or_false] at ht
  rcases ht with rfl | rfl | rfl | rfl
  · exact trivial
  · exact trivial
  · exact .inr rfl
  · exact ⟨rfl, by decide, by decide⟩

/-- Of two bytes that come before a tick the guest reads the second. -/
theorem paste_loses_byte : ¬∀ steps s, Steps Next init steps s →
    gathered read steps <+: gathered received steps ∧
      (s.device.Drained → gathered read steps = gathered received steps) := by
  intro h
  have run := ((((Steps.start.step (Next.receive (s := init) 0x61)).step (.receive 0x62)).step
    (.tick rfl)).step (@Next.loadLsr _ .w8 _ _ rfl)).step (@Next.loadThr _ .w8 _ _ rfl rfl)
  exact absurd (h _ _ run).1 (by decide)

end UartInput

end Rv64gcEmu
