import Rv64gcEmu.BusSafety
import Rv64gcEmu.Transition

namespace Rv64gcEmu

open Transition (Step Steps)

namespace SdlGpu

section Branches

variable {g : SdlGpu} {address value : Word} {length : Width}

/-- The window of the UART. -/
def InUart (address : Word) : Prop :=
  GpuCfg.uartBaseAddr ≤ address ∧ address < GpuCfg.uartBaseAddr + GpuCfg.uartSize

theorem valueInRange_iff {lower upper : Word} :
    Helper.valueInRange address lower upper = true ↔ lower ≤ address ∧ address < upper := by
  unfold Helper.valueInRange
  rw [Bool.and_eq_true, decide_eq_true_iff, decide_eq_true_iff]

theorem ne_of_fbStart_le (h : GpuCfg.fbStart ≤ address) {register : Word}
    (hr : register < GpuCfg.fbStart) : address ≠ register := by
  rintro rfl
  have hle := BitVec.le_def.mp h
  have hlt := BitVec.lt_def.mp hr
  omega

theorem fbStart_le_of_inUart (h : InUart address) : GpuCfg.fbStart ≤ address :=
  BitVec.le_trans (by decide) h.1

theorem load_uart (h : InUart address) (hfb : ¬g.ReachesFramebuffer address) :
    g.load address length = .ok ((g.uart.load address).1, { g with uart := (g.uart.load address).2 }) := by
  have hle := fbStart_le_of_inUart h
  unfold load
  rw [if_neg (ne_of_fbStart_le hle (by decide)), if_neg (ne_of_fbStart_le hle (by decide)),
    if_neg (ne_of_fbStart_le hle (by decide)), if_neg (fun hr => hfb (valueInRange_iff.mp hr)),
    if_pos (valueInRange_iff.mpr h)]

theorem store_uart (h : InUart address) (hfb : ¬g.ReachesFramebuffer address) :
    g.store address value length = .ok { g with uart := g.uart.store address value } := by
  have hle := fbStart_le_of_inUart h
  unfold store
  rw [if_neg (ne_of_fbStart_le hle (by decide)), if_neg (ne_of_fbStart_le hle (by decide)),
    if_neg (ne_of_fbStart_le hle (by decide)), if_neg (fun hr => hfb (valueInRange_iff.mp hr)),
    if_pos (valueInRange_iff.mpr h)]

/-- A byte of the framebuffer. -/
theorem load_framebuffer (h : g.ReachesFramebuffer address) : g.load address .w8 =
    .ok ((g.framebuffer.get (address - GpuCfg.fbStart).toNat).setWidth 64, g) := by
  have hin : (address - GpuCfg.fbStart).toNat + Width.w8.bytes ≤ g.framebuffer.size := by
    rw [inside_framebuffer_iff h]
    exact BitVec.lt_def.mp h.2
  unfold load
  rw [if_neg (ne_of_fbStart_le h.1 (by decide)), if_neg (ne_of_fbStart_le h.1 (by decide)),
    if_neg (ne_of_fbStart_le h.1 (by decide)), if_pos (valueInRange_iff.mpr h), ByteVec.load,
    if_pos hin]
  have hread : (LittleEndian.read g.framebuffer.get (address - GpuCfg.fbStart).toNat 1 : Word) =
      (g.framebuffer.get (address - GpuCfg.fbStart).toNat).setWidth 64 := by
    simp [LittleEndian.read]
  exact congrArg (fun v => Except.ok (v, g)) hread

theorem store_framebuffer (h : g.ReachesFramebuffer address) :
    ∃ g', g.store address value .w8 = .ok g' ∧ g'.uart = g.uart ∧
      g'.framebuffer.get (address - GpuCfg.fbStart).toNat = value.setWidth 8 := by
  have hin : (address - GpuCfg.fbStart).toNat + Width.w8.bytes ≤ g.framebuffer.size := by
    rw [inside_framebuffer_iff h]
    exact BitVec.lt_def.mp h.2
  unfold store
  rw [if_neg (ne_of_fbStart_le h.1 (by decide)), if_neg (ne_of_fbStart_le h.1 (by decide)),
    if_neg (ne_of_fbStart_le h.1 (by decide)), if_pos (valueInRange_iff.mpr h)]
  simp only [hin, if_true]
  refine ⟨_, rfl, rfl, (LittleEndian.write_of_mem _ _ ⟨Nat.le_refl _, Nat.lt_succ_self _⟩).trans ?_⟩
  rw [Nat.sub_self]
  rfl

end Branches

/-- `width * height * channels` without a bound. -/
def pixelBytes (g : SdlGpu) : Nat := g.width.toNat * g.height.toNat * g.channels.toNat

/-- The UART window is the UART's, the framebuffer's bytes below it are the framebuffer's, and the size
is what it should be. -/
structure Separated (g : SdlGpu) : Prop where
  uartLoad : ∀ address length, InUart address → g.load address length =
    .ok ((g.uart.load address).1, { g with uart := (g.uart.load address).2 })
  uartStore : ∀ address value length, InUart address →
    g.store address value length = .ok { g with uart := g.uart.store address value }
  framebuffer : ∀ off < g.pixelBytes, ∀ address : Word, address.toNat = GpuCfg.fbStart.toNat + off →
    address < GpuCfg.uartBaseAddr → g.load address .w8 = .ok ((g.framebuffer.get off).setWidth 64, g) ∧
      ∀ value, ∃ g', g.store address value .w8 = .ok g' ∧ g'.framebuffer.get off = value.setWidth 8
  exact : g.fbEnd.toNat = GpuCfg.fbStart.toNat + g.pixelBytes

/-- The bytes between the start of the framebuffer and the UART. -/
def fbLimit : Nat := 0x6ffff0

/-- The dimensions and the end, as `resize_screen` leaves them. -/
structure Sized (g : SdlGpu) : Prop where
  channels : g.channels = 3
  fbEnd : g.fbEnd.toNat = GpuCfg.fbStart.toNat + g.pixelBytes % 2 ^ 32

theorem fbLimit_eq : GpuCfg.fbStart.toNat + fbLimit = GpuCfg.uartBaseAddr.toNat := by decide

theorem separated_iff {g : SdlGpu} (hs : g.Sized) : g.Separated ↔ g.pixelBytes ≤ fbLimit := by
  have hlimit := fbLimit_eq
  constructor
  · intro h
    by_contra hgt
    have hend := h.exact
    have hreach : g.ReachesFramebuffer GpuCfg.uartBaseAddr :=
      ⟨by decide, BitVec.lt_def.mpr (by omega)⟩
    have hstore := h.uartStore GpuCfg.uartBaseAddr
      (~~~((g.framebuffer.get (GpuCfg.uartBaseAddr - GpuCfg.fbStart).toNat).setWidth 64)) .w8
      ⟨by decide, by decide⟩
    obtain ⟨g', hg', _, hbyte⟩ := store_framebuffer hreach
    rw [hstore] at hg'
    cases hg'
    have hne : ∀ b : Byte, b ≠ (~~~(b.setWidth 64)).setWidth 8 := by decide
    exact hne _ hbyte
  · intro hle
    have hend : g.fbEnd.toNat = GpuCfg.fbStart.toNat + g.pixelBytes := by
      rw [hs.fbEnd, Nat.mod_eq_of_lt (by unfold fbLimit at hle; omega)]
    have hout : ∀ {address}, InUart address → ¬g.ReachesFramebuffer address := by
      intro address hu hr
      have hlo := BitVec.le_def.mp hu.1
      have hhi := BitVec.lt_def.mp hr.2
      omega
    refine ⟨fun address length hu => load_uart hu (hout hu),
      fun address value length hu => store_uart hu (hout hu), fun off hoff address ha _ => ?_, hend⟩
    have hreach : g.ReachesFramebuffer address :=
      ⟨BitVec.le_def.mpr (by omega), BitVec.lt_def.mpr (by omega)⟩
    have hsub : (address - GpuCfg.fbStart).toNat = off := by
      rw [BitVec.toNat_sub_of_le hreach.1]
      omega
    refine ⟨hsub ▸ load_framebuffer hreach, fun value => ?_⟩
    obtain ⟨g', hg', _, hbyte⟩ := store_framebuffer hreach
    exact ⟨g', hg', hsub ▸ hbyte⟩

/-- The product of three 32-bit numbers, computed in 32 bits. -/
theorem toNat_product (a b c : BitVec 32) :
    (GpuCfg.fbStart + (a * b * c).setWidth 64).toNat =
      GpuCfg.fbStart.toNat + a.toNat * b.toNat * c.toNat % 2 ^ 32 := by
  have hmul : (a * b * c).toNat = a.toNat * b.toNat * c.toNat % 2 ^ 32 := by
    rw [BitVec.toNat_mul, BitVec.toNat_mul, Nat.mod_mul_mod]
  have hlt : (a * b * c).toNat < 2 ^ 32 := (a * b * c).isLt
  have hstart : GpuCfg.fbStart.toNat = 0xf900010 := rfl
  rw [BitVec.toNat_add, BitVec.toNat_setWidth, Nat.mod_eq_of_lt (by omega), hmul]
  omega

theorem sized_init (width height : BitVec 32) : (init width height).Sized :=
  ⟨rfl, toNat_product width height 3⟩

theorem sized_resizeScreen {g : SdlGpu} (hs : g.Sized) (width height : BitVec 16) :
    (g.resizeScreen width height).Sized :=
  ⟨hs.channels, toNat_product _ _ _⟩

theorem pixelBytes_resizeScreen {g : SdlGpu} (hs : g.Sized) (width height : BitVec 16) :
    (g.resizeScreen width height).pixelBytes = width.toNat * height.toNat * 3 := by
  have hw : (width.setWidth 32).toNat = width.toNat := by
    rw [BitVec.toNat_setWidth, Nat.mod_eq_of_lt (by omega)]
  have hh : (height.setWidth 32).toNat = height.toNat := by
    rw [BitVec.toNat_setWidth, Nat.mod_eq_of_lt (by omega)]
  unfold pixelBytes resizeScreen
  simp only [hw, hh, hs.channels]
  rfl

/-- A store of the guest, or something that concerns the UART only: a load, a key, the interrupt
poll. -/
inductive Access where
  | store (address value : Word) (length : Width)
  | uart (u : Uart)

inductive Next (g : SdlGpu) : Access → SdlGpu → Prop
  | store {address value : Word} {length : Width} {g' : SdlGpu}
      (h : g.store address value length = .ok g') : Next g (.store address value length) g'
  | uart (u : Uart) : Next g (.uart u) { g with uart := u }

/-- A 32-bit store to the dimensions asks for no more bytes than there are below the UART. -/
def Small (t : Step SdlGpu Access) : Prop :=
  match t.label with
  | .store address value .w32 =>
    address = GpuCfg.fbDimensions →
      (value.setWidth 16).toNat * ((value >>> 16).setWidth 16).toNat * 3 ≤ fbLimit
  | _ => True

variable {g g' : SdlGpu} {a : Access}

/-- A store resizes, or leaves the dimensions and the end as they are. -/
theorem store_cases {address value : Word} {length : Width}
    (h : g.store address value length = .ok g') :
    (address = GpuCfg.fbDimensions ∧ length = .w32 ∧
      g' = g.resizeScreen (value.setWidth 16) ((value >>> 16).setWidth 16)) ∨
    (¬(address = GpuCfg.fbDimensions ∧ length = .w32) ∧ g'.width = g.width ∧ g'.height = g.height ∧
      g'.channels = g.channels ∧ g'.fbEnd = g.fbEnd) := by
  unfold store at h
  split at h
  next hr =>
    cases h
    refine .inr ⟨fun hc => ?_, rfl, rfl, rfl, rfl⟩
    rw [hc.1] at hr
    exact absurd hr (by decide)
  split at h
  next hd =>
    split at h
    next hl =>
      cases h
      exact .inr ⟨fun hc => hl hc.2, rfl, rfl, rfl, rfl⟩
    next hl =>
      cases h
      exact .inl ⟨hd, not_not.mp hl, rfl⟩
  next hd =>
    refine .inr ⟨fun hc => hd hc.1, ?_⟩
    split at h
    next => split at h <;> cases h <;> exact ⟨rfl, rfl, rfl, rfl⟩
    split at h
    next =>
      simp only at h
      split at h
      next => cases h; exact ⟨rfl, rfl, rfl, rfl⟩
      next => cases h
    split at h <;> cases h <;> exact ⟨rfl, rfl, rfl, rfl⟩

theorem Sized.congr (hs : g.Sized) (hw : g'.width = g.width) (hh : g'.height = g.height)
    (hc : g'.channels = g.channels) (he : g'.fbEnd = g.fbEnd) :
    g'.Sized ∧ g'.pixelBytes = g.pixelBytes := by
  have hp : g'.pixelBytes = g.pixelBytes := by
    unfold pixelBytes
    rw [hw, hh, hc]
  exact ⟨⟨hc.trans hs.channels, by rw [he, hp]; exact hs.fbEnd⟩, hp⟩

theorem Next.sized (h : Next g a g') (hs : g.Sized) : g'.Sized := by
  cases h with
  | store h =>
    rcases store_cases h with ⟨_, _, rfl⟩ | ⟨_, hw, hh, hc, he⟩
    · exact sized_resizeScreen hs _ _
    · exact (hs.congr hw hh hc he).1
  | uart u => exact ⟨hs.channels, hs.fbEnd⟩

/-- From a state that is as it should be, a step leads to another one if it is small. -/
theorem Next.separated_iff_small (h : Next g a g') (hs : g.Sized) (hg : g.Separated) :
    g'.Separated ↔ Small ⟨g, a, g'⟩ := by
  rw [separated_iff (h.sized hs)]
  have hle := (separated_iff hs).mp hg
  cases h with
  | @store address value length _ h =>
    rcases store_cases h with ⟨rfl, rfl, rfl⟩ | ⟨hn, hw, hh, hc, he⟩
    · rw [pixelBytes_resizeScreen hs]
      exact ⟨fun hle _ => hle, fun hs => hs rfl⟩
    · rw [(hs.congr hw hh hc he).2]
      refine iff_of_true hle ?_
      unfold Small
      simp only
      split
      next heq =>
        cases heq
        exact fun ha => absurd ⟨ha, rfl⟩ hn
      next => trivial
  | uart u => exact iff_of_true hle trivial

/-- The screen that `main` asks for. -/
theorem separated_init : (init 960 540).Separated := (separated_iff (sized_init _ _)).mpr (by decide)

/-- In every run the UART is never hidden exactly when all resizing is small. -/
theorem uart_never_hidden_iff {steps : List (Step SdlGpu Access)}
    (run : Steps Next (init 960 540) steps g) : (init 960 540).Separated ∧
      ((∀ t ∈ steps, t.after.Separated) ↔ ∀ t ∈ steps, Small t) := by
  refine ⟨separated_init, run.forall_iff (I := fun g => g.Sized ∧ g.Separated)
    (fun _ _ _ h hg => h.separated_iff_small hg.1 hg.2) (fun _ _ _ h hg ha => ⟨h.sized hg.1, ha⟩)
    ⟨sized_init _ _, separated_init⟩⟩

/-- The guest asks for 1920 columns and 1080 rows. -/
theorem uart_never_hidden_iff_hd : ∃ steps g, Steps Next (init 960 540) steps g ∧
    g.pixelBytes = 1920 * 1080 * 3 ∧ ∀ t ∈ steps, t.after.Separated := by
  have run := Steps.start.step (@Next.store (init 960 540) GpuCfg.fbDimensions 0x04380780 .w32 _ rfl)
  refine ⟨_, _, run, rfl, (uart_never_hidden_iff run).2.mpr fun t ht => ?_⟩
  cases List.mem_singleton.mp ht
  exact fun _ => by decide

/-- 1920 columns and 1280 rows. -/
theorem uart_hidden : ¬∀ steps g, Steps Next (init 960 540) steps g → g.Separated := by
  intro h
  have run := Steps.start.step (@Next.store (init 960 540) GpuCfg.fbDimensions 0x05000780 .w32 _ rfl)
  have hsep := h _ _ run
  rw [separated_iff (sized_resizeScreen (sized_init _ _) _ _)] at hsep
  exact absurd hsep (by decide)

end SdlGpu

end Rv64gcEmu
