import Rv64gcEmu.Uart
import Rv64gcEmu.Helper

namespace Rv64gcEmu

namespace GpuCfg

def uartBaseAddr : Word := Cfg.uartBaseAddress
def uartSize : Word := 0x100

def fbRender : Word := uartBaseAddr - 0x700000
def fbDimensions : Word := fbRender + 4
def termDimensions : Word := fbDimensions + 4
def fbChannels : Word := termDimensions + 4
def fbStart : Word := fbChannels + 4

def baseAddr : Word := fbRender
def endAddr : Word := uartBaseAddr + uartSize

end GpuCfg

/-- `GpuDevice` of the SDL build. The window, the font and the terminal screen are
output only; no guest access reads them back. -/
structure SdlGpu where
  uart : Uart
  width : BitVec 32
  height : BitVec 32
  channels : BitVec 32
  framebuffer : ByteVec
  fbEnd : Word
  termRows : BitVec 32
  termCols : BitVec 32
  fb_size : framebuffer.size = (fbEnd - GpuCfg.fbStart).toNat

namespace SdlGpu

theorem zeros_size (pixelCount : BitVec 32) :
    (ByteVec.zeros pixelCount.toNat).size =
      (GpuCfg.fbStart + pixelCount.setWidth 64 - GpuCfg.fbStart).toNat := by
  simp only [ByteVec.zeros, BitVec.add_comm GpuCfg.fbStart, BitVec.add_sub_cancel,
    BitVec.toNat_setWidth]
  omega

/-- The constructor: `fb_end` starts at `fb_start`. -/
def init (width height : BitVec 32) : SdlGpu where
  uart := Uart.init
  width := width
  height := height
  channels := 3
  framebuffer := ByteVec.zeros (width * height * 3).toNat
  fbEnd := GpuCfg.fbStart + (width * height * 3).setWidth 64
  termRows := 32
  termCols := 120
  fb_size := zeros_size _

def resizeScreen (g : SdlGpu) (width height : BitVec 16) : SdlGpu :=
  let pixelCount : BitVec 32 := width.setWidth 32 * height.setWidth 32 * g.channels
  { g with
    width := width.setWidth 32
    height := height.setWidth 32
    framebuffer := ByteVec.zeros pixelCount.toNat
    fbEnd := GpuCfg.fbStart + pixelCount.setWidth 64
    fb_size := zeros_size _ }

def load (g : SdlGpu) (address : Word) (length : Width) : HostM (Word × SdlGpu) :=
  if address = GpuCfg.fbChannels then .ok (g.channels.setWidth 64, g)
  else if address = GpuCfg.fbDimensions then
    .ok (((g.height <<< 16) ||| g.width).setWidth 64, g)
  else if address = GpuCfg.termDimensions then
    .ok (((g.termRows <<< 16) ||| g.termCols).signExtend 64, g)
  else if Helper.valueInRange address GpuCfg.fbStart g.fbEnd then do
    let v ← g.framebuffer.load (address - GpuCfg.fbStart).toNat length
    .ok (v, g)
  else if Helper.valueInRange address GpuCfg.uartBaseAddr (GpuCfg.uartBaseAddr + GpuCfg.uartSize) then
    let (v, u) := g.uart.load address
    .ok (v, { g with uart := u })
  else .ok (0, g)

def store (g : SdlGpu) (address value : Word) (length : Width) : HostM SdlGpu :=
  -- `render_framebuffer` only draws
  if address = GpuCfg.fbRender then .ok g
  else if address = GpuCfg.fbDimensions then
    if length ≠ .w32 then .ok g
    else .ok (g.resizeScreen (value.setWidth 16) ((value >>> 16).setWidth 16))
  else if address = GpuCfg.termDimensions then
    if length ≠ .w32 then .ok g
    else .ok { g with
      termCols := (value &&& 0xffff).setWidth 32
      termRows := ((value >>> 16) &&& 0xffff).setWidth 32 }
  else if Helper.valueInRange address GpuCfg.fbStart g.fbEnd then
    let off := (address - GpuCfg.fbStart).toNat
    if off + length.bytes ≤ g.framebuffer.size then
      .ok { g with
        framebuffer := { g.framebuffer with
          get := LittleEndian.write g.framebuffer.get off value length.bytes }
        fb_size := g.fb_size }
    else .error .undefined
  else if Helper.valueInRange address GpuCfg.uartBaseAddr (GpuCfg.uartBaseAddr + GpuCfg.uartSize) then
    .ok { g with uart := g.uart.store address value }
  else .ok g

end SdlGpu

/-- `GpuDevice` of the command line build: the UART alone, with the cell that the
reader thread fills. -/
structure NativeGpu where
  uart : Uart
  readChar : Byte
  deriving DecidableEq

/-- `gpu::GpuDevice`, in either build. -/
inductive GpuDevice where
  | sdl (g : SdlGpu)
  | nativeCli (g : NativeGpu)

namespace GpuDevice

def load (g : GpuDevice) (address : Word) (length : Width) : HostM (Word × GpuDevice) :=
  match g with
  | .sdl g => do
    let (v, g) ← g.load address length
    .ok (v, .sdl g)
  | .nativeCli g =>
    let (v, u) := g.uart.load address
    .ok (v, .nativeCli { g with uart := u })

def store (g : GpuDevice) (address value : Word) (length : Width) : HostM GpuDevice :=
  match g with
  | .sdl g => do
    let g ← g.store address value length
    .ok (.sdl g)
  | .nativeCli g => .ok (.nativeCli { g with uart := g.uart.store address value })

def uart : GpuDevice → Uart
  | .sdl g => g.uart
  | .nativeCli g => g.uart

def setUart (g : GpuDevice) (u : Uart) : GpuDevice :=
  match g with
  | .sdl g => .sdl { g with uart := u }
  | .nativeCli g => .nativeCli { g with uart := u }

def isInterrupting (g : GpuDevice) : Option Word × GpuDevice :=
  let (irqn, u) := g.uart.isInterrupting
  (irqn, g.setUart u)

end GpuDevice

/-- What one poll of the host gives to `GpuDevice::tick`: an event of the SDL
window, or the character that the reader thread stored since the last tick. -/
inductive HostInput where
  | idle
  | quit
  | key (c : Byte)
  | keyUp
  | stdin (c : Byte)
  deriving DecidableEq

namespace GpuDevice

def tick (g : GpuDevice) (input : HostInput) : HostM GpuDevice :=
  match g with
  | .sdl g =>
    match input with
    | .quit => .error .exit
    | .key c => .ok (.sdl { g with uart := g.uart.putchar c })
    | .keyUp => .ok (.sdl { g with uart := { g.uart with val := 0 } })
    | _ => .ok (.sdl g)
  | .nativeCli g =>
    let c :=
      match input with
      | .stdin c => c
      | _ => g.readChar
    if c ≠ 0 then .ok (.nativeCli { uart := g.uart.putchar c, readChar := 0 })
    else .ok (.nativeCli { g with readChar := 0 })

end GpuDevice

end Rv64gcEmu
