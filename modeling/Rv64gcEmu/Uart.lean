import Rv64gcEmu.HostModel

namespace Rv64gcEmu

namespace Cfg

def uartBaseAddress : Word := 0x10000000
def uartIrqn : Word := 10

def thr : Word := uartBaseAddress + 0
def ier : Word := uartBaseAddress + 1
def isr : Word := uartBaseAddress + 2
def fcr : Word := uartBaseAddress + 2
def lcr : Word := uartBaseAddress + 3
def mcr : Word := uartBaseAddress + 4
def lsr : Word := uartBaseAddress + 5
def msr : Word := uartBaseAddress + 6
def scr : Word := uartBaseAddress + 7

def lsrDr : Byte := 0x1
def lsrThre : Byte := 0x20
def lsrTemt : Byte := 0x40

def ierRdi : Byte := 0x01
def ierThri : Byte := 0x02

end Cfg

/-- The 16550 registers that both builds of `GpuDevice` share. -/
structure Uart where
  isr : Byte
  ier : Byte
  fcr : Byte
  lcr : Byte
  mcr : Byte
  lsr : Byte
  msr : Byte
  scr : Byte
  val : Byte
  isUartInterrupting : Bool
  deriving DecidableEq

namespace Uart

def init : Uart where
  isr := 0
  ier := 0
  fcr := 0
  lcr := 0
  mcr := 0
  lsr := Cfg.lsrTemt ||| Cfg.lsrThre
  msr := 0
  scr := 0
  val := 0
  isUartInterrupting := false

def dispatchInterrupt (u : Uart) : Uart :=
  let u := { u with isr := u.isr ||| 0xc0 }
  if u.ier &&& Cfg.ierRdi ≠ 0 ∧ u.lsr &&& Cfg.lsrDr ≠ 0 then { u with isUartInterrupting := true }
  else if u.ier &&& Cfg.ierThri ≠ 0 ∧ u.lsr &&& Cfg.lsrTemt ≠ 0 then
    { u with isUartInterrupting := true }
  else u

/-- The inner `switch (address)` of `GpuDevice::load`. -/
def load (u : Uart) (address : Word) : Word × Uart :=
  if address = Cfg.thr then
    let u' :=
      if u.lsr &&& Cfg.lsrDr ≠ 0 then ({ u with lsr := u.lsr &&& ~~~Cfg.lsrDr }).dispatchInterrupt
      else u
    (u'.val.setWidth 64, u')
  else if address = Cfg.ier then (u.ier.setWidth 64, u)
  else if address = Cfg.isr then (u.isr.setWidth 64, u)
  else if address = Cfg.lcr then (u.lcr.setWidth 64, u)
  else if address = Cfg.mcr then (u.mcr.setWidth 64, u)
  else if address = Cfg.lsr then (u.lsr.setWidth 64, u)
  else if address = Cfg.msr then (u.msr.setWidth 64, u)
  else if address = Cfg.scr then (u.scr.setWidth 64, u)
  else (0, u)

/-- The inner `switch (address)` of `GpuDevice::store`; a character written to
`thr` goes to the terminal and leaves the registers as they are. -/
def store (u : Uart) (address value : Word) : Uart :=
  if address = Cfg.thr then u
  else if address = Cfg.ier then ({ u with ier := value.setWidth 8 }).dispatchInterrupt
  else if address = Cfg.fcr then { u with fcr := value.setWidth 8 }
  else if address = Cfg.lcr then { u with lcr := value.setWidth 8 }
  else if address = Cfg.mcr then { u with mcr := value.setWidth 8 }
  else if address = Cfg.scr then { u with scr := value.setWidth 8 }
  else u

/-- `is_interrupting` hands the interrupt out once. -/
def isInterrupting (u : Uart) : Option Word × Uart :=
  if u.isUartInterrupting then (some Cfg.uartIrqn, { u with isUartInterrupting := false })
  else (none, u)

def putchar (u : Uart) (c : Byte) : Uart :=
  ({ u with val := c, lsr := u.lsr ||| Cfg.lsrDr }).dispatchInterrupt

end Uart

end Rv64gcEmu
