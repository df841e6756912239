import Rv64gcEmu.IndirectJump
import Rv64gcEmu.BusSafety
import Rv64gcEmu.ReservedCompressed
import Rv64gcEmu.AtomicFaults
import Rv64gcEmu.CsrPrivilege
import Rv64gcEmu.CsrReads
import Rv64gcEmu.SatpFollowed
import Rv64gcEmu.TlbTransparency
import Rv64gcEmu.PageCrossing
import Rv64gcEmu.PteUpdates
import Rv64gcEmu.PreciseException
import Rv64gcEmu.Reservation
import Rv64gcEmu.TrapReturn
import Rv64gcEmu.PrivilegeMode
import Rv64gcEmu.PcAligned
import Rv64gcEmu.FpuStatus
import Rv64gcEmu.InterruptChoice
import Rv64gcEmu.DeviceFaults
import Rv64gcEmu.VirtioQueue
import Rv64gcEmu.IllegalEncodings
import Rv64gcEmu.MprvReturn
import Rv64gcEmu.DivideInsn
import Rv64gcEmu.Shifts
import Rv64gcEmu.Multiply
import Rv64gcEmu.FloatExpansion
import Rv64gcEmu.Canonical
import Rv64gcEmu.DiskBounds
import Rv64gcEmu.VirtioRegisters
import Rv64gcEmu.QueueLayout
import Rv64gcEmu.ClintBytes
import Rv64gcEmu.ClintLines
import Rv64gcEmu.PlicPending
import Rv64gcEmu.SourceEnabled
import Rv64gcEmu.ControlTransfer
import Rv64gcEmu.InterruptStatus
import Rv64gcEmu.ResetTransfers
import Rv64gcEmu.DiskTransfer
import Rv64gcEmu.StoredBytes
import Rv64gcEmu.StoreWidth
import Rv64gcEmu.NarrowLoads
import Rv64gcEmu.NanBoxing
import Rv64gcEmu.FloatClasses
import Rv64gcEmu.FloatConversion
import Rv64gcEmu.BootImages
import Rv64gcEmu.UartInput
import Rv64gcEmu.UartWindow
import Rv64gcEmu.TlbHistory
import Rv64gcEmu.ImmediateDecoding
import Rv64gcEmu.IsaVirtual
import Rv64gcEmu.FloatCompare
import Rv64gcEmu.UserPreemption
import Rv64gcEmu.UserProgress
import Rv64gcEmu.TestHarness
import Rv64gcEmu.DiskHistory
