import Umimmio.Lib.Prog
import Umimmio.Lib.Run
import Umimmio.Lib.Trace
import Umimmio.Lib.Partial
import Umimmio.Lib.CInt
import Umimmio.Lib.Bytes
import Umimmio.Policy
import Umimmio.Region
import Umimmio.OneBitAliases
import Umimmio.Ops
import Umimmio.OpsWords
import Umimmio.OpsTrace
import Umimmio.PackWords
import Umimmio.Hardware
import Umimmio.RangeChecks
import Umimmio.AccessSoundness
import Umimmio.CommandBits
import Umimmio.NamedValues
import Umimmio.W1cEvents
import Umimmio.Siblings
import Umimmio.ClearTargets
import Umimmio.Transport.AtomicDirect
import Umimmio.Transport.Atomic
import Umimmio.Transport.Driver
import Umimmio.Transport.ByteAdapter
import Umimmio.Transport.Detail
import Umimmio.Transport.I2c
import Umimmio.Transport.Spi
import Umimmio.SpiAddresses
import Umimmio.Transport.PagedI2c
import Umimmio.Bus
import Umimmio.PagedChip
import Umimmio.PagedRun
import Umimmio.PagedRefinement
import Umimmio.PageCoherence
import Umimmio.SelectFailure
import Umimmio.TypedBus
import Umimmio.FailedReads
import Umimmio.StaleReads
import Umimmio.FrameBounds
import Umimmio.ReportedCalls
import Umimmio.LatchPolling
import Umimmio.I2cRmw
import Umimmio.RegisterStore
import Umimmio.MemoryDevice
import Umimmio.Transport.Csr
import Umimmio.CsrStore
import Umimmio.TransportTrace
import Umimmio.AtomicTransparency
import Umimmio.Variants
import Umimmio.ResetModify
import Umimmio.FlipRuns
import Umimmio.Comparisons
import Umimmio.Transport.BufferMmio
import Umimmio.Transport.Direct
import Umimmio.IndexedArray
import Umimmio.Dispatch
import Umimmio.Lib.Latch
import Umimmio.PageSelects
import Umimmio.ZeroFill
import Umimmio.Lib.Pool
import Umimmio.PreemptedCalls
import Umimmio.SharedStore
import Umimmio.SharedBits
import Umimmio.PagedStore
import Umimmio.SharedBus
import Umimmio.ByteDevice
import Umimmio.Wirings
import Umimmio.ErrorPolicies
import Umimmio.SharedTags
import Umimmio.Lib.Bracket
import Umimmio.BarrierOrder
import Umimmio.BufferBytes
import Umimmio.RegisterArrays
import Umimmio.Lib.FailStop
import Umimmio.Lib.Visits
import Umimmio.CrashConsistency
import Umimmio.LatchedRetries
import Umimmio.CheckedValues
import Umimmio.FieldVariables
import Umimmio.LockedFlags
import Umimmio.SharedWirings
import Umimmio.FieldOwners
