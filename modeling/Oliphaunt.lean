import Oliphaunt.Kotlin.CancelDrain
import Oliphaunt.Native.DirectPairing
import Oliphaunt.Native.HandleCalls
import Oliphaunt.Rust.BrokerDeadlock
import Oliphaunt.Rust.CancellationGate
import Oliphaunt.Rust.ExecutorPoison
import Oliphaunt.Rust.HostPaths
import Oliphaunt.Rust.PinOwner
import Oliphaunt.Rust.WalRange
import Oliphaunt.Rust.WasixLeak
import Oliphaunt.TS.ArrayLiteral
import Oliphaunt.TS.BackupMode
import Oliphaunt.TS.BrokerFrames
import Oliphaunt.TS.ByteChannelEof
import Oliphaunt.TS.ByteChannelWakeup
import Oliphaunt.TS.Bytea
import Oliphaunt.TS.ExtendedPacket
import Oliphaunt.TS.IncrementalStorage
import Oliphaunt.TS.NativePoison
import Oliphaunt.TS.OpfsFirstOpen
import Oliphaunt.TS.OpfsFlushOrder
import Oliphaunt.TS.OpfsPages
import Oliphaunt.TS.OpfsStaged
import Oliphaunt.TS.Pgwire
import Oliphaunt.TS.PhysicalArchiveRestore
import Oliphaunt.TS.ReactNativeIdle
import Oliphaunt.TS.ReactNativeOrder
import Oliphaunt.TS.ResponseText
import Oliphaunt.TS.SqlCopyGuard
import Oliphaunt.TS.TarPasses
import Oliphaunt.TS.WasixOneBlock
