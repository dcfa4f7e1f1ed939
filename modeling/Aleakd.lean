import Aleakd.Runs
import Aleakd.Memory
import Aleakd.Packed
import Aleakd.ServerComm
import Aleakd.Buffering
import Aleakd.WriteFailures
import Aleakd.Shutdown
import Aleakd.Messages
import Aleakd.Operations
import Aleakd.Receiver
import Aleakd.Framing
import Aleakd.Reassembly
import Aleakd.Stats
import Aleakd.TakeLast
import Aleakd.OperationList
import Aleakd.Controller
import Aleakd.Ledger
import Aleakd.ServerLedger
import Aleakd.ThreadSessions
import Aleakd.HighWater
import Aleakd.ThreadTables
import Aleakd.Sessions
import Aleakd.Wrapper
import Aleakd.WrapperLedger
import Aleakd.ThreadSystem
import Aleakd.ThreadTotals
import Aleakd.ThreadIdentity
import Aleakd.BlockLists
import Aleakd.EndToEnd
import Aleakd.SessionTotals
import Aleakd.CountLedger
import Aleakd.ThreadSums
import Aleakd.ThreadCredits
import Aleakd.Search
import Aleakd.Numbering
import Aleakd.Backtraces
import Aleakd.Symbols
import Aleakd.ThreadCalls
import Aleakd.Bootstrap
import Aleakd.AllocNumbers
import Aleakd.NonFreed
import Aleakd.Peaks
import Aleakd.ListView
import Aleakd.NotFreedSearch
import Aleakd.ThreadTimes
import Aleakd.Usage
import Aleakd.Chart
import Aleakd.ReadBounds
import Aleakd.Resumption
import Aleakd.PreInit
import Aleakd.Wire
import Aleakd.TailShift
import Aleakd.Decoding
import Aleakd.DeadDevice
import Aleakd.SymbolCache
import Aleakd.DummyBlocks
import Aleakd.ByteMemory
import Aleakd.NameFields
import Aleakd.LockOrder
import Aleakd.ServerLocks
import Aleakd.CallStacks
import Aleakd.ComboBoxes
import Aleakd.Dialogs
import Aleakd.LibraryLocks
import Aleakd.Widgets
import Aleakd.Datagrams
import Aleakd.LeakReport
import Aleakd.Interleaving
import Aleakd.AtomicCalls
import Aleakd.ThreadPeaks
import Aleakd.ThreadSearches
import Aleakd.Sockets
