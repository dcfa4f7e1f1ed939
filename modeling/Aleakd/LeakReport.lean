import Aleakd.EndToEnd
import Aleakd.NamedPipe
import Aleakd.NotFreedSearch
import Aleakd.Sessions

/-!
What the tool is for: the calls of a program, its messages in the buffers of the library
and in the pipe, what the server makes of them, and in the end the rows that it shows as
not freed, which are the blocks that the program still has.
-/
namespace Aleakd.LeakReport
open Aleakd.Packed Aleakd.Messages Aleakd.Operations Aleakd.OperationList Aleakd.ApplicationWindow Aleakd.Framing
open Aleakd.Wrapper Aleakd.ServerLedger Aleakd.HighWater Aleakd.BlockLists Aleakd.SessionTotals Aleakd.Search
open Aleakd.Runs Aleakd.Sending Aleakd.NotFreedSearch Aleakd.EndToEnd

/-- The operations in the rows that a search has found. -/
def rows (c : Controller) : List MemoryOperation :=
  c.listFilterMemoryOperation.filterMap fun i => c.operations.listMemoryOperation[i]?

end Aleakd.LeakReport
