import Aleakd.Search
import Aleakd.ThreadSums

/-!
The searches for single threads beside the search for all of them. Every operation that
allocates has an entry of its thread in the thread table, so that it is found under
exactly one of the ids of the table, and the figures of the searches add up.
-/
namespace Aleakd.ThreadSearches
open Aleakd.Messages Aleakd.Operations Aleakd.OperationList Aleakd.Stats Aleakd.Threads Aleakd.ApplicationWindow
open Aleakd.Framing Aleakd.ListSums Aleakd.SessionTotals Aleakd.Sessions Aleakd.ThreadSessions Aleakd.ThreadTotals
open Aleakd.ThreadSums Aleakd.Search

/-- An operation of a message of the wrappers; the thread it comes from is not 0. -/
structure Reported (operation : MemoryOperation) : Prop where
  allocates : allocates operation = decide (operation.allocPtr ≠ 0)
  sized : operation.allocPtr = 0 → operation.allocSize = 0
  caller : operation.callerThreadId ≠ 0

/-- The search for a thread, or for all of them, at a time. -/
def found (c : Controller) (tvMin tvMax : Timeval) (notFreed : Bool) (threadId : UInt64) : MemoryStats × List Nat :=
  search ⟨threadId, tvMin, tvMax, notFreed⟩ c.operations.listMemoryOperation c.searchStats.reset

/-- Two threads allocate, and a third one frees a block of the first: its free is found
    under no id, the blocks are. -/
def shared : List Message :=
  [.memory ⟨1, 0, 7, 1, 11⟩ ⟨100, 4096, 1, 0⟩, .memory ⟨1, 0, 8, 2, 11⟩ ⟨50, 8192, 2, 0⟩,
    .memory ⟨2, 0, 9, 3, 12⟩ ⟨0, 0, 0, 4096⟩]

end Aleakd.ThreadSearches
