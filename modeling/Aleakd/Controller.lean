import Aleakd.OperationList
import Aleakd.Stats
import Aleakd.Threads

/-!
`QApplicationWindowController`, as far as the messages of a captured program change
it. The locks are left out: one thread calls the handler.
-/
namespace Aleakd.ApplicationWindow
open Aleakd.Messages Aleakd.Operations Aleakd.OperationList Aleakd.Stats Aleakd.Threads

structure Controller where
  operations : OperationLists
  threads : ThreadTable
  listSymbolInfos : Finmap fun _ : UInt64 => SymbolInfos
  globalStats : MemoryStats
  searchStats : MemoryStats
  listFilterMemoryOperation : List Nat
  listFilterThreadInfos : List Nat
  lastUpdateTime : UInt64
  lastUpdateValue : UInt64

/-- A controller that has just been made. -/
def Controller.fresh : Controller where
  operations := OperationLists.empty
  threads := ThreadTable.empty
  listSymbolInfos := ∅
  globalStats := MemoryStats.zero
  searchStats := MemoryStats.zero
  listFilterMemoryOperation := []
  listFilterThreadInfos := []
  lastUpdateTime := 0
  lastUpdateValue := 0

/-- `clearData`, which leaves `m_listThreadInfosAlive` as it is. -/
def Controller.clearData (c : Controller) : Controller where
  operations := OperationLists.empty
  threads := { c.threads with listThreadInfos := [] }
  listSymbolInfos := ∅
  globalStats := c.globalStats.reset
  searchStats := c.searchStats.reset
  listFilterMemoryOperation := []
  listFilterThreadInfos := []
  lastUpdateTime := 0
  lastUpdateValue := 0

def Controller.addMemoryOperation (c : Controller) (operation : MemoryOperation) : Controller :=
  let (operations, freed) := c.operations.addMemoryOperation operation
  { c with
    operations
    globalStats := c.globalStats.addMemoryOperation operation freed
    threads := c.threads.addMemoryOperation operation freed }

/-- The operation that comes in is last in the list. -/
theorem Controller.addMemoryOperation_list (c : Controller) (operation : MemoryOperation) :
    (c.addMemoryOperation operation).operations.listMemoryOperation =
      (c.operations.free operation.freePtr).1.listMemoryOperation ++ [operation] := rfl

def Controller.updateThreadInfos (c : Controller) (operation : ThreadOperation) : Controller :=
  { c with
    globalStats := c.globalStats.countMessage
    threads := c.threads.updateThreadInfos operation }

def Controller.addBacktrace (c : Controller) (backtrace : Backtrace) : Controller :=
  { c with
    operations := c.operations.addBacktrace backtrace
    globalStats := c.globalStats.countMessage }

def Controller.addSymbolInfos (c : Controller) (symbolInfos : SymbolInfos) : Controller :=
  { c with
    listSymbolInfos :=
      if symbolInfos.addr ∈ c.listSymbolInfos then c.listSymbolInfos
      else Finmap.insert symbolInfos.addr symbolInfos c.listSymbolInfos
    globalStats := c.globalStats.countMessage }

def Controller.onNewConnection (c : Controller) : Controller :=
  let c := c.clearData
  { c with globalStats := c.globalStats.countMessage }

/-- The calls of `IMemOpRcptServerHandler`, as the controller implements them. -/
def Controller.handle (c : Controller) : Callback → Controller
  | .newConnection => c.onNewConnection
  | .memoryOperation operation => c.addMemoryOperation operation
  | .threadOperation operation => c.updateThreadInfos operation
  | .backtrace backtrace => c.addBacktrace backtrace
  | .symbolInfos symbolInfos => c.addSymbolInfos symbolInfos

/-- The controller after a sequence of calls. -/
def Controller.handleAll (c : Controller) (calls : List Callback) : Controller := calls.foldl Controller.handle c

@[simp] theorem Controller.handleAll_nil (c : Controller) : c.handleAll [] = c := rfl

@[simp] theorem Controller.handleAll_cons (c : Controller) (call : Callback) (calls : List Callback) :
    c.handleAll (call :: calls) = (c.handle call).handleAll calls := rfl

theorem Controller.handleAll_append (c : Controller) (first second : List Callback) :
    c.handleAll (first ++ second) = (c.handleAll first).handleAll second :=
  List.foldl_append

end Aleakd.ApplicationWindow
