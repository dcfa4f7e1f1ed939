import Aleakd.Operations

/-!
The threads of the captured program, `server/Model/ThreadInfos.cpp`, and the
functions of `QApplicationWindowController` about them. The objects are kept in
`objects`, in the order in which they were made, and are never removed from it; a
shared pointer to one is its position there.
-/
namespace Aleakd.Threads
open Aleakd.Messages Aleakd.Operations

structure ThreadInfos where
  threadId : UInt64
  threadName : List UInt8
  creationMsgNum : UInt32
  lastAllocMsgNum : UInt32
  tvCreation : Timeval
  tvTermination : Timeval
  isTerminated : Bool
  currentAllocCount : UInt32
  currentSize : UInt64
  totalAllocCount : UInt32
  peakSize : UInt64
deriving DecidableEq

/-- `ThreadInfos::ThreadInfos` -/
def ThreadInfos.zero : ThreadInfos where
  threadId := 0
  threadName := []
  creationMsgNum := 0
  lastAllocMsgNum := 0
  tvCreation := ⟨0, 0⟩
  tvTermination := ⟨0, 0⟩
  isTerminated := false
  currentAllocCount := 0
  currentSize := 0
  totalAllocCount := 0
  peakSize := 0

structure ThreadTable where
  objects : List ThreadInfos
  listThreadInfos : List Nat
  listThreadInfosAlive : List Nat
deriving DecidableEq

def ThreadTable.empty : ThreadTable := ⟨[], [], []⟩

/-- The object at a position has the thread id. -/
def hasId (objects : List ThreadInfos) (threadId : UInt64) (i : Nat) : Bool :=
  objects[i]?.any fun infos => infos.threadId = threadId

/-- The message number lies in the range that the object was seen to allocate in. -/
def hasIdAndMsgNum (objects : List ThreadInfos) (threadId : UInt64) (msgNum : UInt32) (i : Nat) : Bool :=
  objects[i]?.any fun infos =>
    infos.threadId = threadId && decide (infos.creationMsgNum ≤ msgNum) && decide (msgNum ≤ infos.lastAllocMsgNum)

/-- `ThreadInfosList::getById` -/
def getById (objects : List ThreadInfos) (list : List Nat) (threadId : UInt64) : Option Nat :=
  list.find? (hasId objects threadId)

/-- `ThreadInfosList::getByIdAndMsgNum` -/
def getByIdAndMsgNum (objects : List ThreadInfos) (list : List Nat) (threadId : UInt64) (msgNum : UInt32) :
    Option Nat :=
  list.find? (hasIdAndMsgNum objects threadId msgNum)

/-- `ThreadInfosList::removeById` -/
def removeById (objects : List ThreadInfos) (list : List Nat) (threadId : UInt64) : List Nat :=
  list.filter fun i => !hasId objects threadId i

/-- The characters of "main". -/
def mainName : List UInt8 := [109, 97, 105, 110]

/-- A new object; the first of a session is taken for the main thread. -/
def ThreadInfos.make (threadId : UInt64) (tvOperation : Timeval) (first : Bool) : ThreadInfos :=
  { ThreadInfos.zero with
    threadId
    tvCreation := tvOperation
    threadName := if first then mainName else [] }

/-- The last lines of `getThreadInfos`: a new object, in both lists. -/
def ThreadTable.append (t : ThreadTable) (threadId : UInt64) (tvOperation : Timeval) : ThreadTable × Nat :=
  let i := t.objects.length
  ({ objects := t.objects ++ [ThreadInfos.make threadId tvOperation t.listThreadInfos.isEmpty]
     listThreadInfos := t.listThreadInfos ++ [i]
     listThreadInfosAlive := t.listThreadInfosAlive ++ [i] }, i)

/-- What happens to the object of a thread whose id is taken by a new thread. -/
def ThreadInfos.terminate (tvOperation : Timeval) (infos : ThreadInfos) : ThreadInfos :=
  { infos with isTerminated := true, tvTermination := tvOperation }

def ThreadTable.getThreadInfos (t : ThreadTable) (threadId : UInt64) (threadCreation : Bool) (tvOperation : Timeval) :
    ThreadTable × Nat :=
  match getById t.objects t.listThreadInfosAlive threadId with
  | some i =>
    if threadCreation then
      -- a recycled thread gets a new entry
      let t := { t with
        objects := t.objects.modify i (ThreadInfos.terminate tvOperation)
        listThreadInfosAlive := removeById t.objects t.listThreadInfosAlive threadId }
      t.append threadId tvOperation
    else (t, i)
  | none => t.append threadId tvOperation

def ThreadTable.getThreadInfosForMsgNum (t : ThreadTable) (threadId : UInt64) (msgNum : UInt32) : Option Nat :=
  match getByIdAndMsgNum t.objects t.listThreadInfosAlive threadId msgNum with
  | some i => some i
  | none => getByIdAndMsgNum t.objects t.listThreadInfos threadId msgNum

/-- A change of one object. -/
def ThreadTable.modify (t : ThreadTable) (i : Nat) (change : ThreadInfos → ThreadInfos) : ThreadTable :=
  { t with objects := t.objects.modify i change }

/-- What a thread message changes in the object of its thread. -/
def ThreadInfos.applyOperation (operation : ThreadOperation) (infos : ThreadInfos) : ThreadInfos :=
  let infos :=
    if operation.msgCode = .pthreadCreate then
      { infos with creationMsgNum := operation.msgNum, lastAllocMsgNum := operation.msgNum }
    else infos
  if operation.msgCode = .pthreadSetName then { infos with threadName := operation.threadName } else infos

def ThreadTable.updateThreadInfos (t : ThreadTable) (operation : ThreadOperation) : ThreadTable :=
  let (t, i) := t.getThreadInfos operation.threadId (operation.msgCode = .pthreadCreate) operation.tvOperation
  t.modify i (ThreadInfos.applyOperation operation)

/-- What an allocation changes in the object of its thread. -/
def ThreadInfos.addAlloc (msgNum : UInt32) (size : UInt64) (infos : ThreadInfos) : ThreadInfos :=
  let currentSize := infos.currentSize + size
  { infos with
    creationMsgNum := if infos.creationMsgNum = 0 then msgNum else infos.creationMsgNum
    lastAllocMsgNum := msgNum
    currentSize
    currentAllocCount := infos.currentAllocCount + 1
    totalAllocCount := infos.totalAllocCount + 1
    peakSize := if infos.peakSize < currentSize then currentSize else infos.peakSize }

def ThreadTable.updateThreadInfosAddAlloc (t : ThreadTable) (threadId : UInt64) (msgNum : UInt32) (size : UInt64)
    (tvOperation : Timeval) : ThreadTable :=
  let (t, i) := t.getThreadInfos threadId false tvOperation
  t.modify i (ThreadInfos.addAlloc msgNum size)

/-- What a free changes in the object of the thread that allocated. -/
def ThreadInfos.addFree (size : UInt64) (infos : ThreadInfos) : ThreadInfos :=
  { infos with currentSize := infos.currentSize - size, currentAllocCount := infos.currentAllocCount - 1 }

def ThreadTable.updateThreadInfosAddFree (t : ThreadTable) (threadId : UInt64) (allocMsgNum : UInt32) (size : UInt64)
    (tvOperation : Timeval) : ThreadTable :=
  match t.getThreadInfosForMsgNum threadId allocMsgNum with
  | some i => t.modify i (ThreadInfos.addFree size)
  | none =>
    let (t, i) := t.getThreadInfos threadId false tvOperation
    t.modify i (ThreadInfos.addFree size)

/-- The part of `QApplicationWindowController::addMemoryOperation` about the threads,
    given the operation that it frees. -/
def ThreadTable.addMemoryOperation (t : ThreadTable) (operation : MemoryOperation) (freed : Option MemoryOperation) :
    ThreadTable :=
  let t :=
    match freed with
    | some freed =>
      t.updateThreadInfosAddFree freed.callerThreadId freed.msgNum freed.allocSize operation.tvOperation
    | none => t
  if operation.allocPtr ≠ 0 then
    t.updateThreadInfosAddAlloc operation.callerThreadId operation.msgNum operation.allocSize operation.tvOperation
  else t

/-- The entries of `m_listThreadInfos`. -/
def ThreadTable.entries (t : ThreadTable) : List ThreadInfos :=
  t.listThreadInfos.filterMap fun i => t.objects[i]?

@[simp] theorem ThreadInfos.make_threadId (threadId : UInt64) (tvOperation : Timeval) (first : Bool) :
    (ThreadInfos.make threadId tvOperation first).threadId = threadId := rfl

@[simp] theorem ThreadInfos.terminate_threadId (tvOperation : Timeval) (infos : ThreadInfos) :
    (infos.terminate tvOperation).threadId = infos.threadId := rfl

@[simp] theorem ThreadInfos.addAlloc_threadId (msgNum : UInt32) (size : UInt64) (infos : ThreadInfos) :
    (infos.addAlloc msgNum size).threadId = infos.threadId := rfl

@[simp] theorem ThreadInfos.addFree_threadId (size : UInt64) (infos : ThreadInfos) :
    (infos.addFree size).threadId = infos.threadId := rfl

@[simp] theorem ThreadInfos.applyOperation_threadId (operation : ThreadOperation) (infos : ThreadInfos) :
    (infos.applyOperation operation).threadId = infos.threadId := by
  unfold ThreadInfos.applyOperation
  split <;> split <;> rfl

end Aleakd.Threads
