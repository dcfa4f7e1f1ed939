import Aleakd.ListSums
import Aleakd.Threads
import Mathlib.Logic.Function.Basic
import Mathlib.Tactic.Common

/-!
The thread table of one session. `m_listThreadInfosAlive` outlives
`clearData`, so a thread id can be alive in an object of an earlier session, which
no list shows any more. `Session` is the table without these objects: it only
knows which ids are stale in this way.
-/
namespace Aleakd.ThreadSessions
open Aleakd.Messages Aleakd.Operations Aleakd.Threads Aleakd.ListSums

/-! ## The table of one session -/

structure Session where
  entries : List ThreadInfos
  /-- the position of the entry in which an id is alive -/
  current : UInt64 → Option Nat
  /-- the id is alive in an object of an earlier session -/
  stale : UInt64 → Bool

def Session.empty : Session where
  entries := []
  current _ := none
  stale _ := false

/-- The id is alive, in this session or from an earlier one. -/
def Session.alive (s : Session) (threadId : UInt64) : Bool := (s.current threadId).isSome || s.stale threadId

/-- A new session: the ids that are alive are stale. -/
def Session.clear (s : Session) : Session where
  entries := []
  current _ := none
  stale := s.alive

def Session.append (s : Session) (threadId : UInt64) (tvOperation : Timeval) : Session × Option Nat :=
  ({ entries := s.entries ++ [ThreadInfos.make threadId tvOperation s.entries.isEmpty]
     current := Function.update s.current threadId (some s.entries.length)
     stale := Function.update s.stale threadId false }, some s.entries.length)

/-- What `getThreadInfos` does to the entries; there is none for a stale id. -/
def Session.getThreadInfos (s : Session) (threadId : UInt64) (threadCreation : Bool) (tvOperation : Timeval) :
    Session × Option Nat :=
  match s.current threadId with
  | some k =>
    if threadCreation then
      { s with entries := s.entries.modify k (ThreadInfos.terminate tvOperation) }.append threadId tvOperation
    else (s, some k)
  | none =>
    if s.stale threadId = true ∧ threadCreation = false then (s, none) else s.append threadId tvOperation

def Session.modify (s : Session) (k : Option Nat) (change : ThreadInfos → ThreadInfos) : Session :=
  match k with
  | some k => { s with entries := s.entries.modify k change }
  | none => s

def Session.updateThreadInfos (s : Session) (operation : ThreadOperation) : Session :=
  let (s, k) := s.getThreadInfos operation.threadId (operation.msgCode = .pthreadCreate) operation.tvOperation
  s.modify k (ThreadInfos.applyOperation operation)

def Session.updateThreadInfosAddAlloc (s : Session) (threadId : UInt64) (msgNum : UInt32) (size : UInt64)
    (tvOperation : Timeval) : Session :=
  let (s, k) := s.getThreadInfos threadId false tvOperation
  s.modify k (ThreadInfos.addAlloc msgNum size)

/-- The test of `getByIdAndMsgNum`. -/
def inRange (threadId : UInt64) (msgNum : UInt32) (infos : ThreadInfos) : Bool :=
  infos.threadId = threadId && decide (infos.creationMsgNum ≤ msgNum) && decide (msgNum ≤ infos.lastAllocMsgNum)

/-- `getThreadInfosForMsgNum` in the entries: the alive one first, then all in order. -/
def Session.getThreadInfosForMsgNum (s : Session) (threadId : UInt64) (msgNum : UInt32) : Option Nat :=
  if (s.current threadId).any fun k => s.entries[k]?.any (inRange threadId msgNum) then s.current threadId
  else s.entries.findIdx? (inRange threadId msgNum)

/-- A free of a stale id shows in no entry. -/
def Session.updateThreadInfosAddFree (s : Session) (threadId : UInt64) (allocMsgNum : UInt32) (size : UInt64)
    (tvOperation : Timeval) : Session :=
  if s.stale threadId then s
  else
    match s.getThreadInfosForMsgNum threadId allocMsgNum with
    | some k => s.modify (some k) (ThreadInfos.addFree size)
    | none =>
      let (s, k) := s.getThreadInfos threadId false tvOperation
      s.modify k (ThreadInfos.addFree size)

/-- The part of `addMemoryOperation` about the operation that is freed. -/
def Session.afterFree (s : Session) (freed : Option MemoryOperation) (tvOperation : Timeval) : Session :=
  match freed with
  | some freed => s.updateThreadInfosAddFree freed.callerThreadId freed.msgNum freed.allocSize tvOperation
  | none => s

def Session.addMemoryOperation (s : Session) (operation : MemoryOperation) (freed : Option MemoryOperation) : Session :=
  let s := s.afterFree freed operation.tvOperation
  if operation.allocPtr ≠ 0 then
    s.updateThreadInfosAddAlloc operation.callerThreadId operation.msgNum operation.allocSize operation.tvOperation
  else s

/-! ## Calls of the handler -/

/-- The thread whose entry a call looks up for itself. -/
def subject : Callback → Option UInt64
  | .memoryOperation operation => if operation.allocPtr ≠ 0 then some operation.callerThreadId else none
  | .threadOperation operation => some operation.threadId
  | .newConnection | .backtrace _ | .symbolInfos _ => none

/-- The call reports a new thread. -/
def creates : Callback → Bool
  | .threadOperation operation => operation.msgCode = .pthreadCreate
  | .newConnection | .memoryOperation _ | .backtrace _ | .symbolInfos _ => false

/-- What a call does to the session, given the operation that it frees. -/
def Session.handle (s : Session) (freed : Option MemoryOperation) : Callback → Session
  | .newConnection => s.clear
  | .memoryOperation operation => s.addMemoryOperation operation freed
  | .threadOperation operation => s.updateThreadInfos operation
  | .backtrace _ | .symbolInfos _ => s

/-- The number of entries of a thread id. -/
def Session.count (s : Session) (threadId : UInt64) : Nat := s.entries.countP fun infos => infos.threadId = threadId

@[simp] theorem Session.modify_current (s : Session) (k : Option Nat) (change : ThreadInfos → ThreadInfos) :
    (s.modify k change).current = s.current := by
  cases k <;> rfl

@[simp] theorem Session.modify_stale (s : Session) (k : Option Nat) (change : ThreadInfos → ThreadInfos) :
    (s.modify k change).stale = s.stale := by
  cases k <;> rfl

@[simp] theorem Session.modify_alive (s : Session) (k : Option Nat) (change : ThreadInfos → ThreadInfos) :
    (s.modify k change).alive = s.alive := by
  funext threadId
  rw [Session.alive, Session.alive, modify_current, modify_stale]

theorem Session.count_eq (s : Session) (threadId : UInt64) :
    s.count threadId = (s.entries.map ThreadInfos.threadId).countP (· = threadId) := by
  rw [Session.count, List.countP_map]
  rfl

/-- A change that leaves the id alone changes no number of entries. -/
theorem Session.modify_count {change : ThreadInfos → ThreadInfos}
    (keeps : ∀ infos, (change infos).threadId = infos.threadId) (s : Session) (k : Option Nat) :
    (s.modify k change).count = s.count := by
  funext threadId
  cases k with
  | none => rfl
  | some k => rw [count_eq, count_eq, Session.modify, map_modify keeps]

theorem Session.append_alive (s : Session) (threadId : UInt64) (tvOperation : Timeval) (other : UInt64) :
    (s.append threadId tvOperation).1.alive other = (s.alive other || decide (threadId = other)) := by
  by_cases same : threadId = other
  · simp [Session.append, Session.alive, same]
  · simp [Session.append, Session.alive, same, Ne.symm same]

theorem Session.append_count (s : Session) (threadId : UInt64) (tvOperation : Timeval) (other : UInt64) :
    (s.append threadId tvOperation).1.count other = s.count other + if threadId = other then 1 else 0 := by
  by_cases same : threadId = other <;> simp [Session.append, Session.count, same]

/-- An id that is alive and not created anew keeps its entry, if any. -/
theorem Session.getThreadInfos_alive_self {s : Session} {threadId : UInt64} (alive : s.alive threadId)
    (tvOperation : Timeval) : s.getThreadInfos threadId false tvOperation = (s, s.current threadId) := by
  unfold Session.getThreadInfos
  cases current : s.current threadId with
  | some k => rfl
  | none =>
    have stale : s.stale threadId = true := by simpa [Session.alive, current] using alive
    simp [stale]

/-- A thread gets a new entry when it is created, or when its id is not alive. -/
theorem Session.getThreadInfos_effect (s : Session) (threadId : UInt64) (threadCreation : Bool)
    (tvOperation : Timeval) (other : UInt64) :
    (s.getThreadInfos threadId threadCreation tvOperation).1.alive other =
        (s.alive other || decide (threadId = other)) ∧
      (s.getThreadInfos threadId threadCreation tvOperation).1.count other =
        s.count other + if threadId = other ∧ (threadCreation || !s.alive other) then 1 else 0 := by
  by_cases keeps : s.alive threadId ∧ threadCreation = false
  · obtain ⟨alive, rfl⟩ := keeps
    rw [getThreadInfos_alive_self alive]
    constructor
    · by_cases same : threadId = other
      · simp [← same, alive]
      · simp [same]
    · by_cases same : threadId = other
      · simp [← same, alive]
      · simp [same]
  · have new : threadId = other → (threadCreation || !s.alive other) = true := by
      rintro rfl
      cases threadCreation with
      | true => rfl
      | false => simpa using keeps
    have condition : (threadId = other ∧ (threadCreation || !s.alive other) = true) = (threadId = other) :=
      propext (and_iff_left_of_imp new)
    simp only [condition]
    unfold Session.getThreadInfos
    cases current : s.current threadId with
    | none =>
      have appends : ¬ (s.stale threadId = true ∧ threadCreation = false) := by
        simpa [Session.alive, current] using keeps
      simp only [if_neg appends]
      exact ⟨append_alive s threadId tvOperation other, append_count s threadId tvOperation other⟩
    | some k =>
      have created : threadCreation = true := by simpa [Session.alive, current] using keeps
      simp only [created, if_true]
      have retired := modify_count (ThreadInfos.terminate_threadId tvOperation) s (some k)
      have alive := append_alive (s.modify (some k) (ThreadInfos.terminate tvOperation)) threadId tvOperation other
      have count := append_count (s.modify (some k) (ThreadInfos.terminate tvOperation)) threadId tvOperation other
      rw [modify_alive] at alive
      rw [retired] at count
      exact ⟨alive, count⟩

/-- The free of a block of an id that is alive changes one entry at most. -/
theorem Session.updateThreadInfosAddFree_alive {s : Session} {threadId : UInt64} (alive : s.alive threadId)
    (allocMsgNum : UInt32) (size : UInt64) (tvOperation : Timeval) :
    ∃ k, s.updateThreadInfosAddFree threadId allocMsgNum size tvOperation = s.modify k (ThreadInfos.addFree size) := by
  unfold Session.updateThreadInfosAddFree
  split
  · exact ⟨none, rfl⟩
  · split
    · next k found => exact ⟨some k, rfl⟩
    · rw [getThreadInfos_alive_self alive]
      exact ⟨s.current threadId, rfl⟩

theorem Session.afterFree_modify {s : Session} {freed : Option MemoryOperation}
    (freedAlive : ∀ operation, freed = some operation → s.alive operation.callerThreadId) (tvOperation : Timeval) :
    ∃ k change, (∀ infos, (change infos).threadId = infos.threadId) ∧
      s.afterFree freed tvOperation = s.modify k change := by
  cases freed with
  | none => exact ⟨none, id, fun _ => rfl, rfl⟩
  | some freed =>
    obtain ⟨k, result⟩ := updateThreadInfosAddFree_alive (freedAlive freed rfl) freed.msgNum freed.allocSize tvOperation
    exact ⟨k, ThreadInfos.addFree freed.allocSize, ThreadInfos.addFree_threadId _, result⟩

/-- What a call does to the ids that are alive and to the numbers of entries, where
    the operation that it frees belongs to an id that is alive. -/
theorem Session.handle_effect {s : Session} {freed : Option MemoryOperation}
    (freedAlive : ∀ operation, freed = some operation → s.alive operation.callerThreadId) (call : Callback)
    (threadId : UInt64) :
    (s.handle freed call).alive threadId = (s.alive threadId || decide (subject call = some threadId)) ∧
      (call ≠ .newConnection → (s.handle freed call).count threadId = s.count threadId +
        if subject call = some threadId ∧ (creates call || !s.alive threadId) then 1 else 0) := by
  cases call with
  | newConnection => simp [Session.handle, Session.clear, Session.alive, subject]
  | backtrace backtrace => simp [Session.handle, subject]
  | symbolInfos symbolInfos => simp [Session.handle, subject]
  | threadOperation operation =>
    have effect := s.getThreadInfos_effect operation.threadId (operation.msgCode = .pthreadCreate)
      operation.tvOperation threadId
    have keeps := ThreadInfos.applyOperation_threadId operation
    simp only [Session.handle, Session.updateThreadInfos, modify_alive, modify_count keeps, subject, creates,
      Option.some.injEq]
    exact ⟨effect.1, fun _ => effect.2⟩
  | memoryOperation operation =>
    obtain ⟨k, change, keeps, afterFree⟩ := afterFree_modify freedAlive operation.tvOperation
    simp only [Session.handle, Session.addMemoryOperation, afterFree]
    by_cases alloc : operation.allocPtr ≠ 0
    · have effect := (s.modify k change).getThreadInfos_effect operation.callerThreadId false operation.tvOperation
        threadId
      have keeps' := ThreadInfos.addAlloc_threadId operation.msgNum operation.allocSize
      rw [modify_alive, modify_count keeps] at effect
      simp only [if_pos alloc, Session.updateThreadInfosAddAlloc, modify_alive, modify_count keeps', subject, creates,
        Option.some.injEq]
      exact ⟨effect.1, fun _ => effect.2⟩
    · simp [alloc, modify_count keeps, subject]

end Aleakd.ThreadSessions
