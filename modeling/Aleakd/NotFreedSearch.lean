import Aleakd.NonFreed
import Aleakd.Search

/-!
The search with the box for operations not freed checked. It lists what remains, but
counts it by the codes, and a `realloc` that gave up a block counts as a free there.
-/
namespace Aleakd.NotFreedSearch
open Aleakd.Messages Aleakd.Operations Aleakd.OperationList Aleakd.Stats Aleakd.ApplicationWindow Aleakd.Framing
open Aleakd.ListSums Aleakd.SessionTotals Aleakd.Search Aleakd.NonFreed

/-- The criteria of a thread and a range of times, with the box checked. -/
def notFreedCriteria (threadId : UInt64) (tvMin tvMax : Timeval) : Criteria := ⟨threadId, tvMin, tvMax, true⟩

/-- The operation allocates, is not freed, and is one of the thread and the times. -/
def remains (threadId : UInt64) (tvMin tvMax : Timeval) (operation : MemoryOperation) : Bool :=
  allocates operation && !operation.freed && (⟨threadId, tvMin, tvMax, false⟩ : Criteria).accepts operation

/-- The search lists what remains, and its figures are those of the list. -/
structure Consistent (c : Controller) (threadId : UInt64) (tvMin tvMax : Timeval) : Prop where
  listed : (onFilterButtonClicked c (notFreedCriteria threadId tvMin tvMax)).listFilterMemoryOperation =
    (List.range c.operations.listMemoryOperation.length).filter fun i =>
      c.operations.listMemoryOperation[i]?.any (remains threadId tvMin tvMax)
  freeSize : (onFilterButtonClicked c (notFreedCriteria threadId tvMin tvMax)).searchStats.totalFreeSize = 0
  remainingSize : (onFilterButtonClicked c (notFreedCriteria threadId tvMin tvMax)).searchStats.totalRemainingSize.toNat =
    ((c.operations.listMemoryOperation.filter (remains threadId tvMin tvMax)).map fun operation =>
      operation.allocSize.toNat).sum
  remainingCount : (onFilterButtonClicked c (notFreedCriteria threadId tvMin tvMax)).searchStats.totalRemainingCount.toInt =
    (c.operations.listMemoryOperation.filter (remains threadId tvMin tvMax)).length

/-- What remains was not moved from another block; and its number and size fit. -/
def Unmoved (c : Controller) (threadId : UInt64) (tvMin tvMax : Timeval) : Prop :=
  (∀ operation ∈ c.operations.listMemoryOperation, remains threadId tvMin tvMax operation →
    operation.msgCode = .realloc → operation.freePtr = 0) ∧
  (c.operations.listMemoryOperation.filter (remains threadId tvMin tvMax)).length < 2 ^ 31 ∧
  ((c.operations.listMemoryOperation.filter (remains threadId tvMin tvMax)).map fun operation =>
    operation.allocSize.toNat).sum < 2 ^ 64

/-! ## Operations of the library -/

/-- The memory messages have the code of an allocation function, 11 to 19. -/
def FromLibrary : Message → Prop
  | .memory header data => Coded (header, data)
  | .app _ | .thread _ _ | .backtrace _ _ | .symbolInfos _ _ => True

theorem afterEvents_coded {events : List Event} (built : ∀ message, .message message ∈ events → FromLibrary message) :
    ∀ operation ∈ (afterEvents events).operations.listMemoryOperation,
      MemoryOperation.hasAllocOperation operation = true := by
  induction events using List.reverseRecOn with
  | nil => simp [afterEvents, Controller.fresh, OperationLists.empty]
  | append_singleton events event ih =>
    have before := ih fun message member => built message (List.mem_append_left _ member)
    rw [afterEvents, List.foldl_append, ← afterEvents]
    cases event with
    | search criteria => exact before
    | message message =>
      have built' := built message (by simp)
      cases message with
      | app => simp [perform, handlerCall, Controller.handle, Controller.onNewConnection, Controller.clearData,
          OperationLists.empty]
      | thread | symbolInfos => exact before
      | memory header data => exact addMemoryOperation_coded before (coded_operation built')
      | backtrace header data =>
        intro operation member
        obtain ⟨_, same | ⟨i, changed⟩⟩ := addBacktrace_effect (afterEvents events).operations
          ⟨data.originMsgNum.toInt32, data.listAddr.val.take data.backtraceSize.toNat⟩
        · exact before operation (same ▸ member)
        · have either : operation ∈ (afterEvents events).operations.listMemoryOperation.modify i _ := changed ▸ member
          rcases mem_modify either with old | ⟨origin, old, rfl⟩
          · exact before operation old
          · exact before origin old

/-! ## The figures -/

theorem accepts_notFreed {operation : MemoryOperation} (coded : MemoryOperation.hasAllocOperation operation = true)
    (threadId : UInt64) (tvMin tvMax : Timeval) :
    (notFreedCriteria threadId tvMin tvMax).accepts operation = remains threadId tvMin tvMax operation := by
  rw [Bool.eq_iff_iff, remains, Bool.and_eq_true, accepts_iff, accepts_iff, allocates, coded]
  simp [notFreedCriteria]

theorem remains_allocates {operation : MemoryOperation} {threadId : UInt64} {tvMin tvMax : Timeval}
    (holds : remains threadId tvMin tvMax operation = true) :
    allocates operation = true ∧ operation.freed = false := by
  simp only [remains, Bool.and_eq_true, Bool.not_eq_eq_eq_not, Bool.not_true] at holds
  exact holds.1

/-- What allocates releases a block when it is a `realloc` with one. -/
theorem releases_iff {operation : MemoryOperation} (allocates' : allocates operation = true) :
    releases operation = true ↔ operation.msgCode = .realloc ∧ operation.freePtr ≠ 0 := by
  have notFree : operation.msgCode ≠ .free := by
    intro free
    simp [allocates, free] at allocates'
  simp [releases, notFree]

/-- Statistics over operations that allocate and are not freed: their size is what
    remains, and their count is right exactly when none released a block. -/
theorem figures {objects : List MemoryOperation} {s : MemoryStats} (totalled : Totalled objects s)
    (allocate : ∀ operation ∈ objects, allocates operation = true ∧ operation.freed = false) :
    s.totalFreeSize = 0 ∧
    (s.totalRemainingSize.toNat = (objects.map fun operation => operation.allocSize.toNat).sum ↔
      (objects.map fun operation => operation.allocSize.toNat).sum < 2 ^ 64) ∧
    (s.totalRemainingCount.toInt = objects.length ↔
      (∀ operation ∈ objects, releases operation = false) ∧ objects.length < 2 ^ 31) := by
  have none : objects.filter (fun operation => operation.freed) = [] := by
    rw [List.filter_eq_nil_iff]
    intro operation member
    simp [(allocate operation member).2]
  have all : objects.filter (fun operation => !operation.freed) = objects := by
    rw [List.filter_eq_self]
    intro operation member
    simp [(allocate operation member).2]
  refine ⟨?_, ?_, ?_⟩
  · rw [totalled.freeSize, freedSum, none]
    rfl
  · rw [totalled.remainingSize, unfreedSum, all, sum_toNat, List.map_map]
    exact ⟨fun same => same ▸ Nat.mod_lt _ (by decide), Nat.mod_eq_of_lt⟩
  · have alloc : s.totalAllocCount = Int32.ofNat objects.length := by
      have every : objects.countP (counts .totalAlloc) = objects.length :=
        List.countP_eq_length.mpr fun operation member => (allocate operation member).1
      rw [← every]
      exact totalled.counted .totalAlloc
    have free : s.totalFreeCount = Int32.ofNat (objects.countP releases) := totalled.counted .totalFree
    have fewer : objects.countP releases ≤ objects.length := List.countP_le_length
    have remaining : s.totalRemainingCount = Int32.ofInt (objects.length - objects.countP releases) := by
      rw [totalled.remaining, alloc, free, ← Int32.ofInt_eq_ofNat, ← Int32.ofInt_eq_ofNat, Int32.ofInt_sub]
    have unreleased : (∀ operation ∈ objects, releases operation = false) ↔ objects.countP releases = 0 := by
      simp [List.countP_eq_zero]
    rw [unreleased, remaining, Int32.toInt_ofInt, Int.bmod_def]
    simp only [Int32.size]
    omega

/-- In every state that messages of the library and searches lead to, and for every
    thread and range of times: the search for what is not freed lists just that, and its
    figures are those of the list, if and only if none of it is a `realloc` that released
    a block, and number and size fit. -/
theorem not_freed_consistent_iff (events : List Event)
    (built : ∀ message, .message message ∈ events → FromLibrary message) (threadId : UInt64) (tvMin tvMax : Timeval) :
    Consistent (afterEvents events) threadId tvMin tvMax ↔ Unmoved (afterEvents events) threadId tvMin tvMax := by
  have coded := afterEvents_coded built
  generalize afterEvents events = c at coded
  obtain ⟨totalled, found⟩ := search_spec (notFreedCriteria threadId tvMin tvMax) c.operations.listMemoryOperation
    (reset_totalled c.searchStats)
  have same : c.operations.listMemoryOperation.filter (notFreedCriteria threadId tvMin tvMax).accepts =
      c.operations.listMemoryOperation.filter (remains threadId tvMin tvMax) :=
    List.filter_congr fun operation member => accepts_notFreed (coded operation member) threadId tvMin tvMax
  have positions : (onFilterButtonClicked c (notFreedCriteria threadId tvMin tvMax)).listFilterMemoryOperation =
      (List.range c.operations.listMemoryOperation.length).filter fun i =>
        c.operations.listMemoryOperation[i]?.any (remains threadId tvMin tvMax) := by
    refine found.trans (List.filter_congr ?_)
    intro i _
    cases object : c.operations.listMemoryOperation[i]? with
    | none => rfl
    | some operation => exact accepts_notFreed (coded operation (List.mem_of_getElem? object)) threadId tvMin tvMax
  rw [same] at totalled
  obtain ⟨freeSize, size, count⟩ := figures totalled fun operation member =>
    remains_allocates (List.mem_filter.mp member).2
  have moved : (∀ operation ∈ c.operations.listMemoryOperation, remains threadId tvMin tvMax operation →
      operation.msgCode = .realloc → operation.freePtr = 0) ↔
      ∀ operation ∈ c.operations.listMemoryOperation.filter (remains threadId tvMin tvMax),
        releases operation = false := by
    simp only [List.mem_filter, and_imp, ← Bool.not_eq_true]
    refine forall₃_congr fun operation _ holds => ?_
    rw [releases_iff (remains_allocates holds).1, not_and, not_not]
  rw [Unmoved, moved, ← and_assoc, ← count, ← size]
  constructor
  · rintro ⟨_, _, remainingSize, remainingCount⟩
    exact ⟨remainingCount, remainingSize⟩
  · rintro ⟨remainingCount, remainingSize⟩
    exact ⟨positions, freeSize, remainingSize, remainingCount⟩

/-- Two blocks of two threads, of which one is freed, and the search for one thread. -/
theorem not_freed_consistent_two : Consistent (afterEvents [.message (.memory ⟨1, 0, 7, 1, 11⟩ ⟨100, 4096, 1, 0⟩),
    .message (.memory ⟨2, 0, 8, 2, 14⟩ ⟨50, 8192, 2, 0⟩), .search Criteria.none,
    .message (.memory ⟨3, 0, 8, 3, 12⟩ ⟨0, 0, 0, 4096⟩)]) 8 ⟨0, 0⟩ ⟨5, 0⟩ := by
  refine (not_freed_consistent_iff _ ?_ _ _ _).mpr (by unfold Unmoved; decide +kernel)
  intro message member
  simp only [List.mem_cons, List.not_mem_nil, or_false, Event.message.injEq, reduceCtorEq, false_or] at member
  rcases member with rfl | rfl | rfl <;> unfold FromLibrary Coded <;> decide

/-- A block that was moved is there and counts as nothing. -/
theorem moved_counts_nothing :
    ¬ ∀ events, (∀ message, .message message ∈ events → FromLibrary message) → ∀ threadId tvMin tvMax,
      Consistent (afterEvents events) threadId tvMin tvMax := by
  intro claim
  have count := (claim [.message (.memory ⟨1, 0, 7, 1, 11⟩ ⟨100, 4096, 1, 0⟩),
    .message (.memory ⟨2, 0, 7, 2, 14⟩ ⟨200, 8192, 2, 4096⟩)] ?_ 0 ⟨0, 0⟩ ⟨0, 0⟩).remainingCount
  · revert count
    decide +kernel
  · intro message member
    simp only [List.mem_cons, List.not_mem_nil, or_false, Event.message.injEq] at member
    rcases member with rfl | rfl <;> unfold FromLibrary Coded <;> decide

end Aleakd.NotFreedSearch
