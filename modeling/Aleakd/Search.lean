import Aleakd.SessionTotals

/-!
The search over the operations of a session, `onFilterButtonClicked`, which adds up
the statistics of what it finds anew, beside those that are kept message by message.
-/
namespace Aleakd.Search
open Aleakd.Messages Aleakd.Operations Aleakd.OperationList Aleakd.Stats Aleakd.ApplicationWindow Aleakd.Framing
open Aleakd.SessionTotals

/-! ## The search -/

/-- `timercmp(a, b, <)` -/
def timerLt (a b : Timeval) : Bool :=
  if a.tvSec = b.tvSec then decide (a.tvUsec < b.tvUsec) else decide (a.tvSec < b.tvSec)

/-- `timercmp(a, b, >)` -/
def timerGt (a b : Timeval) : Bool := timerLt b a

/-- What the widgets of the list view ask for; a thread id or a time of 0 asks for
    nothing. -/
structure Criteria where
  threadId : UInt64
  tvMin : Timeval
  tvMax : Timeval
  notFreed : Bool

/-- No criterion. -/
def Criteria.none : Criteria := ⟨0, ⟨0, 0⟩, ⟨0, 0⟩, false⟩

/-- `bAccept` for an operation. -/
def Criteria.accepts (criteria : Criteria) (operation : MemoryOperation) : Bool :=
  !(criteria.notFreed && (operation.msgCode = .free || operation.freed)) &&
  !(decide (0 < criteria.threadId) && operation.callerThreadId ≠ criteria.threadId) &&
  !(Timeval.isSet criteria.tvMin && timerLt operation.tvOperation criteria.tvMin) &&
  !(Timeval.isSet criteria.tvMax && timerGt operation.tvOperation criteria.tvMax)

theorem accepts_iff (criteria : Criteria) (operation : MemoryOperation) :
    criteria.accepts operation = true ↔
      ¬ (criteria.notFreed = true ∧ (operation.msgCode = .free ∨ operation.freed = true)) ∧
      ¬ (0 < criteria.threadId ∧ operation.callerThreadId ≠ criteria.threadId) ∧
      ¬ (Timeval.isSet criteria.tvMin = true ∧ timerLt operation.tvOperation criteria.tvMin = true) ∧
      ¬ (Timeval.isSet criteria.tvMax = true ∧ timerGt operation.tvOperation criteria.tvMax = true) := by
  rw [Criteria.accepts]
  simp only [Bool.and_eq_true, Bool.not_eq_true', ← Bool.not_eq_true, Bool.or_eq_true, decide_eq_true_eq, and_assoc]

/-- The sizes of an operation that the search accepts. -/
def addSizes (s : MemoryStats) (operation : MemoryOperation) : MemoryStats :=
  let remaining := s.totalRemainingSize + operation.allocSize
  let s := { s with
    memoryOperationCount := s.memoryOperationCount + 1
    totalAllocSize := s.totalAllocSize + operation.allocSize
    totalRemainingSize := remaining
    peakRemainingSize := larger s.peakRemainingSize remaining }
  if operation.freed then
    { s with
      totalFreeSize := s.totalFreeSize + operation.allocSize
      totalRemainingSize := s.totalRemainingSize - operation.allocSize }
  else s

/-- What the search adds for an operation that it accepts; its `switch` is that of
    `addMemoryOperation`. -/
def addFound (s : MemoryStats) (operation : MemoryOperation) : MemoryStats :=
  let s := (addSizes s operation).countCode operation
  { s with totalRemainingCount := s.totalAllocCount - s.totalFreeCount }

/-- The loop over `m_listMemoryOperation`. -/
def search (criteria : Criteria) (objects : List MemoryOperation) (s : MemoryStats) : MemoryStats × List Nat :=
  objects.zipIdx.foldl (fun (s, found) (operation, i) =>
    if criteria.accepts operation then (addFound s operation, found ++ [i]) else (s, found)) (s, [])

def onFilterButtonClicked (c : Controller) (criteria : Criteria) : Controller :=
  let (searchStats, listFilterMemoryOperation) :=
    search criteria c.operations.listMemoryOperation c.searchStats.reset
  { c with searchStats, listFilterMemoryOperation }

/-! ## The view -/

/-- The rows of `QMemoryStatsView` that `onTimerUpdate` fills for the search and for
    the session. -/
inductive DataItem where
  | opCount
  | totalAllocCount
  | totalAllocSize
  | totalFreeCount
  | totalFreeSize
  | totalRemainingCount
  | totalRemainingSize
  | malloc
  | calloc
  | realloc
  | free
  | posixMemalign
  | alignedAlloc
  | memalign
  | valloc
  | pvalloc

/-- The number in a row. -/
def displayed (s : MemoryStats) : DataItem → Int
  | .opCount => s.memoryOperationCount.toInt
  | .totalAllocCount => s.totalAllocCount.toInt
  | .totalAllocSize => s.totalAllocSize.toNat
  | .totalFreeCount => s.totalFreeCount.toInt
  | .totalFreeSize => s.totalFreeSize.toNat
  | .totalRemainingCount => s.totalRemainingCount.toInt
  | .totalRemainingSize => s.totalRemainingSize.toNat
  | .malloc => s.mallocCount.toInt
  | .calloc => s.callocCount.toInt
  | .realloc => s.reallocCount.toInt
  | .free => s.freeCount.toInt
  | .posixMemalign => s.posixMemalignCount.toInt
  | .alignedAlloc => s.alignedAllocCount.toInt
  | .memalign => s.memAlignCount.toInt
  | .valloc => s.vAllocCount.toInt
  | .pvalloc => s.pVAllocCount.toInt

/-- Statistics of the same operations show the same. -/
theorem displayed_eq {objects : List MemoryOperation} {s s' : MemoryStats} (totalled : Totalled objects s)
    (totalled' : Totalled objects s') (item : DataItem) : displayed s item = displayed s' item := by
  have count : ∀ which, counter s which = counter s' which := by
    intro which
    rw [totalled.counted, totalled'.counted]
  cases item with
  | opCount => rw [displayed, displayed, totalled.operations, totalled'.operations]
  | totalAllocSize => rw [displayed, displayed, totalled.allocSize, totalled'.allocSize]
  | totalFreeSize => rw [displayed, displayed, totalled.freeSize, totalled'.freeSize]
  | totalRemainingSize => rw [displayed, displayed, totalled.remainingSize, totalled'.remainingSize]
  | totalRemainingCount =>
    have alloc : s.totalAllocCount = s'.totalAllocCount := count .totalAlloc
    have free : s.totalFreeCount = s'.totalFreeCount := count .totalFree
    rw [displayed, displayed, totalled.remaining, totalled'.remaining, alloc, free]
  | totalAllocCount => exact congrArg Int32.toInt (count .totalAlloc)
  | totalFreeCount => exact congrArg Int32.toInt (count .totalFree)
  | malloc => exact congrArg Int32.toInt (count .malloc)
  | calloc => exact congrArg Int32.toInt (count .calloc)
  | realloc => exact congrArg Int32.toInt (count .realloc)
  | free => exact congrArg Int32.toInt (count .free)
  | posixMemalign => exact congrArg Int32.toInt (count .posixMemalign)
  | alignedAlloc => exact congrArg Int32.toInt (count .alignedAlloc)
  | memalign => exact congrArg Int32.toInt (count .memAlign)
  | valloc => exact congrArg Int32.toInt (count .vAlloc)
  | pvalloc => exact congrArg Int32.toInt (count .pVAlloc)

/-! ## What the search adds up -/

theorem addFound_counter (s : MemoryStats) (operation : MemoryOperation) (which : Counter) :
    counter (addFound s operation) which = counter s which + if counts which operation then 1 else 0 := by
  have before : counter (addSizes s operation) which = counter s which := by
    rw [addSizes]
    split <;> cases which <;> rfl
  rw [← before, ← countCode_counter, addFound]
  cases which <;> rfl

theorem addFound_totalled {objects : List MemoryOperation} {s : MemoryStats} (totalled : Totalled objects s)
    (operation : MemoryOperation) : Totalled (objects ++ [operation]) (addFound s operation) := by
  obtain ⟨count, alloc, free⟩ := countCode_sizes (addSizes s operation) operation
  have remaining := MemoryStats.countCode_remaining (addSizes s operation) operation
  constructor
  case operations =>
    refine count.trans (Eq.trans (b := s.memoryOperationCount + 1) ?_ ?_)
    · rw [addSizes]
      split <;> rfl
    · rw [totalled.operations, List.length_append, Int32.ofNat_add]
      rfl
  case counted =>
    intro which
    rw [addFound_counter, totalled.counted, List.countP_append, List.countP_singleton, Int32.ofNat_add]
    split <;> rfl
  case remaining => rfl
  case allocSize =>
    refine alloc.trans (Eq.trans (b := s.totalAllocSize + operation.allocSize) ?_ ?_)
    · rw [addSizes]
      split <;> rfl
    · rw [totalled.allocSize, List.map_append, List.sum_append, List.map_singleton, List.sum_singleton]
  case freeSize =>
    refine free.trans ?_
    rw [addSizes, freedSum, List.filter_append, List.map_append, List.sum_append, ← freedSum, ← totalled.freeSize]
    cases freed : operation.freed <;> simp [freed]
  case remainingSize =>
    refine remaining.trans ?_
    rw [addSizes, unfreedSum, List.filter_append, List.map_append, List.sum_append, ← unfreedSum,
      ← totalled.remainingSize]
    cases freed : operation.freed <;> simp [freed]

theorem search_append (criteria : Criteria) (objects : List MemoryOperation) (operation : MemoryOperation)
    (s : MemoryStats) :
    search criteria (objects ++ [operation]) s =
      if criteria.accepts operation then
        (addFound (search criteria objects s).1 operation, (search criteria objects s).2 ++ [objects.length])
      else search criteria objects s := by
  rw [search, List.zipIdx_append, List.foldl_append, Nat.zero_add]
  rfl

/-- The search finds what the criteria accept, in order, and adds just that up. -/
theorem search_spec (criteria : Criteria) (objects : List MemoryOperation) {s : MemoryStats} (zero : Totalled [] s) :
    Totalled (objects.filter criteria.accepts) (search criteria objects s).1 ∧
      (search criteria objects s).2 =
        (List.range objects.length).filter fun i => objects[i]?.any criteria.accepts := by
  induction objects using List.reverseRecOn with
  | nil => exact ⟨zero, rfl⟩
  | append_singleton objects operation ih =>
    obtain ⟨totalled, found⟩ := ih
    have before : (List.range objects.length).filter (fun i => (objects ++ [operation])[i]?.any criteria.accepts) =
        (search criteria objects s).2 := by
      rw [found]
      apply List.filter_congr
      intro i member
      rw [List.getElem?_append_left (List.mem_range.mp member)]
    have last : (objects ++ [operation])[objects.length]?.any criteria.accepts = criteria.accepts operation := by simp
    have positions : (List.range (objects ++ [operation]).length).filter
        (fun i => (objects ++ [operation])[i]?.any criteria.accepts) =
        (search criteria objects s).2 ++ if criteria.accepts operation then [objects.length] else [] := by
      rw [List.length_append, List.length_singleton, List.range_succ, List.filter_append, before, List.filter_singleton,
        last]
      cases criteria.accepts operation <;> rfl
    rw [search_append, positions, List.filter_append]
    cases accepted : criteria.accepts operation with
    | true =>
      rw [List.filter_cons_of_pos accepted, List.filter_nil]
      exact ⟨addFound_totalled totalled operation, rfl⟩
    | false =>
      rw [List.filter_cons_of_neg (by simp [accepted]), List.filter_nil, List.append_nil]
      exact ⟨totalled, (List.append_nil _).symm⟩

/-! ## Every reachable state -/

/-- What happens to the controller: a message comes in, or the user searches. -/
inductive Event where
  | message (message : Message)
  | search (criteria : Criteria)

def perform (c : Controller) : Event → Controller
  | .message message => c.handle (handlerCall message)
  | .search criteria => onFilterButtonClicked c criteria

/-- The controller after messages and searches. -/
def afterEvents (events : List Event) : Controller := events.foldl perform Controller.fresh

theorem afterEvents_totalled (events : List Event) :
    Totalled (afterEvents events).operations.listMemoryOperation (afterEvents events).globalStats := by
  induction events using List.reverseRecOn with
  | nil => exact reset_totalled MemoryStats.zero
  | append_singleton events event ih =>
    rw [afterEvents, List.foldl_append]
    cases event with
    | message message => exact handle_totalled ih message
    | search criteria => exact ih

theorem accepts_none (operation : MemoryOperation) : Criteria.none.accepts operation = true := by
  simp [accepts_iff, Criteria.none, Timeval.isSet]

/-- In every state that messages and searches lead to, a search without criteria lists
    every operation in order, and shows in each row what the session shows. -/
theorem search_recomputes (events : List Event) :
    let c := afterEvents events
    let searched := onFilterButtonClicked c Criteria.none
    searched.listFilterMemoryOperation = List.range c.operations.listMemoryOperation.length ∧
    searched.operations = c.operations ∧
    ∀ item, displayed searched.searchStats item = displayed searched.globalStats item := by
  intro c searched
  obtain ⟨totalled, found⟩ := search_spec Criteria.none c.operations.listMemoryOperation
    (reset_totalled c.searchStats)
  refine ⟨?_, rfl, ?_⟩
  · refine found.trans (List.filter_eq_self.mpr ?_)
    intro i member
    rw [List.getElem?_eq_getElem (List.mem_range.mp member), Option.any_some, accepts_none]
  · intro item
    have all : c.operations.listMemoryOperation.filter Criteria.none.accepts = c.operations.listMemoryOperation :=
      List.filter_eq_self.mpr fun operation _ => accepts_none operation
    rw [all] at totalled
    exact displayed_eq totalled (afterEvents_totalled events) item

end Aleakd.Search
