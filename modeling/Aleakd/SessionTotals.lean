import Aleakd.Controller
import Aleakd.Framing
import Aleakd.ListSums
import Mathlib.Data.UInt

/-!
What the totals of a session say about its memory operations. The sizes and counts
of `m_globalStats` go up and down with each message; they are sums over
`m_listMemoryOperation` all the same, by the flags that its operations have by then.
-/
namespace Aleakd.SessionTotals
open Aleakd.Messages Aleakd.Operations Aleakd.OperationList Aleakd.Stats Aleakd.ApplicationWindow Aleakd.Framing
open Aleakd.ListSums

/-- The controller after messages of any kind. -/
def afterStream (messages : List Message) : Controller := Controller.fresh.handleAll (messages.map handlerCall)

/-! ## Sums over the operations -/

section
variable {G : Type} [AddCommGroup G]

/-- The sum of an amount over the operations that are marked as freed. -/
def freedSum (amount : MemoryOperation → G) (objects : List MemoryOperation) : G :=
  ((objects.filter fun operation => operation.freed).map amount).sum

/-- The sum over those that are not. -/
def unfreedSum (amount : MemoryOperation → G) (objects : List MemoryOperation) : G :=
  ((objects.filter fun operation => !operation.freed).map amount).sum

/-- All operations are of one kind or the other. -/
theorem freedSum_add_unfreedSum (amount : MemoryOperation → G) (objects : List MemoryOperation) :
    freedSum amount objects + unfreedSum amount objects = (objects.map amount).sum := by
  induction objects with
  | nil => exact add_zero 0
  | cons operation rest ih =>
    rw [freedSum, unfreedSum] at ih ⊢
    rw [List.map_cons, List.sum_cons, ← ih]
    cases freed : operation.freed with
    | true => simp [freed, add_assoc]
    | false => simp [freed, add_left_comm]

/-- A change of one operation that keeps its flag. -/
theorem sums_modify (amount : MemoryOperation → G) (change : MemoryOperation → MemoryOperation)
    (flag : ∀ operation, (change operation).freed = operation.freed)
    (keeps : ∀ operation, amount (change operation) = amount operation) (objects : List MemoryOperation) (i : Nat) :
    (objects.modify i change).map amount = objects.map amount ∧
      freedSum amount (objects.modify i change) = freedSum amount objects ∧
      unfreedSum amount (objects.modify i change) = unfreedSum amount objects := by
  refine ⟨map_modify keeps objects i, ?_, ?_⟩
  · rw [freedSum, freedSum, sum_filter, sum_filter, map_modify]
    intro operation
    rw [flag, keeps]
  · rw [unfreedSum, unfreedSum, sum_filter, sum_filter, map_modify]
    intro operation
    rw [flag, keeps]

/-- What is freed goes over from the one sum to the other. -/
theorem free_sums {amount : MemoryOperation → G}
    (keeps : ∀ operation, amount { operation with freed := true } = amount operation) (l : OperationLists)
    (freePtr : UInt64) :
    freedSum amount (l.free freePtr).1.listMemoryOperation =
        freedSum amount l.listMemoryOperation + ((l.free freePtr).2.map amount).getD 0 ∧
      unfreedSum amount (l.free freePtr).1.listMemoryOperation =
        unfreedSum amount l.listMemoryOperation - ((l.free freePtr).2.map amount).getD 0 := by
  have effect := free_effect l freePtr
  generalize l.free freePtr = result at effect ⊢
  cases effect with
  | nothing => exact ⟨(add_zero _).symm, (sub_zero _).symm⟩
  | marked i left operation given member found pointer notFreed taken =>
    constructor
    · rw [markFreed, freedSum, sum_filter, sum_modify found, ← sum_filter]
      simp [notFreed, keeps, freedSum]
    · rw [markFreed, unfreedSum, sum_filter, sum_modify found, ← sum_filter]
      simp [notFreed, unfreedSum, sub_eq_add_neg]

theorem free_modify (l : OperationLists) (freePtr : UInt64) :
    (l.free freePtr).1.listMemoryOperation = l.listMemoryOperation ∨
      ∃ i, (l.free freePtr).1.listMemoryOperation = markFreed l.listMemoryOperation i := by
  have effect := free_effect l freePtr
  generalize l.free freePtr = result at effect ⊢
  cases effect with
  | nothing => exact .inl rfl
  | marked i => exact .inr ⟨i, rfl⟩

theorem free_length (l : OperationLists) (freePtr : UInt64) :
    (l.free freePtr).1.listMemoryOperation.length = l.listMemoryOperation.length := by
  rcases free_modify l freePtr with same | ⟨i, marked⟩
  · rw [same]
  · rw [marked, markFreed, List.length_modify]

theorem free_map {A : Type} {f : MemoryOperation → A}
    (keeps : ∀ operation, f { operation with freed := true } = f operation) (l : OperationLists) (freePtr : UInt64) :
    (l.free freePtr).1.listMemoryOperation.map f = l.listMemoryOperation.map f := by
  rcases free_modify l freePtr with same | ⟨i, marked⟩
  · rw [same]
  · rw [marked, markFreed, map_modify keeps]

theorem free_countP {test : MemoryOperation → Bool}
    (keeps : ∀ operation, test { operation with freed := true } = test operation) (l : OperationLists)
    (freePtr : UInt64) : (l.free freePtr).1.listMemoryOperation.countP test = l.listMemoryOperation.countP test := by
  rcases free_modify l freePtr with same | ⟨i, marked⟩
  · rw [same]
  · rw [marked, markFreed, countP_modify keeps]

/-- What a memory operation does to the sums, given the operation that it frees. -/
theorem addMemoryOperation_sums (amount : MemoryOperation → G)
    (keeps : ∀ operation, amount { operation with freed := true } = amount operation) (l : OperationLists)
    {operation : MemoryOperation} (fresh : operation.freed = false) :
    freedSum amount (l.addMemoryOperation operation).1.listMemoryOperation =
        freedSum amount l.listMemoryOperation + ((l.addMemoryOperation operation).2.map amount).getD 0 ∧
      unfreedSum amount (l.addMemoryOperation operation).1.listMemoryOperation =
        unfreedSum amount l.listMemoryOperation + amount operation -
          ((l.addMemoryOperation operation).2.map amount).getD 0 := by
  obtain ⟨freed, unfreed⟩ := free_sums keeps l operation.freePtr
  have taken : (l.addMemoryOperation operation).2 = (l.free operation.freePtr).2 := rfl
  rw [addMemoryOperation_list, taken]
  constructor
  · rw [← freed]
    simp [freedSum, fresh]
  · rw [add_sub_right_comm, ← unfreed]
    simp [unfreedSum, fresh]

end

/-! ## The counters -/

/-- The counters that the `switch` over the code moves. -/
inductive Counter where
  | totalAlloc
  | totalFree
  | malloc
  | calloc
  | realloc
  | free
  | posixMemalign
  | alignedAlloc
  | memAlign
  | vAlloc
  | pVAlloc
deriving DecidableEq

def counter (s : MemoryStats) : Counter → Int32
  | .totalAlloc => s.totalAllocCount
  | .totalFree => s.totalFreeCount
  | .malloc => s.mallocCount
  | .calloc => s.callocCount
  | .realloc => s.reallocCount
  | .free => s.freeCount
  | .posixMemalign => s.posixMemalignCount
  | .alignedAlloc => s.alignedAllocCount
  | .memAlign => s.memAlignCount
  | .vAlloc => s.vAllocCount
  | .pVAlloc => s.pVAllocCount

/-- The operation has the code of a function that allocates. -/
def allocates (operation : MemoryOperation) : Bool :=
  MemoryOperation.hasAllocOperation operation && operation.msgCode ≠ .free

/-- The operation says that it gives up a block. -/
def releases (operation : MemoryOperation) : Bool :=
  operation.msgCode = .free || operation.msgCode = .realloc && operation.freePtr ≠ 0

/-- The counter counts the operation. -/
def counts : Counter → MemoryOperation → Bool
  | .totalAlloc, operation => allocates operation
  | .totalFree, operation => releases operation
  | .malloc, operation => operation.msgCode = .malloc
  | .calloc, operation => operation.msgCode = .calloc
  | .realloc, operation => operation.msgCode = .realloc
  | .free, operation => operation.msgCode = .free
  | .posixMemalign, operation => operation.msgCode = .posixMemalign
  | .alignedAlloc, operation => operation.msgCode = .alignedAlloc
  | .memAlign, operation => operation.msgCode = .memalign
  | .vAlloc, operation => operation.msgCode = .valloc
  | .pVAlloc, operation => operation.msgCode = .pvalloc

theorem countCode_counter (s : MemoryStats) (operation : MemoryOperation) (c : Counter) :
    counter (s.countCode operation) c = counter s c + if counts c operation then 1 else 0 := by
  cases code : operation.msgCode <;> cases c <;>
    simp [MemoryStats.countCode, counter, counts, allocates, releases, MemoryOperation.hasAllocOperation,
      MsgCode.memory, code]
  -- a `realloc` counts as a free unless its pointer is NULL
  by_cases zero : operation.freePtr = 0 <;> simp [zero]

/-- The rest of the statistics does not see the code. -/
theorem countCode_sizes (s : MemoryStats) (operation : MemoryOperation) :
    (s.countCode operation).memoryOperationCount = s.memoryOperationCount ∧
      (s.countCode operation).totalAllocSize = s.totalAllocSize ∧
      (s.countCode operation).totalFreeSize = s.totalFreeSize := by
  unfold MemoryStats.countCode
  split <;> exact ⟨rfl, rfl, rfl⟩

/-- What one operation adds to the statistics, given the operation that it frees. -/
theorem addMemoryOperation_stats (s : MemoryStats) (operation : MemoryOperation) (freed : Option MemoryOperation) :
    (s.addMemoryOperation operation freed).memoryOperationCount = s.memoryOperationCount + 1 ∧
      (s.addMemoryOperation operation freed).totalAllocSize = s.totalAllocSize + operation.allocSize ∧
      (s.addMemoryOperation operation freed).totalFreeSize = s.totalFreeSize + freedSize freed ∧
      ∀ which, counter (s.addMemoryOperation operation freed) which =
        counter s which + if counts which operation then 1 else 0 := by
  obtain ⟨count, alloc, free⟩ := countCode_sizes (((s.addAlloc operation).addFree freed).updateUsage operation) operation
  have before : ∀ which, counter (((s.addAlloc operation).addFree freed).updateUsage operation) which =
      counter s which := by
    intro which
    cases freed <;> cases which <;> rfl
  refine ⟨?_, ?_, ?_, ?_⟩
  · refine count.trans ?_
    cases freed <;> rfl
  · refine alloc.trans ?_
    cases freed <;> rfl
  · refine free.trans ?_
    cases freed with
    | none => exact (UInt64.add_zero _).symm
    | some freed => rfl
  · intro which
    rw [← before, ← countCode_counter]
    cases which <;> rfl

/-- The counters count operations, and the sizes are sums over them. -/
structure Totalled (objects : List MemoryOperation) (s : MemoryStats) : Prop where
  operations : s.memoryOperationCount = Int32.ofNat objects.length
  counted : ∀ which, counter s which = Int32.ofNat (objects.countP (counts which))
  remaining : s.totalRemainingCount = s.totalAllocCount - s.totalFreeCount
  allocSize : s.totalAllocSize = (objects.map MemoryOperation.allocSize).sum
  freeSize : s.totalFreeSize = freedSum MemoryOperation.allocSize objects
  remainingSize : s.totalRemainingSize = unfreedSum MemoryOperation.allocSize objects

theorem reset_totalled (s : MemoryStats) : Totalled [] s.reset where
  operations := rfl
  counted which := by cases which <;> rfl
  remaining := show (0 : Int32) = 0 - 0 by decide
  allocSize := rfl
  freeSize := rfl
  remainingSize := rfl

theorem addMemoryOperation_totalled {l : OperationLists} {s : MemoryStats} (totalled : Totalled l.listMemoryOperation s)
    {operation : MemoryOperation} (fresh : operation.freed = false) :
    Totalled (l.addMemoryOperation operation).1.listMemoryOperation
      (s.addMemoryOperation operation (l.addMemoryOperation operation).2) := by
  obtain ⟨count, alloc, free, counters⟩ := addMemoryOperation_stats s operation (l.addMemoryOperation operation).2
  obtain ⟨freed, unfreed⟩ := addMemoryOperation_sums MemoryOperation.allocSize (fun _ => rfl) l fresh
  constructor
  case operations =>
    rw [count, totalled.operations, addMemoryOperation_list, List.length_append, free_length, List.length_singleton, Int32.ofNat_add]
    rfl
  case counted =>
    intro which
    rw [counters, totalled.counted, addMemoryOperation_list, List.countP_append, free_countP, List.countP_singleton,
      Int32.ofNat_add]
    · split <;> rfl
    · intro operation
      cases which <;> rfl
  case remaining => rfl
  case allocSize =>
    rw [alloc, totalled.allocSize, ← freedSum_add_unfreedSum, ← freedSum_add_unfreedSum, freed, unfreed]
    abel
  case freeSize =>
    rw [free, totalled.freeSize, freed]
    rfl
  case remainingSize =>
    rw [MemoryStats.addMemoryOperation_remaining, totalled.remainingSize, unfreed]
    rfl

theorem addBacktrace_totalled {l : OperationLists} {s : MemoryStats} (totalled : Totalled l.listMemoryOperation s)
    (backtrace : Backtrace) : Totalled (l.addBacktrace backtrace).listMemoryOperation s := by
  obtain ⟨_, same | ⟨i, changed⟩⟩ := addBacktrace_effect l backtrace
  · rw [same]
    exact totalled
  · rw [changed]
    obtain ⟨list, freed, unfreed⟩ := sums_modify MemoryOperation.allocSize
      (fun operation => { operation with backTrace := some backtrace }) (fun _ => rfl) (fun _ => rfl)
      l.listMemoryOperation i
    constructor
    case operations => rw [List.length_modify, totalled.operations]
    case counted =>
      intro which
      rw [totalled.counted, countP_modify]
      intro operation
      cases which <;> rfl
    case remaining => exact totalled.remaining
    case allocSize => rw [totalled.allocSize, list]
    case freeSize => rw [totalled.freeSize, freed]
    case remainingSize => rw [totalled.remainingSize, unfreed]

/-! ## The flags -/

/-- What a message frees was not freed before. -/
theorem free_unfreed {l : OperationLists} {operation freed : MemoryOperation}
    (taken : (l.addMemoryOperation operation).2 = some freed) :
    freed ∈ l.listMemoryOperation ∧ freed.freed = false := by
  obtain ⟨member, notFreed, _⟩ := free_taken taken
  exact ⟨member, notFreed⟩

/-- What is freed stays freed for the rest of the session. -/
theorem handle_keeps_freed {c : Controller} {message : Message} (session : handlerCall message ≠ .newConnection)
    {i : Nat} {operation : MemoryOperation} (object : c.operations.listMemoryOperation[i]? = some operation)
    (freed : operation.freed = true) :
    ∃ operation', (c.handle (handlerCall message)).operations.listMemoryOperation[i]? = some operation' ∧
      operation'.freed = true := by
  cases message with
  | app header => exact absurd rfl session
  | thread | symbolInfos => exact ⟨operation, object, freed⟩
  | backtrace header data =>
    obtain ⟨_, same | ⟨j, changed⟩⟩ := addBacktrace_effect c.operations
      ⟨data.originMsgNum.toInt32, data.listAddr.val.take data.backtraceSize.toNat⟩
    · exact ⟨operation, (congrArg (·[i]?) same).trans object, freed⟩
    · refine ⟨_, (congrArg (·[i]?) changed).trans ((List.getElem?_modify ..).trans (congrArg _ object)), ?_⟩
      split <;> exact freed
  | memory header data =>
    have inside := (List.getElem?_eq_some_iff.mp object).1
    show ∃ operation', ((c.operations.free data.freePtr).1.listMemoryOperation ++ [_])[i]? = _ ∧ _
    rw [List.getElem?_append_left (by rw [free_length]; exact inside)]
    rcases free_modify c.operations data.freePtr with same | ⟨j, marked⟩
    · exact ⟨operation, by rw [same, object], freed⟩
    · rw [marked, markFreed, List.getElem?_modify, object]
      refine ⟨_, rfl, ?_⟩
      split
      · rfl
      · exact freed

/-! ## Operations that allocate -/

/-- Operations with the code of an allocation function, of which `free` allocates
    nothing. -/
structure Kept (l : OperationLists) : Prop where
  indexed : Indexed l
  coded : ∀ operation ∈ l.listMemoryOperation, MemoryOperation.hasAllocOperation operation
  free : ∀ operation ∈ l.listMemoryOperation, operation.msgCode = .free → operation.allocPtr = 0

theorem empty_kept : Kept OperationLists.empty where
  indexed := empty_indexed
  coded := by simp [OperationLists.empty]
  free := by simp [OperationLists.empty]

theorem addMemoryOperation_kept {l : OperationLists} (kept : Kept l) {operation : MemoryOperation}
    (fresh : operation.freed = false) (coded : MemoryOperation.hasAllocOperation operation)
    (free : operation.msgCode = .free → operation.allocPtr = 0) : Kept (l.addMemoryOperation operation).1 where
  indexed := addMemoryOperation_indexed kept.indexed fresh
  coded := addMemoryOperation_coded kept.coded coded
  free := addMemoryOperation_forall (fun _ free => free) kept.free free

/-- An operation with a block allocates. -/
theorem kept_allocates {l : OperationLists} (kept : Kept l) {operation : MemoryOperation}
    (member : operation ∈ l.listMemoryOperation) (given : operation.allocPtr ≠ 0) : allocates operation = true := by
  have notFree : operation.msgCode ≠ .free := fun free => given (kept.free operation member free)
  simp [allocates, kept.coded operation member, notFree]

/-- What a message frees allocates. -/
theorem freed_allocates {l : OperationLists} (kept : Kept l) {operation freed : MemoryOperation}
    (taken : (l.addMemoryOperation operation).2 = some freed) : allocates freed = true := by
  obtain ⟨member, _, pointer, given⟩ := free_taken taken
  apply kept_allocates kept member
  rw [pointer]
  exact given

/-! ## Every reachable state -/

theorem countMessage_totalled {objects : List MemoryOperation} {s : MemoryStats} (totalled : Totalled objects s) :
    Totalled objects s.countMessage where
  operations := totalled.operations
  counted which := by
    rw [← totalled.counted which]
    cases which <;> rfl
  remaining := totalled.remaining
  allocSize := totalled.allocSize
  freeSize := totalled.freeSize
  remainingSize := totalled.remainingSize

theorem handle_totalled {c : Controller} (totalled : Totalled c.operations.listMemoryOperation c.globalStats)
    (message : Message) :
    Totalled (c.handle (handlerCall message)).operations.listMemoryOperation
      (c.handle (handlerCall message)).globalStats := by
  cases message with
  | app header => exact countMessage_totalled (reset_totalled c.globalStats)
  | memory header data => exact addMemoryOperation_totalled totalled rfl
  | thread header data => exact countMessage_totalled totalled
  | backtrace header data => exact countMessage_totalled (addBacktrace_totalled totalled _)
  | symbolInfos header data => exact countMessage_totalled totalled

theorem afterStream_append (messages : List Message) (message : Message) :
    afterStream (messages ++ [message]) = (afterStream messages).handle (handlerCall message) := by
  simp [afterStream, Controller.handleAll_append]

theorem afterStream_totalled (messages : List Message) :
    Totalled (afterStream messages).operations.listMemoryOperation (afterStream messages).globalStats := by
  induction messages using List.reverseRecOn with
  | nil => exact reset_totalled MemoryStats.zero
  | append_singleton messages message ih =>
    rw [afterStream_append]
    exact handle_totalled ih message

/-- After any messages, the sizes are the sums over the operations of the session, over
    those that are freed and over the others; and a message frees no operation that is
    freed already, and un-frees none. -/
theorem totals_conserved (messages : List Message) :
    let c := afterStream messages
    let objects := c.operations.listMemoryOperation
    c.globalStats.totalAllocSize = (objects.map MemoryOperation.allocSize).sum ∧
    c.globalStats.totalFreeSize =
      ((objects.filter fun operation => operation.freed).map MemoryOperation.allocSize).sum ∧
    c.globalStats.totalRemainingSize =
      ((objects.filter fun operation => !operation.freed).map MemoryOperation.allocSize).sum ∧
    c.globalStats.totalAllocSize = c.globalStats.totalFreeSize + c.globalStats.totalRemainingSize ∧
    (∀ operation freed, (c.operations.addMemoryOperation operation).2 = some freed →
      freed ∈ objects ∧ freed.freed = false) ∧
    ∀ message, handlerCall message ≠ .newConnection → ∀ (i : Nat) operation, objects[i]? = some operation →
      operation.freed = true → ∃ operation',
        (afterStream (messages ++ [message])).operations.listMemoryOperation[i]? = some operation' ∧
          operation'.freed = true := by
  have totalled := afterStream_totalled messages
  refine ⟨totalled.allocSize, totalled.freeSize, totalled.remainingSize, ?_, ?_, ?_⟩
  · rw [totalled.allocSize, totalled.freeSize, totalled.remainingSize, freedSum_add_unfreedSum]
  · intro operation freed taken
    exact free_unfreed taken
  · intro message session i operation object freed
    rw [afterStream_append]
    exact handle_keeps_freed session object freed

end Aleakd.SessionTotals
