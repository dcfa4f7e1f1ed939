import Aleakd.Controller

/-!
The most bytes that the blocks of the captured programs ever held, from the
messages alone: each message adds what it allocates before it takes off what it
frees. `m_iPeakRemainingSize` is this number over all sessions.
-/
namespace Aleakd.HighWater
open Aleakd.Messages Aleakd.Operations Aleakd.OperationList Aleakd.Stats Aleakd.ApplicationWindow Aleakd.TakeLast

/-- Address, size and thread of the operations not freed, in the order of their
    messages; their bytes; and the most that these came to. -/
structure Tally where
  unfreed : List (UInt64 × UInt64 × UInt64)
  remaining : UInt64
  high : UInt64

def Tally.zero : Tally := ⟨[], 0, 0⟩

/-- The last block at an address, and the others. -/
def Tally.take (t : Tally) (pointer : UInt64) :
    Option ((UInt64 × UInt64 × UInt64) × List (UInt64 × UInt64 × UInt64)) :=
  if pointer = 0 then none else takeLast (fun block => block.1 = pointer) t.unfreed

/-- What an operation comes in with. -/
def blockOf (operation : MemoryOperation) : UInt64 × UInt64 × UInt64 :=
  (operation.allocPtr, operation.allocSize, operation.callerThreadId)

def Tally.addMemoryOperation (t : Tally) (operation : MemoryOperation) : Tally :=
  let taken := t.take operation.freePtr
  let left := (taken.map fun result => result.2).getD t.unfreed
  { unfreed :=
      if MemoryOperation.hasAllocOperation operation then left ++ [blockOf operation] else left
    remaining := t.remaining + operation.allocSize - (taken.map fun result => result.1.2.1).getD 0
    high := larger t.high (t.remaining + operation.allocSize) }

def Tally.handle (t : Tally) : Callback → Tally
  | .newConnection => { Tally.zero with high := t.high }
  | .memoryOperation operation => t.addMemoryOperation operation
  | .threadOperation _ | .backtrace _ | .symbolInfos _ => t

/-- The most bytes that the calls report as held at once. -/
def highWater (calls : List Callback) : UInt64 := (calls.foldl Tally.handle Tally.zero).high

/-! ## The tally of a controller -/

/-- The block of the operation at a position. -/
def blockAt (objects : List MemoryOperation) (i : Nat) : Option (UInt64 × UInt64 × UInt64) :=
  objects[i]?.map blockOf

structure Tallied (c : Controller) (t : Tally) : Prop where
  indexed : Indexed c.operations
  unfreed : c.operations.listMemoryOperationNonFreed.map (blockAt c.operations.listMemoryOperation) =
    t.unfreed.map some
  remaining : c.globalStats.totalRemainingSize = t.remaining
  high : c.globalStats.peakRemainingSize = t.high

theorem fresh_tallied : Tallied Controller.fresh Tally.zero := ⟨empty_indexed, rfl, rfl, rfl⟩

theorem blockAt_modify {objects : List MemoryOperation} (change : MemoryOperation → MemoryOperation)
    (keeps : ∀ operation, blockOf (change operation) = blockOf operation) (i j : Nat) :
    blockAt (objects.modify i change) j = blockAt objects j := by
  rw [blockAt, blockAt, List.getElem?_modify]
  cases objects[j]? with
  | none => rfl
  | some operation =>
    by_cases here : i = j
    · simp [here, keeps]
    · simp [here]

/-- Both search the same blocks. -/
theorem take_map {l : OperationLists} {t : Tally} (indexed : Indexed l)
    (unfreed : l.listMemoryOperationNonFreed.map (blockAt l.listMemoryOperation) = t.unfreed.map some)
    {pointer : UInt64} (given : pointer ≠ 0) :
    (takeByPtrNotFreed l.listMemoryOperation l.listMemoryOperationNonFreed pointer).map
        (fun (i, left) => (blockAt l.listMemoryOperation i, left.map (blockAt l.listMemoryOperation))) =
      (t.take pointer).map fun (block, left) => (some block, left.map some) := by
  have test : ∀ i ∈ l.listMemoryOperationNonFreed, allocatedAt l.listMemoryOperation pointer i =
      (blockAt l.listMemoryOperation i).any fun block => block.1 = pointer := by
    intro i member
    rw [indexed, mem_openOperations, isOpen] at member
    rw [allocatedAt, blockAt]
    cases object : l.listMemoryOperation[i]? with
    | none => rfl
    | some operation =>
      simp only [object, Option.any_some, Bool.and_eq_true, Bool.not_eq_eq_eq_not, Bool.not_true] at member
      simp [member.2, blockOf]
  have position := takeLast_map (fun block => block.any fun block => block.1 = pointer)
    (blockAt l.listMemoryOperation) l.listMemoryOperationNonFreed
  have block := takeLast_map (fun block : Option (UInt64 × UInt64 × UInt64) => block.any fun block => block.1 = pointer)
    some t.unfreed
  rw [unfreed] at position
  rw [takeByPtrNotFreed, takeLast_congr test, Tally.take, if_neg given]
  exact position.symm.trans block

/-- What is freed, and what is left of the blocks. -/
theorem free_tallied {l : OperationLists} {t : Tally} (indexed : Indexed l)
    (unfreed : l.listMemoryOperationNonFreed.map (blockAt l.listMemoryOperation) = t.unfreed.map some)
    (freePtr : UInt64) :
    freedSize (l.free freePtr).2 = ((t.take freePtr).map fun result => result.1.2.1).getD 0 ∧
      (l.free freePtr).1.listMemoryOperationNonFreed.map (blockAt (l.free freePtr).1.listMemoryOperation) =
        (((t.take freePtr).map fun result => result.2).getD t.unfreed).map some := by
  by_cases zero : freePtr = 0
  · have none : t.take freePtr = none := if_pos zero
    rw [none, OperationLists.free, if_neg (not_not_intro zero)]
    exact ⟨rfl, unfreed⟩
  · have both := take_map indexed unfreed zero
    rw [OperationLists.free, if_pos zero]
    cases taken : takeByPtrNotFreed l.listMemoryOperation l.listMemoryOperationNonFreed freePtr with
    | none =>
      rw [taken, Option.map_none, eq_comm, Option.map_eq_none_iff] at both
      rw [both]
      exact ⟨rfl, unfreed⟩
    | some result =>
      obtain ⟨i, left⟩ := result
      rw [taken, Option.map_some, eq_comm, Option.map_eq_some_iff] at both
      obtain ⟨⟨block, left'⟩, take, same⟩ := both
      obtain ⟨object, rest⟩ := Prod.mk.inj same
      rw [take]
      refine ⟨?_, ?_⟩
      · obtain ⟨operation, found, rfl⟩ := Option.map_eq_some_iff.mp object.symm
        show freedSize l.listMemoryOperation[i]? = operation.allocSize
        rw [found]
        rfl
      · show left.map (blockAt (markFreed l.listMemoryOperation i)) = left'.map some
        rw [rest]
        apply List.map_congr_left
        intro j _
        exact blockAt_modify (fun operation => { operation with freed := true }) (fun _ => rfl) i j

/-- The operation itself comes last. -/
theorem append_tallied {l : OperationLists} {left : List (UInt64 × UInt64 × UInt64)} (indexed : Indexed l)
    (unfreed : l.listMemoryOperationNonFreed.map (blockAt l.listMemoryOperation) = left.map some)
    (operation : MemoryOperation) :
    (l.append operation).listMemoryOperationNonFreed.map (blockAt (l.append operation).listMemoryOperation) =
      (if MemoryOperation.hasAllocOperation operation then left ++ [blockOf operation] else left).map some := by
  have old : l.listMemoryOperationNonFreed.map (blockAt (l.listMemoryOperation ++ [operation])) = left.map some := by
    rw [← unfreed]
    apply List.map_congr_left
    intro i member
    rw [indexed] at member
    rw [blockAt, blockAt, List.getElem?_append_left (List.mem_range.mp (List.mem_filter.mp member).1)]
  have last : blockAt (l.listMemoryOperation ++ [operation]) l.listMemoryOperation.length =
      some (blockOf operation) := by
    simp [blockAt]
  show (if _ then _ else _ : List Nat).map (blockAt (l.listMemoryOperation ++ [operation])) = _
  by_cases alloc : MemoryOperation.hasAllocOperation operation = true
  · rw [if_pos alloc, if_pos alloc, List.map_append, List.map_append, old, List.map_singleton, last]
    rfl
  · rw [if_neg alloc, if_neg alloc, old]

theorem addMemoryOperation_tallied {c : Controller} {t : Tally} (tallied : Tallied c t) {operation : MemoryOperation}
    (fresh : operation.freed = false) :
    Tallied (c.addMemoryOperation operation) (t.addMemoryOperation operation) := by
  obtain ⟨size, left⟩ := free_tallied tallied.indexed tallied.unfreed operation.freePtr
  have indexed := free_indexed tallied.indexed operation.freePtr
  constructor
  case indexed => exact addMemoryOperation_indexed tallied.indexed fresh
  case unfreed => exact append_tallied indexed left operation
  case remaining =>
    show (c.globalStats.addMemoryOperation operation (c.operations.free operation.freePtr).2).totalRemainingSize = _
    rw [MemoryStats.addMemoryOperation_remaining, size, tallied.remaining]
    rfl
  case high =>
    show (c.globalStats.addMemoryOperation operation (c.operations.free operation.freePtr).2).peakRemainingSize = _
    rw [MemoryStats.addMemoryOperation_peak, tallied.remaining, tallied.high]
    rfl

/-- A call that brings no operation marked as freed; the server makes no other. -/
def Fresh : Callback → Prop
  | .memoryOperation operation => operation.freed = false
  | .newConnection | .threadOperation _ | .backtrace _ | .symbolInfos _ => True

theorem addBacktrace_tallied {c : Controller} {t : Tally} (tallied : Tallied c t) (backtrace : Backtrace) :
    Tallied (c.addBacktrace backtrace) t := by
  refine ⟨addBacktrace_indexed tallied.indexed backtrace, ?_, tallied.remaining, tallied.high⟩
  obtain ⟨positions, same | ⟨i, changed⟩⟩ := addBacktrace_effect c.operations backtrace
  · rw [Controller.addBacktrace, positions, same, tallied.unfreed]
  · rw [Controller.addBacktrace, positions, changed, ← tallied.unfreed]
    apply List.map_congr_left
    intro j _
    exact blockAt_modify (fun operation => { operation with backTrace := backtrace }) (fun _ => rfl) i j

theorem handle_tallied {c : Controller} {t : Tally} (tallied : Tallied c t) {call : Callback} (fresh : Fresh call) :
    Tallied (c.handle call) (t.handle call) := by
  cases call with
  | newConnection => exact ⟨empty_indexed, rfl, rfl, tallied.high⟩
  | memoryOperation operation => exact addMemoryOperation_tallied tallied fresh
  | threadOperation operation => exact ⟨tallied.indexed, tallied.unfreed, tallied.remaining, tallied.high⟩
  | backtrace backtrace => exact addBacktrace_tallied tallied backtrace
  | symbolInfos symbolInfos => exact ⟨tallied.indexed, tallied.unfreed, tallied.remaining, tallied.high⟩

theorem handleAll_tallied {calls : List Callback} (fresh : ∀ call ∈ calls, Fresh call) {c : Controller} {t : Tally}
    (tallied : Tallied c t) : Tallied (c.handleAll calls) (calls.foldl Tally.handle t) := by
  induction calls generalizing c t with
  | nil => exact tallied
  | cons call rest ih =>
    have next := handle_tallied tallied (fresh call List.mem_cons_self)
    exact ih (fun later member => fresh later (List.mem_cons_of_mem call member)) next

/-- The peak that the server shows is the high water of all calls, over all sessions. -/
theorem peakRemainingSize_eq {calls : List Callback} (fresh : ∀ call ∈ calls, Fresh call) :
    (Controller.fresh.handleAll calls).globalStats.peakRemainingSize = highWater calls :=
  (handleAll_tallied fresh fresh_tallied).high

/-! ## The high water of several sessions -/

theorem larger_assoc (a b c : UInt64) : larger (larger a b) c = larger a (larger b c) := by
  unfold larger
  grind

theorem larger_eq_right {a b : UInt64} : larger a b = b ↔ a ≤ b := by
  unfold larger
  grind

theorem handle_high (t : Tally) (high : UInt64) (call : Callback) :
    { t with high := larger high t.high }.handle call =
      { t.handle call with high := larger high (t.handle call).high } := by
  cases call with
  | newConnection | threadOperation | backtrace | symbolInfos => rfl
  | memoryOperation operation => simp [Tally.handle, Tally.addMemoryOperation, Tally.take, larger_assoc]

theorem foldl_high (calls : List Callback) (t : Tally) (high : UInt64) :
    (calls.foldl Tally.handle { t with high := larger high t.high }).high =
      larger high (calls.foldl Tally.handle t).high := by
  induction calls generalizing t with
  | nil => rfl
  | cons call rest ih => rw [List.foldl_cons, List.foldl_cons, handle_high, ih]

@[simp] theorem highWater_newConnection (calls : List Callback) :
    highWater (.newConnection :: calls) = highWater calls := rfl

/-- After a new connection, the high water of the earlier sessions stands until it is
    passed. -/
theorem highWater_append (first second : List Callback) :
    highWater (first ++ .newConnection :: second) = larger (highWater first) (highWater second) := by
  have start : (first.foldl Tally.handle Tally.zero).handle .newConnection =
      { Tally.zero with high := larger (highWater first) Tally.zero.high } := by
    have least : larger (highWater first) 0 = highWater first := by simp [larger]
    rw [Tally.handle, show Tally.zero.high = 0 from rfl, least]
    rfl
  rw [highWater, List.foldl_append, List.foldl_cons, start, foldl_high]
  rfl

end Aleakd.HighWater
