import Aleakd.Operations
import Aleakd.TakeLast

/-!
The memory operations of a session, `server/Model/MemoryOperation.cpp`, and the
lists of `QApplicationWindowController` that refer to them. The objects are kept
in `m_listMemoryOperation`; a shared pointer to one is its position there.
-/
namespace Aleakd.OperationList
open Aleakd.Messages Aleakd.Operations Aleakd.TakeLast

structure OperationLists where
  listMemoryOperation : List MemoryOperation
  listMemoryOperationNonFreed : List Nat
  listMemoryOperationWithoutBacktrace : List Nat

def OperationLists.empty : OperationLists := ⟨[], [], []⟩

/-- `MemoryOperation::hasAllocOperation` -/
def MemoryOperation.hasAllocOperation (operation : MemoryOperation) : Bool :=
  operation.msgCode ∈ MsgCode.memory

/-- The test of `takeByPtrNotFreed`. -/
def allocatedAt (objects : List MemoryOperation) (ptrAddr : UInt64) (i : Nat) : Bool :=
  objects[i]?.any fun operation => operation.allocPtr = ptrAddr && !operation.freed

/-- `MemoryOperationList::takeByPtrNotFreed` -/
def takeByPtrNotFreed (objects : List MemoryOperation) (list : List Nat) (ptrAddr : UInt64) :
    Option (Nat × List Nat) :=
  takeLast (allocatedAt objects ptrAddr) list

/-- `MemoryOperationList::takeByMsgNum` -/
def takeByMsgNum (objects : List MemoryOperation) (list : List Nat) (msgNum : UInt32) : Option (Nat × List Nat) :=
  takeLast (fun i => objects[i]?.any fun operation => operation.msgNum = msgNum) list

/-- `m_bFreed = true` for one object. -/
def markFreed (objects : List MemoryOperation) (i : Nat) : List MemoryOperation :=
  objects.modify i fun operation => { operation with freed := true }

/-- The first lines of `addMemoryOperation`: the operation that is freed is taken
    from the list of those not freed and marked. -/
def OperationLists.free (l : OperationLists) (freePtr : UInt64) : OperationLists × Option MemoryOperation :=
  if freePtr ≠ 0 then
    match takeByPtrNotFreed l.listMemoryOperation l.listMemoryOperationNonFreed freePtr with
    | some (i, left) =>
      ({ l with
        listMemoryOperation := markFreed l.listMemoryOperation i
        listMemoryOperationNonFreed := left }, l.listMemoryOperation[i]?)
    | none => (l, none)
  else (l, none)

/-- The lines that put the operation itself into the lists. -/
def OperationLists.append (l : OperationLists) (operation : MemoryOperation) : OperationLists :=
  let i := l.listMemoryOperation.length
  { listMemoryOperation := l.listMemoryOperation ++ [operation]
    listMemoryOperationNonFreed :=
      if MemoryOperation.hasAllocOperation operation then l.listMemoryOperationNonFreed ++ [i]
      else l.listMemoryOperationNonFreed
    listMemoryOperationWithoutBacktrace := l.listMemoryOperationWithoutBacktrace ++ [i] }

/-- The part of `QApplicationWindowController::addMemoryOperation` about the lists,
    with the operation that it frees. -/
def OperationLists.addMemoryOperation (l : OperationLists) (operation : MemoryOperation) :
    OperationLists × Option MemoryOperation :=
  let (l, freed) := l.free operation.freePtr
  (l.append operation, freed)

/-- The part of `QApplicationWindowController::addBacktrace` about the lists. -/
def OperationLists.addBacktrace (l : OperationLists) (backtrace : Backtrace) : OperationLists :=
  match takeByMsgNum l.listMemoryOperation l.listMemoryOperationWithoutBacktrace backtrace.originMsgNum.toUInt32 with
  | some (i, left) =>
    { l with
      listMemoryOperation := l.listMemoryOperation.modify i fun operation => { operation with backTrace := backtrace }
      listMemoryOperationWithoutBacktrace := left }
  | none => l

/-! ## The list of operations not freed -/

theorem addMemoryOperation_list (l : OperationLists) (operation : MemoryOperation) :
    (l.addMemoryOperation operation).1.listMemoryOperation =
      (l.free operation.freePtr).1.listMemoryOperation ++ [operation] := rfl

theorem mem_modify {objects : List MemoryOperation} {change : MemoryOperation → MemoryOperation} {i : Nat}
    {operation : MemoryOperation} (member : operation ∈ objects.modify i change) :
    operation ∈ objects ∨ ∃ before ∈ objects, operation = change before := by
  obtain ⟨j, object⟩ := List.mem_iff_getElem?.mp member
  rw [List.getElem?_modify] at object
  obtain ⟨before, origin, rfl⟩ := Option.map_eq_some_iff.mp object
  have old := List.mem_of_getElem? origin
  by_cases here : i = j
  · exact .inr ⟨before, old, by simp [here]⟩
  · exact .inl (by simpa [here] using old)

/-- The operation at `i` has an allocation code and is not freed. -/
def isOpen (objects : List MemoryOperation) (i : Nat) : Bool :=
  objects[i]?.any fun operation => MemoryOperation.hasAllocOperation operation && !operation.freed

/-- The positions of the open operations, in order. -/
def openOperations (objects : List MemoryOperation) : List Nat :=
  (List.range objects.length).filter (isOpen objects)

/-- The list of operations not freed is the list of open operations. -/
def Indexed (l : OperationLists) : Prop := l.listMemoryOperationNonFreed = openOperations l.listMemoryOperation

theorem mem_openOperations {objects : List MemoryOperation} {i : Nat} :
    i ∈ openOperations objects ↔ isOpen objects i = true := by
  simp only [openOperations, List.mem_filter, List.mem_range, and_iff_right_iff_imp]
  intro isOpen'
  by_contra beyond
  rw [isOpen, List.getElem?_eq_none (Nat.not_lt.mp beyond)] at isOpen'
  cases isOpen'

theorem openOperations_nodup (objects : List MemoryOperation) : (openOperations objects).Nodup :=
  List.nodup_range.filter _

theorem empty_indexed : Indexed OperationLists.empty := rfl

/-- An operation that comes in is open exactly when it has an allocation code. -/
theorem openOperations_append {objects : List MemoryOperation} {operation : MemoryOperation}
    (fresh : operation.freed = false) :
    openOperations (objects ++ [operation]) =
      if MemoryOperation.hasAllocOperation operation then openOperations objects ++ [objects.length]
      else openOperations objects := by
  have before : (List.range objects.length).filter (isOpen (objects ++ [operation])) = openOperations objects := by
    apply List.filter_congr
    intro i member
    rw [isOpen, isOpen, List.getElem?_append_left (List.mem_range.mp member)]
  have last : isOpen (objects ++ [operation]) objects.length = MemoryOperation.hasAllocOperation operation := by
    simp [isOpen, fresh]
  rw [openOperations, List.length_append, List.length_singleton, List.range_succ, List.filter_append, before,
    List.filter_singleton, last]
  cases MemoryOperation.hasAllocOperation operation <;> simp

/-- Marking an operation as freed closes it, and no other. -/
theorem openOperations_markFreed (objects : List MemoryOperation) (i : Nat) :
    openOperations (markFreed objects i) = (openOperations objects).filter (· ≠ i) := by
  rw [openOperations, openOperations, markFreed, List.length_modify, List.filter_filter]
  apply List.filter_congr
  intro j _
  rw [isOpen, isOpen, List.getElem?_modify]
  by_cases same : i = j
  · subst same
    cases objects[i]? <;> simp
  · have other : j ≠ i := fun equal => same equal.symm
    cases objects[j]? <;> simp [same, other]

/-- What freeing a pointer does: nothing, where no open operation has allocated it;
    otherwise it marks the last one that has. -/
inductive FreeEffect (l : OperationLists) (freePtr : UInt64) : OperationLists × Option MemoryOperation → Prop where
  | nothing (absent : freePtr = 0 ∨ ∀ i ∈ l.listMemoryOperationNonFreed,
      allocatedAt l.listMemoryOperation freePtr i = false) : FreeEffect l freePtr (l,none)
  | marked (i : Nat) (left : List Nat) (operation : MemoryOperation) (given : freePtr ≠ 0)
      (member : i ∈ l.listMemoryOperationNonFreed)
      (found : l.listMemoryOperation[i]? = some operation) (pointer : operation.allocPtr = freePtr)
      (notFreed : operation.freed = false)
      (taken : takeByPtrNotFreed l.listMemoryOperation l.listMemoryOperationNonFreed freePtr = some (i,left)) :
      FreeEffect l freePtr
        ({ l with
          listMemoryOperation := markFreed l.listMemoryOperation i
          listMemoryOperationNonFreed := left }, operation)

theorem free_effect (l : OperationLists) (freePtr : UInt64) : FreeEffect l freePtr (l.free freePtr) := by
  unfold OperationLists.free
  by_cases zero : freePtr = 0
  · rw [if_neg (by simp [zero])]
    exact .nothing (.inl zero)
  · rw [if_pos zero]
    cases taken : takeByPtrNotFreed l.listMemoryOperation l.listMemoryOperationNonFreed freePtr with
    | none => exact .nothing (.inr (takeLast_none.mp taken))
    | some result =>
      obtain ⟨i, left⟩ := result
      have holds := takeLast_test taken
      unfold allocatedAt at holds
      cases found : l.listMemoryOperation[i]? with
      | none =>
        rw [found] at holds
        cases holds
      | some operation =>
        simp only [found, Option.any_some, Bool.and_eq_true, decide_eq_true_eq, Bool.not_eq_eq_eq_not,
          Bool.not_true] at holds
        show FreeEffect l freePtr (_, l.listMemoryOperation[i]?)
        rw [found]
        exact .marked i left operation zero (takeLast_mem taken) found holds.1 holds.2 taken

/-- What is freed had allocated the pointer, and was not freed before. -/
theorem free_taken {l : OperationLists} {freePtr : UInt64} {freed : MemoryOperation}
    (taken : (l.free freePtr).2 = some freed) :
    freed ∈ l.listMemoryOperation ∧ freed.freed = false ∧ freed.allocPtr = freePtr ∧ freePtr ≠ 0 := by
  have effect := free_effect l freePtr
  generalize l.free freePtr = result at effect taken
  cases effect with
  | nothing => cases taken
  | marked i left operation given member found pointer notFreed =>
    cases taken
    exact ⟨List.mem_of_getElem? found, notFreed, pointer, given⟩

theorem free_indexed {l : OperationLists} (indexed : Indexed l) (freePtr : UInt64) :
    Indexed (l.free freePtr).1 := by
  have effect := free_effect l freePtr
  generalize l.free freePtr = result at effect ⊢
  cases effect with
  | nothing => exact indexed
  | marked i left operation given member found pointer notFreed taken =>
    have distinct : l.listMemoryOperationNonFreed.Nodup := by
      rw [indexed]
      exact openOperations_nodup _
    show left = openOperations _
    rw [takeLast_left distinct taken, indexed, openOperations_markFreed]

theorem append_indexed {l : OperationLists} (indexed : Indexed l) {operation : MemoryOperation}
    (fresh : operation.freed = false) : Indexed (l.append operation) := by
  show (if _ then _ else _) = openOperations (l.listMemoryOperation ++ [operation])
  rw [openOperations_append fresh, indexed]

/-- What holds of all operations and does not depend on the flag stays. -/
theorem addMemoryOperation_forall {P : MemoryOperation → Prop}
    (flag : ∀ operation, P operation → P { operation with freed := true }) {l : OperationLists}
    {operation : MemoryOperation} (all : ∀ other ∈ l.listMemoryOperation, P other) (last : P operation) :
    ∀ other ∈ (l.addMemoryOperation operation).1.listMemoryOperation, P other := by
  intro other member
  have either : other ∈ (l.free operation.freePtr).1.listMemoryOperation ++ [operation] := member
  rcases List.mem_append.mp either with old | new
  · have effect := free_effect l operation.freePtr
    generalize l.free operation.freePtr = result at effect old
    cases effect with
    | nothing => exact all other old
    | marked i left found _ _ _ _ _ _ =>
      rcases mem_modify old with old | ⟨before, origin, rfl⟩
      · exact all other old
      · exact flag before (all before origin)
  · rw [List.mem_singleton.mp new]
    exact last

/-- Where all operations have an allocation code, they keep it. -/
theorem addMemoryOperation_coded {l : OperationLists} {operation : MemoryOperation}
    (coded : ∀ other ∈ l.listMemoryOperation, MemoryOperation.hasAllocOperation other)
    (last : MemoryOperation.hasAllocOperation operation) :
    ∀ other ∈ (l.addMemoryOperation operation).1.listMemoryOperation, MemoryOperation.hasAllocOperation other :=
  addMemoryOperation_forall (fun _ coded => coded) coded last

/-- The list of operations not freed stays the list of open operations. -/
theorem addMemoryOperation_indexed {l : OperationLists} (indexed : Indexed l) {operation : MemoryOperation}
    (fresh : operation.freed = false) : Indexed (l.addMemoryOperation operation).1 :=
  append_indexed (free_indexed indexed operation.freePtr) fresh

/-- What a backtrace changes in the lists: one operation gets it, if any. -/
theorem addBacktrace_effect (l : OperationLists) (backtrace : Backtrace) :
    (l.addBacktrace backtrace).listMemoryOperationNonFreed = l.listMemoryOperationNonFreed ∧
      ((l.addBacktrace backtrace).listMemoryOperation = l.listMemoryOperation ∨
        ∃ i, (l.addBacktrace backtrace).listMemoryOperation =
          l.listMemoryOperation.modify i fun operation => { operation with backTrace := backtrace }) := by
  unfold OperationLists.addBacktrace
  split
  · next i left taken => exact ⟨rfl, .inr ⟨i, rfl⟩⟩
  · exact ⟨rfl, .inl rfl⟩

theorem openOperations_backTrace (objects : List MemoryOperation) (i : Nat) (backtrace : Backtrace) :
    openOperations (objects.modify i fun operation => { operation with backTrace := backtrace }) =
      openOperations objects := by
  rw [openOperations, openOperations, List.length_modify]
  apply List.filter_congr
  intro j _
  rw [isOpen, isOpen, List.getElem?_modify]
  by_cases same : i = j
  · cases objects[j]? <;> simp [same, MemoryOperation.hasAllocOperation]
  · simp [same]

theorem addBacktrace_indexed {l : OperationLists} (indexed : Indexed l) (backtrace : Backtrace) :
    Indexed (l.addBacktrace backtrace) := by
  obtain ⟨positions, same | ⟨i, changed⟩⟩ := addBacktrace_effect l backtrace
  · rw [Indexed, positions, same, indexed]
  · rw [Indexed, positions, changed, openOperations_backTrace, indexed]

end Aleakd.OperationList
