import Aleakd.CountLedger

/-!
The list of operations not freed, "used to speed up the search": what it finds is what
a search through all operations would find, and what it holds is what no message
has freed.
-/
namespace Aleakd.NonFreed
open Aleakd.Messages Aleakd.Operations Aleakd.OperationList Aleakd.ApplicationWindow Aleakd.TakeLast Aleakd.ListSums
open Aleakd.ServerLedger Aleakd.SessionTotals Aleakd.CountLedger Aleakd.WrapperLedger

/-! ## The search through all operations -/

/-- The last operation of the whole list that allocated the pointer and is not freed. -/
def lastNotFreed (objects : List MemoryOperation) (ptrAddr : UInt64) : Option Nat :=
  (List.range objects.length).reverse.find? (allocatedAt objects ptrAddr)

theorem find_reverse_range {test : Nat → Bool} {n i : Nat} :
    (List.range n).reverse.find? test = some i ↔ i < n ∧ test i = true ∧ ∀ j < n, i < j → test j = false := by
  induction n with
  | zero => simp
  | succ n ih =>
    rw [List.range_succ, List.reverse_append, List.reverse_singleton, List.singleton_append, List.find?_cons]
    cases holds : test n with
    | true =>
      constructor
      · intro found
        have same := Option.some.inj found
        subst same
        exact ⟨Nat.lt_succ_self n, holds, fun j below above => by omega⟩
      · rintro ⟨inside, _, last⟩
        rcases Nat.lt_or_ge i n with before | atEnd
        · rw [last n (Nat.lt_succ_self n) before] at holds
          cases holds
        · rw [show i = n by omega]
    | false =>
      rw [ih]
      constructor
      · rintro ⟨inside, passes, last⟩
        refine ⟨Nat.lt_succ_of_lt inside, passes, fun j below above => ?_⟩
        rcases Nat.lt_or_ge j n with before | atEnd
        · exact last j before above
        · rw [show j = n by omega, holds]
      · rintro ⟨inside, passes, last⟩
        have other : i ≠ n := by
          rintro rfl
          rw [holds] at passes
          cases passes
        exact ⟨by omega, passes, fun j below above => last j (Nat.lt_succ_of_lt below) above⟩

/-- It allocated the pointer, is not freed, and no later one is like it. -/
theorem lastNotFreed_iff {objects : List MemoryOperation} {ptrAddr : UInt64} {i : Nat} :
    lastNotFreed objects ptrAddr = some i ↔
      allocatedAt objects ptrAddr i = true ∧ ∀ j, i < j → allocatedAt objects ptrAddr j = false := by
  have beyond : ∀ j, objects.length ≤ j → allocatedAt objects ptrAddr j = false := by
    intro j atLeast
    rw [allocatedAt, List.getElem?_eq_none atLeast, Option.any_none]
  rw [lastNotFreed, find_reverse_range]
  constructor
  · rintro ⟨_, passes, last⟩
    refine ⟨passes, fun j above => ?_⟩
    rcases Nat.lt_or_ge j objects.length with inside | outside
    · exact last j inside above
    · exact beyond j outside
  · rintro ⟨passes, last⟩
    refine ⟨?_, passes, fun j _ above => last j above⟩
    by_contra outside
    rw [beyond i (Nat.not_lt.mp outside)] at passes
    cases passes

/-- The list of operations not freed finds the same operation. -/
theorem takeByPtrNotFreed_eq {l : OperationLists} (indexed : Indexed l)
    (coded : ∀ operation ∈ l.listMemoryOperation, MemoryOperation.hasAllocOperation operation) (ptrAddr : UInt64) :
    (takeByPtrNotFreed l.listMemoryOperation l.listMemoryOperationNonFreed ptrAddr).map Prod.fst =
      lastNotFreed l.listMemoryOperation ptrAddr := by
  rw [takeByPtrNotFreed, takeLast_find, indexed]
  apply find_reverse_filter
  intro i _ allocated
  rw [allocatedAt, Option.any_eq_true] at allocated
  obtain ⟨operation, object, allocated⟩ := allocated
  have code := coded operation (List.mem_of_getElem? object)
  simp only [Bool.and_eq_true] at allocated
  simp [isOpen, object, code, allocated.2]

/-- So what a message frees is the operation that the search finds. -/
theorem free_marks {l : OperationLists} (indexed : Indexed l)
    (coded : ∀ operation ∈ l.listMemoryOperation, MemoryOperation.hasAllocOperation operation) {freePtr : UInt64}
    (given : freePtr ≠ 0) (i : Nat) :
    (l.free freePtr).1.listMemoryOperation[i]? = l.listMemoryOperation[i]?.map fun operation =>
      if lastNotFreed l.listMemoryOperation freePtr = some i then { operation with freed := true } else operation := by
  rw [OperationLists.free, if_pos given, ← takeByPtrNotFreed_eq indexed coded]
  cases takeByPtrNotFreed l.listMemoryOperation l.listMemoryOperationNonFreed freePtr with
  | none => simp
  | some result =>
    obtain ⟨found, left⟩ := result
    simp only [Option.map_some, Option.some.injEq, markFreed, List.getElem?_modify]
    rfl

/-! ## Messages of the allocation functions -/

/-- The message has the code of an allocation function, 11 to 19. -/
def Coded (message : MemoryMessage) : Prop := message.1.msgCode ∈ MsgCode.memory.map MsgCode.byte

theorem coded_operation {message : MemoryMessage} (coded : Coded message) :
    MemoryOperation.hasAllocOperation (received message) = true := by
  obtain ⟨code, known, same⟩ := List.mem_map.mp coded
  have named : ∀ code ∈ MsgCode.memory, code ∈ MsgCode.named := by decide
  show decide (MsgCode.ofByte message.1.msgCode ∈ MsgCode.memory) = true
  rw [← same, MsgCode.ofByte_byte (named code known)]
  exact decide_eq_true known

theorem afterMessages_indexed {messages : List MemoryMessage} (coded : ∀ message ∈ messages, Coded message) :
    Indexed (afterMessages Controller.fresh messages).operations ∧
      ∀ operation ∈ (afterMessages Controller.fresh messages).operations.listMemoryOperation,
        MemoryOperation.hasAllocOperation operation := by
  induction messages using List.reverseRecOn with
  | nil => exact ⟨empty_indexed, by simp [afterMessages, Controller.fresh, OperationLists.empty]⟩
  | append_singleton messages message ih =>
    obtain ⟨indexed, all⟩ := ih fun other member => coded other (List.mem_append_left _ member)
    rw [afterMessages_append]
    exact ⟨addMemoryOperation_indexed indexed rfl,
      addMemoryOperation_coded all (coded_operation (coded message (by simp)))⟩

/-- After any messages of the allocation functions, a message that frees a pointer marks
    the last operation of the whole list that allocated it and is not freed, if there is
    one; all other operations stay as they are; and its own operation comes last. -/
theorem index_agrees_with_scan (messages : List MemoryMessage) (coded : ∀ message ∈ messages, Coded message)
    (next : MemoryMessage) (given : next.2.freePtr ≠ 0) :
    let objects := (afterMessages Controller.fresh messages).operations.listMemoryOperation
    let after := (afterMessages Controller.fresh (messages ++ [next])).operations.listMemoryOperation
    after.length = objects.length + 1 ∧
    (∀ (i : Nat) operation, objects[i]? = some operation → after[i]? = some
      (if lastNotFreed objects next.2.freePtr = some i then { operation with freed := true } else operation)) ∧
    after[objects.length]? = some (received next) ∧ (received next).freed = false := by
  obtain ⟨indexed, all⟩ := afterMessages_indexed coded
  rw [afterMessages_append]
  generalize afterMessages Controller.fresh messages = c at indexed all
  intro objects after
  have list : after = (c.operations.free next.2.freePtr).1.listMemoryOperation ++ [received next] := rfl
  have length : (c.operations.free next.2.freePtr).1.listMemoryOperation.length = objects.length :=
    free_length c.operations next.2.freePtr
  refine ⟨?_, ?_, ?_, rfl⟩
  · rw [list, List.length_append, length, List.length_singleton]
  · intro i operation object
    have inside := (List.getElem?_eq_some_iff.mp object).1
    rw [list, List.getElem?_append_left (by rw [length]; exact inside), free_marks indexed all given]
    exact congrArg _ object
  · rw [list, ← length, List.getElem?_concat_length]

/-- Of two blocks at one address, the later one is freed. -/
theorem index_agrees_with_scan_repeated :
    (afterMessages Controller.fresh ([(⟨1, 0, 7, 1, 11⟩, ⟨100, 4096, 1, 0⟩), (⟨2, 0, 7, 2, 11⟩, ⟨50, 4096, 2, 0⟩)] ++
      [(⟨3, 0, 7, 3, 12⟩, ⟨0, 0, 0, 4096⟩)])).operations.listMemoryOperation[1]? =
        some { received (⟨2, 0, 7, 2, 11⟩, ⟨50, 4096, 2, 0⟩) with freed := true } :=
  (index_agrees_with_scan [(⟨1, 0, 7, 1, 11⟩, ⟨100, 4096, 1, 0⟩), (⟨2, 0, 7, 2, 11⟩, ⟨50, 4096, 2, 0⟩)]
    (by unfold Coded; decide) (⟨3, 0, 7, 3, 12⟩, ⟨0, 0, 0, 4096⟩) (by decide)).2.1 1
      (received (⟨2, 0, 7, 2, 11⟩, ⟨50, 4096, 2, 0⟩)) (by decide +kernel)

/-! ## What the list holds -/

/-- The operation at `i` allocated a block and is not freed. -/
def isLive (objects : List MemoryOperation) (i : Nat) : Bool :=
  objects[i]?.any fun operation => operation.allocPtr ≠ 0 && !operation.freed

/-- The positions of the live allocations, in order. -/
def liveAllocations (objects : List MemoryOperation) : List Nat :=
  (List.range objects.length).filter (isLive objects)

/-- The list holds live allocations only; so it is empty when all blocks are freed. -/
structure LiveOnly (c : Controller) : Prop where
  live : c.operations.listMemoryOperationNonFreed = liveAllocations c.operations.listMemoryOperation
  empty : (∀ operation ∈ c.operations.listMemoryOperation, operation.allocPtr ≠ 0 → operation.freed = true) →
    c.operations.listMemoryOperationNonFreed = []

/-- What is freed had a block. -/
def BlocksFreed (l : OperationLists) : Prop :=
  ∀ operation ∈ l.listMemoryOperation, operation.freed = true → operation.allocPtr ≠ 0

theorem addMemoryOperation_blocksFreed {l : OperationLists} (blocks : BlocksFreed l) {operation : MemoryOperation}
    (fresh : operation.freed = false) : BlocksFreed (l.addMemoryOperation operation).1 := by
  intro other member freed
  have either : other ∈ (l.free operation.freePtr).1.listMemoryOperation ++ [operation] := member
  rcases List.mem_append.mp either with old | new
  · have effect := free_effect l operation.freePtr
    generalize l.free operation.freePtr = result at effect old
    cases effect with
    | nothing => exact blocks other old freed
    | marked i left found given _ object pointer =>
      obtain ⟨j, object'⟩ := List.mem_iff_getElem?.mp old
      obtain ⟨before, origin, rfl⟩ := modify_origin object'
      by_cases here : i = j
      · rw [← here, object] at origin
        cases origin
        rw [if_pos here, pointer]
        exact given
      · rw [if_neg here] at freed ⊢
        exact blocks before (List.mem_of_getElem? origin) freed
  · rw [List.mem_singleton.mp new, fresh] at freed
    cases freed

/-- The operations are those of the messages, up to their flags. -/
theorem afterMessages_map {A : Type} {f : MemoryOperation → A}
    (keeps : ∀ operation, f { operation with freed := true } = f operation) (messages : List MemoryMessage) :
    (afterMessages Controller.fresh messages).operations.listMemoryOperation.map f =
      messages.map fun message => f (received message) := by
  induction messages using List.reverseRecOn with
  | nil => rfl
  | append_singleton messages message ih =>
    rw [afterMessages_append, Controller.addMemoryOperation_list, List.map_append, free_map keeps, ih, List.map_append]
    rfl

theorem afterMessages_blocksFreed (messages : List MemoryMessage) :
    BlocksFreed (afterMessages Controller.fresh messages).operations := by
  induction messages using List.reverseRecOn with
  | nil => simp [BlocksFreed, afterMessages, Controller.fresh, OperationLists.empty]
  | append_singleton messages message ih =>
    rw [afterMessages_append]
    exact addMemoryOperation_blocksFreed ih rfl

/-- An operation without a block is in the list for good. -/
theorem without_block_stays {messages : List MemoryMessage} (coded : ∀ message ∈ messages, Coded message) {i : Nat}
    {operation : MemoryOperation}
    (object : (afterMessages Controller.fresh messages).operations.listMemoryOperation[i]? = some operation)
    (zero : operation.allocPtr = 0) :
    i ∈ (afterMessages Controller.fresh messages).operations.listMemoryOperationNonFreed := by
  obtain ⟨indexed, all⟩ := afterMessages_indexed coded
  have blocks := afterMessages_blocksFreed messages
  have member := List.mem_of_getElem? object
  have notFreed : operation.freed = false := by
    cases freed : operation.freed with
    | false => rfl
    | true => exact absurd zero (blocks operation member freed)
  rw [indexed, mem_openOperations, isOpen, object, Option.any_some, all operation member, notFreed]
  rfl

/-- One state: the list is that of the live allocations, if and only if every message
    came with a block. -/
theorem liveOnly_iff {messages : List MemoryMessage} (coded : ∀ message ∈ messages, Coded message) :
    LiveOnly (afterMessages Controller.fresh messages) ↔ ∀ message ∈ messages, message.2.allocPtr ≠ 0 := by
  obtain ⟨indexed, all⟩ := afterMessages_indexed coded
  have pointers := afterMessages_map (f := MemoryOperation.allocPtr) (fun _ => rfl) messages
  constructor
  · intro liveOnly message member zero
    obtain ⟨i, found⟩ := List.mem_iff_getElem?.mp member
    have here := congrArg (·[i]?) pointers
    simp only [List.getElem?_map, found, Option.map_some] at here
    obtain ⟨operation, object, pointer⟩ := Option.map_eq_some_iff.mp here
    have none : operation.allocPtr = 0 := pointer.trans zero
    have stays := without_block_stays coded object none
    rw [liveOnly.live, liveAllocations, List.mem_filter, isLive, object, Option.any_some, none] at stays
    simp at stays
  · intro given
    have blocks : ∀ operation ∈ (afterMessages Controller.fresh messages).operations.listMemoryOperation,
        operation.allocPtr ≠ 0 := by
      intro operation member
      have pointer := List.mem_map_of_mem (f := MemoryOperation.allocPtr) member
      rw [pointers] at pointer
      obtain ⟨message, sent, same⟩ := List.mem_map.mp pointer
      rw [← same]
      exact given message sent
    have live : (afterMessages Controller.fresh messages).operations.listMemoryOperationNonFreed =
        liveAllocations (afterMessages Controller.fresh messages).operations.listMemoryOperation := by
      rw [indexed]
      apply List.filter_congr
      intro i _
      rw [isOpen, isLive]
      cases object : (afterMessages Controller.fresh messages).operations.listMemoryOperation[i]? with
      | none => rfl
      | some operation =>
        have member := List.mem_of_getElem? object
        simp [all operation member, blocks operation member]
    refine ⟨live, ?_⟩
    intro freed
    rw [live, liveAllocations, List.filter_eq_nil_iff]
    intro i _ isLive'
    rw [isLive, Option.any_eq_true] at isLive'
    obtain ⟨operation, object, live'⟩ := isLive'
    have member := List.mem_of_getElem? object
    rw [freed operation member (blocks operation member), Bool.not_true, Bool.and_false] at live'
    cases live'

theorem sent_coded {message : MemoryMessage} (sent : Sent message) : Coded message := by
  obtain ⟨code, built⟩ := sent_built sent
  rw [Coded, built.coded]
  exact List.mem_map_of_mem built.known

/-- In every state that messages of the library lead to: the list holds live allocations
    only, if and only if every message comes with a block, so that none is of `free`. -/
theorem live_only_iff (messages : List MemoryMessage) (sent : ∀ message ∈ messages, Sent message) :
    (∀ earlier, earlier <+: messages → LiveOnly (afterMessages Controller.fresh earlier)) ↔
      ∀ message ∈ messages, message.2.allocPtr ≠ 0 := by
  have coded : ∀ earlier, earlier <+: messages → ∀ message ∈ earlier, Coded message :=
    fun earlier within message member => sent_coded (sent message (within.subset member))
  constructor
  · intro all
    exact (liveOnly_iff (coded messages List.prefix_rfl)).mp (all messages List.prefix_rfl)
  · intro given earlier within
    exact (liveOnly_iff (coded earlier within)).mpr fun message member => given message (within.subset member)

/-- A block that moves twice. -/
theorem moved_live_only : LiveOnly (afterMessages Controller.fresh
    [(⟨1, 0, 7, 1, 11⟩, ⟨100, 4096, 1, 0⟩), (⟨2, 0, 7, 2, 14⟩, ⟨200, 8192, 2, 4096⟩),
      (⟨3, 0, 7, 3, 14⟩, ⟨50, 4096, 3, 8192⟩)]) := by
  refine (live_only_iff [(⟨1, 0, 7, 1, 11⟩, ⟨100, 4096, 1, 0⟩), (⟨2, 0, 7, 2, 14⟩, ⟨200, 8192, 2, 4096⟩),
    (⟨3, 0, 7, 3, 14⟩, ⟨50, 4096, 3, 8192⟩)] ?_).mpr (by decide) _ List.prefix_rfl
  intro message member
  simp only [List.mem_cons, List.not_mem_nil, or_false] at member
  rcases member with rfl | rfl | rfl
  · exact ⟨.malloc 100 4096, ⟨0, 0⟩, ⟨1, 0, 7⟩, rfl⟩
  · exact ⟨.realloc 4096 200 8192 false, ⟨1, 1⟩, ⟨2, 0, 7⟩, rfl⟩
  · exact ⟨.realloc 8192 50 4096 false, ⟨2, 2⟩, ⟨3, 0, 7⟩, rfl⟩

/-- A block is allocated and freed, and the operation of the `free` stays in the list. -/
theorem free_stays_listed :
    ¬ ∀ messages, (∀ message ∈ messages, Sent message) → LiveOnly (afterMessages Controller.fresh messages) := by
  intro claim
  have liveOnly := claim [(⟨1, 0, 7, 1, 11⟩, ⟨100, 4096, 1, 0⟩), (⟨2, 0, 7, 2, 12⟩, ⟨0, 0, 0, 4096⟩)] ?_
  · have left := liveOnly.empty (by decide +kernel)
    revert left
    decide +kernel
  · intro message member
    simp only [List.mem_cons, List.not_mem_nil, or_false] at member
    rcases member with rfl | rfl
    · exact ⟨.malloc 100 4096, ⟨0, 0⟩, ⟨1, 0, 7⟩, rfl⟩
    · exact ⟨.free 4096, ⟨1, 1⟩, ⟨2, 0, 7⟩, rfl⟩

end Aleakd.NonFreed
