import Aleakd.Controller
import Aleakd.Ledger
import Aleakd.ListSums
import Aleakd.Runs
import Mathlib.Tactic.Abel

/-!
The lists and totals of the server against the allocator that its memory messages
come from. The allocator holds one block an address; a message releases the
address it frees and then adds the one it allocates.
-/
namespace Aleakd.ServerLedger
open Aleakd.Messages Aleakd.Operations Aleakd.OperationList Aleakd.Stats Aleakd.Threads Aleakd.ApplicationWindow
open Aleakd.Ledger Aleakd.ListSums Aleakd.Runs Aleakd.TakeLast

/-! ## The allocator -/

/-- A live block, with the number of the message that allocated it. -/
structure Block where
  message : Nat
  size : UInt64
  thread : UInt64
deriving DecidableEq

/-- The messages so far and the live blocks by address. -/
structure Allocator where
  messages : Nat
  live : Finmap fun _ : UInt64 => Block

def Allocator.empty : Allocator := ⟨0, ∅⟩

/-- What a memory message says about the allocator. -/
def Allocator.entry (a : Allocator) (operation : MemoryOperation) : Entry UInt64 Block where
  releases := if operation.freePtr = 0 then none else some operation.freePtr
  adds :=
    if operation.allocPtr = 0 then none
    else some (operation.allocPtr, ⟨a.messages, operation.allocSize, operation.callerThreadId⟩)

/-- A message that the allocator can give rise to: with the code of an allocation
    function, freeing a live block if any, and then allocating at an address that is
    free; only `free` allocates nothing. -/
def Allocator.Possible (a : Allocator) (operation : MemoryOperation) : Prop :=
  operation.msgCode ∈ MsgCode.memory ∧ Valid a.live (a.entry operation) ∧
    (operation.allocPtr = 0 → operation.msgCode = .free ∧ operation.allocSize = 0)

instance Allocator.Possible.decidable (a : Allocator) (operation : MemoryOperation) : Decidable (a.Possible operation) :=
  inferInstanceAs (Decidable
    (operation.msgCode ∈ MsgCode.memory ∧ Valid a.live (a.entry operation) ∧
      (operation.allocPtr = 0 → operation.msgCode = .free ∧ operation.allocSize = 0)))

def Allocator.step (a : Allocator) (operation : MemoryOperation) : Option Allocator :=
  if a.Possible operation then some ⟨a.messages + 1, post a.live (a.entry operation)⟩ else none

/-! ## The server -/

/-- An operation with a block that is not freed. -/
def Unfreed (operation : MemoryOperation) : Prop := operation.allocPtr ≠ 0 ∧ operation.freed = false

instance Unfreed.decidable : DecidablePred Unfreed := fun operation =>
  inferInstanceAs (Decidable (operation.allocPtr ≠ 0 ∧ operation.freed = false))

/-- Address, size and thread of the blocks that the server takes for live. -/
def unfreedBlocks (objects : List MemoryOperation) : Multiset (UInt64 × UInt64 × UInt64) :=
  (objects.filter Unfreed).map fun operation => (operation.allocPtr, operation.allocSize, operation.callerThreadId)

/-- Address, size and thread of the live blocks. -/
def liveBlocks (live : Finmap fun _ : UInt64 => Block) : Multiset (UInt64 × UInt64 × UInt64) :=
  (blocks live).map fun held => (held.1, held.2.size, held.2.thread)

/-- The server agrees with the allocator: an operation is unfreed exactly when its
    block is live, and a live block is the one of the last operation at its address. -/
structure Agrees (l : OperationLists) (a : Allocator) : Prop where
  indexed : Indexed l
  counted : l.listMemoryOperation.length = a.messages
  coded : ∀ operation ∈ l.listMemoryOperation, MemoryOperation.hasAllocOperation operation
  held : ∀ i operation, l.listMemoryOperation[i]? = some operation → Unfreed operation →
    Finmap.lookup operation.allocPtr a.live = some ⟨i, operation.allocSize, operation.callerThreadId⟩
  live : ∀ pointer block, Finmap.lookup pointer a.live = some block → pointer ≠ 0 ∧
    ∃ operation, l.listMemoryOperation[block.message]? = some operation ∧ operation.allocPtr = pointer ∧
      operation.freed = false
  latest : ∀ pointer block, Finmap.lookup pointer a.live = some block → ∀ i operation,
    l.listMemoryOperation[i]? = some operation → operation.allocPtr = pointer → i ≤ block.message
  blocks : unfreedBlocks l.listMemoryOperation = liveBlocks a.live

theorem empty_agrees : Agrees OperationLists.empty Allocator.empty where
  indexed := empty_indexed
  counted := rfl
  coded := by simp [OperationLists.empty]
  held := by simp [OperationLists.empty]
  live := by simp [Allocator.empty]
  latest := by simp [Allocator.empty]
  blocks := rfl

theorem getElem?_append_singleton {objects : List MemoryOperation} {i : Nat} {last operation : MemoryOperation} :
    (objects ++ [last])[i]? = some operation ↔
      objects[i]? = some operation ∨ i = objects.length ∧ last = operation := by
  constructor
  · intro found
    exact (append_origin found).imp_right fun ⟨atEnd, same⟩ => ⟨atEnd, same.symm⟩
  · rintro (found | ⟨rfl, rfl⟩)
    · rw [List.getElem?_append_left (List.getElem?_eq_some_iff.mp found).1]
      exact found
    · exact List.getElem?_concat_length

/-- Marking an unfreed operation takes its block away. -/
theorem unfreedBlocks_markFreed {objects : List MemoryOperation} {i : Nat} {operation : MemoryOperation}
    (found : objects[i]? = some operation) (unfreed : Unfreed operation) :
    unfreedBlocks objects = (operation.allocPtr, operation.allocSize, operation.callerThreadId) ::ₘ
      unfreedBlocks (markFreed objects i) := by
  obtain ⟨inside, rfl⟩ := List.getElem?_eq_some_iff.mp found
  have split : objects = objects.take i ++ objects[i] :: objects.drop (i + 1) := by simp
  have gone : ¬ Unfreed { objects[i] with freed := true } := by simp [Unfreed]
  rw [markFreed, List.modify_eq_take_cons_drop inside]
  conv_lhs => rw [split]
  simp only [unfreedBlocks, List.filter_append, List.filter_cons, decide_eq_true_eq, if_pos unfreed, if_neg gone,
    List.map_append, List.map_cons]
  exact Multiset.coe_eq_coe.mpr List.perm_middle

theorem unfreedBlocks_append (objects : List MemoryOperation) (operation : MemoryOperation) :
    unfreedBlocks (objects ++ [operation]) =
      if Unfreed operation then
        (operation.allocPtr, operation.allocSize, operation.callerThreadId) ::ₘ unfreedBlocks objects
      else unfreedBlocks objects := by
  by_cases unfreed : Unfreed operation
  · simp only [unfreedBlocks, List.filter_append, List.filter_singleton, decide_eq_true unfreed, cond_true,
      if_pos unfreed, List.map_append, List.map_singleton]
    exact Multiset.coe_eq_coe.mpr (List.perm_append_singleton _ _)
  · simp [unfreedBlocks, List.filter_append, unfreed]

/-- The operation of a live block is the only one that `takeByPtrNotFreed` can find. -/
theorem agrees_take {l : OperationLists} {a : Allocator} (agrees : Agrees l a) {pointer : UInt64} {block : Block}
    (held : Finmap.lookup pointer a.live = some block) :
    ∃ left, takeByPtrNotFreed l.listMemoryOperation l.listMemoryOperationNonFreed pointer =
      some (block.message,left) := by
  obtain ⟨nonzero, operation, found, rfl, notFreed⟩ := agrees.live pointer block held
  have coded := agrees.coded operation (List.mem_of_getElem? found)
  apply takeLast_unique
  · rw [agrees.indexed, mem_openOperations]
    simp [isOpen, found, coded, notFreed]
  · simp [allocatedAt, found, notFreed]
  · intro j _ allocated
    cases object : l.listMemoryOperation[j]? with
    | none => simp [allocatedAt, object] at allocated
    | some other =>
      simp only [allocatedAt, object, Option.any_some, Bool.and_eq_true, decide_eq_true_eq, Bool.not_eq_eq_eq_not,
        Bool.not_true] at allocated
      have other_held := agrees.held j other object ⟨by rw [allocated.1]; exact nonzero, allocated.2⟩
      rw [allocated.1, held] at other_held
      cases other_held
      rfl

/-- An unfreed operation elsewhere in the list has another address. -/
theorem Agrees.apart {l : OperationLists} {a : Allocator} (agrees : Agrees l a) {freePtr : UInt64} {block : Block}
    (held : Finmap.lookup freePtr a.live = some block) {i : Nat} {other : MemoryOperation}
    (object : l.listMemoryOperation[i]? = some other) (unfreed : Unfreed other) (elsewhere : i ≠ block.message) :
    other.allocPtr ≠ freePtr := by
  intro pointer
  have held' := agrees.held i other object unfreed
  rw [pointer, held] at held'
  exact elsewhere (by rw [Option.some.inj held'])

/-- What the first half of `addMemoryOperation` does to a server that agrees: it
    marks the operation of the block that is released. -/
theorem free_agrees {l : OperationLists} {a : Allocator} (agrees : Agrees l a) {freePtr : UInt64} {block : Block}
    (given : freePtr ≠ 0) (held : Finmap.lookup freePtr a.live = some block) :
    ∃ l' operation, l.free freePtr = (l', some operation) ∧ operation.allocSize = block.size ∧
      operation.callerThreadId = block.thread ∧ Agrees l' ⟨a.messages, Finmap.erase freePtr a.live⟩ := by
  obtain ⟨left, taken⟩ := agrees_take agrees held
  obtain ⟨_, operation, found, pointer, notFreed⟩ := agrees.live freePtr block held
  have unfreed : Unfreed operation := ⟨by rw [pointer]; exact given, notFreed⟩
  have same := agrees.held _ operation found unfreed
  rw [pointer, held] at same
  have same := Option.some.inj same
  have indexed := free_indexed agrees.indexed freePtr
  have result : l.free freePtr = (⟨markFreed l.listMemoryOperation block.message, left,
      l.listMemoryOperationWithoutBacktrace⟩, some operation) := by
    simp only [OperationLists.free, ne_eq, given, not_false_eq_true, if_true, taken, found]
  refine ⟨_, operation, result, by rw [same], by rw [same], ?_⟩
  rw [result] at indexed
  constructor
  case indexed => exact indexed
  case counted =>
    show (markFreed l.listMemoryOperation block.message).length = a.messages
    rw [markFreed, List.length_modify, agrees.counted]
  case coded =>
    intro other member
    obtain ⟨i, object⟩ := List.mem_iff_getElem?.mp member
    obtain ⟨before, origin, rfl⟩ := modify_origin object
    have coded := agrees.coded before (List.mem_of_getElem? origin)
    split <;> exact coded
  case held =>
    intro i other object unfreed'
    obtain ⟨before, origin, rfl⟩ := modify_origin object
    by_cases here : block.message = i
    · rw [if_pos here] at unfreed'
      cases unfreed'.2
    · rw [if_neg here] at unfreed' ⊢
      rw [Finmap.lookup_erase_ne (agrees.apart held origin unfreed' (Ne.symm here))]
      exact agrees.held i before origin unfreed'
  case live =>
    intro pointer' block' held'
    by_cases gone : pointer' = freePtr
    · rw [gone, Finmap.lookup_erase] at held'
      cases held'
    · rw [Finmap.lookup_erase_ne gone] at held'
      obtain ⟨nonzero, other, object, rfl, notFreed'⟩ := agrees.live pointer' block' held'
      refine ⟨nonzero, other, ?_, rfl, notFreed'⟩
      have elsewhere : block.message ≠ block'.message := by
        intro equal
        rw [← equal, found] at object
        cases object
        exact gone pointer
      show (markFreed l.listMemoryOperation block.message)[block'.message]? = some other
      rw [markFreed, List.getElem?_modify_ne _ _ elsewhere, object]
  case latest =>
    intro pointer' block' held' i other object pointer''
    by_cases gone : pointer' = freePtr
    · rw [gone, Finmap.lookup_erase] at held'
      cases held'
    · rw [Finmap.lookup_erase_ne gone] at held'
      obtain ⟨before, origin, rfl⟩ := modify_origin object
      refine agrees.latest pointer' block' held' i before origin ?_
      split at pointer'' <;> exact pointer''
  case blocks =>
    have before := agrees.blocks
    rw [unfreedBlocks_markFreed found unfreed, liveBlocks, blocks_erase held, Multiset.map_cons, same, pointer] at before
    rw [same]
    exact (Multiset.cons_inj_right _).mp before

/-- The blocks by address, once the block of an operation that has one is among them. -/
theorem lookup_entry (a : Allocator) (operation : MemoryOperation) (pointer : UInt64) :
    Finmap.lookup pointer (add a.live (a.entry operation).adds) =
      if operation.allocPtr ≠ 0 ∧ operation.allocPtr = pointer then
        some ⟨a.messages, operation.allocSize, operation.callerThreadId⟩
      else Finmap.lookup pointer a.live := by
  rw [lookup_add, Allocator.entry]
  by_cases zero : operation.allocPtr = 0
  · simp [zero]
  · simp [zero]

/-- What the second half does: the operation is unfreed exactly when it has a block. -/
theorem append_agrees {l : OperationLists} {a : Allocator} (agrees : Agrees l a) {operation : MemoryOperation}
    (fresh : operation.freed = false) (coded : MemoryOperation.hasAllocOperation operation)
    (free : operation.allocPtr ≠ 0 → operation.allocPtr ∉ a.live) :
    Agrees (l.append operation) ⟨a.messages + 1, add a.live (a.entry operation).adds⟩ := by
  have notHeld : ∀ (i : Nat) other, l.listMemoryOperation[i]? = some other → Unfreed other →
      operation.allocPtr ≠ 0 → operation.allocPtr ≠ other.allocPtr := by
    intro i other object unfreed given same
    apply free given
    rw [same]
    exact Finmap.mem_of_lookup_eq_some (agrees.held i other object unfreed)
  constructor
  case indexed => exact append_indexed agrees.indexed fresh
  case counted =>
    show (l.listMemoryOperation ++ [operation]).length = a.messages + 1
    rw [List.length_append, agrees.counted, List.length_singleton]
  case coded =>
    intro other member
    rcases List.mem_append.mp member with old | new
    · exact agrees.coded other old
    · rw [List.mem_singleton.mp new]
      exact coded
  case held =>
    intro i other object unfreed
    rw [lookup_entry]
    rcases getElem?_append_singleton.mp object with old | ⟨rfl, rfl⟩
    · rw [if_neg fun both => notHeld i other old unfreed both.1 both.2]
      exact agrees.held i other old unfreed
    · rw [if_pos ⟨unfreed.1, rfl⟩, agrees.counted]
  case live =>
    intro pointer block held
    rw [lookup_entry] at held
    split at held
    · next here =>
      cases held
      refine ⟨by rw [← here.2]; exact here.1, operation, ?_, here.2, fresh⟩
      exact getElem?_append_singleton.mpr (.inr ⟨agrees.counted.symm, rfl⟩)
    · obtain ⟨nonzero, other, object, same, notFreed⟩ := agrees.live pointer block held
      exact ⟨nonzero, other, getElem?_append_singleton.mpr (.inl object), same, notFreed⟩
  case latest =>
    intro pointer block held i other object same
    have inside : i ≤ a.messages := by
      have below : i < (l.listMemoryOperation ++ [operation]).length := (List.getElem?_eq_some_iff.mp object).1
      rw [List.length_append, agrees.counted, List.length_singleton] at below
      omega
    rw [lookup_entry] at held
    split at held
    · cases held
      exact inside
    · next elsewhere =>
      obtain ⟨nonzero, _⟩ := agrees.live pointer block held
      rcases getElem?_append_singleton.mp object with old | ⟨_, rfl⟩
      · exact agrees.latest pointer block held i other old same
      · exact absurd ⟨by rw [same]; exact nonzero, same⟩ elsewhere
  case blocks =>
    show unfreedBlocks (l.listMemoryOperation ++ [operation]) = liveBlocks (add a.live (a.entry operation).adds)
    rw [unfreedBlocks_append]
    by_cases zero : operation.allocPtr = 0
    · have not : ¬ Unfreed operation := fun unfreed => unfreed.1 zero
      rw [if_neg not, Allocator.entry, if_pos zero]
      exact agrees.blocks
    · rw [if_pos ⟨zero, fresh⟩, Allocator.entry, if_neg zero, add, liveBlocks, blocks_insert _ (free zero),
        Multiset.map_cons, agrees.blocks]
      rfl

/-- The sum of an amount of thread and size over the live blocks. -/
def worth {G : Type} [AddCommMonoid G] (amount : UInt64 → UInt64 → G) (live : Finmap fun _ : UInt64 => Block) : G :=
  total (fun block => amount block.thread block.size) live

theorem worth_adds {G : Type} [AddCommMonoid G] (amount : UInt64 → UInt64 → G) {a : Allocator}
    {operation : MemoryOperation} (free : operation.allocPtr ≠ 0 → operation.allocPtr ∉ a.live) :
    worth amount (add a.live (a.entry operation).adds) = worth amount a.live +
      if operation.allocPtr ≠ 0 then amount operation.callerThreadId operation.allocSize else 0 := by
  by_cases zero : operation.allocPtr = 0
  · simp [Allocator.entry, zero, add]
  · simp only [Allocator.entry, if_neg zero, if_pos zero, add]
    rw [worth, total_insert _ _ (free zero), add_comm]
    rfl

/-- A message that the allocator can give rise to leaves the server in agreement,
    and frees an operation that is worth what the allocator releases. -/
theorem addMemoryOperation_agrees {l : OperationLists} {a next : Allocator} (agrees : Agrees l a)
    {operation : MemoryOperation} (fresh : operation.freed = false) (stepped : a.step operation = some next) :
    Agrees (l.addMemoryOperation operation).1 next ∧
      ∀ {G : Type} [AddCommGroup G] (amount : UInt64 → UInt64 → G),
        worth amount next.live = worth amount a.live +
          (if operation.allocPtr ≠ 0 then amount operation.callerThreadId operation.allocSize else 0) -
          ((l.addMemoryOperation operation).2.map fun freed => amount freed.callerThreadId freed.allocSize).getD 0 := by
  simp only [Allocator.step, Option.ite_none_right_eq_some, Option.some.injEq] at stepped
  obtain ⟨⟨code, ⟨releases, adds⟩, only⟩, rfl⟩ := stepped
  have coded : MemoryOperation.hasAllocOperation operation := by simpa [MemoryOperation.hasAllocOperation] using code
  have free : operation.allocPtr ≠ 0 → operation.allocPtr ∉ release a.live (a.entry operation).releases := by
    intro given
    exact adds (operation.allocPtr, _) (by simp only [Allocator.entry, if_neg given]; rfl)
  by_cases zero : operation.freePtr = 0
  · have free' : l.free operation.freePtr = (l, none) := by simp [OperationLists.free, zero]
    have released : release a.live (a.entry operation).releases = a.live := by
      simp [Allocator.entry, zero, release]
    rw [released] at free
    rw [post, released]
    simp only [OperationLists.addMemoryOperation, free']
    refine ⟨append_agrees agrees fresh coded free, ?_⟩
    intro G _ amount
    rw [worth_adds amount free]
    exact (sub_zero _).symm
  · have held : operation.freePtr ∈ a.live := releases operation.freePtr (by simp [Allocator.entry, zero])
    obtain ⟨block, held⟩ := Finmap.mem_iff.mp held
    obtain ⟨l', freed, free', size, thread, agrees'⟩ := free_agrees agrees zero held
    have released : release a.live (a.entry operation).releases = Finmap.erase operation.freePtr a.live := by
      simp [Allocator.entry, zero, release]
    rw [released] at free
    rw [post, released]
    simp only [OperationLists.addMemoryOperation, free']
    refine ⟨append_agrees agrees' fresh coded free, ?_⟩
    intro G _ amount
    have sum := worth_adds amount (a := ⟨a.messages, Finmap.erase operation.freePtr a.live⟩) free
    have before : worth amount a.live =
        amount block.thread block.size + worth amount (Finmap.erase operation.freePtr a.live) := total_erase _ held
    rw [show (a.entry operation).adds =
      (Allocator.entry ⟨a.messages, Finmap.erase operation.freePtr a.live⟩ operation).adds from rfl, sum, before]
    simp only [Option.map_some, Option.getD_some, size, thread]
    abel

/-! ## Sequences of messages -/

/-- The operation that the handler gets for a memory message. -/
def received (message : MemoryMessage) : MemoryOperation := memoryOperation message.1 message.2

/-- The controller after memory messages. -/
def afterMessages (c : Controller) (messages : List MemoryMessage) : Controller :=
  c.handleAll (messages.map fun message => .memoryOperation (received message))

/-- The server agrees with the allocator, and has added up its live sizes. -/
def Correct (c : Controller) (a : Allocator) : Prop :=
  Agrees c.operations a ∧ c.globalStats.totalRemainingSize = total Block.size a.live

theorem fresh_correct : Correct Controller.fresh Allocator.empty := ⟨empty_agrees, rfl⟩

theorem handle_correct {c : Controller} {a next : Allocator} (correct : Correct c a) {message : MemoryMessage}
    (stepped : a.step (received message) = some next) :
    Correct (c.handle (.memoryOperation (received message))) next := by
  obtain ⟨agrees, remaining⟩ := correct
  obtain ⟨agrees', sum⟩ := addMemoryOperation_agrees agrees rfl stepped
  refine ⟨agrees', ?_⟩
  have size : (if (received message).allocPtr ≠ 0 then (received message).allocSize else 0) =
      (received message).allocSize := by
    simp only [Allocator.step, Option.ite_none_right_eq_some] at stepped
    obtain ⟨⟨_, _, only⟩, _⟩ := stepped
    by_cases zero : (received message).allocPtr = 0
    · simp [zero, (only zero).2]
    · simp [zero]
  have sum' := sum fun _ size => size
  rw [size, show worth (fun _ size => size) a.live = c.globalStats.totalRemainingSize from remaining.symm] at sum'
  exact (MemoryStats.addMemoryOperation_remaining ..).trans sum'.symm

theorem afterMessages_correct {c : Controller} {a final : Allocator} (correct : Correct c a)
    {messages : List MemoryMessage} (ran : run Allocator.step a (messages.map received) = some final) :
    Correct (afterMessages c messages) final := by
  induction messages generalizing c a with
  | nil =>
    cases ran
    exact correct
  | cons message rest ih =>
    obtain ⟨next, stepped, later⟩ := run_cons_some.mp ran
    exact ih (handle_correct correct stepped) later

/-- For messages that an allocator can give rise to: an operation that allocated is
    not freed exactly when its block is live; every live address has exactly one
    such operation, the last one at the address, with the size and the thread of the
    block; and the remaining size is the sum of the live sizes modulo 2^64. -/
theorem ledger_correct (messages : List MemoryMessage) (a : Allocator)
    (possible : run Allocator.step Allocator.empty (messages.map received) = some a) :
    let c := afterMessages Controller.fresh messages
    let objects := c.operations.listMemoryOperation
    (∀ (i : Nat) operation, objects[i]? = some operation → operation.allocPtr ≠ 0 →
      (operation.freed = false ↔ ∃ block, Finmap.lookup operation.allocPtr a.live = some block ∧ block.message = i)) ∧
    (∀ pointer block, Finmap.lookup pointer a.live = some block → ∃ operation,
      objects[block.message]? = some operation ∧ operation.allocPtr = pointer ∧ operation.freed = false ∧
      operation.allocSize = block.size ∧ operation.callerThreadId = block.thread ∧
      ∀ (i : Nat) other, objects[i]? = some other → other.allocPtr = pointer →
        i ≤ block.message ∧ (other.freed = false → i = block.message)) ∧
    c.globalStats.totalRemainingSize = total Block.size a.live := by
  obtain ⟨agrees, remaining⟩ := afterMessages_correct fresh_correct possible
  refine ⟨?_, ?_, remaining⟩
  · intro i operation object given
    constructor
    · intro notFreed
      exact ⟨_, agrees.held i operation object ⟨given, notFreed⟩, rfl⟩
    · rintro ⟨block, held, rfl⟩
      obtain ⟨_, other, object', _, notFreed⟩ := agrees.live _ block held
      rw [object] at object'
      cases object'
      exact notFreed
  · intro pointer block held
    obtain ⟨nonzero, operation, object, rfl, notFreed⟩ := agrees.live pointer block held
    have same := agrees.held _ operation object ⟨nonzero, notFreed⟩
    rw [held] at same
    have same := Option.some.inj same
    refine ⟨operation, object, rfl, notFreed, by rw [same], by rw [same], ?_⟩
    intro i other object' pointer'
    refine ⟨agrees.latest _ block held i other object' pointer', fun notFreed' => ?_⟩
    have unfreed : Unfreed other := ⟨by rw [pointer']; exact nonzero, notFreed'⟩
    have here := agrees.held i other object' unfreed
    rw [pointer', held] at here
    rw [Option.some.inj here]

/-- A block that moves in place and is then freed, beside one that stays. -/
theorem ledger_correct_realloc_in_place :
    (afterMessages Controller.fresh [(⟨1, 0, 7, 1, 11⟩, ⟨100, 4096, 1, 0⟩), (⟨1, 0, 7, 2, 11⟩, ⟨50, 8192, 2, 0⟩),
      (⟨2, 0, 7, 3, 14⟩, ⟨200, 4096, 3, 4096⟩), (⟨3, 0, 7, 4, 12⟩, ⟨0, 0, 0, 4096⟩)]).globalStats.totalRemainingSize =
      50 :=
  (ledger_correct [(⟨1, 0, 7, 1, 11⟩, ⟨100, 4096, 1, 0⟩), (⟨1, 0, 7, 2, 11⟩, ⟨50, 8192, 2, 0⟩),
      (⟨2, 0, 7, 3, 14⟩, ⟨200, 4096, 3, 4096⟩), (⟨3, 0, 7, 4, 12⟩, ⟨0, 0, 0, 4096⟩)] _ rfl).2.2.trans (by decide +kernel)

end Aleakd.ServerLedger
