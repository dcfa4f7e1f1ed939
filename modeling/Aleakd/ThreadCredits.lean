import Aleakd.ThreadIdentity
import Aleakd.ThreadSums
import Mathlib.Algebra.Order.BigOperators.Group.List
import Mathlib.Algebra.Order.Group.Nat

/-!
The entry of the thread table that a block is credited to, and that its free is
charged to the same one. Where the messages come in the order of their numbers, the
entries of one thread id have ranges of numbers that lie one after the other, each
around the blocks that are credited to it.
-/
namespace Aleakd.ThreadCredits
open Aleakd.Messages Aleakd.Operations Aleakd.OperationList Aleakd.Threads Aleakd.ApplicationWindow Aleakd.Framing
open Aleakd.TakeLast Aleakd.ListSums Aleakd.ThreadSessions Aleakd.ThreadTables Aleakd.ThreadTotals
open Aleakd.SessionTotals Aleakd.ThreadSums
open Aleakd.ThreadSystem Aleakd.ThreadIdentity

/-! ## Credits -/

/-- The entry that an operation is credited to when it comes in: the one that
    `updateThreadInfosAddAlloc` gets for it. -/
def creditOf (c : Controller) (operation : MemoryOperation) : Option Nat :=
  if operation.allocPtr ≠ 0 then
    let freed := (c.operations.addMemoryOperation operation).2
    some ((afterFree c.threads freed operation.tvOperation).getThreadInfos operation.callerThreadId false
      operation.tvOperation).2
  else none

/-- The controller, and the credits of its operations by their positions. -/
structure Credited where
  controller : Controller
  credits : List (Option Nat)

def Credited.handle (s : Credited) (message : Message) : Credited where
  controller := s.controller.handle (handlerCall message)
  credits :=
    match message with
    | .memory header data => s.credits ++ [creditOf s.controller (memoryOperation header data)]
    | _ => s.credits

/-- The credits of the operations after messages. -/
def credited (messages : List Message) : Credited := messages.foldl Credited.handle ⟨Controller.fresh, []⟩

theorem credited_append (messages : List Message) (message : Message) :
    credited (messages ++ [message]) = (credited messages).handle message := by
  simp [credited]

theorem credited_controller (messages : List Message) : (credited messages).controller = afterStream messages := by
  induction messages using List.reverseRecOn with
  | nil => rfl
  | append_singleton messages message ih =>
    rw [credited_append, afterStream_append, ← ih]
    rfl

/-- The operations that are credited to an entry and not freed. -/
def creditedTo (k : Nat) (pairs : List (MemoryOperation × Option Nat)) : List MemoryOperation :=
  (pairs.filter fun pair => !pair.1.freed && decide (pair.2 = some k)).map Prod.fst

/-- What they are worth. -/
def heldBy (k : Nat) (pairs : List (MemoryOperation × Option Nat)) : UInt64 × UInt32 :=
  (pairs.map fun pair => if !pair.1.freed && decide (pair.2 = some k) then (pair.1.allocSize, 1) else 0).sum

/-! ## Ranges of message numbers -/

/-- What holds of the entries up to a message number: the ranges of one thread id lie one
    after the other, and each is around the operations that are credited to the entry. -/
structure Ranged (entries : List ThreadInfos) (pairs : List (MemoryOperation × Option Nat)) (bound : Nat) : Prop where
  bounded : ∀ infos ∈ entries, infos.creationMsgNum.toNat ≤ bound ∧ infos.lastAllocMsgNum.toNat ≤ bound
  ordered : ∀ (j k : Nat) (first second : ThreadInfos), j < k → entries[j]? = some first → entries[k]? = some second →
    first.threadId = second.threadId → first.lastAllocMsgNum.toNat < second.creationMsgNum.toNat
  credited : ∀ operation k, (operation, some k) ∈ pairs → ∃ infos, entries[k]? = some infos ∧
    infos.threadId = operation.callerThreadId ∧ 0 < infos.creationMsgNum.toNat ∧
    infos.creationMsgNum.toNat ≤ operation.msgNum.toNat ∧ operation.msgNum.toNat ≤ infos.lastAllocMsgNum.toNat
  sums : ∀ k infos, entries[k]? = some infos → charged infos = heldBy k pairs

/-- An id is alive in the last of its entries. -/
def Latest (s : Session) : Prop :=
  ∀ k infos, s.entries[k]? = some infos → ∃ j, s.current infos.threadId = some j ∧ k ≤ j

theorem inRange_iff {threadId : UInt64} {msgNum : UInt32} {infos : ThreadInfos} :
    inRange threadId msgNum infos = true ↔
      infos.threadId = threadId ∧ infos.creationMsgNum.toNat ≤ msgNum.toNat ∧
        msgNum.toNat ≤ infos.lastAllocMsgNum.toNat := by
  simp [inRange, UInt32.le_iff_toNat_le, and_assoc]

/-- Only the entry of its credit has the number of an operation in its range. -/
theorem credit_unique {entries : List ThreadInfos} {pairs : List (MemoryOperation × Option Nat)} {bound : Nat}
    (ranged : Ranged entries pairs bound) {operation : MemoryOperation} {k j : Nat} {infos : ThreadInfos}
    (member : (operation, some k) ∈ pairs) (found : entries[j]? = some infos)
    (range : inRange operation.callerThreadId operation.msgNum infos = true) : j = k := by
  obtain ⟨id, above, below⟩ := inRange_iff.mp range
  obtain ⟨own, found', id', _, above', below'⟩ := ranged.credited operation k member
  rcases Nat.lt_trichotomy j k with before | same | after
  · have apart := ranged.ordered j k infos own before found found' (id.trans id'.symm)
    omega
  · exact same
  · have apart := ranged.ordered k j own infos after found' found (id'.trans id.symm)
    omega

/-- The search by id and message number finds the credit of an operation. -/
theorem getThreadInfosForMsgNum_credit {s : Session} {pairs : List (MemoryOperation × Option Nat)} {bound : Nat}
    (ranged : Ranged s.entries pairs bound) {operation : MemoryOperation} {k : Nat}
    (member : (operation, some k) ∈ pairs) :
    s.getThreadInfosForMsgNum operation.callerThreadId operation.msgNum = some k := by
  obtain ⟨own, found, id, _, above, below⟩ := ranged.credited operation k member
  have here : inRange operation.callerThreadId operation.msgNum own = true := inRange_iff.mpr ⟨id, above, below⟩
  unfold Session.getThreadInfosForMsgNum
  split
  · next range =>
    rw [Option.any_eq_true] at range
    obtain ⟨j, current, range⟩ := range
    rw [Option.any_eq_true] at range
    obtain ⟨infos, object, range⟩ := range
    rw [current, credit_unique ranged member object range]
  · obtain ⟨inside, rfl⟩ := List.getElem?_eq_some_iff.mp found
    refine List.findIdx?_eq_some_iff_getElem.mpr ⟨inside, here, ?_⟩
    intro j before range
    have same := credit_unique ranged member (List.getElem?_eq_getElem (Nat.lt_trans before inside)) range
    omega

/-- A change that the ranges and the sums do not see. -/
theorem modify_ranged {entries : List ThreadInfos} {pairs : List (MemoryOperation × Option Nat)} {bound : Nat}
    (ranged : Ranged entries pairs bound) (i : Nat) {change : ThreadInfos → ThreadInfos}
    (keeps : ∀ infos, (change infos).threadId = infos.threadId ∧
      (change infos).creationMsgNum = infos.creationMsgNum ∧ (change infos).lastAllocMsgNum = infos.lastAllocMsgNum ∧
      charged (change infos) = charged infos) : Ranged (entries.modify i change) pairs bound := by
  have origin : ∀ {k : Nat} {infos : ThreadInfos}, (entries.modify i change)[k]? = some infos →
      ∃ before, entries[k]? = some before ∧
      infos.threadId = before.threadId ∧ infos.creationMsgNum = before.creationMsgNum ∧
      infos.lastAllocMsgNum = before.lastAllocMsgNum ∧ charged infos = charged before := by
    intro k infos found
    obtain ⟨before, object, rfl⟩ := modify_origin found
    refine ⟨before, object, ?_⟩
    split
    · exact keeps before
    · exact ⟨rfl, rfl, rfl, rfl⟩
  constructor
  case bounded =>
    intro infos member
    obtain ⟨k, found⟩ := List.mem_iff_getElem?.mp member
    obtain ⟨before, object, _, creation, last, _⟩ := origin found
    rw [creation, last]
    exact ranged.bounded before (List.mem_of_getElem? object)
  case ordered =>
    intro j k first second before found found' same
    obtain ⟨first', object, id, _, last, _⟩ := origin found
    obtain ⟨second', object', id', creation, _, _⟩ := origin found'
    rw [last, creation]
    exact ranged.ordered j k first' second' before object object' (by rw [← id, same, id'])
  case credited =>
    intro operation k member
    obtain ⟨infos, found, id, positive, above, below⟩ := ranged.credited operation k member
    have found' : (entries.modify i change)[k]? = some (if i = k then change infos else infos) := by
      rw [List.getElem?_modify, found]
      by_cases here : i = k <;> simp [here]
    refine ⟨_, found', ?_⟩
    split
    · obtain ⟨id', creation, last, _⟩ := keeps infos
      rw [id', creation, last]
      exact ⟨id, positive, above, below⟩
    · exact ⟨id, positive, above, below⟩
  case sums =>
    intro k infos found
    obtain ⟨before, object, _, _, _, charge⟩ := origin found
    rw [charge, ranged.sums k before object]

theorem ranged_mono {entries : List ThreadInfos} {pairs : List (MemoryOperation × Option Nat)} {bound later : Nat}
    (ranged : Ranged entries pairs bound) (le : bound ≤ later) : Ranged entries pairs later where
  bounded infos member := by
    have := ranged.bounded infos member
    omega
  ordered := ranged.ordered
  credited := ranged.credited
  sums := ranged.sums

/-- An entry that no operation is credited to. -/
theorem heldBy_beyond {entries : List ThreadInfos} {pairs : List (MemoryOperation × Option Nat)} {bound : Nat}
    (ranged : Ranged entries pairs bound) : heldBy entries.length pairs = 0 := by
  have none : ∀ pair ∈ pairs, (if !pair.1.freed && decide (pair.2 = some entries.length) then
      (pair.1.allocSize, (1 : UInt32)) else 0) = 0 := by
    rintro ⟨operation, credit⟩ member
    apply if_neg
    simp only [Bool.and_eq_true, decide_eq_true_eq, not_and]
    rintro _ rfl
    obtain ⟨infos, found, _⟩ := ranged.credited operation _ member
    rw [List.getElem?_eq_none (Nat.le_refl _)] at found
    cases found
  rw [heldBy, List.map_congr_left none]
  simp

/-- A new entry without blocks: the first one of its id, or one with a range beyond all
    others. -/
theorem append_ranged {entries : List ThreadInfos} {pairs : List (MemoryOperation × Option Nat)} {bound later : Nat}
    (ranged : Ranged entries pairs bound) (le : bound ≤ later) {infos : ThreadInfos} (empty : charged infos = 0)
    (within : infos.creationMsgNum.toNat ≤ later ∧ infos.lastAllocMsgNum.toNat ≤ later)
    (apart : (∀ other ∈ entries, other.threadId ≠ infos.threadId) ∨ bound < infos.creationMsgNum.toNat) :
    Ranged (entries ++ [infos]) pairs later := by
  constructor
  case bounded =>
    intro other member
    rcases List.mem_append.mp member with old | new
    · have := ranged.bounded other old
      omega
    · rw [List.mem_singleton.mp new]
      exact within
  case ordered =>
    intro j k first second before found found' same
    rcases append_origin found with old | ⟨rfl, rfl⟩
    · rcases append_origin found' with old' | ⟨rfl, rfl⟩
      · exact ranged.ordered j k first second before old old' same
      · rcases apart with alone | beyond
        · exact absurd same (alone first (List.mem_of_getElem? old))
        · have := (ranged.bounded first (List.mem_of_getElem? old)).2
          omega
    · have inside := (List.getElem?_eq_some_iff.mp found').1
      rw [List.length_append, List.length_singleton] at inside
      omega
  case credited =>
    intro operation k member
    obtain ⟨own, found, rest⟩ := ranged.credited operation k member
    refine ⟨own, ?_, rest⟩
    rw [List.getElem?_append_left (List.getElem?_eq_some_iff.mp found).1, found]
  case sums =>
    intro k found object
    rcases append_origin object with old | ⟨rfl, rfl⟩
    · exact ranged.sums k found old
    · rw [empty, heldBy_beyond ranged]

/-! ## Allocations and frees -/

theorem heldBy_append (k : Nat) (pairs : List (MemoryOperation × Option Nat)) (operation : MemoryOperation)
    (credit : Option Nat) :
    heldBy k (pairs ++ [(operation, credit)]) =
      heldBy k pairs + if !operation.freed && decide (credit = some k) then (operation.allocSize, 1) else 0 := by
  simp [heldBy]

/-- An operation that is credited to no entry. -/
theorem skip_ranged {entries : List ThreadInfos} {pairs : List (MemoryOperation × Option Nat)} {bound : Nat}
    (ranged : Ranged entries pairs bound) (operation : MemoryOperation) :
    Ranged entries (pairs ++ [(operation, none)]) bound where
  bounded := ranged.bounded
  ordered := ranged.ordered
  credited := by
    intro other k member
    rcases List.mem_append.mp member with old | new
    · exact ranged.credited other k old
    · cases List.mem_singleton.mp new
  sums := by
    intro k infos found
    rw [heldBy_append, ranged.sums k infos found]
    simp

/-- The creation number is the one of the first block, unless the thread was created by
    a message. -/
theorem addAlloc_creation (msgNum : UInt32) (size : UInt64) (infos : ThreadInfos) :
    (infos.addAlloc msgNum size).creationMsgNum.toNat =
      if infos.creationMsgNum.toNat = 0 then msgNum.toNat else infos.creationMsgNum.toNat := by
  by_cases zero : infos.creationMsgNum = 0
  · simp [ThreadInfos.addAlloc, zero]
  · have positive : infos.creationMsgNum.toNat ≠ 0 := fun same => zero (UInt32.toNat.inj same)
    simp [ThreadInfos.addAlloc, zero, positive]

/-- An allocation of a thread, in the last entry of its id. -/
theorem addAlloc_ranged {entries : List ThreadInfos} {pairs : List (MemoryOperation × Option Nat)} {bound k : Nat}
    (ranged : Ranged entries pairs bound) {infos : ThreadInfos} (found : entries[k]? = some infos)
    (last : ∀ (j : Nat) other, entries[j]? = some other → other.threadId = infos.threadId → j ≤ k)
    {operation : MemoryOperation} (caller : infos.threadId = operation.callerThreadId)
    (later : bound < operation.msgNum.toNat) (fresh : operation.freed = false) :
    Ranged (entries.modify k (ThreadInfos.addAlloc operation.msgNum operation.allocSize))
      (pairs ++ [(operation, some k)]) operation.msgNum.toNat := by
  have creation := fun other => addAlloc_creation operation.msgNum operation.allocSize other
  have number : ∀ other : ThreadInfos,
      (other.addAlloc operation.msgNum operation.allocSize).lastAllocMsgNum = operation.msgNum := fun _ => rfl
  have found' : (entries.modify k (ThreadInfos.addAlloc operation.msgNum operation.allocSize))[k]? =
      some (infos.addAlloc operation.msgNum operation.allocSize) := by
    rw [List.getElem?_modify_eq, found]
    rfl
  constructor
  case bounded =>
    intro other member
    obtain ⟨j, object⟩ := List.mem_iff_getElem?.mp member
    obtain ⟨before, origin, rfl⟩ := modify_origin object
    have bounded := ranged.bounded before (List.mem_of_getElem? origin)
    split
    · rw [creation, number]
      split <;> omega
    · omega
  case ordered =>
    intro i j first second before object object' same
    obtain ⟨first', origin, rfl⟩ := modify_origin object
    obtain ⟨second', origin', rfl⟩ := modify_origin object'
    simp only [apply_ite ThreadInfos.threadId, ThreadInfos.addAlloc_threadId, ite_self] at same
    have apart := ranged.ordered i j first' second' before origin origin' same
    -- the entry that allocates is the last one of its id
    have notLast : k ≠ i := by
      rintro rfl
      rw [found] at origin
      cases origin
      have := last j second' origin' same.symm
      omega
    rw [if_neg notLast]
    split
    · rw [creation]
      split <;> omega
    · exact apart
  case credited =>
    intro other j member
    rcases List.mem_append.mp member with old | new
    · obtain ⟨own, object, id, positive, above, below⟩ := ranged.credited other j old
      have bounded := (ranged.bounded own (List.mem_of_getElem? object)).2
      by_cases here : k = j
      · subst here
        rw [found] at object
        cases object
        refine ⟨_, found', id, ?_, ?_, ?_⟩
        · rw [creation, if_neg (by omega)]
          exact positive
        · rw [creation, if_neg (by omega)]
          exact above
        · rw [number]
          omega
      · exact ⟨own, by rw [List.getElem?_modify_ne _ _ here, object], id, positive, above, below⟩
    · cases List.mem_singleton.mp new
      have bounded := (ranged.bounded infos (List.mem_of_getElem? found)).1
      refine ⟨_, found', caller, ?_, ?_, ?_⟩
      · rw [creation]
        split <;> omega
      · rw [creation]
        split <;> omega
      · rw [number]
  case sums =>
    intro j other object
    obtain ⟨before, origin, rfl⟩ := modify_origin object
    rw [heldBy_append, ← ranged.sums j before origin, fresh]
    by_cases here : k = j
    · simp [here, charged, ThreadInfos.addAlloc]
    · simp [here]

/-- What the free of an operation changes in the pairs. -/
def markPair (pairs : List (MemoryOperation × Option Nat)) (i : Nat) : List (MemoryOperation × Option Nat) :=
  pairs.modify i (Prod.map (fun operation => { operation with freed := true }) id)

/-- A free of an operation, in the entry that it is credited to. -/
theorem addFree_ranged {entries : List ThreadInfos} {pairs : List (MemoryOperation × Option Nat)} {bound i k : Nat}
    (ranged : Ranged entries pairs bound) {operation : MemoryOperation} (pair : pairs[i]? = some (operation, some k))
    (notFreed : operation.freed = false) :
    Ranged (entries.modify k (ThreadInfos.addFree operation.allocSize)) (markPair pairs i) bound := by
  constructor
  case bounded =>
    intro other member
    obtain ⟨j, object⟩ := List.mem_iff_getElem?.mp member
    obtain ⟨before, origin, rfl⟩ := modify_origin object
    have bounded := ranged.bounded before (List.mem_of_getElem? origin)
    split <;> exact bounded
  case ordered =>
    intro j j' first second before object object' same
    obtain ⟨first', origin, rfl⟩ := modify_origin object
    obtain ⟨second', origin', rfl⟩ := modify_origin object'
    simp only [apply_ite ThreadInfos.threadId, ThreadInfos.addFree_threadId, ite_self] at same
    have apart := ranged.ordered j j' first' second' before origin origin' same
    split <;> split <;> exact apart
  case credited =>
    intro other j member
    obtain ⟨i', object⟩ := List.mem_iff_getElem?.mp member
    obtain ⟨⟨before, credit⟩, origin, same⟩ := modify_origin object
    have kept : before.callerThreadId = other.callerThreadId ∧ before.msgNum = other.msgNum ∧ credit = some j := by
      split at same <;> cases same <;> exact ⟨rfl, rfl, rfl⟩
    obtain ⟨caller, number, rfl⟩ := kept
    obtain ⟨own, found, id, positive, above, below⟩ := ranged.credited before j (List.mem_of_getElem? origin)
    rw [caller] at id
    rw [number] at above below
    have found' : (entries.modify k (ThreadInfos.addFree operation.allocSize))[j]? =
        some (if k = j then own.addFree operation.allocSize else own) := by
      rw [List.getElem?_modify, found]
      by_cases here : k = j <;> simp [here]
    refine ⟨_, found', ?_⟩
    split <;> exact ⟨id, positive, above, below⟩
  case sums =>
    intro j other object
    obtain ⟨before, origin, rfl⟩ := modify_origin object
    rw [heldBy, markPair, sum_modify pair, ← heldBy, ← ranged.sums j before origin]
    by_cases here : k = j
    · simp [here, charged, ThreadInfos.addFree, notFreed, sub_eq_add_neg]
    · simp [here, notFreed]

/-! ## The functions of the controller -/

/-- A session whose entries are exact up to a message number. -/
structure Exact (s : Session) (pairs : List (MemoryOperation × Option Nat)) (bound : Nat) : Prop where
  sane : Sane s
  latest : Latest s
  ranged : Ranged s.entries pairs bound

theorem modify_latest {s : Session} (latest : Latest s) (k : Option Nat) {change : ThreadInfos → ThreadInfos}
    (keeps : ∀ infos, (change infos).threadId = infos.threadId) : Latest (s.modify k change) := by
  cases k with
  | none => exact latest
  | some k =>
    intro j infos found
    obtain ⟨before, origin, rfl⟩ := modify_origin found
    simp only [apply_ite ThreadInfos.threadId, keeps, ite_self]
    exact latest j before origin

theorem append_latest {s : Session} {threadId : UInt64}
    (others : ∀ k infos, s.entries[k]? = some infos → infos.threadId ≠ threadId →
      ∃ j, s.current infos.threadId = some j ∧ k ≤ j) (tvOperation : Timeval) :
    Latest (s.append threadId tvOperation).1 := by
  intro k infos found
  show ∃ j, Function.update s.current threadId (some s.entries.length) infos.threadId = some j ∧ k ≤ j
  rcases append_origin found with old | ⟨rfl, rfl⟩
  · by_cases same : infos.threadId = threadId
    · have inside := (List.getElem?_eq_some_iff.mp old).1
      exact ⟨s.entries.length, by rw [same, Function.update_self], by omega⟩
    · rw [Function.update_of_ne same]
      exact others k infos old same
  · exact ⟨s.entries.length, by rw [ThreadInfos.make_threadId, Function.update_self], Nat.le_refl _⟩

/-- An id that is not alive has no entry. -/
theorem none_of_latest {s : Session} (latest : Latest s) {threadId : UInt64} (none : s.current threadId = none) :
    ∀ other ∈ s.entries, other.threadId ≠ threadId := by
  rintro other member rfl
  obtain ⟨k, found⟩ := List.mem_iff_getElem?.mp member
  obtain ⟨j, current, _⟩ := latest k other found
  rw [none] at current
  cases current

/-- A new entry of a thread that has none. -/
theorem append_exact {s : Session} {pairs : List (MemoryOperation × Option Nat)} {bound : Nat}
    (exact : Exact s pairs bound) {threadId : UInt64} (none : s.current threadId = none) (tvOperation : Timeval) :
    Exact (s.append threadId tvOperation).1 pairs bound := by
  refine ⟨?_, append_latest (fun k infos found _ => exact.latest k infos found) tvOperation, ?_⟩
  · exact append_sane exact.sane.notStale (fun other k _ => exact.sane.current other k) tvOperation
  · exact append_ranged exact.ranged (Nat.le_refl bound) rfl ⟨Nat.zero_le _, Nat.zero_le _⟩
      (.inl (none_of_latest exact.latest none))

/-- The entry that a thread has, or gets: the last one of its id. -/
theorem getThreadInfos_exact {s : Session} {pairs : List (MemoryOperation × Option Nat)} {bound : Nat}
    (exact : Exact s pairs bound) (threadId : UInt64) (tvOperation : Timeval) :
    Exact (s.getThreadInfos threadId false tvOperation).1 pairs bound ∧
      ∃ k infos, (s.getThreadInfos threadId false tvOperation).2 = some k ∧
        (s.getThreadInfos threadId false tvOperation).1.entries[k]? = some infos ∧ infos.threadId = threadId ∧
        ∀ (j : Nat) other, (s.getThreadInfos threadId false tvOperation).1.entries[j]? = some other →
          other.threadId = threadId → j ≤ k := by
  obtain ⟨_, ⟨k, infos, place, found, id⟩, _⟩ := getThreadInfos_sane exact.sane threadId false tvOperation
  have both : Exact (s.getThreadInfos threadId false tvOperation).1 pairs bound ∧
      (s.getThreadInfos threadId false tvOperation).1.current threadId =
        (s.getThreadInfos threadId false tvOperation).2 := by
    unfold Session.getThreadInfos
    cases current : s.current threadId with
    | some k => exact ⟨exact, current⟩
    | none =>
      simp only [exact.sane.notStale, Bool.false_eq_true, false_and, if_false]
      exact ⟨append_exact exact current tvOperation, Function.update_self ..⟩
  obtain ⟨exact', current⟩ := both
  refine ⟨exact', k, infos, place, found, id, ?_⟩
  rintro j other object rfl
  obtain ⟨j', current', le⟩ := exact'.latest j other object
  rw [current, place] at current'
  cases current'
  exact le

/-- The message of a new thread retires the entry of its id, if there is one, and makes
    the last one. -/
theorem updateThreadInfos_create (s : Session) {operation : ThreadOperation}
    (create : operation.msgCode = .pthreadCreate) :
    ∃ retired, retired = s.modify (s.current operation.threadId) (ThreadInfos.terminate operation.tvOperation) ∧
      s.updateThreadInfos operation = (retired.append operation.threadId operation.tvOperation).1.modify
        (some retired.entries.length) (ThreadInfos.applyOperation operation) := by
  refine ⟨_, rfl, ?_⟩
  rw [Session.updateThreadInfos, decide_eq_true create, Session.getThreadInfos]
  cases current : s.current operation.threadId with
  | none =>
    simp only [Bool.true_eq_false, and_false, if_false]
    rfl
  | some k =>
    simp only [if_true]
    rfl

/-- A new thread: its entry begins at the number of the message. -/
theorem create_exact {s : Session} {pairs : List (MemoryOperation × Option Nat)} {bound : Nat}
    (exact : Exact s pairs bound) {operation : ThreadOperation} (create : operation.msgCode = .pthreadCreate)
    (later : bound < operation.msgNum.toNat) :
    Exact (s.updateThreadInfos operation) pairs operation.msgNum.toNat := by
  refine ⟨(updateThreadInfos_charge exact.sane operation).1, ?_, ?_⟩
  all_goals
    obtain ⟨retired, same, result⟩ := updateThreadInfos_create s create
    rw [result]
  · have latest : Latest retired := by
      rw [same]
      exact modify_latest exact.latest _ (ThreadInfos.terminate_threadId operation.tvOperation)
    exact modify_latest (append_latest (fun k infos found _ => latest k infos found) _) _
      (ThreadInfos.applyOperation_threadId operation)
  · have ranged : Ranged retired.entries pairs bound := by
      rw [same]
      cases s.current operation.threadId with
      | none => exact exact.ranged
      | some k => exact modify_ranged exact.ranged k fun infos => ⟨rfl, rfl, rfl, rfl⟩
    have entries : ((retired.append operation.threadId operation.tvOperation).1.modify (some retired.entries.length)
        (ThreadInfos.applyOperation operation)).entries = retired.entries ++
          [(ThreadInfos.make operation.threadId operation.tvOperation retired.entries.isEmpty).applyOperation
            operation] :=
      modify_last _ _ _
    rw [entries]
    have fields : ∀ infos : ThreadInfos, (infos.applyOperation operation).creationMsgNum = operation.msgNum ∧
        (infos.applyOperation operation).lastAllocMsgNum = operation.msgNum ∧
        charged (infos.applyOperation operation) = charged infos := by
      intro infos
      unfold ThreadInfos.applyOperation
      rw [if_pos create]
      split <;> exact ⟨rfl, rfl, rfl⟩
    obtain ⟨creation, last, charge⟩ := fields
      (ThreadInfos.make operation.threadId operation.tvOperation retired.entries.isEmpty)
    refine append_ranged ranged (Nat.le_of_lt later) charge ?_ (.inr ?_)
    · rw [creation, last]
      exact ⟨Nat.le_refl _, Nat.le_refl _⟩
    · rw [creation]
      exact later

/-- A message of a thread that is not new, about its name. -/
theorem rename_exact {s : Session} {pairs : List (MemoryOperation × Option Nat)} {bound : Nat}
    (exact : Exact s pairs bound) {operation : ThreadOperation} (other : operation.msgCode ≠ .pthreadCreate) :
    Exact (s.updateThreadInfos operation) pairs bound := by
  obtain ⟨exact', k, _, place, _⟩ := getThreadInfos_exact exact operation.threadId operation.tvOperation
  have result : s.updateThreadInfos operation =
      (s.getThreadInfos operation.threadId false operation.tvOperation).1.modify (some k)
        (ThreadInfos.applyOperation operation) := by
    rw [Session.updateThreadInfos, decide_eq_false other, ← place]
  refine ⟨(updateThreadInfos_charge exact.sane operation).1, ?_, ?_⟩
  · rw [result]
    exact modify_latest exact'.latest _ (ThreadInfos.applyOperation_threadId operation)
  · rw [result]
    refine modify_ranged exact'.ranged k ?_
    intro infos
    unfold ThreadInfos.applyOperation
    rw [if_neg other]
    split <;> exact ⟨rfl, rfl, rfl, rfl⟩

theorem updateThreadInfos_exact {s : Session} {pairs : List (MemoryOperation × Option Nat)} {bound : Nat}
    (exact : Exact s pairs bound) {operation : ThreadOperation} (later : bound < operation.msgNum.toNat) :
    Exact (s.updateThreadInfos operation) pairs operation.msgNum.toNat := by
  by_cases create : operation.msgCode = .pthreadCreate
  · exact create_exact exact create later
  · have renamed := rename_exact exact create
    exact ⟨renamed.sane, renamed.latest, ranged_mono renamed.ranged (Nat.le_of_lt later)⟩

/-- A free finds the entry that its operation is credited to. -/
theorem afterFree_exact {s : Session} {pairs : List (MemoryOperation × Option Nat)} {bound i k : Nat}
    (exact : Exact s pairs bound) {freed : MemoryOperation} (pair : pairs[i]? = some (freed, some k))
    (notFreed : freed.freed = false) (tvOperation : Timeval) :
    Exact (s.afterFree (some freed) tvOperation) (markPair pairs i) bound := by
  have credit := getThreadInfosForMsgNum_credit exact.ranged (List.mem_of_getElem? pair)
  have result : s.afterFree (some freed) tvOperation = s.modify (some k) (ThreadInfos.addFree freed.allocSize) := by
    simp only [Session.afterFree, Session.updateThreadInfosAddFree, exact.sane.notStale, credit, Bool.false_eq_true,
      if_false]
  rw [result]
  have keeps := ThreadInfos.addFree_threadId freed.allocSize
  exact ⟨modify_sane exact.sane _ keeps fun _ => rfl, modify_latest exact.latest _ keeps,
    addFree_ranged exact.ranged pair notFreed⟩

theorem addAlloc_exact {s : Session} {pairs : List (MemoryOperation × Option Nat)} {bound : Nat}
    (exact : Exact s pairs bound) {operation : MemoryOperation} (later : bound < operation.msgNum.toNat)
    (fresh : operation.freed = false) :
    ∃ k, (s.getThreadInfos operation.callerThreadId false operation.tvOperation).2 = some k ∧
      Exact (s.updateThreadInfosAddAlloc operation.callerThreadId operation.msgNum operation.allocSize
        operation.tvOperation) (pairs ++ [(operation, some k)]) operation.msgNum.toNat := by
  obtain ⟨exact', k, infos, place, found, id, last⟩ :=
    getThreadInfos_exact exact operation.callerThreadId operation.tvOperation
  refine ⟨k, place, (updateThreadInfosAddAlloc_charge exact.sane _ _ _ _).1, ?_, ?_⟩
  all_goals rw [Session.updateThreadInfosAddAlloc]; simp only [place]
  · exact modify_latest exact'.latest _ (ThreadInfos.addAlloc_threadId _ _)
  · refine addAlloc_ranged exact'.ranged found ?_ id later fresh
    rw [id]
    exact last

/-! ## Messages -/

/-- The controller and the credits of its operations, after messages with numbers up to
    a bound. -/
structure Following (s : Credited) (bound : Nat) : Prop where
  kept : Kept s.controller.operations
  shaped : Shaped 0 s.controller.threads
  credits : s.credits.map Option.isSome = s.controller.operations.listMemoryOperation.map allocates
  exact : Exact (session 0 s.controller.threads) (s.controller.operations.listMemoryOperation.zip s.credits) bound

theorem fresh_following : Following ⟨Controller.fresh, []⟩ 0 where
  kept := empty_kept
  shaped := empty_shaped
  credits := rfl
  exact := by
    refine ⟨empty_sane, ?_, ?_⟩
    · intro k infos found
      cases found
    · constructor
      case bounded =>
        intro infos member
        cases member
      case ordered =>
        intro j k first second before found
        cases found
      case credited =>
        intro operation k member
        cases member
      case sums =>
        intro k infos found
        cases found

/-- An operation that allocates has its credit. -/
theorem credit_of_allocates {s : Credited}
    (credits : s.credits.map Option.isSome = s.controller.operations.listMemoryOperation.map allocates) {i : Nat}
    {operation : MemoryOperation} (object : s.controller.operations.listMemoryOperation[i]? = some operation)
    (allocates' : allocates operation = true) : ∃ k, s.credits[i]? = some (some k) := by
  have here := congrArg (·[i]?) credits
  simp only [List.getElem?_map, object, Option.map_some, allocates'] at here
  obtain ⟨credit, found, isSome⟩ := Option.map_eq_some_iff.mp here
  obtain ⟨k, rfl⟩ := Option.isSome_iff_exists.mp isSome
  exact ⟨k, found⟩

theorem afterFree_session {t : ThreadTable} (shaped : Shaped 0 t) (freed : Option MemoryOperation)
    (tvOperation : Timeval) :
    Shaped 0 (afterFree t freed tvOperation) ∧
      session 0 (afterFree t freed tvOperation) = (session 0 t).afterFree freed tvOperation := by
  cases freed with
  | none => exact ⟨shaped, rfl⟩
  | some freed => exact updateThreadInfosAddFree_session shaped _ _ _ _

/-- The credit of an operation, in the session of the controller. -/
theorem creditOf_session {c : Controller} (shaped : Shaped 0 c.threads) (operation : MemoryOperation) :
    creditOf c operation =
      if operation.allocPtr ≠ 0 then
        (((session 0 c.threads).afterFree (c.operations.addMemoryOperation operation).2
          operation.tvOperation).getThreadInfos operation.callerThreadId false operation.tvOperation).2
      else none := by
  obtain ⟨shapedFree, sessionFree⟩ := afterFree_session shaped (c.operations.addMemoryOperation operation).2
    operation.tvOperation
  have credit := (getThreadInfos_session shapedFree operation.callerThreadId false operation.tvOperation).2.2
  rw [sessionFree, place, if_pos (Nat.zero_le _), Nat.sub_zero] at credit
  rw [creditOf, ← credit]

/-- The operations that allocate have a credit, and the one that comes in as well. -/
theorem credits_append {s : Credited}
    (credits : s.credits.map Option.isSome = s.controller.operations.listMemoryOperation.map allocates)
    {operation : MemoryOperation} (allocates' : allocates operation = decide (operation.allocPtr ≠ 0)) :
    (s.credits ++ [creditOf s.controller operation]).map Option.isSome =
      (s.controller.addMemoryOperation operation).operations.listMemoryOperation.map allocates := by
  rw [Controller.addMemoryOperation_list, List.map_append, List.map_append, free_map (fun _ => rfl), credits,
    List.map_singleton, List.map_singleton, allocates', creditOf]
  split <;> simp_all

/-- The first half of a memory operation: what it frees goes from its own entry. -/
theorem free_following {s : Credited} {bound : Nat} (following : Following s bound) (operation : MemoryOperation) :
    Exact ((session 0 s.controller.threads).afterFree (s.controller.operations.addMemoryOperation operation).2
        operation.tvOperation)
      ((s.controller.operations.free operation.freePtr).1.listMemoryOperation.zip s.credits) bound := by
  have allocates' : ∀ freed, (s.controller.operations.addMemoryOperation operation).2 = some freed →
      allocates freed = true := fun _ => freed_allocates following.kept
  have same : (s.controller.operations.addMemoryOperation operation).2 =
      (s.controller.operations.free operation.freePtr).2 := rfl
  rw [same] at allocates' ⊢
  have effect := free_effect s.controller.operations operation.freePtr
  generalize s.controller.operations.free operation.freePtr = result at effect allocates' ⊢
  cases effect with
  | nothing => exact following.exact
  | marked i left freed given member found pointer notFreed =>
    obtain ⟨k, credit⟩ := credit_of_allocates following.credits found (allocates' freed rfl)
    have pair : (s.controller.operations.listMemoryOperation.zip s.credits)[i]? = some (freed, some k) :=
      List.getElem?_zip_eq_some.mpr ⟨found, credit⟩
    have exact' := afterFree_exact following.exact pair notFreed operation.tvOperation
    rw [markPair, ← zip_modify] at exact'
    exact exact'

/-- A memory operation: what it frees goes from its own entry, and what it allocates is
    credited to the last entry of the thread. -/
theorem addMemoryOperation_following {s : Credited} {bound : Nat} (following : Following s bound)
    {operation : MemoryOperation} (fresh : operation.freed = false)
    (coded : MemoryOperation.hasAllocOperation operation) (free : operation.msgCode = .free → operation.allocPtr = 0)
    (allocates' : allocates operation = decide (operation.allocPtr ≠ 0)) (later : bound < operation.msgNum.toNat) :
    Following ⟨s.controller.addMemoryOperation operation, s.credits ++ [creditOf s.controller operation]⟩
      operation.msgNum.toNat := by
  have first := free_following following operation
  have size : (s.controller.operations.free operation.freePtr).1.listMemoryOperation.length = s.credits.length := by
    have lengths := congrArg List.length following.credits
    rw [List.length_map, List.length_map] at lengths
    rw [free_length, lengths]
  obtain ⟨shaped, session'⟩ := addMemoryOperation_session following.shaped operation
    (s.controller.operations.addMemoryOperation operation).2
  constructor
  case kept => exact addMemoryOperation_kept following.kept fresh coded free
  case shaped => exact shaped
  case credits => exact credits_append following.credits allocates'
  case exact =>
    show Exact
      (session 0 (s.controller.threads.addMemoryOperation operation
        (s.controller.operations.addMemoryOperation operation).2))
      ((s.controller.addMemoryOperation operation).operations.listMemoryOperation.zip
        (s.credits ++ [creditOf s.controller operation])) _
    rw [session', Controller.addMemoryOperation_list, List.zip_append size, Session.addMemoryOperation, creditOf_session following.shaped]
    by_cases given : operation.allocPtr = 0
    · rw [if_neg (not_not.mpr given), if_neg (not_not.mpr given)]
      exact ⟨first.sane, first.latest, ranged_mono (skip_ranged first.ranged operation) (Nat.le_of_lt later)⟩
    · rw [if_pos given, if_pos given]
      obtain ⟨k, place', exact'⟩ := addAlloc_exact first later fresh
      rw [place']
      exact exact'

theorem handle_following {s : Credited} {bound : Nat} (following : Following s bound) {message : Message}
    (built : FromWrapper message) (later : bound < message.header.msgNum.toNat) :
    Following (s.handle message) message.header.msgNum.toNat := by
  cases message with
  | app | backtrace | symbolInfos => exact built.elim
  | memory header data =>
    obtain ⟨coded, free, allocates', _⟩ := memory_operation built
    exact addMemoryOperation_following following rfl coded free allocates' later
  | thread header data =>
    obtain ⟨operation, call, number⟩ : ∃ operation, handlerCall (.thread header data) = .threadOperation operation ∧
        operation.msgNum = header.msgNum := ⟨_, rfl, rfl⟩
    have later' : bound < operation.msgNum.toNat := by
      rw [number]
      exact later
    obtain ⟨shaped, session'⟩ := updateThreadInfos_session following.shaped operation
    have exact' := updateThreadInfos_exact following.exact later'
    rw [← session', number] at exact'
    show Following ⟨s.controller.handle (handlerCall (.thread header data)), s.credits⟩ _
    rw [call]
    exact ⟨following.kept, shaped, following.credits, exact'⟩

/-! ## Every reachable state -/

theorem credited_following {messages : List Message} (built : ∀ message ∈ messages, FromWrapper message)
    (numbered : messages.Pairwise fun first second => first.header.msgNum < second.header.msgNum)
    (positive : ∀ message ∈ messages, 0 < message.header.msgNum) :
    ∃ bound, Following (credited messages) bound ∧
      (bound = 0 ∨ ∃ message ∈ messages, bound = message.header.msgNum.toNat) := by
  induction messages using List.reverseRecOn with
  | nil => exact ⟨0, fresh_following, .inl rfl⟩
  | append_singleton messages message ih =>
    obtain ⟨numbered', _, apart⟩ := List.pairwise_append.mp numbered
    obtain ⟨bound, following, reached⟩ := ih (fun other member => built other (List.mem_append_left _ member)) numbered'
      fun other member => positive other (List.mem_append_left _ member)
    have last : message ∈ messages ++ [message] := by simp
    have later : bound < message.header.msgNum.toNat := by
      rcases reached with rfl | ⟨other, member, rfl⟩
      · exact UInt32.lt_iff_toNat_lt.mp (positive message last)
      · exact UInt32.lt_iff_toNat_lt.mp (apart other member message (by simp))
    refine ⟨_, ?_, .inr ⟨message, last, rfl⟩⟩
    rw [credited_append]
    exact handle_following following (built message last) later

/-- The operations of the session are those of the messages, up to their flags. -/
theorem afterStream_map {messages : List Message} (built : ∀ message ∈ messages, FromWrapper message) {A : Type}
    {f : MemoryOperation → A} (keeps : ∀ operation, f { operation with freed := true } = f operation) :
    (afterStream messages).operations.listMemoryOperation.map f = (operationsOf messages).map f := by
  induction messages using List.reverseRecOn with
  | nil => rfl
  | append_singleton messages message ih =>
    have before := ih fun other member => built other (List.mem_append_left _ member)
    have last := built message (by simp)
    rw [afterStream_append, operationsOf, List.filterMap_append, List.map_append, ← operationsOf, ← before]
    cases message with
    | app | backtrace | symbolInfos => exact last.elim
    | thread header data => exact (List.append_nil _).symm
    | memory header data =>
      rw [handlerCall, Controller.handle, Controller.addMemoryOperation_list, List.map_append, free_map keeps]
      rfl

theorem creditedTo_cons (k : Nat) (pair : MemoryOperation × Option Nat) (rest : List (MemoryOperation × Option Nat)) :
    creditedTo k (pair :: rest) =
      if !pair.1.freed && decide (pair.2 = some k) then pair.1 :: creditedTo k rest else creditedTo k rest := by
  rw [creditedTo, List.filter_cons]
  split <;> rfl

theorem heldBy_eq (k : Nat) (pairs : List (MemoryOperation × Option Nat)) :
    heldBy k pairs = wrap (((creditedTo k pairs).map fun operation => operation.allocSize.toNat).sum,
      (creditedTo k pairs).length) := by
  induction pairs with
  | nil => rfl
  | cons pair rest ih =>
    rw [heldBy, List.map_cons, List.sum_cons, ← heldBy, ih, creditedTo_cons]
    split
    · simp [wrap_apply, add_comm]
    · rw [zero_add]

/-- What is credited to one entry is among all operations, and allocates. -/
theorem creditedTo_sublist {s : Credited} {bound : Nat} (following : Following s bound) (k : Nat) :
    (creditedTo k (s.controller.operations.listMemoryOperation.zip s.credits)).Sublist
        s.controller.operations.listMemoryOperation ∧
      ∀ operation ∈ creditedTo k (s.controller.operations.listMemoryOperation.zip s.credits),
        allocates operation = true := by
  have lengths := congrArg List.length following.credits
  rw [List.length_map, List.length_map] at lengths
  constructor
  · have whole : (s.controller.operations.listMemoryOperation.zip s.credits).map Prod.fst =
        s.controller.operations.listMemoryOperation := List.map_fst_zip (by omega)
    have part := List.Sublist.map Prod.fst (List.filter_sublist
      (p := fun pair : MemoryOperation × Option Nat => !pair.1.freed && decide (pair.2 = some k))
      (l := s.controller.operations.listMemoryOperation.zip s.credits))
    rw [whole] at part
    exact part
  · intro operation member
    obtain ⟨⟨_, credit⟩, filtered, rfl⟩ := List.mem_map.mp member
    obtain ⟨paired, test⟩ := List.mem_filter.mp filtered
    obtain ⟨i, found⟩ := List.mem_iff_getElem?.mp paired
    obtain ⟨object, found⟩ := List.getElem?_zip_eq_some.mp found
    have mine : credit = some k := by
      simp only [Bool.and_eq_true, decide_eq_true_eq] at test
      exact test.2
    have here := congrArg (·[i]?) following.credits
    simp only [List.getElem?_map, object, found, mine] at here
    exact (Option.some.inj here).symm

/-- What an entry counts, where all that was allocated fits the counters. -/
theorem entry_exact {s : Credited} {bound : Nat} (following : Following s bound)
    (bytes : ((s.controller.operations.listMemoryOperation).map fun operation => operation.allocSize.toNat).sum < 2 ^ 64)
    (number : s.controller.operations.listMemoryOperation.countP allocates < 2 ^ 32) {k : Nat} {infos : ThreadInfos}
    (found : s.controller.threads.objects[k]? = some infos) :
    let held := creditedTo k (s.controller.operations.listMemoryOperation.zip s.credits)
    infos.currentSize.toNat = (held.map fun operation => operation.allocSize.toNat).sum ∧
      infos.currentAllocCount.toNat = held.length := by
  intro held
  obtain ⟨sublist, allocate⟩ := creditedTo_sublist following k
  have sums := following.exact.ranged.sums k infos found
  rw [heldBy_eq, charged, wrap_apply, Prod.mk.injEq] at sums
  have fewer : (held.map fun operation => operation.allocSize.toNat).sum < 2 ^ 64 :=
    Nat.lt_of_le_of_lt ((sublist.map _).sum_le_sum fun _ _ => Nat.zero_le _) bytes
  have count : held.length < 2 ^ 32 := by
    rw [← List.countP_eq_length.mpr allocate]
    exact Nat.lt_of_le_of_lt sublist.countP_le number
  rw [sums.1, sums.2, UInt64.toNat_ofNat', UInt32.toNat_ofNat', Nat.mod_eq_of_lt fewer, Nat.mod_eq_of_lt count]
  exact ⟨rfl, rfl⟩

/-- For messages of the wrappers with increasing numbers: every operation that
    allocates is credited to one entry; when it is freed, the search by id and number
    finds that very entry; and every entry counts the size and the number of the
    operations that are credited to it and not freed. -/
theorem thread_accounting_exact (messages : List Message) (built : ∀ message ∈ messages, FromWrapper message)
    (numbered : messages.Pairwise fun first second => first.header.msgNum < second.header.msgNum)
    (positive : ∀ message ∈ messages, 0 < message.header.msgNum)
    (bytes : ((operationsOf messages).map fun operation => operation.allocSize.toNat).sum < 2 ^ 64)
    (number : (operationsOf messages).countP allocates < 2 ^ 32) :
    let c := afterStream messages
    let objects := c.operations.listMemoryOperation
    let credits := (credited messages).credits
    (∀ (i : Nat) operation, objects[i]? = some operation → allocates operation = true →
      ∃ k ∈ c.threads.listThreadInfos, credits[i]? = some (some k)) ∧
    (∀ freePtr i left, freePtr ≠ 0 →
      takeByPtrNotFreed objects c.operations.listMemoryOperationNonFreed freePtr = some (i, left) →
      ∃ freed k, objects[i]? = some freed ∧ credits[i]? = some (some k) ∧
        c.threads.getThreadInfosForMsgNum freed.callerThreadId freed.msgNum = some k) ∧
    ∀ k ∈ c.threads.listThreadInfos, ∃ infos, c.threads.objects[k]? = some infos ∧
      infos.currentSize.toNat =
        ((creditedTo k (objects.zip credits)).map fun operation => operation.allocSize.toNat).sum ∧
      infos.currentAllocCount.toNat = (creditedTo k (objects.zip credits)).length := by
  obtain ⟨bound, following, _⟩ := credited_following built numbered positive
  rw [← credited_controller]
  have operations := fun {A : Type} {f : MemoryOperation → A} keeps => afterStream_map built (f := f) keeps
  rw [← credited_controller] at operations
  generalize credited messages = s at following operations
  intro c objects credits
  have listed : c.threads.listThreadInfos = List.range c.threads.objects.length := by
    rw [following.shaped.listed, Nat.sub_zero, List.range_eq_range']
  refine ⟨?_, ?_, ?_⟩
  · intro i operation object allocates'
    obtain ⟨k, credit⟩ := credit_of_allocates following.credits object allocates'
    refine ⟨k, ?_, credit⟩
    have pair : (objects.zip credits)[i]? = some (operation, some k) := List.getElem?_zip_eq_some.mpr ⟨object, credit⟩
    obtain ⟨infos, found, _⟩ := following.exact.ranged.credited operation k (List.mem_of_getElem? pair)
    rw [listed, List.mem_range]
    exact (List.getElem?_eq_some_iff.mp found).1
  · intro freePtr i left given taken
    have test : allocatedAt objects freePtr i = true := takeLast_test taken
    rw [allocatedAt, Option.any_eq_true] at test
    obtain ⟨freed, object, test⟩ := test
    have pointer : freed.allocPtr ≠ 0 := by
      rintro zero
      simp only [Bool.and_eq_true, decide_eq_true_eq] at test
      exact given (test.1.symm.trans zero)
    obtain ⟨k, credit⟩ := credit_of_allocates following.credits object
      (kept_allocates following.kept (List.mem_of_getElem? object) pointer)
    have pair : (objects.zip credits)[i]? = some (freed, some k) := List.getElem?_zip_eq_some.mpr ⟨object, credit⟩
    refine ⟨freed, k, object, credit, ?_⟩
    rw [getThreadInfosForMsgNum_session following.shaped (following.exact.sane.notStale _),
      getThreadInfosForMsgNum_credit following.exact.ranged (List.mem_of_getElem? pair), Option.map_some, Nat.zero_add]
  · intro k member
    rw [listed, List.mem_range] at member
    refine ⟨_, List.getElem?_eq_getElem member, ?_⟩
    refine entry_exact following ?_ ?_ (List.getElem?_eq_getElem member)
    · rw [operations fun _ => rfl]
      exact bytes
    · have count := congrArg (List.countP id) (operations (f := allocates) fun _ => rfl)
      rw [List.countP_map, List.countP_map] at count
      exact Nat.lt_of_le_of_lt (Nat.le_of_eq count) number

/-- A thread allocates, then its id is recycled. -/
def recycled : List Message :=
  [.memory ⟨1, 0, 1, 1, 11⟩ ⟨10, 4096, 1, 0⟩, .thread ⟨1, 0, 1, 2, 31⟩ ⟨7, List.Vector.replicate 24 0⟩,
    .memory ⟨1, 0, 7, 3, 13⟩ ⟨100, 8192, 2, 0⟩, .thread ⟨1, 0, 1, 4, 31⟩ ⟨7, List.Vector.replicate 24 0⟩,
    .memory ⟨1, 0, 7, 5, 14⟩ ⟨20, 12288, 3, 4096⟩]

/-- The block of the thread that is gone would be freed from its own entry. -/
theorem recycled_exact : ∃ freed k, (afterStream recycled).operations.listMemoryOperation[1]? = some freed ∧
    (credited recycled).credits[1]? = some (some k) ∧
    (afterStream recycled).threads.getThreadInfosForMsgNum freed.callerThreadId freed.msgNum = some k := by
  refine (thread_accounting_exact recycled ?_ ?_ ?_ ?_ ?_).2.1 8192 1 [2] (by decide) (by decide +kernel)
  · intro message member
    simp only [recycled, List.mem_cons, List.not_mem_nil, or_false] at member
    rcases member with rfl | rfl | rfl | rfl | rfl
    · exact ⟨.malloc, by decide, rfl, by decide⟩
    · exact List.mem_cons_self
    · exact ⟨.calloc, by decide, rfl, by decide⟩
    · exact List.mem_cons_self
    · exact ⟨.realloc, by decide, rfl, by decide⟩
  all_goals decide +kernel

end Aleakd.ThreadCredits
