import Aleakd.ListSums
import Aleakd.ThreadSessions
import Mathlib.Algebra.Group.Prod
import Mathlib.Data.UInt
import Mathlib.Tactic.Abel

/-!
What the entries of a thread id add up to. However the ids are recycled and the
messages numbered, an allocation adds to an entry of its thread id, and a free
takes off from one.
-/
namespace Aleakd.ThreadTotals
open Aleakd.Messages Aleakd.Operations Aleakd.Threads Aleakd.ThreadSessions Aleakd.ListSums

/-- Size and number of the allocations that an entry counts as not freed. -/
def charged (infos : ThreadInfos) : UInt64 × UInt32 := (infos.currentSize, infos.currentAllocCount)

/-- The part of an entry in the sum for a thread id. -/
def share (threadId : UInt64) (infos : ThreadInfos) : UInt64 × UInt32 :=
  if infos.threadId = threadId then charged infos else 0

/-- What the entries of a thread id add up to. -/
def charge (s : Session) (threadId : UInt64) : UInt64 × UInt32 := (s.entries.map (share threadId)).sum

/-- What an operation adds for a thread id, when it comes in; the same is taken off
    when it is freed. -/
def cost (threadId : UInt64) (operation : MemoryOperation) : UInt64 × UInt32 :=
  if operation.callerThreadId = threadId then (operation.allocSize, 1) else 0

/-- A session without ids of earlier ones: an id that is alive has its entry, which is
    not terminated. -/
structure Sane (s : Session) : Prop where
  notStale : ∀ threadId, s.stale threadId = false
  current : ∀ threadId k, s.current threadId = some k → ∃ infos, s.entries[k]? = some infos ∧
    infos.threadId = threadId ∧ infos.isTerminated = false

theorem empty_sane : Sane Session.empty where
  notStale _ := rfl
  current := by
    intro threadId k entry
    cases entry

/-! ## Changing one entry -/

/-- A change of one entry shows in the sum for its id. -/
theorem modify_charge {s : Session} {k : Nat} {infos : ThreadInfos} (found : s.entries[k]? = some infos)
    {change : ThreadInfos → ThreadInfos} (keeps : ∀ infos, (change infos).threadId = infos.threadId)
    (threadId : UInt64) :
    charge (s.modify (some k) change) threadId =
      charge s threadId + if infos.threadId = threadId then charged (change infos) - charged infos else 0 := by
  refine (sum_modify found change (share threadId)).trans ?_
  rw [share, share, keeps]
  by_cases same : infos.threadId = threadId
  · simp only [if_pos same]
    rfl
  · simp only [if_neg same, sub_zero]
    rfl

theorem modify_sane {s : Session} (sane : Sane s) (k : Option Nat) {change : ThreadInfos → ThreadInfos}
    (keeps : ∀ infos, (change infos).threadId = infos.threadId)
    (stays : ∀ infos, (change infos).isTerminated = infos.isTerminated) : Sane (s.modify k change) := by
  cases k with
  | none => exact sane
  | some k =>
    refine ⟨sane.notStale, ?_⟩
    intro threadId j entry
    obtain ⟨infos, found, id, running⟩ := sane.current threadId j entry
    have found' : (s.entries.modify k change)[j]? = some (if k = j then change infos else infos) := by
      rw [List.getElem?_modify, found]
      by_cases here : k = j <;> simp [here]
    refine ⟨_, found', ?_, ?_⟩
    · split
      · rw [keeps, id]
      · exact id
    · split
      · rw [stays, running]
      · exact running

/-! ## The functions of the controller -/

/-- A new entry, where every other id has its own. -/
theorem append_sane {s : Session} {threadId : UInt64} (notStale : ∀ other, s.stale other = false)
    (others : ∀ other k, other ≠ threadId → s.current other = some k → ∃ infos, s.entries[k]? = some infos ∧
      infos.threadId = other ∧ infos.isTerminated = false) (tvOperation : Timeval) :
    Sane (s.append threadId tvOperation).1 := by
  constructor
  case notStale =>
    intro other
    by_cases same : other = threadId <;> simp [Session.append, same, notStale]
  case current =>
    intro other k entry
    by_cases same : other = threadId
    · subst same
      simp only [Session.append, Function.update_self, Option.some.injEq] at entry
      subst entry
      exact ⟨_, List.getElem?_concat_length, rfl, rfl⟩
    · simp only [Session.append, Function.update_of_ne same] at entry
      obtain ⟨infos, found, id, running⟩ := others other k same entry
      have inside := (List.getElem?_eq_some_iff.mp found).1
      refine ⟨infos, ?_, id, running⟩
      show (s.entries ++ [_])[k]? = some infos
      rw [List.getElem?_append_left inside, found]

theorem append_charge (s : Session) (threadId : UInt64) (tvOperation : Timeval) (other : UInt64) :
    charge (s.append threadId tvOperation).1 other = charge s other := by
  have nothing : ∀ first, share other (ThreadInfos.make threadId tvOperation first) = 0 := by
    intro first
    rw [share]
    split <;> rfl
  simp [charge, Session.append, nothing]

/-- `getThreadInfos` gives an entry of the id that is not terminated, and changes no
    sum. -/
theorem getThreadInfos_sane {s : Session} (sane : Sane s) (threadId : UInt64) (threadCreation : Bool)
    (tvOperation : Timeval) :
    Sane (s.getThreadInfos threadId threadCreation tvOperation).1 ∧
      (∃ k infos, (s.getThreadInfos threadId threadCreation tvOperation).2 = some k ∧
        (s.getThreadInfos threadId threadCreation tvOperation).1.entries[k]? = some infos ∧
        infos.threadId = threadId) ∧
      ∀ other, charge (s.getThreadInfos threadId threadCreation tvOperation).1 other = charge s other := by
  have new : ∀ s : Session, ∃ k infos, (s.append threadId tvOperation).2 = some k ∧
      (s.append threadId tvOperation).1.entries[k]? = some infos ∧ infos.threadId = threadId :=
    fun s => ⟨_, _, rfl, List.getElem?_concat_length, rfl⟩
  unfold Session.getThreadInfos
  cases entry : s.current threadId with
  | none =>
    simp only [sane.notStale, Bool.false_eq_true, false_and, if_false]
    exact ⟨append_sane sane.notStale (fun other k _ => sane.current other k) tvOperation, new s,
      append_charge s threadId tvOperation⟩
  | some k =>
    obtain ⟨infos, found, id, running⟩ := sane.current threadId k entry
    cases threadCreation with
    | false => exact ⟨sane, ⟨k, infos, rfl, found, id⟩, fun _ => rfl⟩
    | true =>
      have retired := modify_charge found (ThreadInfos.terminate_threadId tvOperation)
      have others : ∀ other j, other ≠ threadId → s.current other = some j → ∃ infos,
          (s.modify (some k) (ThreadInfos.terminate tvOperation)).entries[j]? = some infos ∧
            infos.threadId = other ∧ infos.isTerminated = false := by
        intro other j apart entry'
        obtain ⟨infos', found', id', running'⟩ := sane.current other j entry'
        have elsewhere : k ≠ j := by
          rintro rfl
          rw [found] at found'
          cases found'
          exact apart (id'.symm.trans id)
        refine ⟨infos', ?_, id', running'⟩
        show (s.entries.modify k (ThreadInfos.terminate tvOperation))[j]? = some infos'
        rw [List.getElem?_modify_ne _ _ elsewhere, found']
      have sane' : Sane ((s.modify (some k) (ThreadInfos.terminate tvOperation)).append threadId tvOperation).1 :=
        append_sane (s := s.modify (some k) (ThreadInfos.terminate tvOperation)) sane.notStale others tvOperation
      refine ⟨sane', new _, ?_⟩
      intro other
      refine (append_charge _ threadId tvOperation other).trans ((retired other).trans ?_)
      have same : charged (infos.terminate tvOperation) - charged infos = 0 := sub_self _
      rw [same, ite_self, add_zero]

/-- An allocation adds to the sum of its thread id. -/
theorem updateThreadInfosAddAlloc_charge {s : Session} (sane : Sane s) (threadId : UInt64) (msgNum : UInt32)
    (size : UInt64) (tvOperation : Timeval) :
    Sane (s.updateThreadInfosAddAlloc threadId msgNum size tvOperation) ∧
      ∀ other, charge (s.updateThreadInfosAddAlloc threadId msgNum size tvOperation) other =
        charge s other + if threadId = other then (size, 1) else 0 := by
  obtain ⟨sane', ⟨k, infos, place, found, id⟩, same⟩ := getThreadInfos_sane sane threadId false tvOperation
  have keeps := ThreadInfos.addAlloc_threadId msgNum size
  have result : s.updateThreadInfosAddAlloc threadId msgNum size tvOperation =
      (s.getThreadInfos threadId false tvOperation).1.modify (some k) (ThreadInfos.addAlloc msgNum size) := by
    rw [Session.updateThreadInfosAddAlloc, ← place]
  rw [result]
  refine ⟨modify_sane sane' _ keeps fun _ => rfl, ?_⟩
  intro other
  have more : charged (infos.addAlloc msgNum size) - charged infos = (size, 1) := by
    simp [charged, ThreadInfos.addAlloc]
  rw [modify_charge found keeps, same, id, more]

theorem inRange_threadId {threadId : UInt64} {msgNum : UInt32} {infos : ThreadInfos}
    (range : inRange threadId msgNum infos = true) : infos.threadId = threadId := by
  simp only [inRange, Bool.and_eq_true, decide_eq_true_eq] at range
  exact range.1.1

theorem getThreadInfosForMsgNum_some {s : Session} {threadId : UInt64} {msgNum : UInt32} {k : Nat}
    (found : s.getThreadInfosForMsgNum threadId msgNum = some k) :
    ∃ infos, s.entries[k]? = some infos ∧ infos.threadId = threadId := by
  unfold Session.getThreadInfosForMsgNum at found
  split at found
  · next range =>
    rw [found, Option.any_some, Option.any_eq_true] at range
    obtain ⟨infos, object, range⟩ := range
    exact ⟨infos, object, inRange_threadId range⟩
  · obtain ⟨inside, range, _⟩ := List.findIdx?_eq_some_iff_getElem.mp found
    exact ⟨s.entries[k], List.getElem?_eq_getElem inside, inRange_threadId range⟩

/-- A free changes one entry of the thread id that allocated. -/
theorem updateThreadInfosAddFree_entry {s : Session} (sane : Sane s) (threadId : UInt64) (allocMsgNum : UInt32)
    (size : UInt64) (tvOperation : Timeval) :
    ∃ s' k infos, s.updateThreadInfosAddFree threadId allocMsgNum size tvOperation =
        s'.modify (some k) (ThreadInfos.addFree size) ∧ Sane s' ∧ s'.entries[k]? = some infos ∧
      infos.threadId = threadId ∧ (∀ other, charge s' other = charge s other) ∧
      (s.alive threadId = true → s' = s) := by
  unfold Session.updateThreadInfosAddFree
  rw [sane.notStale]
  cases range : s.getThreadInfosForMsgNum threadId allocMsgNum with
  | some k =>
    obtain ⟨infos, found, id⟩ := getThreadInfosForMsgNum_some range
    exact ⟨s, k, infos, rfl, sane, found, id, fun _ => rfl, fun _ => rfl⟩
  | none =>
    obtain ⟨sane', ⟨k, infos, place, found, id⟩, same⟩ := getThreadInfos_sane sane threadId false tvOperation
    refine ⟨_, k, infos, ?_, sane', found, id, same, ?_⟩
    · rw [← place]
      rfl
    · intro alive
      rw [Session.getThreadInfos_alive_self alive]

/-- It takes off from the sum of the id. -/
theorem updateThreadInfosAddFree_charge {s : Session} (sane : Sane s) (threadId : UInt64) (allocMsgNum : UInt32)
    (size : UInt64) (tvOperation : Timeval) :
    Sane (s.updateThreadInfosAddFree threadId allocMsgNum size tvOperation) ∧
      ∀ other, charge (s.updateThreadInfosAddFree threadId allocMsgNum size tvOperation) other =
        charge s other - if threadId = other then (size, 1) else 0 := by
  have keeps := ThreadInfos.addFree_threadId size
  obtain ⟨s', k, infos, result, sane', found, id, same, _⟩ :=
    updateThreadInfosAddFree_entry sane threadId allocMsgNum size tvOperation
  rw [result]
  refine ⟨modify_sane sane' _ keeps fun _ => rfl, ?_⟩
  intro other
  have less : charged (infos.addFree size) - charged infos = -(size, 1) := by
    simp [charged, ThreadInfos.addFree]
  rw [modify_charge found keeps, same, id, less]
  split <;> abel

/-- A thread message changes no sum. -/
theorem updateThreadInfos_charge {s : Session} (sane : Sane s) (operation : ThreadOperation) :
    Sane (s.updateThreadInfos operation) ∧ ∀ other, charge (s.updateThreadInfos operation) other = charge s other := by
  obtain ⟨sane', ⟨k, infos, place, found, id⟩, same⟩ := getThreadInfos_sane sane operation.threadId
    (operation.msgCode = .pthreadCreate) operation.tvOperation
  have keeps := ThreadInfos.applyOperation_threadId operation
  have charges : ∀ infos : ThreadInfos, charged (infos.applyOperation operation) = charged infos := by
    intro infos
    unfold ThreadInfos.applyOperation
    split <;> split <;> rfl
  have stays : ∀ infos : ThreadInfos, (infos.applyOperation operation).isTerminated = infos.isTerminated := by
    intro infos
    unfold ThreadInfos.applyOperation
    split <;> split <;> rfl
  have result : s.updateThreadInfos operation =
      (s.getThreadInfos operation.threadId (operation.msgCode = .pthreadCreate) operation.tvOperation).1.modify
        (some k) (ThreadInfos.applyOperation operation) := by
    rw [Session.updateThreadInfos, ← place]
  rw [result]
  refine ⟨modify_sane sane' _ keeps stays, ?_⟩
  intro other
  rw [modify_charge found keeps, same, charges, sub_self, ite_self, add_zero]

/-- What a call adds to the sum of a thread id, given the operation that it frees. -/
def costOf (threadId : UInt64) : Callback → UInt64 × UInt32
  | .memoryOperation operation => if operation.allocPtr ≠ 0 then cost threadId operation else 0
  | .newConnection | .threadOperation _ | .backtrace _ | .symbolInfos _ => 0

theorem afterFree_charge {s : Session} (sane : Sane s) (freed : Option MemoryOperation) (tvOperation : Timeval) :
    Sane (s.afterFree freed tvOperation) ∧
      ∀ other, charge (s.afterFree freed tvOperation) other =
        charge s other - ((freed.map (cost other)).getD 0) := by
  cases freed with
  | none => exact ⟨sane, fun other => (sub_zero _).symm⟩
  | some freed => exact updateThreadInfosAddFree_charge sane freed.callerThreadId freed.msgNum freed.allocSize _

/-- In one session, the sum of each thread id is what its operations cost that are not
    freed. -/
theorem handle_charge {s : Session} (sane : Sane s) (freed : Option MemoryOperation) (call : Callback)
    (session : call ≠ .newConnection) (frees : (∀ operation, call ≠ .memoryOperation operation) → freed = none) :
    Sane (s.handle freed call) ∧
      ∀ other, charge (s.handle freed call) other =
        charge s other - ((freed.map (cost other)).getD 0) + costOf other call := by
  have unchanged : freed = none → ∀ other, charge s other =
      charge s other - ((freed.map (cost other)).getD 0) + 0 := by
    rintro rfl other
    exact ((add_zero _).trans (sub_zero _)).symm
  cases call with
  | newConnection => exact absurd rfl session
  | backtrace | symbolInfos => exact ⟨sane, unchanged (frees (by simp))⟩
  | threadOperation operation =>
    obtain ⟨sane', same⟩ := updateThreadInfos_charge sane operation
    exact ⟨sane', fun other => (same other).trans (unchanged (frees (by simp)) other)⟩
  | memoryOperation operation =>
    obtain ⟨sane', less⟩ := afterFree_charge sane freed operation.tvOperation
    simp only [Session.handle, Session.addMemoryOperation, costOf]
    by_cases alloc : operation.allocPtr ≠ 0
    · obtain ⟨sane'', more⟩ := updateThreadInfosAddAlloc_charge sane' operation.callerThreadId operation.msgNum
        operation.allocSize operation.tvOperation
      simp only [if_pos alloc]
      exact ⟨sane'', fun other => by rw [more, less, cost]⟩
    · simp only [if_neg alloc, add_zero]
      exact ⟨sane', less⟩

/-! ## The entry of a thread id that has one -/

theorem sum_share (threadId : UInt64) (l : List ThreadInfos) :
    (l.map (share threadId)).sum = ((l.filter fun infos => infos.threadId = threadId).map charged).sum := by
  induction l with
  | nil => rfl
  | cons infos rest ih =>
    by_cases same : infos.threadId = threadId
    · simp [share, same, ih]
    · simp [share, same, ih]

/-- Where an id that is alive has one entry, that is not terminated and has the whole
    sum. -/
theorem single_entry {s : Session} (sane : Sane s) {threadId : UInt64} (alive : s.alive threadId = true)
    (single : s.count threadId = 1) :
    ∃ infos, s.entries.filter (fun infos => infos.threadId = threadId) = [infos] ∧ infos.isTerminated = false ∧
      charged infos = charge s threadId := by
  rw [Session.alive, sane.notStale, Bool.or_false, Option.isSome_iff_exists] at alive
  obtain ⟨k, entry⟩ := alive
  obtain ⟨infos, found, id, running⟩ := sane.current threadId k entry
  rw [Session.count, List.countP_eq_length_filter, List.length_eq_one_iff] at single
  obtain ⟨only, filtered⟩ := single
  have member : infos ∈ s.entries.filter fun infos => infos.threadId = threadId :=
    List.mem_filter.mpr ⟨List.mem_of_getElem? found, decide_eq_true id⟩
  rw [filtered, List.mem_singleton] at member
  subst member
  refine ⟨infos, filtered, running, ?_⟩
  rw [charge, sum_share, filtered, List.map_singleton, List.sum_singleton]

end Aleakd.ThreadTotals
