import Aleakd.NonFreed
import Aleakd.ThreadSums
import Mathlib.Algebra.BigOperators.Ring.Finset
import Mathlib.Algebra.Order.BigOperators.Group.List
import Mathlib.Algebra.Order.Group.Nat

/-!
The peaks of the session and of its threads. The session adds what a message allocates
before it takes off what the message frees, a thread the other way round.
-/
namespace Aleakd.Peaks
open Aleakd.Messages Aleakd.Operations Aleakd.OperationList Aleakd.Stats Aleakd.Threads Aleakd.ApplicationWindow
open Aleakd.ListSums Aleakd.Runs Aleakd.ServerLedger Aleakd.SessionTotals Aleakd.Sessions Aleakd.ThreadSessions
open Aleakd.ThreadTotals Aleakd.ThreadSums Aleakd.CountLedger Aleakd.NonFreed

/-- The remaining size after each message. -/
def remainingSizes : Controller → List MemoryMessage → List UInt64
  | _, [] => []
  | c, message :: rest =>
    let c := c.addMemoryOperation (received message)
    c.globalStats.totalRemainingSize :: remainingSizes c rest

/-- The peaks that the threads have reached, added up. -/
def threadPeaks (entries : List ThreadInfos) : Nat := (entries.map fun infos => infos.peakSize.toNat).sum

/-- The peak is the largest remaining size after a message, and the threads together have
    reached as much. -/
structure PeakExact (messages : List MemoryMessage) : Prop where
  largest : (afterMessages Controller.fresh messages).globalStats.peakRemainingSize =
    (remainingSizes Controller.fresh messages).foldl max 0
  threads : (afterMessages Controller.fresh messages).globalStats.peakRemainingSize.toNat ≤
    threadPeaks (afterMessages Controller.fresh messages).threads.entries

/-- The size of the block that a message gives up. -/
def givenUp (c : Controller) (message : MemoryMessage) : UInt64 :=
  freedSize (c.operations.free message.2.freePtr).2

/-- The message gives up no bytes, or it would not pass the peak if it kept them. -/
def UnderPeak (c : Controller) (message : MemoryMessage) : Prop :=
  givenUp c message = 0 ∨
    c.globalStats.totalRemainingSize.toNat + message.2.allocSize.toNat ≤ c.globalStats.peakRemainingSize.toNat

instance UnderPeak.decidable (c : Controller) (message : MemoryMessage) : Decidable (UnderPeak c message) :=
  inferInstanceAs (Decidable (givenUp c message = 0 ∨
    c.globalStats.totalRemainingSize.toNat + message.2.allocSize.toNat ≤ c.globalStats.peakRemainingSize.toNat))

theorem remainingSizes_append (c : Controller) (messages : List MemoryMessage) (message : MemoryMessage) :
    remainingSizes c (messages ++ [message]) = remainingSizes c messages ++
      [((afterMessages c messages).addMemoryOperation (received message)).globalStats.totalRemainingSize] := by
  induction messages generalizing c with
  | nil => rfl
  | cons first rest ih => exact congrArg _ (ih _)

/-! ## Sizes without overflow -/

/-- The sizes of all messages fit into 64 bits. -/
def Bounded (messages : List MemoryMessage) : Prop := (messages.map fun message => message.2.allocSize.toNat).sum < 2 ^ 64

instance Bounded.decidable : DecidablePred Bounded := fun messages =>
  inferInstanceAs (Decidable ((messages.map fun message => message.2.allocSize.toNat).sum < 2 ^ 64))

theorem filtered_le (objects : List MemoryOperation) (test : MemoryOperation → Bool) :
    ((objects.filter test).map fun operation => operation.allocSize.toNat).sum ≤
      (objects.map fun operation => operation.allocSize.toNat).sum :=
  (List.filter_sublist.map _).sum_le_sum fun _ _ => Nat.zero_le _

/-- The size of the operations that pass a test, counted in `UInt64` and in numbers. -/
theorem filtered_toNat {objects : List MemoryOperation}
    (bounded : (objects.map fun operation => operation.allocSize.toNat).sum < 2 ^ 64) (test : MemoryOperation → Bool) :
    ((objects.filter test).map MemoryOperation.allocSize).sum.toNat =
      ((objects.filter test).map fun operation => operation.allocSize.toNat).sum := by
  rw [sum_toNat, List.map_map]
  exact Nat.mod_eq_of_lt (Nat.lt_of_le_of_lt (filtered_le objects test) bounded)

theorem bounded_earlier {earlier messages : List MemoryMessage} (bounded : Bounded messages)
    (within : earlier <+: messages) : Bounded earlier :=
  Nat.lt_of_le_of_lt ((within.sublist.map _).sum_le_sum fun _ _ => Nat.zero_le _) bounded

/-- The sizes of the operations are those of the messages. -/
theorem afterMessages_sizes {messages : List MemoryMessage} (bounded : Bounded messages) :
    ((afterMessages Controller.fresh messages).operations.listMemoryOperation.map fun operation =>
      operation.allocSize.toNat).sum < 2 ^ 64 := by
  rw [afterMessages_map (fun _ => rfl)]
  exact bounded

/-! ## Entries below their peaks -/

/-- No entry holds more than its peak. -/
def BelowPeak (s : Session) : Prop := ∀ infos ∈ s.entries, infos.currentSize ≤ infos.peakSize

theorem modify_below {s : Session} (below : BelowPeak s) {k : Nat} {infos : ThreadInfos}
    (found : s.entries[k]? = some infos) {change : ThreadInfos → ThreadInfos}
    (here : (change infos).currentSize ≤ (change infos).peakSize) : BelowPeak (s.modify (some k) change) := by
  intro other member
  obtain ⟨i, object⟩ := List.mem_iff_getElem?.mp member
  obtain ⟨before, origin, rfl⟩ := modify_origin object
  by_cases same : k = i
  · subst same
    rw [found] at origin
    cases origin
    rw [if_pos rfl]
    exact here
  · rw [if_neg same]
    exact below before (List.mem_of_getElem? origin)

/-- The peaks together grow by what the peak of one entry grows. -/
theorem threadPeaks_modify {l : List ThreadInfos} {change : ThreadInfos → ThreadInfos}
    (grows : ∀ infos, infos.peakSize.toNat ≤ (change infos).peakSize.toNat) (k : Nat) :
    threadPeaks l ≤ threadPeaks (l.modify k change) := by
  induction l generalizing k with
  | nil => simp [threadPeaks]
  | cons infos rest ih =>
    cases k with
    | zero =>
      rw [List.modify_zero_cons, threadPeaks, threadPeaks, List.map_cons, List.map_cons, List.sum_cons, List.sum_cons]
      exact Nat.add_le_add_right (grows infos) _
    | succ k =>
      rw [List.modify_succ_cons, threadPeaks, threadPeaks, List.map_cons, List.map_cons, List.sum_cons, List.sum_cons]
      exact Nat.add_le_add_left (ih k) _

theorem addAlloc_peak (msgNum : UInt32) (size : UInt64) (infos : ThreadInfos) :
    (infos.addAlloc msgNum size).currentSize ≤ (infos.addAlloc msgNum size).peakSize ∧
      infos.peakSize.toNat ≤ (infos.addAlloc msgNum size).peakSize.toNat := by
  simp only [ThreadInfos.addAlloc]
  split
  · next more => exact ⟨UInt64.le_refl _, Nat.le_of_lt (UInt64.lt_iff_toNat_lt.mp more)⟩
  · next less => exact ⟨UInt64.not_lt.mp less, Nat.le_refl _⟩

theorem getThreadInfos_below {s : Session} (sane : Sane s) (below : BelowPeak s) (threadId : UInt64)
    (tvOperation : Timeval) :
    BelowPeak (s.getThreadInfos threadId false tvOperation).1 ∧
      threadPeaks (s.getThreadInfos threadId false tvOperation).1.entries = threadPeaks s.entries := by
  unfold Session.getThreadInfos
  cases s.current threadId with
  | some k => exact ⟨below, rfl⟩
  | none =>
    simp only [sane.notStale, Bool.false_eq_true, false_and, if_false]
    constructor
    · intro infos member
      rcases List.mem_append.mp member with old | new
      · exact below infos old
      · rw [List.mem_singleton.mp new]
        exact UInt64.le_refl 0
    · simp [threadPeaks, Session.append, ThreadInfos.make, ThreadInfos.zero]

theorem updateThreadInfosAddAlloc_below {s : Session} (sane : Sane s) (below : BelowPeak s) (threadId : UInt64)
    (msgNum : UInt32) (size : UInt64) (tvOperation : Timeval) :
    BelowPeak (s.updateThreadInfosAddAlloc threadId msgNum size tvOperation) ∧
      threadPeaks s.entries ≤ threadPeaks (s.updateThreadInfosAddAlloc threadId msgNum size tvOperation).entries := by
  obtain ⟨_, ⟨k, infos, place, found, _⟩, _⟩ := getThreadInfos_sane sane threadId false tvOperation
  obtain ⟨below', same⟩ := getThreadInfos_below sane below threadId tvOperation
  have result : s.updateThreadInfosAddAlloc threadId msgNum size tvOperation =
      (s.getThreadInfos threadId false tvOperation).1.modify (some k) (ThreadInfos.addAlloc msgNum size) := by
    rw [Session.updateThreadInfosAddAlloc, ← place]
  rw [result]
  refine ⟨modify_below below' found (addAlloc_peak msgNum size infos).1, ?_⟩
  rw [← same]
  exact threadPeaks_modify (fun infos => (addAlloc_peak msgNum size infos).2) k

/-- A free keeps to the one entry of its id, if that has the size. -/
theorem updateThreadInfosAddFree_below {s : Session} (sane : Sane s) (below : BelowPeak s) {threadId : UInt64}
    (alive : s.alive threadId = true) (single : s.count threadId = 1) {size : UInt64}
    (within : size ≤ (charge s threadId).1) (allocMsgNum : UInt32) (tvOperation : Timeval) :
    BelowPeak (s.updateThreadInfosAddFree threadId allocMsgNum size tvOperation) ∧
      threadPeaks s.entries ≤ threadPeaks (s.updateThreadInfosAddFree threadId allocMsgNum size tvOperation).entries := by
  obtain ⟨s', k, infos, result, _, found, id, _, same⟩ :=
    updateThreadInfosAddFree_entry sane threadId allocMsgNum size tvOperation
  rw [same alive] at result found
  obtain ⟨only, filtered, _, charged'⟩ := single_entry sane alive single
  have member : infos ∈ s.entries.filter fun infos => infos.threadId = threadId :=
    List.mem_filter.mpr ⟨List.mem_of_getElem? found, decide_eq_true id⟩
  rw [filtered, List.mem_singleton] at member
  subst member
  have enough : size ≤ infos.currentSize := by
    rw [← charged'] at within
    exact within
  have below' := below infos (List.mem_of_getElem? found)
  rw [result]
  have keeps : ∀ infos : ThreadInfos, infos.peakSize.toNat ≤ (infos.addFree size).peakSize.toNat :=
    fun _ => Nat.le_refl _
  refine ⟨modify_below below found ?_, threadPeaks_modify keeps k⟩
  show infos.currentSize - size ≤ infos.peakSize
  rw [UInt64.le_iff_toNat_le] at below' ⊢
  rw [UInt64.toNat_sub_of_le _ _ enough]
  omega

/-! ## The thread entries of a session -/

/-- What an operation counts for in the entries of a thread id. -/
def blockCost (threadId : UInt64) (operation : MemoryOperation) : UInt64 × UInt32 :=
  if operation.allocPtr ≠ 0 then cost threadId operation else 0

/-- Every thread id that is alive has one entry, which holds what its blocks cost that
    are not freed. -/
structure Peaking (c : Controller) (s : Session) : Prop where
  stands : Stands c s
  sane : Sane s
  single : ∀ threadId, s.count threadId = if s.alive threadId then 1 else 0
  charges : ∀ threadId, charge s threadId = unfreedSum (blockCost threadId) c.operations.listMemoryOperation
  below : BelowPeak s

theorem fresh_peaking : Peaking Controller.fresh Session.empty where
  stands := fresh_stands
  sane := empty_sane
  single _ := rfl
  charges _ := rfl
  below := by simp [BelowPeak, Session.empty]

/-- The size of the blocks of a thread id. -/
theorem blockCost_size (threadId : UInt64) (objects : List MemoryOperation) :
    (unfreedSum (blockCost threadId) objects).1 = ((objects.filter fun operation =>
      !operation.freed && (operation.allocPtr ≠ 0 && operation.callerThreadId = threadId)).map
        MemoryOperation.allocSize).sum := by
  rw [unfreedSum, sum_filter, sum_fst, sum_filter]
  congr 2
  funext operation
  by_cases given : operation.allocPtr = 0
  · cases operation.freed <;> simp [blockCost, given]
  · by_cases same : operation.callerThreadId = threadId
    · cases operation.freed <;> simp [blockCost, given, cost, same]
    · cases operation.freed <;> simp [blockCost, given, cost, same]

/-- What a message frees is no larger than what its thread id holds. -/
theorem freed_within {c : Controller} {s : Session} (peaking : Peaking c s)
    (bounded : (c.operations.listMemoryOperation.map fun operation => operation.allocSize.toNat).sum < 2 ^ 64)
    {freePtr : UInt64} {freed : MemoryOperation} (taken : (c.operations.free freePtr).2 = some freed) :
    freed.allocSize ≤ (charge s freed.callerThreadId).1 := by
  obtain ⟨member, notFreed, pointer, given⟩ := free_taken taken
  rw [peaking.charges, blockCost_size, UInt64.le_iff_toNat_le, filtered_toNat bounded]
  apply List.single_le_sum (fun _ _ => Nat.zero_le _)
  apply List.mem_map_of_mem (f := fun operation : MemoryOperation => operation.allocSize.toNat)
  refine List.mem_filter.mpr ⟨member, ?_⟩
  simp [notFreed, pointer, given]

theorem afterFree_below {c : Controller} {s : Session} (peaking : Peaking c s)
    (bounded : (c.operations.listMemoryOperation.map fun operation => operation.allocSize.toNat).sum < 2 ^ 64)
    (operation : MemoryOperation) :
    BelowPeak (s.afterFree (c.operations.free operation.freePtr).2 operation.tvOperation) ∧
      threadPeaks s.entries ≤
        threadPeaks (s.afterFree (c.operations.free operation.freePtr).2 operation.tvOperation).entries := by
  cases taken : (c.operations.free operation.freePtr).2 with
  | none => exact ⟨peaking.below, Nat.le_refl _⟩
  | some freed =>
    have alive := freedBy_alive peaking.stands (.memoryOperation operation) freed taken
    have single : s.count freed.callerThreadId = 1 := by rw [peaking.single, if_pos alive]
    exact updateThreadInfosAddFree_below peaking.sane peaking.below alive single (freed_within peaking bounded taken)
      freed.msgNum operation.tvOperation

/-- What a message frees counts for its block. -/
theorem freed_cost {l : OperationLists} {freePtr : UInt64} (threadId : UInt64) :
    (((l.free freePtr).2.map (cost threadId)).getD 0) = ((l.free freePtr).2.map (blockCost threadId)).getD 0 := by
  cases taken : (l.free freePtr).2 with
  | none => rfl
  | some freed =>
    obtain ⟨_, _, pointer, given⟩ := free_taken taken
    rw [Option.map_some, Option.map_some, blockCost, pointer, if_pos given]

theorem addMemoryOperation_peaking {c : Controller} {s : Session} (peaking : Peaking c s)
    (bounded : (c.operations.listMemoryOperation.map fun operation => operation.allocSize.toNat).sum < 2 ^ 64)
    {operation : MemoryOperation} (fresh : operation.freed = false) :
    ∃ s', Peaking (c.addMemoryOperation operation) s' ∧ threadPeaks s.entries ≤ threadPeaks s'.entries := by
  have freedAlive := freedBy_alive peaking.stands (.memoryOperation operation)
  obtain ⟨sane', charges'⟩ := handle_charge peaking.sane (freedBy c.operations (.memoryOperation operation))
    (.memoryOperation operation) (by simp) (fun other => absurd rfl (other _))
  obtain ⟨sane'', _⟩ := afterFree_charge peaking.sane (c.operations.free operation.freePtr).2 operation.tvOperation
  obtain ⟨below, grows⟩ := afterFree_below peaking bounded operation
  obtain ⟨below', grows'⟩ := updateThreadInfosAddAlloc_below sane'' below operation.callerThreadId operation.msgNum
    operation.allocSize operation.tvOperation
  have entries : s.handle (freedBy c.operations (.memoryOperation operation)) (.memoryOperation operation) =
      if operation.allocPtr ≠ 0 then _ else _ := rfl
  refine ⟨s.handle (freedBy c.operations (.memoryOperation operation)) (.memoryOperation operation),
    ⟨handle_stands peaking.stands (.memoryOperation operation), sane', ?_, ?_, ?_⟩, ?_⟩
  · intro threadId
    obtain ⟨alive, count⟩ := Session.handle_effect freedAlive (.memoryOperation operation) threadId
    rw [alive, count (by simp), peaking.single, creates]
    cases s.alive threadId <;> by_cases about : subject (.memoryOperation operation) = some threadId <;> simp [about]
  · intro threadId
    obtain ⟨_, unfreed⟩ := addMemoryOperation_sums (blockCost threadId) (fun _ => rfl) c.operations fresh
    refine Eq.trans ?_ unfreed.symm
    rw [charges', peaking.charges, add_sub_right_comm]
    exact congrArg (unfreedSum (blockCost threadId) c.operations.listMemoryOperation - · + _) (freed_cost threadId)
  · rw [entries]
    split
    · exact below'
    · exact below
  · rw [entries]
    split
    · exact Nat.le_trans grows grows'
    · exact grows

theorem afterMessages_peaking {messages : List MemoryMessage} (bounded : Bounded messages) :
    ∃ s, Peaking (afterMessages Controller.fresh messages) s := by
  induction messages using List.reverseRecOn with
  | nil => exact ⟨Session.empty, fresh_peaking⟩
  | append_singleton messages message ih =>
    have bounded' := bounded_earlier bounded (List.prefix_append messages [message])
    obtain ⟨s, peaking⟩ := ih bounded'
    obtain ⟨s', peaking', _⟩ := addMemoryOperation_peaking peaking (afterMessages_sizes bounded')
      (show (received message).freed = false from rfl)
    rw [afterMessages_append]
    exact ⟨s', peaking'⟩

/-! ## The remaining size -/

/-- Only messages with a block have a size. -/
def Sized (messages : List MemoryMessage) : Prop :=
  ∀ message ∈ messages, message.2.allocPtr = 0 → message.2.allocSize = 0

theorem possible_sized {a final : Allocator} {messages : List MemoryMessage}
    (ran : run Allocator.step a (messages.map received) = some final) : Sized messages := by
  induction messages generalizing a with
  | nil => simp [Sized]
  | cons message rest ih =>
    obtain ⟨next, stepped, later⟩ := run_cons_some.mp ran
    simp only [Allocator.step, Option.ite_none_right_eq_some] at stepped
    obtain ⟨⟨_, _, only⟩, _⟩ := stepped
    intro other member
    rcases List.mem_cons.mp member with rfl | member
    · exact fun zero => (only zero).2
    · exact ih later other member

theorem afterMessages_totalled (messages : List MemoryMessage) :
    Totalled (afterMessages Controller.fresh messages).operations.listMemoryOperation
      (afterMessages Controller.fresh messages).globalStats := by
  induction messages using List.reverseRecOn with
  | nil => exact reset_totalled MemoryStats.zero
  | append_singleton messages message ih =>
    rw [afterMessages_append]
    exact addMemoryOperation_totalled ih rfl

theorem blockCost_all {operation : MemoryOperation} (sized : operation.allocPtr = 0 → operation.allocSize = 0) :
    ∑ threadId : UInt64, blockCost threadId operation = (operation.allocSize, if operation.allocPtr ≠ 0 then 1 else 0) := by
  by_cases given : operation.allocPtr = 0
  · have nothing : ∀ threadId, blockCost threadId operation = 0 := fun _ => if_neg (not_not.mpr given)
    rw [Finset.sum_eq_zero fun threadId _ => nothing threadId, sized given, if_neg (not_not.mpr given)]
    rfl
  · have whole : ∀ threadId, blockCost threadId operation = cost threadId operation := fun _ => if_pos given
    rw [Finset.sum_congr rfl fun threadId _ => whole threadId, cost_all, if_pos given]

/-- What the threads hold together is what remains. -/
theorem entries_size {messages : List MemoryMessage} (sized : Sized messages) {s : Session}
    (peaking : Peaking (afterMessages Controller.fresh messages) s) :
    (s.entries.map ThreadInfos.currentSize).sum =
      (afterMessages Controller.fresh messages).globalStats.totalRemainingSize := by
  have sized' : ∀ operation ∈ (afterMessages Controller.fresh messages).operations.listMemoryOperation,
      operation.allocPtr = 0 → operation.allocSize = 0 := by
    intro operation member
    have pair := List.mem_map_of_mem (f := fun operation : MemoryOperation => (operation.allocPtr, operation.allocSize))
      member
    rw [afterMessages_map (fun _ => rfl)] at pair
    obtain ⟨message, sent, same⟩ := List.mem_map.mp pair
    obtain ⟨pointer, size⟩ := Prod.mk.inj same
    rw [← pointer, ← size]
    exact sized message sent
  have all : chargeAll s = unfreedSum (fun operation => (operation.allocSize, if operation.allocPtr ≠ 0 then 1 else 0))
      (afterMessages Controller.fresh messages).operations.listMemoryOperation := by
    rw [chargeAll_eq, Finset.sum_congr rfl fun threadId _ => peaking.charges threadId]
    exact sum_all fun operation member => blockCost_all (sized' operation (List.mem_filter.mp member).1)
  rw [chargeAll, sum_charged] at all
  refine (congrArg Prod.fst all).trans ?_
  rw [unfreedSum, sum_fst, (afterMessages_totalled messages).remainingSize]
  rfl

theorem sum_currentSize_le {s : Session} (below : BelowPeak s) :
    (s.entries.map ThreadInfos.currentSize).sum.toNat ≤ threadPeaks s.entries := by
  rw [sum_toNat, List.map_map]
  refine Nat.le_trans (Nat.mod_le _ _) ?_
  exact List.sum_le_sum fun infos member => UInt64.le_iff_toNat_le.mp (below infos member)

/-- The remaining size in numbers. -/
theorem remaining_toNat {messages : List MemoryMessage} (bounded : Bounded messages) :
    ((afterMessages Controller.fresh messages).globalStats.totalRemainingSize.toNat : Int) =
      unfreedSum (fun operation => (operation.allocSize.toNat : Int))
        (afterMessages Controller.fresh messages).operations.listMemoryOperation := by
  rw [(afterMessages_totalled messages).remainingSize, unfreedSum, filtered_toNat (afterMessages_sizes bounded),
    unfreedSum, Nat.cast_list_sum, List.map_map]
  rfl

/-- What is allocated comes to what remains and what is given up goes, without overflow. -/
theorem remaining_step {messages : List MemoryMessage} {message : MemoryMessage}
    (bounded : Bounded (messages ++ [message])) :
    (afterMessages Controller.fresh (messages ++ [message])).globalStats.totalRemainingSize.toNat +
        (givenUp (afterMessages Controller.fresh messages) message).toNat =
      (afterMessages Controller.fresh messages).globalStats.totalRemainingSize.toNat + message.2.allocSize.toNat ∧
    (afterMessages Controller.fresh messages).globalStats.totalRemainingSize.toNat + message.2.allocSize.toNat <
      2 ^ 64 := by
  have bounded' := bounded_earlier bounded (List.prefix_append messages [message])
  have before := remaining_toNat bounded'
  have later := remaining_toNat bounded
  constructor
  · obtain ⟨_, sum⟩ := addMemoryOperation_sums (fun operation => (operation.allocSize.toNat : Int)) (fun _ => rfl)
      (afterMessages Controller.fresh messages).operations (show (received message).freed = false from rfl)
    have goes : (((afterMessages Controller.fresh messages).operations.addMemoryOperation (received message)).2.map
        fun operation => (operation.allocSize.toNat : Int)).getD 0 =
        (givenUp (afterMessages Controller.fresh messages) message).toNat := by
      show (((afterMessages Controller.fresh messages).operations.free message.2.freePtr).2.map _).getD 0 = _
      rw [givenUp, freedSize]
      cases ((afterMessages Controller.fresh messages).operations.free message.2.freePtr).2 <;> rfl
    have comes : ((received message).allocSize.toNat : Int) = message.2.allocSize.toNat := rfl
    rw [goes, comes, ← before] at sum
    rw [afterMessages_append] at later ⊢
    have both := later.trans sum
    omega
  · rw [Bounded, List.map_append, List.sum_append, List.map_singleton, List.sum_singleton] at bounded
    refine Nat.lt_of_le_of_lt (Nat.add_le_add_right ?_ _) bounded
    rw [(afterMessages_totalled messages).remainingSize, unfreedSum, filtered_toNat (afterMessages_sizes bounded')]
    refine Nat.le_trans (filtered_le _ _) (Nat.le_of_eq (congrArg List.sum ?_))
    exact afterMessages_map (f := fun operation => operation.allocSize.toNat) (fun _ => rfl) messages

theorem larger_toNat (maximum value : UInt64) : (larger maximum value).toNat = max maximum.toNat value.toNat := by
  unfold larger
  split
  · next more =>
    have more' := UInt64.lt_iff_toNat_lt.mp more
    omega
  · next less =>
    have less' := UInt64.le_iff_toNat_le.mp (UInt64.not_lt.mp less)
    omega

/-! ## The peak after a message -/

theorem peakExact_nil : PeakExact [] where
  largest := rfl
  threads := Nat.zero_le _

/-- One more message keeps the peak exact if and only if it stays under the peak or
    gives up nothing. -/
theorem peakExact_append {messages : List MemoryMessage} {message : MemoryMessage} (exact : PeakExact messages)
    (bounded : Bounded (messages ++ [message])) (sized : Sized (messages ++ [message])) :
    PeakExact (messages ++ [message]) ↔ UnderPeak (afterMessages Controller.fresh messages) message := by
  obtain ⟨largest, threads⟩ := exact
  have bounded' := bounded_earlier bounded (List.prefix_append messages [message])
  obtain ⟨step, fits⟩ := remaining_step bounded
  have peak : (afterMessages Controller.fresh (messages ++ [message])).globalStats.peakRemainingSize.toNat =
      max (afterMessages Controller.fresh messages).globalStats.peakRemainingSize.toNat
        ((afterMessages Controller.fresh messages).globalStats.totalRemainingSize.toNat +
          message.2.allocSize.toNat) := by
    rw [afterMessages_append]
    refine (congrArg UInt64.toNat (MemoryStats.addMemoryOperation_peak ..)).trans ?_
    rw [larger_toNat, UInt64.toNat_add]
    congr 1
    exact Nat.mod_eq_of_lt fits
  have maximum : ((remainingSizes Controller.fresh (messages ++ [message])).foldl max 0).toNat =
      max (afterMessages Controller.fresh messages).globalStats.peakRemainingSize.toNat
        (afterMessages Controller.fresh (messages ++ [message])).globalStats.totalRemainingSize.toNat := by
    rw [remainingSizes_append, List.foldl_append, List.foldl_cons, List.foldl_nil, UInt64.toNat_max, ← largest,
      afterMessages_append]
  have nothing : givenUp (afterMessages Controller.fresh messages) message = 0 ↔
      (givenUp (afterMessages Controller.fresh messages) message).toNat = 0 := UInt64.toNat_inj.symm
  rw [UnderPeak, nothing]
  constructor
  · rintro ⟨largest', _⟩
    rw [← UInt64.toNat_inj, peak, maximum] at largest'
    omega
  · intro under
    have largest' : (afterMessages Controller.fresh (messages ++ [message])).globalStats.peakRemainingSize =
        (remainingSizes Controller.fresh (messages ++ [message])).foldl max 0 := by
      rw [← UInt64.toNat_inj, peak, maximum]
      omega
    refine ⟨largest', ?_⟩
    -- the threads keep their peaks, and hold what remains
    obtain ⟨s, peaking⟩ := afterMessages_peaking bounded'
    obtain ⟨s', peaking', grows⟩ := addMemoryOperation_peaking peaking (afterMessages_sizes bounded')
      (show (received message).freed = false from rfl)
    rw [← afterMessages_append] at peaking'
    have remaining := sum_currentSize_le peaking'.below
    rw [entries_size sized peaking'] at remaining
    rw [stands_entries peaking.stands] at threads
    rw [largest', maximum, stands_entries peaking'.stands]
    omega

/-- For messages that an allocator can give rise to, with sizes that fit into 64 bits:
    the peak is the largest remaining size so far and no more than the threads have
    reached, all the way, if and only if no message passes the peak while it still
    keeps a block that it gives up. -/
theorem peak_exact_iff (messages : List MemoryMessage) (a : Allocator)
    (possible : run Allocator.step Allocator.empty (messages.map received) = some a) (bounded : Bounded messages) :
    (∀ earlier, earlier <+: messages → PeakExact earlier) ↔
      ∀ earlier message, earlier ++ [message] <+: messages →
        UnderPeak (afterMessages Controller.fresh earlier) message := by
  have sized := possible_sized possible
  refine always_iff peakExact_nil ?_
  intro earlier message within exact
  exact peakExact_append exact (bounded_earlier bounded within) fun other member => sized other (within.subset member)

/-- A block that comes and goes under the peak of another one, and grows then. -/
theorem grown_exact : PeakExact [(⟨1, 0, 7, 1, 11⟩, ⟨300, 4096, 1, 0⟩), (⟨2, 0, 7, 2, 12⟩, ⟨0, 0, 0, 4096⟩),
    (⟨3, 0, 7, 3, 11⟩, ⟨100, 4096, 2, 0⟩), (⟨4, 0, 7, 4, 14⟩, ⟨150, 8192, 3, 4096⟩)] := by
  refine (peak_exact_iff _ _ (by rfl) (by decide)).mpr ?_ _ List.prefix_rfl
  intro earlier message within
  have known : ∀ earlier ∈ List.inits [(⟨1, 0, 7, 1, 11⟩, ⟨300, 4096, 1, 0⟩), (⟨2, 0, 7, 2, 12⟩, ⟨0, 0, 0, 4096⟩),
      (⟨3, 0, 7, 3, 11⟩, ⟨100, 4096, 2, 0⟩), (⟨4, 0, 7, 4, 14⟩, ⟨150, 8192, 3, 4096⟩)],
      ∀ message ∈ earlier.getLast?, UnderPeak (afterMessages Controller.fresh earlier.dropLast) message := by
    decide +kernel
  have under := known (earlier ++ [message]) ((List.mem_inits _ _).mpr within) message (by simp)
  rwa [List.dropLast_concat] at under

/-- A block is moved, and for a moment both count. -/
theorem moved_passes_peak :
    ¬ ∀ messages a, run Allocator.step Allocator.empty (messages.map received) = some a → Bounded messages →
      PeakExact messages := by
  intro claim
  have threads := (claim [(⟨1, 0, 7, 1, 11⟩, ⟨100, 4096, 1, 0⟩), (⟨2, 0, 7, 2, 14⟩, ⟨100, 8192, 2, 4096⟩)] _ (by rfl)
    (by decide)).threads
  revert threads
  -- the peak is 200, the thread had 100 at most
  decide +kernel

end Aleakd.Peaks
