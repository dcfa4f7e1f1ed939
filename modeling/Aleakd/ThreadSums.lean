import Aleakd.Sessions
import Aleakd.SessionTotals
import Aleakd.ThreadTotals
import Aleakd.WrapperLedger
import Mathlib.Algebra.BigOperators.Group.Finset.Piecewise
import Mathlib.Data.FinEnum

/-!
The thread table as a whole against the totals of the session. Each block that comes
in is added to an entry of its thread id and taken off from one when it is freed,
whatever the message numbers; so the entries add up to what is not freed.
-/
namespace Aleakd.ThreadSums
open Aleakd.Messages Aleakd.Operations Aleakd.OperationList Aleakd.Threads Aleakd.ApplicationWindow Aleakd.Framing
open Aleakd.ThreadSessions Aleakd.Sessions Aleakd.ThreadTotals Aleakd.SessionTotals Aleakd.ListSums

/-- A memory or thread message as the wrappers build it: the codes that allocate carry
    a block, and `free` carries none. -/
def FromWrapper : Message → Prop
  | .memory header data => ∃ code ∈ MsgCode.memory, header.msgCode = code.byte ∧
      if code = .free then data.allocPtr = 0 ∧ data.allocSize = 0 else data.allocPtr ≠ 0
  | .thread header _ => header.msgCode ∈ [MsgCode.pthreadCreate, MsgCode.pthreadSetName].map MsgCode.byte
  | .app _ | .backtrace _ _ | .symbolInfos _ _ => False

/-- What the wrappers send is of this form, where no function reports a block at NULL. -/
theorem sent_fromWrapper {header : ServerMsgHeaderV1} {data : ServerMsgMemoryDataV1}
    (sent : WrapperLedger.Sent (header, data)) (given : header.msgCode ≠ MsgCode.free.byte → data.allocPtr ≠ 0) :
    FromWrapper (.memory header data) := by
  obtain ⟨code, built⟩ := WrapperLedger.sent_built sent
  refine ⟨code, built.known, built.coded, ?_⟩
  split
  · next free => exact (built.frees free).2
  · next other =>
    apply given
    rw [built.coded]
    have apart : ∀ code ∈ MsgCode.memory, code ≠ .free → code.byte ≠ MsgCode.free.byte := by decide
    exact apart code built.known other

/-! ## The operations -/

/-- What an operation of the wrappers is: it has a code of an allocation function, and
    it allocates when it has a block, and has no size otherwise. -/
theorem memory_operation {header : ServerMsgHeaderV1} {data : ServerMsgMemoryDataV1}
    (built : FromWrapper (.memory header data)) :
    MemoryOperation.hasAllocOperation (memoryOperation header data) ∧
      ((memoryOperation header data).msgCode = .free → data.allocPtr = 0) ∧
      allocates (memoryOperation header data) = decide (data.allocPtr ≠ 0) ∧ (data.allocPtr = 0 → data.allocSize = 0) := by
  obtain ⟨code, known, coded, pointers⟩ := built
  have same : (memoryOperation header data).msgCode = code := by
    have named : ∀ code ∈ MsgCode.memory, code ∈ MsgCode.named := by decide
    show MsgCode.ofByte header.msgCode = code
    rw [coded, MsgCode.ofByte_byte (named code known)]
  have hasAlloc : MemoryOperation.hasAllocOperation (memoryOperation header data) = true := by
    rw [MemoryOperation.hasAllocOperation, same]
    exact decide_eq_true known
  refine ⟨hasAlloc, ?_, ?_, ?_⟩
  · intro free
    rw [same] at free
    rw [if_pos free] at pointers
    exact pointers.1
  · rw [allocates, hasAlloc, same]
    by_cases free : code = .free
    · rw [if_pos free] at pointers
      simp [free, pointers.1]
    · rw [if_neg free] at pointers
      simp [free, pointers]
  · intro zero
    by_cases free : code = .free
    · rw [if_pos free] at pointers
      exact pointers.2
    · rw [if_neg free] at pointers
      exact absurd zero pointers

/-- What an operation counts for, while it is not freed: its size, and one if it
    allocates. -/
def worthOf (operation : MemoryOperation) : UInt64 × UInt32 :=
  (operation.allocSize, if allocates operation then 1 else 0)

/-- Size and number of all that is not freed. -/
def unfreedWorth (objects : List MemoryOperation) : UInt64 × UInt32 := unfreedSum worthOf objects

theorem unfreedWorth_eq (objects : List MemoryOperation) :
    unfreedWorth objects =
      (unfreedSum MemoryOperation.allocSize objects,
        UInt32.ofNat (objects.countP fun operation => allocates operation && !operation.freed)) := by
  induction objects with
  | nil => rfl
  | cons operation rest ih =>
    rw [unfreedWorth, unfreedSum, unfreedSum] at ih ⊢
    rw [List.countP_cons, UInt32.ofNat_add]
    cases freed : operation.freed with
    | true =>
      rw [List.filter_cons_of_neg (by simp [freed]), ih, Bool.not_true, Bool.and_false, if_neg Bool.false_ne_true]
      exact Prod.ext rfl (add_zero _).symm
    | false =>
      rw [List.filter_cons_of_pos (by simp [freed]), List.map_cons, List.sum_cons, List.map_cons, List.sum_cons, ih,
        Bool.not_false, Bool.and_true]
      refine Prod.ext rfl ((add_comm _ _).trans (congrArg _ ?_))
      rw [worthOf]
      split <;> rfl

/-! ## The entries -/

/-- What all entries add up to. -/
def chargeAll (s : Session) : UInt64 × UInt32 := (s.entries.map charged).sum

theorem sum_charged (l : List ThreadInfos) :
    (l.map charged).sum = ((l.map ThreadInfos.currentSize).sum, (l.map ThreadInfos.currentAllocCount).sum) := by
  induction l with
  | nil => rfl
  | cons infos rest ih =>
    rw [List.map_cons, List.sum_cons, ih]
    rfl

theorem chargeAll_eq (s : Session) : chargeAll s = ∑ threadId : UInt64, charge s threadId := by
  refine (sum_all ?_).symm
  intro infos _
  simp only [share]
  exact (Finset.sum_ite_eq Finset.univ infos.threadId fun _ => charged infos).trans (if_pos (Finset.mem_univ _))

theorem cost_all (operation : MemoryOperation) : ∑ threadId : UInt64, cost threadId operation = (operation.allocSize, 1) := by
  simp only [cost]
  exact (Finset.sum_ite_eq Finset.univ operation.callerThreadId fun _ => (operation.allocSize, (1 : UInt32))).trans
    (if_pos (Finset.mem_univ _))

theorem costOf_all {header : ServerMsgHeaderV1} {data : ServerMsgMemoryDataV1}
    (built : FromWrapper (.memory header data)) :
    ∑ threadId : UInt64, costOf threadId (handlerCall (.memory header data)) =
      worthOf (memoryOperation header data) := by
  obtain ⟨_, _, allocates', none⟩ := memory_operation built
  by_cases given : data.allocPtr = 0
  · have nothing : ∀ threadId, costOf threadId (handlerCall (.memory header data)) = 0 := by
      intro threadId
      exact if_neg (not_not.mpr given)
    have worth : worthOf (memoryOperation header data) = (data.allocSize, 0) := by
      rw [worthOf, allocates', given]
      rfl
    simp only [nothing, Finset.sum_const_zero]
    rw [worth, none given]
    rfl
  · have cost' : ∀ threadId, costOf threadId (handlerCall (.memory header data)) =
        cost threadId (memoryOperation header data) := by
      intro threadId
      exact if_pos given
    simp only [cost', cost_all]
    simp [worthOf, allocates', given]

/-! ## The list of the threads alive -/

/-- The threads alive are in the list of all threads, in its order. -/
def AliveListed (t : ThreadTable) : Prop := t.listThreadInfosAlive.Sublist t.listThreadInfos

theorem append_listed {t : ThreadTable} (listed : AliveListed t) (threadId : UInt64) (tvOperation : Timeval) :
    AliveListed (t.append threadId tvOperation).1 :=
  List.Sublist.append listed (List.Sublist.refl [t.objects.length])

theorem getThreadInfos_listed {t : ThreadTable} (listed : AliveListed t) (threadId : UInt64) (threadCreation : Bool)
    (tvOperation : Timeval) : AliveListed (t.getThreadInfos threadId threadCreation tvOperation).1 := by
  unfold ThreadTable.getThreadInfos
  split
  · next i alive =>
    split
    · have fewer : (removeById t.objects t.listThreadInfosAlive threadId).Sublist t.listThreadInfosAlive :=
        List.filter_sublist
      exact List.Sublist.append (fewer.trans listed) (List.Sublist.refl [(t.objects.modify i _).length])
    · exact listed
  · exact append_listed listed threadId tvOperation

theorem updateThreadInfosAddFree_listed {t : ThreadTable} (listed : AliveListed t) (threadId : UInt64)
    (allocMsgNum : UInt32) (size : UInt64) (tvOperation : Timeval) :
    AliveListed (t.updateThreadInfosAddFree threadId allocMsgNum size tvOperation) := by
  unfold ThreadTable.updateThreadInfosAddFree
  split
  · exact listed
  · exact getThreadInfos_listed listed threadId false tvOperation

/-- The table after the first half of `addMemoryOperation`, about the operation that is
    freed. -/
def afterFree (t : ThreadTable) (freed : Option MemoryOperation) (tvOperation : Timeval) : ThreadTable :=
  match freed with
  | some freed => t.updateThreadInfosAddFree freed.callerThreadId freed.msgNum freed.allocSize tvOperation
  | none => t

theorem addMemoryOperation_eq (t : ThreadTable) (operation : MemoryOperation) (freed : Option MemoryOperation) :
    t.addMemoryOperation operation freed =
      if operation.allocPtr ≠ 0 then
        (afterFree t freed operation.tvOperation).updateThreadInfosAddAlloc operation.callerThreadId operation.msgNum
          operation.allocSize operation.tvOperation
      else afterFree t freed operation.tvOperation := by
  cases freed <;> rfl

theorem afterFree_listed {t : ThreadTable} (listed : AliveListed t) (freed : Option MemoryOperation)
    (tvOperation : Timeval) : AliveListed (afterFree t freed tvOperation) := by
  cases freed with
  | none => exact listed
  | some freed => exact updateThreadInfosAddFree_listed listed _ _ _ _

theorem addMemoryOperation_listed {t : ThreadTable} (listed : AliveListed t) (operation : MemoryOperation)
    (freed : Option MemoryOperation) : AliveListed (t.addMemoryOperation operation freed) := by
  have after := afterFree_listed listed freed operation.tvOperation
  rw [addMemoryOperation_eq]
  split
  · exact getThreadInfos_listed after operation.callerThreadId false operation.tvOperation
  · exact after

/-! ## Every reachable state -/

/-- The entries add up to what is not freed. -/
structure Adds (c : Controller) : Prop where
  kept : Kept c.operations
  listed : AliveListed c.threads
  sums : ∃ s, Stands c s ∧ Sane s ∧ chargeAll s = unfreedWorth c.operations.listMemoryOperation

theorem fresh_adds : Adds Controller.fresh where
  kept := empty_kept
  listed := List.Sublist.refl []
  sums := ⟨Session.empty, fresh_stands, empty_sane, rfl⟩

theorem handle_adds {c : Controller} (adds : Adds c) {message : Message} (built : FromWrapper message) :
    Adds (c.handle (handlerCall message)) := by
  obtain ⟨kept, listed, s, stands, sane, sums⟩ := adds
  cases message with
  | app | backtrace | symbolInfos => exact built.elim
  | thread header data =>
    have stands' := handle_stands stands (handlerCall (.thread header data))
    obtain ⟨sane', charges⟩ := handle_charge sane none (handlerCall (.thread header data)) (by simp [handlerCall])
      (fun _ => rfl)
    refine ⟨kept, getThreadInfos_listed listed _ _ _, _, stands', sane', ?_⟩
    have same : ∀ threadId, charge (s.handle none (handlerCall (.thread header data))) threadId = charge s threadId := by
      intro threadId
      rw [charges]
      simp [costOf, handlerCall]
    refine Eq.trans ?_ sums
    rw [chargeAll_eq, chargeAll_eq]
    exact Finset.sum_congr rfl fun threadId _ => same threadId
  | memory header data =>
    obtain ⟨coded, free, _⟩ := memory_operation built
    have stands' := handle_stands stands (handlerCall (.memory header data))
    obtain ⟨sane', charges⟩ := handle_charge sane (freedBy c.operations (handlerCall (.memory header data)))
      (handlerCall (.memory header data)) (by simp [handlerCall]) (fun other => absurd rfl (other _))
    refine ⟨addMemoryOperation_kept kept rfl coded free, addMemoryOperation_listed listed _ _, _, stands', sane', ?_⟩
    have fresh : (memoryOperation header data).freed = false := rfl
    obtain ⟨_, unfreed⟩ := addMemoryOperation_sums worthOf (fun _ => rfl) c.operations fresh
    -- what is freed allocates, so it is worth what it costs
    have worth : ∑ threadId : UInt64, ((freedBy c.operations (handlerCall (.memory header data))).map
        (cost threadId)).getD 0 =
        ((c.operations.addMemoryOperation (memoryOperation header data)).2.map worthOf).getD 0 := by
      show ∑ threadId : UInt64, ((c.operations.addMemoryOperation (memoryOperation header data)).2.map
        (cost threadId)).getD 0 = _
      cases taken : (c.operations.addMemoryOperation (memoryOperation header data)).2 with
      | none => simp
      | some freed =>
        simp only [Option.map_some, Option.getD_some, cost_all, worthOf, freed_allocates kept taken, if_true]
    rw [chargeAll_eq]
    simp only [charges, Finset.sum_add_distrib, Finset.sum_sub_distrib]
    rw [← chargeAll_eq, costOf_all built, worth, sums]
    refine Eq.trans ?_ unfreed.symm
    rw [unfreedWorth]
    abel

theorem afterStream_adds {messages : List Message} (built : ∀ message ∈ messages, FromWrapper message) :
    Adds (afterStream messages) := by
  induction messages using List.reverseRecOn with
  | nil => exact fresh_adds
  | append_singleton messages message ih =>
    rw [afterStream_append]
    exact handle_adds (ih fun other member => built other (List.mem_append_left _ member)) (built message (by simp))

/-- Whatever the message numbers and the thread ids, after messages of the wrappers the
    entries add up to the remaining size of the session and to the number of
    allocations not freed; the threads alive are in the list; and their ids differ. -/
theorem threads_add_up (messages : List Message) (built : ∀ message ∈ messages, FromWrapper message) :
    let c := afterStream messages
    let objects := c.operations.listMemoryOperation
    (c.threads.entries.map ThreadInfos.currentSize).sum = c.globalStats.totalRemainingSize ∧
    (c.threads.entries.map ThreadInfos.currentAllocCount).sum =
      UInt32.ofNat (objects.countP fun operation => allocates operation && !operation.freed) ∧
    (∀ i ∈ c.threads.listThreadInfosAlive, i ∈ c.threads.listThreadInfos) ∧
    (c.threads.listThreadInfosAlive.map fun i => c.threads.objects[i]?.map ThreadInfos.threadId).Nodup := by
  intro c objects
  obtain ⟨_, listed, s, stands, _, sums⟩ := afterStream_adds built
  have entries : c.threads.entries = s.entries := stands_entries stands
  rw [unfreedWorth_eq, chargeAll, sum_charged, Prod.mk.injEq, ← entries] at sums
  obtain ⟨size, number⟩ := sums
  obtain ⟨base, shaped, _⟩ := stands.table
  refine ⟨?_, number, fun i member => listed.subset member, ?_⟩
  · rw [(afterStream_totalled messages).remainingSize]
    exact size
  · have distinct : c.threads.listThreadInfos.Nodup := by
      rw [shaped.listed]
      exact List.nodup_range'
    refine List.Nodup.map_on ?_ (distinct.sublist listed)
    intro i member j member' same
    obtain ⟨first, object⟩ : ∃ first, c.threads.objects[i]? = some first :=
      ⟨_, List.getElem?_eq_getElem (shaped.inside i member)⟩
    have hasI : hasId c.threads.objects first.threadId i = true := by
      rw [hasId, object]
      exact decide_eq_true rfl
    refine shaped.single _ i member j member' hasI ?_
    rw [object] at same
    obtain ⟨infos, object', id⟩ := Option.map_eq_some_iff.mp same.symm
    rw [hasId, object']
    exact decide_eq_true id

/-- A thread allocates and its id is recycled; the block that is freed has the number of
    a later one. -/
theorem threads_add_up_recycled :
    ((afterStream [.memory ⟨1, 0, 7, 3, 11⟩ ⟨100, 4096, 1, 0⟩, .thread ⟨1, 0, 1, 2, 31⟩ ⟨7, List.Vector.replicate 24 0⟩,
      .memory ⟨2, 0, 7, 3, 14⟩ ⟨50, 8192, 2, 0⟩, .memory ⟨3, 0, 1, 1, 12⟩ ⟨0, 0, 0, 4096⟩]).threads.entries.map
        ThreadInfos.currentSize).sum = 50 := by
  refine (threads_add_up [.memory ⟨1, 0, 7, 3, 11⟩ ⟨100, 4096, 1, 0⟩,
    .thread ⟨1, 0, 1, 2, 31⟩ ⟨7, List.Vector.replicate 24 0⟩, .memory ⟨2, 0, 7, 3, 14⟩ ⟨50, 8192, 2, 0⟩,
    .memory ⟨3, 0, 1, 1, 12⟩ ⟨0, 0, 0, 4096⟩] ?_).1.trans (by decide +kernel)
  intro message member
  simp only [List.mem_cons, List.not_mem_nil, or_false] at member
  rcases member with rfl | rfl | rfl | rfl
  · exact ⟨.malloc, by decide, rfl, by decide⟩
  · exact List.mem_cons_self
  · exact ⟨.realloc, by decide, rfl, by decide⟩
  · exact ⟨.free, by decide, rfl, by decide⟩

end Aleakd.ThreadSums
