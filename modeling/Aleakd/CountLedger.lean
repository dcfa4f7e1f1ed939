import Aleakd.ServerLedger
import Aleakd.SessionTotals
import Aleakd.WrapperLedger

/-!
The counts of the server against its list of operations. The sizes go by the
operation that a message frees, the counts by the code of the message; they agree as
long as every message that names a block to be freed finds its operation.
-/
namespace Aleakd.CountLedger
open Aleakd.Messages Aleakd.Operations Aleakd.OperationList Aleakd.Stats Aleakd.ApplicationWindow
open Aleakd.ServerLedger Aleakd.SessionTotals Aleakd.WrapperLedger Aleakd.ListSums

/-- The operations that are freed. -/
def freedCount (objects : List MemoryOperation) : Nat := objects.countP fun operation => operation.freed

/-- Those that allocate and are not. -/
def unfreedCount (objects : List MemoryOperation) : Nat :=
  objects.countP fun operation => allocates operation && !operation.freed

/-- The counts are those of the list. -/
def CountsAgree (c : Controller) : Prop :=
  c.globalStats.totalFreeCount.toInt = freedCount c.operations.listMemoryOperation ∧
    c.globalStats.totalRemainingCount.toInt = unfreedCount c.operations.listMemoryOperation

instance CountsAgree.decidable : DecidablePred CountsAgree := fun c => inferInstanceAs (Decidable
  (c.globalStats.totalFreeCount.toInt = freedCount c.operations.listMemoryOperation ∧
    c.globalStats.totalRemainingCount.toInt = unfreedCount c.operations.listMemoryOperation))

/-- The block that the message names, if any, is that of an operation that is not
    freed. -/
def Finds (c : Controller) (message : MemoryMessage) : Prop :=
  message.2.freePtr ≠ 0 →
    ∃ operation ∈ c.operations.listMemoryOperation, operation.allocPtr = message.2.freePtr ∧ operation.freed = false

instance Finds.decidable (c : Controller) (message : MemoryMessage) : Decidable (Finds c message) := inferInstanceAs
  (Decidable (message.2.freePtr ≠ 0 → ∃ operation ∈ c.operations.listMemoryOperation,
    operation.allocPtr = message.2.freePtr ∧ operation.freed = false))

/-- The releases among the messages. -/
def released (messages : List MemoryMessage) : Nat := messages.countP fun message => releases (received message)

/-- The allocations among them. -/
def allocated (messages : List MemoryMessage) : Nat := messages.countP fun message => allocates (received message)

/-- The counts of the messages fit into an `int`. -/
def Fits (messages : List MemoryMessage) : Prop :=
  released messages < 2 ^ 31 ∧ allocated messages < released messages + 2 ^ 31

instance Fits.decidable : DecidablePred Fits := fun messages =>
  inferInstanceAs (Decidable (released messages < 2 ^ 31 ∧ allocated messages < released messages + 2 ^ 31))

/-! ## One message -/

/-- The operation of a message that the library sends releases a block exactly when it
    names one. -/
theorem sent_operation {message : MemoryMessage} (sent : Sent message) :
    MemoryOperation.hasAllocOperation (received message) ∧
      ((received message).msgCode = .free → (received message).allocPtr = 0) ∧
      releases (received message) = decide (message.2.freePtr ≠ 0) := by
  obtain ⟨code, built⟩ := sent_built sent
  have named : code ∈ MsgCode.named := by
    have within : ∀ code ∈ MsgCode.memory, code ∈ MsgCode.named := by decide
    exact within code built.known
  have same : (received message).msgCode = code := by
    show MsgCode.ofByte message.1.msgCode = code
    rw [built.coded, MsgCode.ofByte_byte named]
  refine ⟨?_, ?_, ?_⟩
  · show decide ((received message).msgCode ∈ MsgCode.memory) = true
    rw [same]
    exact decide_eq_true built.known
  · intro free
    exact (built.frees (same.symm.trans free)).2.1
  · have pointer : (received message).freePtr = message.2.freePtr := rfl
    rw [releases, same, pointer]
    by_cases free : code = .free
    · simp [free, (built.frees free).1]
    · by_cases realloc : code = .realloc
      · simp [realloc]
      · simp [free, realloc, built.keeps free realloc]

theorem sent_kept {l : OperationLists} (kept : Kept l) {message : MemoryMessage} (sent : Sent message) :
    Kept (l.addMemoryOperation (received message)).1 := by
  obtain ⟨coded, free, _⟩ := sent_operation sent
  exact addMemoryOperation_kept kept rfl coded free

/-- A message frees an operation exactly when it names one that is not freed. -/
theorem frees_iff {c : Controller} (kept : Kept c.operations) {message : MemoryMessage} (given : message.2.freePtr ≠ 0) :
    (c.operations.addMemoryOperation (received message)).2.isSome ↔ Finds c message := by
  have effect := free_effect c.operations message.2.freePtr
  show (c.operations.free message.2.freePtr).2.isSome ↔ _
  generalize c.operations.free message.2.freePtr = result at effect
  cases effect with
  | marked i left operation _ member found pointer notFreed =>
    refine iff_of_true rfl ?_
    intro _
    exact ⟨operation, List.mem_of_getElem? found, pointer, notFreed⟩
  | nothing absent =>
    refine iff_of_false Bool.false_ne_true ?_
    intro finds
    obtain ⟨operation, member, pointer, notFreed⟩ := finds given
    obtain ⟨i, object⟩ := List.mem_iff_getElem?.mp member
    have isOpen' : i ∈ c.operations.listMemoryOperationNonFreed := by
      rw [kept.indexed, mem_openOperations, isOpen, object, Option.any_some, kept.coded operation member, notFreed]
      rfl
    have fails := (absent.resolve_left given) i isOpen'
    simp [allocatedAt, object, pointer, notFreed] at fails

/-! ## The counts -/

theorem freedCount_eq (objects : List MemoryOperation) :
    (freedCount objects : Int) = freedSum (fun _ => 1) objects := by
  rw [freedCount, countP_eq_sum, freedSum, sum_filter]

theorem unfreedCount_eq (objects : List MemoryOperation) :
    (unfreedCount objects : Int) = unfreedSum (fun operation => if allocates operation then 1 else 0) objects := by
  rw [unfreedCount, countP_eq_sum, unfreedSum, sum_filter]
  congr 2
  funext operation
  cases allocates operation <;> cases operation.freed <;> rfl

/-- What a message does to the counts. -/
theorem addMemoryOperation_counts {l : OperationLists} (kept : Kept l) (message : MemoryMessage) :
    let after := (l.addMemoryOperation (received message)).1.listMemoryOperation
    let freed := if (l.addMemoryOperation (received message)).2.isSome then 1 else 0
    freedCount after = freedCount l.listMemoryOperation + freed ∧
      unfreedCount after + freed =
        unfreedCount l.listMemoryOperation + if allocates (received message) then 1 else 0 := by
  intro after freed
  have fresh : (received message).freed = false := rfl
  obtain ⟨more, _⟩ := addMemoryOperation_sums (fun _ => (1 : Int)) (fun _ => rfl) l fresh
  obtain ⟨_, less⟩ := addMemoryOperation_sums (fun operation => if allocates operation then (1 : Int) else 0)
    (fun _ => rfl) l fresh
  have one : ((l.addMemoryOperation (received message)).2.map fun _ => (1 : Int)).getD 0 = freed := by
    cases result : (l.addMemoryOperation (received message)).2 <;> simp [freed, result]
  have one' : ((l.addMemoryOperation (received message)).2.map fun operation =>
      if allocates operation then (1 : Int) else 0).getD 0 = freed := by
    cases result : (l.addMemoryOperation (received message)).2 with
    | none => simp [freed, result]
    | some operation => simp [freed, result, freed_allocates kept result]
  rw [one, ← freedCount_eq, ← freedCount_eq] at more
  rw [one', ← unfreedCount_eq, ← unfreedCount_eq] at less
  refine ⟨by exact_mod_cast more, ?_⟩
  have less' : (unfreedCount after : Int) = unfreedCount l.listMemoryOperation +
      (if allocates (received message) then 1 else 0) - freed := less
  by_cases allocates' : allocates (received message) = true
  · rw [if_pos allocates'] at less' ⊢
    omega
  · rw [if_neg allocates'] at less' ⊢
    omega

/-! ## Sequences of messages -/

theorem afterMessages_append (messages : List MemoryMessage) (message : MemoryMessage) :
    afterMessages Controller.fresh (messages ++ [message]) =
      (afterMessages Controller.fresh messages).addMemoryOperation (received message) := by
  simp [afterMessages, Controller.handleAll_append, Controller.handle]

/-- What a state is after messages that the library sends. -/
structure Standing (messages : List MemoryMessage) (c : Controller) : Prop where
  kept : Kept c.operations
  totalled : Totalled c.operations.listMemoryOperation c.globalStats
  releases : c.operations.listMemoryOperation.countP releases = released messages
  allocates : c.operations.listMemoryOperation.countP allocates = allocated messages
  -- the operations that allocate are freed or not
  all : freedCount c.operations.listMemoryOperation + unfreedCount c.operations.listMemoryOperation =
    allocated messages

theorem afterMessages_standing {messages : List MemoryMessage} (sent : ∀ message ∈ messages, Sent message) :
    Standing messages (afterMessages Controller.fresh messages) := by
  induction messages using List.reverseRecOn with
  | nil => exact ⟨empty_kept, reset_totalled MemoryStats.zero, rfl, rfl, rfl⟩
  | append_singleton messages message ih =>
    obtain ⟨kept, totalled, releases', allocates', all⟩ := ih fun other member => sent other (List.mem_append_left _ member)
    have sent' := sent message (by simp)
    rw [afterMessages_append]
    generalize afterMessages Controller.fresh messages = c at kept totalled releases' allocates' all ⊢
    constructor
    case kept => exact sent_kept kept sent'
    case totalled => exact addMemoryOperation_totalled totalled rfl
    case releases =>
      rw [Controller.addMemoryOperation_list, List.countP_append, free_countP (fun _ => rfl), releases', released,
        released, List.countP_append]
      rfl
    case allocates =>
      rw [Controller.addMemoryOperation_list, List.countP_append, free_countP (fun _ => rfl), allocates', allocated,
        allocated, List.countP_append]
      rfl
    case all =>
      obtain ⟨freed, unfreed⟩ := addMemoryOperation_counts kept message
      have last : allocated (messages ++ [message]) =
          allocated messages + if allocates (received message) then 1 else 0 := by
        rw [allocated, List.countP_append, List.countP_singleton]
        rfl
      show freedCount (c.operations.addMemoryOperation (received message)).1.listMemoryOperation +
        unfreedCount (c.operations.addMemoryOperation (received message)).1.listMemoryOperation = _
      omega

/-- The counts agree with the list exactly when as many operations are freed as there
    were releases, and the counts fit. -/
theorem countsAgree_iff {messages : List MemoryMessage} {c : Controller} (standing : Standing messages c)
    (previous : released messages ≤ 2 ^ 31) :
    CountsAgree c ↔ freedCount c.operations.listMemoryOperation = released messages ∧ Fits messages := by
  obtain ⟨_, totalled, releases', allocates', all⟩ := standing
  have free : c.globalStats.totalFreeCount = Int32.ofNat (released messages) := by
    rw [← releases']
    exact totalled.counted .totalFree
  have alloc : c.globalStats.totalAllocCount = Int32.ofNat (allocated messages) := by
    rw [← allocates']
    exact totalled.counted .totalAlloc
  have remaining : c.globalStats.totalRemainingCount = Int32.ofInt (allocated messages - released messages) := by
    rw [totalled.remaining, free, alloc, ← Int32.ofInt_eq_ofNat, ← Int32.ofInt_eq_ofNat, Int32.ofInt_sub]
  rw [CountsAgree, Fits, free, remaining, Int32.toInt_ofNat', Int32.toInt_ofInt, Int.bmod_def, Int.bmod_def]
  simp only [Int32.size]
  omega

/-- Every message finds the operation that it frees, if it names one; and the counts
    fit, all the way. -/
def Matched (messages : List MemoryMessage) : Prop :=
  (∀ earlier message, earlier ++ [message] <+: messages → Finds (afterMessages Controller.fresh earlier) message) ∧
    ∀ earlier, earlier <+: messages → Fits earlier

theorem matched_nil : Matched [] := by
  refine ⟨?_, ?_⟩
  · intro earlier message within
    exact absurd (List.prefix_nil.mp within) (by simp)
  · intro earlier within
    rw [List.prefix_nil.mp within]
    decide

theorem matched_append {messages : List MemoryMessage} {message : MemoryMessage} :
    Matched (messages ++ [message]) ↔
      Matched messages ∧ Finds (afterMessages Controller.fresh messages) message ∧ Fits (messages ++ [message]) := by
  simp only [Matched, List.prefix_concat_iff]
  constructor
  · rintro ⟨finds, fits⟩
    refine ⟨⟨?_, ?_⟩, finds messages message (.inl rfl), fits _ (.inl rfl)⟩
    · intro earlier other within
      exact finds earlier other (.inr within)
    · intro earlier within
      exact fits earlier (.inr within)
  · rintro ⟨⟨finds, fits⟩, here, fits'⟩
    refine ⟨?_, ?_⟩
    · rintro earlier other (same | within)
      · obtain ⟨rfl, last⟩ := List.append_inj' same rfl
        cases last
        exact here
      · exact finds earlier other within
    · rintro earlier (rfl | within)
      · exact fits'
      · exact fits earlier within

/-- A message frees as many operations as it releases blocks, exactly when it finds
    the one it names. -/
theorem finds_iff {c : Controller} (kept : Kept c.operations) {message : MemoryMessage} (sent : Sent message) :
    freedCount (c.addMemoryOperation (received message)).operations.listMemoryOperation =
        freedCount c.operations.listMemoryOperation + (if releases (received message) then 1 else 0) ↔
      Finds c message := by
  obtain ⟨freed, _⟩ := addMemoryOperation_counts kept message
  have after : freedCount (c.addMemoryOperation (received message)).operations.listMemoryOperation = _ := freed
  rw [after, (sent_operation sent).2.2, Nat.add_left_cancel_iff]
  by_cases given : message.2.freePtr = 0
  · have nothing : (c.operations.addMemoryOperation (received message)).2 = none := by
      show (c.operations.free message.2.freePtr).2 = none
      rw [OperationLists.free, if_neg (not_not.mpr given)]
    simp [nothing, given, Finds]
  · rw [← frees_iff kept given]
    cases (c.operations.addMemoryOperation (received message)).2 <;> simp [given]

/-- The counts agree all the way exactly when the messages match; then as many
    operations are freed as there were releases. -/
theorem agree_iff {messages : List MemoryMessage} (sent : ∀ message ∈ messages, Sent message) :
    ((∀ earlier, earlier <+: messages → CountsAgree (afterMessages Controller.fresh earlier)) ↔ Matched messages) ∧
      (Matched messages →
        freedCount (afterMessages Controller.fresh messages).operations.listMemoryOperation = released messages) := by
  induction messages using List.reverseRecOn with
  | nil =>
    refine ⟨iff_of_true ?_ matched_nil, fun _ => rfl⟩
    intro earlier within
    rw [List.prefix_nil.mp within]
    exact ⟨rfl, rfl⟩
  | append_singleton messages message ih =>
    have sent' := sent message (by simp)
    have standing := afterMessages_standing fun other member => sent other (List.mem_append_left [message] member)
    have standing' := afterMessages_standing sent
    obtain ⟨before, freed⟩ := ih fun other member => sent other (List.mem_append_left _ member)
    have more : released (messages ++ [message]) =
        released messages + if releases (received message) then 1 else 0 := by
      rw [released, List.countP_append, List.countP_singleton]
      rfl
    have finds := finds_iff standing.kept sent'
    rw [← afterMessages_append] at finds
    have last : Matched messages → (CountsAgree (afterMessages Controller.fresh (messages ++ [message])) ↔
        Finds (afterMessages Controller.fresh messages) message ∧ Fits (messages ++ [message])) := by
      intro matched
      have fits := (matched.2 messages List.prefix_rfl).1
      have room : released (messages ++ [message]) ≤ 2 ^ 31 := by
        rw [more]
        split <;> omega
      rw [countsAgree_iff standing' room, ← finds, freed matched, more]
    constructor
    · rw [matched_append]
      constructor
      · intro agree
        have matched := before.mp fun earlier within => agree earlier (List.prefix_concat_iff.mpr (.inr within))
        exact ⟨matched, (last matched).mp (agree _ List.prefix_rfl)⟩
      · rintro ⟨matched, here⟩ earlier within
        rcases List.prefix_concat_iff.mp within with rfl | within
        · exact (last matched).mpr here
        · exact before.mpr matched earlier within
    · intro matched
      obtain ⟨matched, here, _⟩ := matched_append.mp matched
      rw [finds.mpr here, freed matched, more]

/-- In every state that messages of the library lead to: the counts are those of the
    list, if and only if every message found the operation that it frees, if it names
    one, and fewer than 2^31 operations were freed and are not. -/
theorem counts_agree_iff (messages : List MemoryMessage) (sent : ∀ message ∈ messages, Sent message) :
    (∀ earlier, earlier <+: messages → CountsAgree (afterMessages Controller.fresh earlier)) ↔ Matched messages :=
  (agree_iff sent).1

/-- A block that is moved and then freed. -/
theorem moved_and_freed_agree : CountsAgree (afterMessages Controller.fresh
    [(⟨1, 0, 7, 1, 11⟩, ⟨100, 4096, 1, 0⟩), (⟨2, 0, 7, 2, 14⟩, ⟨200, 8192, 2, 4096⟩),
      (⟨3, 0, 7, 3, 12⟩, ⟨0, 0, 0, 8192⟩)]) := by
  refine (counts_agree_iff [(⟨1, 0, 7, 1, 11⟩, ⟨100, 4096, 1, 0⟩), (⟨2, 0, 7, 2, 14⟩, ⟨200, 8192, 2, 4096⟩),
    (⟨3, 0, 7, 3, 12⟩, ⟨0, 0, 0, 8192⟩)] ?_).mpr ?_ _ List.prefix_rfl
  · intro message member
    simp only [List.mem_cons, List.not_mem_nil, or_false] at member
    rcases member with rfl | rfl | rfl
    · exact ⟨.malloc 100 4096, ⟨0, 0⟩, ⟨1, 0, 7⟩, rfl⟩
    · exact ⟨.realloc 4096 200 8192 false, ⟨1, 1⟩, ⟨2, 0, 7⟩, rfl⟩
    · exact ⟨.free 8192, ⟨2, 2⟩, ⟨3, 0, 7⟩, rfl⟩
  · refine matched_append.mpr ⟨matched_append.mpr ⟨matched_append.mpr ⟨matched_nil, ?_, ?_⟩, ?_, ?_⟩, ?_, ?_⟩ <;>
      decide +kernel

/-- A block whose allocation was never reported is freed. -/
theorem unreported_miscounted :
    ¬ ∀ messages, (∀ message ∈ messages, Sent message) → CountsAgree (afterMessages Controller.fresh messages) := by
  intro claim
  have agree := claim [(⟨1, 0, 7, 1, 12⟩, ⟨0, 0, 0, 4096⟩)] ?_
  · revert agree
    -- one free is counted, no operation is freed, and -1 remain
    decide +kernel
  · intro message member
    rw [List.mem_singleton.mp member]
    exact ⟨.free 4096, ⟨0, 0⟩, ⟨1, 0, 7⟩, rfl⟩

end Aleakd.CountLedger
