import Aleakd.Numbering
import Aleakd.Parties
import Aleakd.Runs
import Aleakd.SessionTotals
import Aleakd.Wrapper

/-!
The backtraces of the memory operations. A thread takes a number for a memory message,
appends it, takes another number and appends the backtrace with the first one; the
steps of any number of threads interleave. The server finds the operation of a
backtrace by that number, among those that have none yet.
-/
namespace Aleakd.Backtraces
open Aleakd.Messages Aleakd.Operations Aleakd.OperationList Aleakd.ApplicationWindow Aleakd.Framing Aleakd.TakeLast
open Aleakd.ListSums Aleakd.SessionTotals Aleakd.Wrapper Aleakd.Runs Aleakd.Numbering Aleakd.Parties

/-! ## The list of operations without a backtrace -/

/-- The operation at `i` has no backtrace. -/
def isMissing (objects : List MemoryOperation) (i : Nat) : Bool :=
  objects[i]?.any fun operation => operation.backTrace.isNone

/-- The list is that of the operations without a backtrace, in order. -/
def WithoutBacktrace (l : OperationLists) : Prop :=
  l.listMemoryOperationWithoutBacktrace =
    (List.range l.listMemoryOperation.length).filter (isMissing l.listMemoryOperation)

theorem isMissing_congr {objects objects' : List MemoryOperation}
    (same : objects.map MemoryOperation.backTrace = objects'.map MemoryOperation.backTrace) (i : Nat) :
    isMissing objects i = isMissing objects' i := by
  have here := congrArg (·[i]?) same
  simp only [List.getElem?_map] at here
  unfold isMissing
  cases object : objects[i]? <;> cases object' : objects'[i]? <;> simp_all

theorem addMemoryOperation_without {l : OperationLists} (without : WithoutBacktrace l) {operation : MemoryOperation}
    (missing : operation.backTrace = none) : WithoutBacktrace (l.addMemoryOperation operation).1 := by
  have list : (l.addMemoryOperation operation).1.listMemoryOperation =
      (l.free operation.freePtr).1.listMemoryOperation ++ [operation] := rfl
  have positions : (l.addMemoryOperation operation).1.listMemoryOperationWithoutBacktrace =
      (l.free operation.freePtr).1.listMemoryOperationWithoutBacktrace ++
        [(l.free operation.freePtr).1.listMemoryOperation.length] := rfl
  have kept : (l.free operation.freePtr).1.listMemoryOperationWithoutBacktrace =
      l.listMemoryOperationWithoutBacktrace := by
    have effect := free_effect l operation.freePtr
    generalize l.free operation.freePtr = result at effect
    cases effect <;> rfl
  have same := free_map (f := MemoryOperation.backTrace) (fun _ => rfl) l operation.freePtr
  have length := free_length l operation.freePtr
  generalize l.free operation.freePtr = result at list positions kept same length
  have last : isMissing (result.1.listMemoryOperation ++ [operation]) result.1.listMemoryOperation.length = true := by
    simp [isMissing, missing]
  have before : (List.range result.1.listMemoryOperation.length).filter
      (isMissing (result.1.listMemoryOperation ++ [operation])) =
      (List.range l.listMemoryOperation.length).filter (isMissing l.listMemoryOperation) := by
    rw [length]
    apply List.filter_congr
    intro i member
    rw [← isMissing_congr same, isMissing, isMissing, List.getElem?_append_left]
    rw [length]
    exact List.mem_range.mp member
  rw [WithoutBacktrace, list, positions, kept, without, List.length_append, List.length_singleton, List.range_succ,
    List.filter_append, before, List.filter_singleton, last]
  rfl

/-- The operation that gets a backtrace has none any more, and no other loses its
    place. -/
theorem addBacktrace_without {l : OperationLists} (without : WithoutBacktrace l) (backtrace : Backtrace) :
    WithoutBacktrace (l.addBacktrace backtrace) := by
  unfold OperationLists.addBacktrace
  split
  · next i left taken =>
    have distinct : l.listMemoryOperationWithoutBacktrace.Nodup := by
      rw [without]
      exact List.nodup_range.filter _
    show left = _
    rw [takeLast_left distinct taken, without, List.length_modify, List.filter_filter]
    apply List.filter_congr
    intro j _
    rw [isMissing, isMissing, List.getElem?_modify]
    by_cases same : i = j
    · subst same
      cases l.listMemoryOperation[i]? <;> simp
    · have other : j ≠ i := fun equal => same equal.symm
      cases l.listMemoryOperation[j]? <;> simp [same, other]
  · exact without

theorem handle_without {c : Controller} (without : WithoutBacktrace c.operations) (message : Message) :
    WithoutBacktrace (c.handle (handlerCall message)).operations := by
  cases message with
  | app => exact rfl
  | memory header data => exact addMemoryOperation_without without rfl
  | thread | symbolInfos => exact without
  | backtrace header data => exact addBacktrace_without without _

/-- Whatever the messages are, the list stays that of the operations without a
    backtrace. -/
theorem afterStream_without (messages : List Message) : WithoutBacktrace (afterStream messages).operations := by
  induction messages using List.reverseRecOn with
  | nil => rfl
  | append_singleton messages message ih =>
    rw [afterStream_append]
    exact handle_without ih message

/-- A backtrace goes to the one operation without a backtrace that has its number. -/
theorem addBacktrace_own {l : OperationLists} (without : WithoutBacktrace l) {i : Nat} {operation : MemoryOperation}
    (object : l.listMemoryOperation[i]? = some operation) (missing : operation.backTrace = none)
    (distinct : (l.listMemoryOperation.map MemoryOperation.msgNum).Nodup) {backtrace : Backtrace}
    (number : operation.msgNum = backtrace.originMsgNum.toUInt32) :
    (l.addBacktrace backtrace).listMemoryOperation =
      l.listMemoryOperation.modify i fun operation => { operation with backTrace := backtrace } := by
  have member : i ∈ l.listMemoryOperationWithoutBacktrace := by
    rw [without, List.mem_filter, List.mem_range]
    exact ⟨(List.getElem?_eq_some_iff.mp object).1, by simp [isMissing, object, missing]⟩
  have only : ∀ j ∈ l.listMemoryOperationWithoutBacktrace,
      (l.listMemoryOperation[j]?.any fun operation => operation.msgNum = backtrace.originMsgNum.toUInt32) = true →
      j = i := by
    intro j _ found
    rw [Option.any_eq_true] at found
    obtain ⟨other, object', number'⟩ := found
    have inside := (List.getElem?_eq_some_iff.mp object').1
    refine (List.getElem?_inj (by simpa using inside) distinct).mp ?_
    rw [List.getElem?_map, List.getElem?_map, object, object', Option.map_some, Option.map_some, number,
      of_decide_eq_true number']
  obtain ⟨left, taken⟩ := takeLast_unique member (by simp [object, number]) only
  have taken' : takeByMsgNum l.listMemoryOperation l.listMemoryOperationWithoutBacktrace
      backtrace.originMsgNum.toUInt32 = some (i, left) := taken
  rw [OperationLists.addBacktrace, taken']

/-! ## The threads -/

/-- What a thread is in the middle of. -/
inductive Task where
  /-- a memory message with its number, still to be appended -/
  | memory (header : ServerMsgHeaderV1) (data : ServerMsgMemoryDataV1)
  /-- the message is appended, and its backtrace is to be sent for the number -/
  | owes (operation : Nat) (originMsgNum : UInt32)
  /-- the backtrace message, still to be appended -/
  | backtrace (operation : Nat) (listAddr : Addresses) (header : ServerMsgHeaderV1) (data : ServerMsgBacktraceDataV1)
  | symbolInfos (header : ServerMsgHeaderV1) (data : ServerMsgSymbolInfosDataV1)

structure System where
  counters : Counters
  tasks : UInt64 → Option Task
  /-- the messages, as they were appended -/
  stream : List Message
  /-- for each operation, the thread that appended its message, and the backtrace that
      this thread has sent for it -/
  own : List (UInt64 × Option Backtrace)

def System.initial (counters : Counters) : System where
  counters
  tasks _ := none
  stream := []
  own := []

inductive Event where
  /-- a thread takes a number for a memory message -/
  | number (thread timeSec timeUsec : UInt64) (code : MsgCode) (data : ServerMsgMemoryDataV1)
  /-- it takes another one, for the backtrace -/
  | numberBacktrace (thread timeSec timeUsec : UInt64) (listAddr : Addresses)
  /-- it takes one for a symbol -/
  | numberSymbolInfos (thread timeSec timeUsec : UInt64) (data : ServerMsgSymbolInfosDataV1)
  | append (thread : UInt64)

/-- The event takes a number. -/
def Event.takesNumber : Event → Bool
  | .append _ => false
  | .number .. | .numberBacktrace .. | .numberSymbolInfos .. => true

def step (s : System) : Event → Option System
  | .number thread timeSec timeUsec code data =>
    match s.tasks thread with
    | none =>
      let (counters, header, _) := servercommMsgMemoryInitV1 s.counters ⟨timeSec, timeUsec, thread⟩
      let header := { header with msgCode := code.byte }
      some { s with counters, tasks := Function.update s.tasks thread (some (.memory header data)) }
    | _ => none
  | .numberBacktrace thread timeSec timeUsec listAddr =>
    match s.tasks thread with
    | some (.owes operation originMsgNum) =>
      let (counters, header, data) := backtraceMessage listAddr originMsgNum s.counters ⟨timeSec, timeUsec, thread⟩
      some { s with
        counters
        tasks := Function.update s.tasks thread (some (.backtrace operation listAddr header data)) }
    | _ => none
  | .numberSymbolInfos thread timeSec timeUsec data =>
    match s.tasks thread with
    | none =>
      let (counters, header, _) := servercommMsgSymbolinfosInitV1 s.counters ⟨timeSec, timeUsec, thread⟩
      some { s with counters, tasks := Function.update s.tasks thread (some (.symbolInfos header data)) }
    | _ => none
  | .append thread =>
    match s.tasks thread with
    | some (.memory header data) =>
      some { s with
        tasks := Function.update s.tasks thread (some (.owes s.own.length header.msgNum))
        stream := s.stream ++ [.memory header data]
        own := s.own ++ [(thread, none)] }
    | some (.backtrace operation listAddr header data) =>
      some { s with
        tasks := Function.update s.tasks thread none
        stream := s.stream ++ [.backtrace header data]
        own := s.own.set operation (thread, some ⟨data.originMsgNum.toInt32, listAddr.val⟩) }
    | some (.symbolInfos header data) =>
      some { s with
        tasks := Function.update s.tasks thread none
        stream := s.stream ++ [.symbolInfos header data] }
    | _ => none

/-- Every thread is done with its messages. -/
def Complete (s : System) : Prop := ∀ thread, s.tasks thread = none

/-! ## What holds in every run -/

/-- The operation that a thread still has to send the backtrace for, and its number. -/
def Task.owed : Task → Option (Nat × UInt32)
  | .owes operation originMsgNum => some (operation, originMsgNum)
  | .backtrace operation _ _ data => some (operation, data.originMsgNum)
  | .memory .. | .symbolInfos .. => none

/-- The number of a memory message that is still to be appended. -/
def Task.announced : Task → Option UInt32
  | .memory header _ => some header.msgNum
  | .owes .. | .backtrace .. | .symbolInfos .. => none

/-- The operations that the server has of the messages so far. -/
def System.objects (s : System) : List MemoryOperation := (afterStream s.stream).operations.listMemoryOperation

/-- The numbers of these operations. -/
def System.numbers (s : System) : List UInt32 := s.objects.map MemoryOperation.msgNum

/-- The backtraces of the messages. -/
def backtracesOf (messages : List Message) : List Backtrace :=
  messages.filterMap fun message =>
    match handlerCall message with
    | .backtrace backtrace => some backtrace
    | _ => none

/-- The caller of an operation, and its backtrace. -/
def traceOf (operation : MemoryOperation) : UInt64 × Option Backtrace := (operation.callerThreadId, operation.backTrace)

/-- A memory message names its own thread, and a backtrace message holds the addresses
    that it was made from. -/
def Task.Truthful (thread : UInt64) : Task → Prop
  | .memory header _ => header.threadId = thread
  | .backtrace _ listAddr _ data => data.listAddr.val.take data.backtraceSize.toNat = listAddr.val
  | .owes .. | .symbolInfos .. => True

structure Inv (start : UInt32) (n : Nat) (s : System) : Prop where
  issued : Issued start s.counters.msgNum n (Used s.numbers (held Task.announced s.tasks))
  own : s.objects.map traceOf = s.own
  unique : Unique s.numbers (held Task.announced s.tasks)
  -- the backtraces that are missing are those that are owed, each by its own thread
  owes : ∀ thread i number, held Task.owed s.tasks thread = some (i, number) →
    s.numbers[i]? = some number ∧ s.own[i]? = some (thread, none)
  owed : ∀ thread i, s.own[i]? = some (thread, none) → ∃ number, held Task.owed s.tasks thread = some (i, number)
  truthful : ∀ thread task, s.tasks thread = some task → task.Truthful thread
  sent : (s.own.filterMap Prod.snd).Perm (backtracesOf s.stream)

theorem initial_inv (counters : Counters) : Inv counters.msgNum 0 (System.initial counters) where
  issued := by
    apply issued_start
    rintro number (member | ⟨thread, announced⟩)
    · cases member
    · cases announced
  own := rfl
  unique := unique_start
  owes := by
    intro thread i number owed
    cases owed
  owed := by
    intro thread i missing
    cases missing
  truthful := by
    intro thread task busy
    cases busy
  sent := List.Perm.nil

theorem truthful_update {tasks : UInt64 → Option Task}
    (truthful : ∀ thread task, tasks thread = some task → task.Truthful thread) {thread : UInt64} {new : Option Task}
    (holds : ∀ task, new = some task → task.Truthful thread) (other : UInt64) (task : Task)
    (busy : Function.update tasks thread new other = some task) : task.Truthful other := by
  rcases update_some busy with ⟨rfl, here⟩ | ⟨_, busy⟩
  · exact holds task here
  · exact truthful other task busy

/-- A step that leaves the operations as they are, and what is announced and owed. -/
theorem quiet_inv {start : UInt32} {n n' : Nat} {s next : System} (inv : Inv start n s)
    (objects : next.objects = s.objects) (own : next.own = s.own)
    (announced : held Task.announced next.tasks = held Task.announced s.tasks)
    (owed : held Task.owed next.tasks = held Task.owed s.tasks)
    (issued : Issued start next.counters.msgNum n' (Used s.numbers (held Task.announced s.tasks)))
    (truthful : ∀ thread task, next.tasks thread = some task → task.Truthful thread)
    (sent : backtracesOf next.stream = backtracesOf s.stream) : Inv start n' next := by
  have numbers : next.numbers = s.numbers := congrArg (List.map MemoryOperation.msgNum) objects
  refine ⟨?_, ?_, ?_, ?_, ?_, truthful, ?_⟩
  · rw [numbers, announced]
    exact issued
  · rw [objects, own]
    exact inv.own
  · rw [numbers, announced]
    exact inv.unique
  · rw [owed, numbers, own]
    exact inv.owes
  · rw [owed, own]
    exact inv.owed
  · rw [own, sent]
    exact inv.sent

/-! ## A number is taken -/

/-- A thread takes a number for a message that is not a memory message, and owes what
    it owed. -/
theorem numbered_inv {start : UInt32} {n : Nat} {s : System} (inv : Inv start n s) (room : n + 1 < 2 ^ 32)
    {counters : Counters} (counted : counters.msgNum = s.counters.msgNum + 1) {thread : UInt64} {task : Task}
    (announced : task.announced = held Task.announced s.tasks thread) (owed : task.owed = held Task.owed s.tasks thread)
    (truthful : task.Truthful thread) :
    Inv start (n + 1) { s with counters, tasks := Function.update s.tasks thread (some task) } := by
  refine quiet_inv inv ?_ ?_ ?_ ?_ ?_ ?_ ?_
  · rfl
  · rfl
  · exact held_same announced
  · exact held_same owed
  · show Issued start counters.msgNum (n + 1) _
    rw [counted]
    exact issued_next inv.issued room fun _ used => .inl used
  · apply truthful_update inv.truthful
    rintro task ⟨⟩
    exact truthful
  · rfl

/-- A thread that is in the middle of nothing takes a number for a memory message. -/
theorem announced_inv {start : UInt32} {n : Nat} {s : System} (inv : Inv start n s) (room : n + 1 < 2 ^ 32)
    {counters : Counters} (counted : counters.msgNum = s.counters.msgNum + 1) {thread : UInt64}
    (idle : s.tasks thread = none) {header : ServerMsgHeaderV1} (number : header.msgNum = s.counters.msgNum + 1)
    (caller : header.threadId = thread) (data : ServerMsgMemoryDataV1) :
    Inv start (n + 1) { s with counters, tasks := Function.update s.tasks thread (some (.memory header data)) } := by
  have free : held Task.announced s.tasks thread = none := by rw [held, idle]; rfl
  have announced : held Task.announced (Function.update s.tasks thread (some (.memory header data))) =
      Function.update (held Task.announced s.tasks) thread (some (s.counters.msgNum + 1)) := by
    rw [held_update, ← number]
    rfl
  have owed : held Task.owed (Function.update s.tasks thread (some (.memory header data))) =
      held Task.owed s.tasks := by
    apply held_same
    rw [held, idle]
    rfl
  refine ⟨?_, inv.own, ?_, ?_, ?_, ?_, inv.sent⟩
  · show Issued start counters.msgNum (n + 1) (Used s.numbers _)
    rw [counted, announced]
    exact issued_next inv.issued room fun number => (used_take free number).mp
  · show Unique s.numbers _
    rw [announced, unique_take free]
    exact ⟨inv.unique, next_new inv.issued room⟩
  · rw [owed]
    exact inv.owes
  · rw [owed]
    exact inv.owed
  · apply truthful_update inv.truthful
    rintro task ⟨⟩
    exact caller

/-! ## A message is appended -/

theorem backtracesOf_append (messages : List Message) (message : Message) :
    backtracesOf (messages ++ [message]) = backtracesOf messages ++ backtracesOf [message] := List.filterMap_append

/-- A memory message adds its operation. -/
theorem objects_memory {A : Type} {f : MemoryOperation → A}
    (keeps : ∀ operation, f { operation with freed := true } = f operation) (messages : List Message)
    (header : ServerMsgHeaderV1) (data : ServerMsgMemoryDataV1) :
    (afterStream (messages ++ [.memory header data])).operations.listMemoryOperation.map f =
      (afterStream messages).operations.listMemoryOperation.map f ++ [f (memoryOperation header data)] := by
  rw [afterStream_append]
  show List.map f (((afterStream messages).operations.free _).1.listMemoryOperation ++ [_]) = _
  rw [List.map_append, free_map keeps]
  rfl

theorem memory_inv {start : UInt32} {n : Nat} {s : System} (inv : Inv start n s) {thread : UInt64}
    {header : ServerMsgHeaderV1} {data : ServerMsgMemoryDataV1} (busy : s.tasks thread = some (.memory header data)) :
    Inv start n { s with
      tasks := Function.update s.tasks thread (some (.owes s.own.length header.msgNum))
      stream := s.stream ++ [.memory header data]
      own := s.own ++ [(thread, none)] } := by
  have numbers : (afterStream (s.stream ++ [.memory header data])).operations.listMemoryOperation.map
      MemoryOperation.msgNum = s.numbers ++ [header.msgNum] := objects_memory (fun _ => rfl) s.stream header data
  have own : (afterStream (s.stream ++ [.memory header data])).operations.listMemoryOperation.map
      traceOf = s.own ++ [(thread, none)] := by
    rw [objects_memory (fun _ => rfl), ← inv.own, ← (show header.threadId = thread from inv.truthful thread _ busy)]
    rfl
  have length : s.numbers.length = s.own.length := by rw [← inv.own, System.numbers, List.length_map, List.length_map]
  have had : held Task.announced s.tasks thread = some header.msgNum := held_task.mpr ⟨_, busy, rfl⟩
  have announced : held Task.announced (Function.update s.tasks thread (some (.owes s.own.length header.msgNum))) =
      Function.update (held Task.announced s.tasks) thread none := by
    rw [held_update]
    rfl
  have owed : held Task.owed (Function.update s.tasks thread (some (.owes s.own.length header.msgNum))) =
      Function.update (held Task.owed s.tasks) thread (some (s.own.length, header.msgNum)) := by
    rw [held_update]
    rfl
  have inside : ∀ other i number, held Task.owed s.tasks other = some (i, number) → i < s.own.length := by
    intro other i number has
    exact (List.getElem?_eq_some_iff.mp (inv.owes other i number has).2).1
  refine ⟨?_, own, ?_, ?_, ?_, ?_, ?_⟩
  · rw [System.numbers, System.objects, numbers, announced]
    exact issued_mono inv.issued fun number => (used_send had number).mp
  · rw [System.numbers, System.objects, numbers, announced, unique_send had]
    exact inv.unique
  · rw [owed]
    intro other i number has
    rw [System.numbers, System.objects, numbers]
    rcases update_some has with ⟨rfl, new⟩ | ⟨_, has⟩
    · cases new
      rw [← length, List.getElem?_concat_length, length, List.getElem?_concat_length]
      exact ⟨rfl, rfl⟩
    · have bound := inside other i number has
      rw [List.getElem?_append_left (by omega), List.getElem?_append_left bound]
      exact inv.owes other i number has
  · rw [owed]
    intro other i missing
    rcases append_origin missing with missing | ⟨rfl, same⟩
    · obtain ⟨number, has⟩ := inv.owed other i missing
      have others : other ≠ thread := by
        rintro rfl
        rw [held, busy] at has
        cases has
      exact ⟨number, by rw [Function.update_of_ne others]; exact has⟩
    · cases same
      exact ⟨header.msgNum, Function.update_self ..⟩
  · apply truthful_update inv.truthful
    rintro task ⟨⟩
    trivial
  · rw [backtracesOf_append, List.filterMap_append]
    exact inv.sent.append_right []

/-- The operation that a thread has made a backtrace message for. -/
theorem backtrace_object {start : UInt32} {n : Nat} {s : System} (inv : Inv start n s) {thread : UInt64}
    {operation : Nat} {listAddr : Addresses} {header : ServerMsgHeaderV1} {data : ServerMsgBacktraceDataV1}
    (busy : s.tasks thread = some (.backtrace operation listAddr header data)) :
    ∃ object, s.objects[operation]? = some object ∧ object.msgNum = data.originMsgNum ∧
      traceOf object = (thread, none) := by
  obtain ⟨number, missing⟩ := inv.owes thread operation data.originMsgNum (held_task.mpr ⟨_, busy, rfl⟩)
  rw [← inv.own, List.getElem?_map] at missing
  obtain ⟨object, found, trace⟩ := Option.map_eq_some_iff.mp missing
  rw [System.numbers, List.getElem?_map, found, Option.map_some, Option.some.injEq] at number
  exact ⟨object, found, number, trace⟩

/-- A backtrace goes to the operation that it was sent for. -/
theorem backtrace_objects {start : UInt32} {n : Nat} {s : System} (inv : Inv start n s) {thread : UInt64}
    {operation : Nat} {listAddr : Addresses} {header : ServerMsgHeaderV1} {data : ServerMsgBacktraceDataV1}
    (busy : s.tasks thread = some (.backtrace operation listAddr header data)) :
    (afterStream (s.stream ++ [.backtrace header data])).operations.listMemoryOperation =
      s.objects.modify operation fun object =>
        { object with backTrace := some ⟨data.originMsgNum.toInt32, listAddr.val⟩ } := by
  obtain ⟨object, found, number, trace⟩ := backtrace_object inv busy
  have holds : data.listAddr.val.take data.backtraceSize.toNat = listAddr.val := inv.truthful thread _ busy
  have sent : handlerCall (.backtrace header data) = .backtrace ⟨data.originMsgNum.toInt32, listAddr.val⟩ := by
    rw [handlerCall, holds]
  rw [afterStream_append, sent]
  apply addBacktrace_own (afterStream_without s.stream) found (congrArg Prod.snd trace) inv.unique.distinct
  simp [number]

theorem backtrace_inv {start : UInt32} {n : Nat} {s : System} (inv : Inv start n s) {thread : UInt64}
    {operation : Nat} {listAddr : Addresses} {header : ServerMsgHeaderV1} {data : ServerMsgBacktraceDataV1}
    (busy : s.tasks thread = some (.backtrace operation listAddr header data)) :
    Inv start n { s with
      tasks := Function.update s.tasks thread none
      stream := s.stream ++ [.backtrace header data]
      own := s.own.set operation (thread, some ⟨data.originMsgNum.toInt32, listAddr.val⟩) } := by
  have objects := backtrace_objects inv busy
  obtain ⟨object, found, _, trace⟩ := backtrace_object inv busy
  have had : held Task.owed s.tasks thread = some (operation, data.originMsgNum) := held_task.mpr ⟨_, busy, rfl⟩
  have missing := (inv.owes thread operation _ had).2
  have announced : held Task.announced (Function.update s.tasks thread none) = held Task.announced s.tasks := by
    apply held_same
    rw [held, busy]
    rfl
  have owed : held Task.owed (Function.update s.tasks thread none) =
      Function.update (held Task.owed s.tasks) thread none := held_update ..
  have numbers : System.numbers { s with
      tasks := Function.update s.tasks thread none
      stream := s.stream ++ [.backtrace header data]
      own := s.own.set operation (thread, some ⟨data.originMsgNum.toInt32, listAddr.val⟩) } = s.numbers := by
    rw [System.numbers, System.objects, objects, map_modify (by intro object; rfl)]
    rfl
  refine ⟨?_, ?_, ?_, ?_, ?_, ?_, ?_⟩
  · rw [numbers, announced]
    exact inv.issued
  · have caller : object.callerThreadId = thread := congrArg Prod.fst trace
    rw [System.objects, objects, map_modify_at found, traceOf, caller, ← inv.own]
  · rw [numbers, announced]
    exact inv.unique
  · rw [owed, numbers]
    intro other i number has
    rcases update_some has with ⟨_, new⟩ | ⟨others, has⟩
    · cases new
    · obtain ⟨here, empty⟩ := inv.owes other i number has
      have apart : operation ≠ i := by
        rintro rfl
        rw [missing] at empty
        cases empty
        exact others rfl
      refine ⟨here, ?_⟩
      show (s.own.set operation _)[i]? = _
      rw [List.getElem?_set_ne apart]
      exact empty
  · rw [owed]
    intro other i empty
    have apart : operation ≠ i := by
      rintro rfl
      rw [List.getElem?_set_self (List.getElem?_eq_some_iff.mp missing).1] at empty
      cases empty
    rw [List.getElem?_set_ne apart] at empty
    obtain ⟨number, has⟩ := inv.owed other i empty
    have others : other ≠ thread := by
      rintro rfl
      rw [had] at has
      cases has
      exact apart rfl
    exact ⟨number, by rw [Function.update_of_ne others]; exact has⟩
  · apply truthful_update inv.truthful
    rintro task ⟨⟩
  · have holds : data.listAddr.val.take data.backtraceSize.toNat = listAddr.val := inv.truthful thread _ busy
    have sent : backtracesOf [.backtrace header data] = [⟨data.originMsgNum.toInt32, listAddr.val⟩] := by
      rw [← holds]
      rfl
    rw [backtracesOf_append, sent]
    exact (filterMap_set (f := Prod.snd) missing rfl rfl).trans (inv.sent.append_right _)

/-- The message of a symbol changes no operation. -/
theorem symbolInfos_inv {start : UInt32} {n : Nat} {s : System} (inv : Inv start n s) {thread : UInt64}
    {header : ServerMsgHeaderV1} {data : ServerMsgSymbolInfosDataV1}
    (busy : s.tasks thread = some (.symbolInfos header data)) :
    Inv start n { s with
      tasks := Function.update s.tasks thread none
      stream := s.stream ++ [.symbolInfos header data] } := by
  refine quiet_inv inv ?_ ?_ ?_ ?_ inv.issued ?_ ?_
  · rw [System.objects, afterStream_append]
    rfl
  · rfl
  · apply held_same
    rw [held, busy]
    rfl
  · apply held_same
    rw [held, busy]
    rfl
  · apply truthful_update inv.truthful
    rintro task ⟨⟩
  · rw [backtracesOf_append]
    exact List.append_nil _

/-! ## Whole runs -/

/-- How many more numbers an event takes. -/
theorem step_inv {start : UInt32} {n : Nat} {s next : System} {event : Event} (inv : Inv start n s)
    (room : n + 1 < 2 ^ 32) (stepped : step s event = some next) :
    Inv start (n + if event.takesNumber then 1 else 0) next := by
  cases event with
  | number thread timeSec timeUsec code data =>
    simp only [step] at stepped
    split at stepped
    · next idle =>
      cases stepped
      exact announced_inv inv room rfl idle rfl rfl data
    · cases stepped
  | numberBacktrace thread timeSec timeUsec listAddr =>
    simp only [step] at stepped
    split at stepped
    · next operation originMsgNum busy =>
      cases stepped
      have holds := (backtraceMessage_listAddr listAddr originMsgNum s.counters ⟨timeSec, timeUsec, thread⟩).2
      apply numbered_inv inv room rfl
      · rw [held, busy]
        rfl
      · rw [held, busy]
        rfl
      · exact holds
    · cases stepped
  | numberSymbolInfos thread timeSec timeUsec data =>
    simp only [step] at stepped
    split at stepped
    · next idle =>
      cases stepped
      apply numbered_inv inv room rfl
      · rw [held, idle]
        rfl
      · rw [held, idle]
        rfl
      · trivial
    · cases stepped
  | append thread =>
    simp only [step] at stepped
    split at stepped
    · next header data busy =>
      cases stepped
      exact memory_inv inv busy
    · next operation listAddr header data busy =>
      cases stepped
      exact backtrace_inv inv busy
    · next header data busy =>
      cases stepped
      exact symbolInfos_inv inv busy
    · cases stepped

theorem run_inv {start : UInt32} {n : Nat} {s final : System} {events : List Event} (inv : Inv start n s)
    (few : n + events.countP Event.takesNumber < 2 ^ 31) (ran : run step s events = some final) :
    ∃ m, Inv start m final := by
  induction events generalizing n s with
  | nil =>
    cases ran
    exact ⟨n, inv⟩
  | cons event rest ih =>
    obtain ⟨next, stepped, later⟩ := run_cons_some.mp ran
    rw [List.countP_cons] at few
    exact ih (step_inv inv (by omega) stepped) (by omega) later

/-- In every run, each operation has exactly the backtrace that its own thread sent for
    it, none is dropped, and none is missing once the threads are done. At every point
    the list is that of the operations without a backtrace. -/
theorem own_backtraces (counters : Counters) (events : List Event) (s : System)
    (ran : run step (System.initial counters) events = some s) (few : events.countP Event.takesNumber < 2 ^ 31) :
    s.objects.map traceOf = s.own ∧ (s.objects.filterMap MemoryOperation.backTrace).Perm (backtracesOf s.stream) ∧
      (Complete s → ∀ operation ∈ s.objects, operation.backTrace ≠ none) ∧
      ∀ delivered, delivered <+: s.stream → WithoutBacktrace (afterStream delivered).operations := by
  obtain ⟨n, inv⟩ := run_inv (initial_inv counters) (by omega) ran
  refine ⟨inv.own, ?_, ?_, ?_⟩
  · have sent := inv.sent
    rw [← inv.own, List.filterMap_map] at sent
    exact sent
  · intro complete operation member missing
    obtain ⟨i, object⟩ := List.mem_iff_getElem?.mp member
    have empty : s.own[i]? = some (operation.callerThreadId, none) := by
      rw [← inv.own, List.getElem?_map, object, Option.map_some, traceOf, missing]
    obtain ⟨number, owed⟩ := inv.owed operation.callerThreadId i empty
    rw [held, complete] at owed
    cases owed
  · intro delivered _
    exact afterStream_without delivered

/-- Two threads whose memory messages and backtraces are each appended in another order
    than they are numbered. -/
def crossed : List Event :=
  [.number 1 0 0 .malloc ⟨8, 4096, 1, 0⟩, .number 2 0 0 .malloc ⟨16, 8192, 2, 0⟩, .append 2, .append 1,
    .numberBacktrace 1 0 0 ⟨[5, 6], by decide⟩, .numberBacktrace 2 0 0 ⟨[7], by decide⟩, .append 2, .append 1]

theorem crossed_own : ∃ s, run step (System.initial ⟨0, 0⟩) crossed = some s ∧
    s.objects.map traceOf = s.own ∧ s.own = [(2, some ⟨2, [7]⟩), (1, some ⟨1, [5, 6]⟩)] :=
  ⟨_, rfl, (own_backtraces ⟨0, 0⟩ crossed _ rfl (by decide)).1, rfl⟩

end Aleakd.Backtraces
