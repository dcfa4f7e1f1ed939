import Aleakd.Numbering
import Aleakd.Parties
import Aleakd.ThreadSystem

/-!
The numbers of the messages. A message number is counted up and read in one step, under
a lock; the number of an allocation is counted up by one call and read by another, and
another thread may come in between.
-/
namespace Aleakd.AllocNumbers
open Aleakd.Messages Aleakd.Wrapper Aleakd.Runs Aleakd.Numbering Aleakd.Parties
open Aleakd.ThreadSystem (allocationCodes)

/-! ## The threads -/

/-- What a thread is in the middle of. -/
inductive Task where
  /-- `aleakd_data_incr_alloc_number` has returned -/
  | incremented
  /-- the thread has read its number, and the real function has returned a block -/
  | counted (allocNum : UInt32)
  /-- a message with its number, still to be appended -/
  | send (message : Message)

/-- The messages that have no allocation number. -/
inductive OtherMessage where
  | free (ptr : UInt64)
  | thread (code : MsgCode) (data : ServerMsgThreadDataV1)
  | backtrace (data : ServerMsgBacktraceDataV1)
  | symbolInfos (data : ServerMsgSymbolInfosDataV1)

def OtherMessage.build (header : ServerMsgHeaderV1) : OtherMessage → Message
  | .free ptr =>
    .memory { header with msgCode := MsgCode.free.byte }
      { allocSize := 0, allocPtr := 0, allocNum := 0, freePtr := ptr }
  | .thread code data => .thread { header with msgCode := code.byte } data
  | .backtrace data => .backtrace { header with msgCode := MsgCode.backtrace.byte } data
  | .symbolInfos data => .symbolInfos { header with msgCode := MsgCode.symbolinfos.byte } data

structure System where
  counters : Counters
  tasks : UInt64 → Option Task
  /-- the messages, as they were appended -/
  stream : List Message

def System.initial (counters : Counters) : System where
  counters
  tasks _ := none
  stream := []

inductive Event where
  | incr (thread : UInt64)
  /-- the number is read, and then the real function `succeeds` or not -/
  | get (thread : UInt64) (succeeds : Bool)
  /-- the message of the allocation gets its number -/
  | number (thread timeSec timeUsec : UInt64) (code : MsgCode) (size p ptr : UInt64)
  /-- another message gets its number -/
  | other (thread timeSec timeUsec : UInt64) (message : OtherMessage)
  | append (thread : UInt64)

def step (s : System) : Event → Option System
  | .incr thread =>
    match s.tasks thread with
    | none =>
      some { s with
        counters := aleakdDataIncrAllocNumber s.counters
        tasks := Function.update s.tasks thread (some .incremented) }
    | _ => none
  | .get thread succeeds =>
    match s.tasks thread with
    | some .incremented =>
      let task := if succeeds then some (.counted (aleakdDataGetAllocNumber s.counters)) else none
      some { s with tasks := Function.update s.tasks thread task }
    | _ => none
  | .number thread timeSec timeUsec code size p ptr =>
    match s.tasks thread with
    | some (.counted allocNum) =>
      if code ∈ allocationCodes then
        let (counters, header, data) := servercommMsgMemoryInitV1 s.counters ⟨timeSec, timeUsec, thread⟩
        let message := .memory { header with msgCode := code.byte }
          { data with allocNum, allocPtr := p, allocSize := size, freePtr := ptr }
        some { s with counters, tasks := Function.update s.tasks thread (some (.send message)) }
      else none
    | _ => none
  | .other thread timeSec timeUsec message =>
    match s.tasks thread with
    | none =>
      let (counters, header) := servercommMsgHeaderInitV1 s.counters ⟨timeSec, timeUsec, thread⟩
      some { s with counters, tasks := Function.update s.tasks thread (some (.send (message.build header))) }
    | _ => none
  | .append thread =>
    match s.tasks thread with
    | some (.send message) =>
      some { s with
        tasks := Function.update s.tasks thread none
        stream := s.stream ++ [message] }
    | _ => none

/-- Every call has returned. -/
def Complete (s : System) : Prop := ∀ thread, s.tasks thread = none

/-- The steps of one call of an allocation function do what `allocation` does, when no
    other thread comes in between. -/
theorem uninterrupted_allocation (s : System) {thread : UInt64} (idle : s.tasks thread = none)
    (timeSec timeUsec size p ptr : UInt64) {code : MsgCode} (known : code ∈ allocationCodes) :
    let called := allocation code true p size ptr s.counters ⟨timeSec, timeUsec, thread⟩
    ∃ header data, called.2 = some (header, data) ∧
      run step s [.incr thread, .get thread true, .number thread timeSec timeUsec code size p ptr, .append thread] =
        some { counters := called.1, tasks := s.tasks, stream := s.stream ++ [.memory header data] } := by
  have same : Function.update s.tasks thread none = s.tasks := by rw [← idle, Function.update_eq_self]
  refine ⟨_, _, rfl, ?_⟩
  simp only [run, step, idle, Function.update_self, Function.update_idem, known, if_true, Option.bind_some, same]
  rfl

/-! ## The numbers -/

/-- The message number that a thread is to send. -/
def Task.msgNum : Task → Option UInt32
  | .send message => some message.header.msgNum
  | .incremented | .counted _ => none

/-- The allocation number of a message. -/
def allocNumOf : Message → Option UInt32
  | .memory header data => if header.msgCode = MsgCode.free.byte then none else some data.allocNum
  | .app _ | .thread .. | .backtrace .. | .symbolInfos .. => none

/-- The allocation number that a thread is to send. -/
def Task.allocNum : Task → Option UInt32
  | .incremented => none
  | .counted allocNum => some allocNum
  | .send message => allocNumOf message

def System.msgNums (s : System) : List UInt32 := s.stream.map fun message => message.header.msgNum

def System.allocNums (s : System) : List UInt32 := s.stream.filterMap allocNumOf

theorem msgNums_append (s : System) (message : Message) :
    (s.stream ++ [message]).map (fun message => message.header.msgNum) = s.msgNums ++ [message.header.msgNum] :=
  List.map_append

/-! ## The order of the steps -/

/-- Whether the allocation number has been counted up since it was last read by a call
    that sends a message. -/
def Event.fresh (fresh : Bool) : Event → Bool
  | .incr _ => true
  | .get _ true => false
  | .get _ false | .number .. | .other .. | .append _ => fresh

/-- A call that sends a message reads a number that was not read before. -/
def Event.mayRead (fresh : Bool) : Event → Bool
  | .get _ true => fresh
  | .incr _ | .get _ false | .number .. | .other .. | .append _ => true

/-- Between any two reads by calls that send a message, some thread counts up. -/
def incrementedBetween : Bool → List Event → Bool
  | _, [] => true
  | fresh, event :: rest => event.mayRead fresh && incrementedBetween (event.fresh fresh) rest

/-- The event takes a message number. -/
def Event.takesMsgNum : Event → Bool
  | .number .. | .other .. => true
  | .incr _ | .get .. | .append _ => false

/-- The event counts up the allocation number. -/
def Event.increments : Event → Bool
  | .incr _ => true
  | .get .. | .number .. | .other .. | .append _ => false

/-! ## The message numbers -/

structure MsgInv (start : UInt32) (n : Nat) (s : System) : Prop where
  issued : Issued start s.counters.msgNum n (Used s.msgNums (held Task.msgNum s.tasks))
  unique : Unique s.msgNums (held Task.msgNum s.tasks)

theorem initial_msgInv (counters : Counters) : MsgInv counters.msgNum 0 (System.initial counters) where
  issued := by
    apply issued_start
    rintro number (member | ⟨thread, holds⟩)
    · cases member
    · cases holds
  unique := unique_start

/-- A thread goes on with the message number that it has, or without one. -/
theorem msgInv_frame {start : UInt32} {n : Nat} {s next : System} (inv : MsgInv start n s)
    (counter : next.counters.msgNum = s.counters.msgNum) (stream : next.stream = s.stream)
    (holds : held Task.msgNum next.tasks = held Task.msgNum s.tasks) : MsgInv start n next := by
  have sent : next.msgNums = s.msgNums := congrArg (List.map fun message : Message => message.header.msgNum) stream
  constructor
  · rw [counter, sent, holds]
    exact inv.issued
  · rw [sent, holds]
    exact inv.unique

/-- A thread takes a number for its message. -/
theorem msgInv_take {start : UInt32} {n : Nat} {s : System} (inv : MsgInv start n s) (room : n + 1 < 2 ^ 32)
    {thread : UInt64} (idle : held Task.msgNum s.tasks thread = none) {counters : Counters}
    (counted : counters.msgNum = s.counters.msgNum + 1) {message : Message}
    (number : message.header.msgNum = counters.msgNum) :
    MsgInv start (n + 1) { s with counters, tasks := Function.update s.tasks thread (some (.send message)) } := by
  have holds : held Task.msgNum (Function.update s.tasks thread (some (.send message))) =
      Function.update (held Task.msgNum s.tasks) thread (some (s.counters.msgNum + 1)) := by
    rw [held_update, ← counted, ← number]
    rfl
  constructor
  · show Issued start counters.msgNum (n + 1) (Used s.msgNums _)
    rw [counted, holds]
    exact issued_next inv.issued room fun number => (used_take idle number).mp
  · show Unique s.msgNums _
    rw [holds, unique_take idle]
    exact ⟨inv.unique, next_new inv.issued room⟩

/-- A message hands in its number. -/
theorem msgInv_append {start : UInt32} {n : Nat} {s : System} (inv : MsgInv start n s) {thread : UInt64}
    {message : Message} (busy : s.tasks thread = some (.send message)) :
    MsgInv start n { s with
      tasks := Function.update s.tasks thread none
      stream := s.stream ++ [message] } := by
  have has : held Task.msgNum s.tasks thread = some message.header.msgNum := held_task.mpr ⟨_, busy, rfl⟩
  have holds : held Task.msgNum (Function.update s.tasks thread none) =
      Function.update (held Task.msgNum s.tasks) thread none := held_update ..
  constructor
  · rw [System.msgNums, msgNums_append, holds]
    exact issued_mono inv.issued fun number => (used_send has number).mp
  · rw [System.msgNums, msgNums_append, holds, unique_send has]
    exact inv.unique

theorem step_msgInv {start : UInt32} {n : Nat} {s next : System} {event : Event} (inv : MsgInv start n s)
    (room : n + 1 < 2 ^ 32) (stepped : step s event = some next) :
    MsgInv start (n + if event.takesMsgNum then 1 else 0) next := by
  cases event with
  | incr thread =>
    simp only [step] at stepped
    split at stepped
    · next idle =>
      cases stepped
      refine msgInv_frame inv ?_ ?_ ?_
      · rfl
      · rfl
      · apply held_same
        rw [held, idle]
        rfl
    · cases stepped
  | get thread succeeds =>
    simp only [step] at stepped
    split at stepped
    · next busy =>
      cases stepped
      refine msgInv_frame inv ?_ ?_ ?_
      · rfl
      · rfl
      · apply held_same
        rw [held, busy]
        cases succeeds <;> rfl
    · cases stepped
  | number thread timeSec timeUsec code size p ptr =>
    simp only [step] at stepped
    split at stepped
    · next allocNum busy =>
      split at stepped
      · cases stepped
        refine msgInv_take inv room ?_ rfl rfl
        rw [held, busy]
        rfl
      · cases stepped
    · cases stepped
  | other thread timeSec timeUsec message =>
    simp only [step] at stepped
    split at stepped
    · next idle =>
      cases stepped
      refine msgInv_take inv room ?_ rfl ?_
      · rw [held, idle]
        rfl
      · cases message <;> rfl
    · cases stepped
  | append thread =>
    simp only [step] at stepped
    split at stepped
    · next message busy =>
      cases stepped
      exact msgInv_append inv busy
    · cases stepped

theorem run_msgInv {start : UInt32} {n : Nat} {s final : System} {events : List Event} (inv : MsgInv start n s)
    (few : n + events.countP Event.takesMsgNum < 2 ^ 31) (ran : run step s events = some final) :
    Unique final.msgNums (held Task.msgNum final.tasks) := by
  induction events generalizing n s with
  | nil =>
    cases ran
    exact inv.unique
  | cons event rest ih =>
    obtain ⟨next, stepped, later⟩ := run_cons_some.mp ran
    rw [List.countP_cons] at few
    exact ih (step_msgInv inv (by omega) stepped) (by omega) later

/-! ## The allocation numbers -/

def UniqueAllocs (s : System) : Prop := Unique s.allocNums (held Task.allocNum s.tasks)

structure AllocInv (start : UInt32) (n : Nat) (fresh : Bool) (s : System) : Prop where
  issued : Issued start s.counters.allocNumber.toUInt32 n (Used s.allocNums (held Task.allocNum s.tasks))
  fresh : fresh = true ↔ ¬ Used s.allocNums (held Task.allocNum s.tasks) s.counters.allocNumber.toUInt32

theorem initial_allocInv (counters : Counters) :
    AllocInv counters.allocNumber.toUInt32 0 true (System.initial counters) := by
  have none : ∀ number, ¬ Used (System.initial counters).allocNums (held Task.allocNum (System.initial counters).tasks)
      number := by
    rintro number (member | ⟨thread, holds⟩)
    · cases member
    · cases holds
  exact ⟨issued_start none, iff_of_true rfl (none _)⟩

/-- A thread goes on with the allocation number that it has, or without one. -/
theorem alloc_frame {start : UInt32} {n : Nat} {fresh : Bool} {s next : System} (inv : AllocInv start n fresh s)
    (counter : next.counters.allocNumber = s.counters.allocNumber) (sent : next.allocNums = s.allocNums)
    (holds : held Task.allocNum next.tasks = held Task.allocNum s.tasks) :
    AllocInv start n fresh next ∧ (UniqueAllocs next ↔ UniqueAllocs s ∧ true = true) := by
  refine ⟨⟨?_, ?_⟩, ?_⟩
  · rw [counter, sent, holds]
    exact inv.issued
  · rw [counter, sent, holds]
    exact inv.fresh
  · rw [UniqueAllocs, sent, holds, and_iff_left rfl]
    exact Iff.rfl

/-- A thread reads the number, and no other one may read it now. -/
theorem alloc_read {start : UInt32} {n : Nat} {fresh : Bool} {s : System} (inv : AllocInv start n fresh s)
    {thread : UInt64} (idle : held Task.allocNum s.tasks thread = none) :
    let next := { s with
      tasks := Function.update s.tasks thread (some (.counted (aleakdDataGetAllocNumber s.counters))) }
    AllocInv start n false next ∧ (UniqueAllocs next ↔ UniqueAllocs s ∧ fresh = true) := by
  intro next
  have holds : held Task.allocNum next.tasks =
      Function.update (held Task.allocNum s.tasks) thread (some s.counters.allocNumber.toUInt32) := held_update ..
  have sent : next.allocNums = s.allocNums := rfl
  refine ⟨⟨?_, ?_⟩, ?_⟩
  · rw [sent, holds]
    refine ⟨inv.issued.counter, ?_⟩
    intro number used
    rcases (used_take idle number).mp used with before | rfl
    · exact inv.issued.used number before
    · exact Nat.le_of_eq inv.issued.counter
  · rw [sent, holds]
    exact iff_of_false Bool.false_ne_true fun unused => unused ((used_take idle _).mpr (.inr rfl))
  · rw [UniqueAllocs, sent, holds, unique_take idle, ← inv.fresh]
    exact Iff.rfl

/-- Some thread counts the number up, and the next one to read it gets a new one. -/
theorem alloc_incr {start : UInt32} {n : Nat} {fresh : Bool} {s : System} (inv : AllocInv start n fresh s)
    (room : n + 1 < 2 ^ 32) {thread : UInt64} (idle : s.tasks thread = none) :
    let next := { s with
      counters := aleakdDataIncrAllocNumber s.counters
      tasks := Function.update s.tasks thread (some .incremented) }
    AllocInv start (n + 1) true next ∧ (UniqueAllocs next ↔ UniqueAllocs s ∧ true = true) := by
  intro next
  have holds : held Task.allocNum next.tasks = held Task.allocNum s.tasks := by
    apply held_same
    rw [held, idle]
    rfl
  have sent : next.allocNums = s.allocNums := rfl
  have counted : next.counters.allocNumber.toUInt32 = s.counters.allocNumber.toUInt32 + 1 := UInt64.toUInt32_add ..
  refine ⟨⟨?_, ?_⟩, ?_⟩
  · rw [counted, sent, holds]
    exact issued_next inv.issued room fun _ used => .inl used
  · rw [counted, sent, holds]
    exact iff_of_true rfl (next_new inv.issued room)
  · rw [UniqueAllocs, sent, holds]
    exact (and_iff_left rfl).symm

/-- A message hands in the allocation number that it has, if any. -/
theorem alloc_append {start : UInt32} {n : Nat} {fresh : Bool} {s : System} (inv : AllocInv start n fresh s)
    {thread : UInt64} {message : Message} (busy : s.tasks thread = some (.send message)) :
    let next := { s with
      tasks := Function.update s.tasks thread none
      stream := s.stream ++ [message] }
    AllocInv start n fresh next ∧ (UniqueAllocs next ↔ UniqueAllocs s ∧ true = true) := by
  intro next
  have sent : next.allocNums = s.allocNums ++ [message].filterMap allocNumOf := List.filterMap_append
  cases number : allocNumOf message with
  | none =>
    rw [List.filterMap_cons_none number, List.filterMap_nil, List.append_nil] at sent
    refine alloc_frame inv rfl sent ?_
    apply held_same
    rw [held, busy]
    exact number.symm
  | some allocNum =>
    rw [List.filterMap_cons_some number, List.filterMap_nil] at sent
    have holds : held Task.allocNum next.tasks = Function.update (held Task.allocNum s.tasks) thread none :=
      held_update ..
    have has : held Task.allocNum s.tasks thread = some allocNum := held_task.mpr ⟨_, busy, number⟩
    refine ⟨⟨?_, ?_⟩, ?_⟩
    · rw [sent, holds]
      exact issued_mono inv.issued fun number => (used_send has number).mp
    · rw [sent, holds, used_send has]
      exact inv.fresh
    · rw [UniqueAllocs, sent, holds, unique_send has]
      exact (and_iff_left rfl).symm

theorem step_alloc {start : UInt32} {n : Nat} {fresh : Bool} {s next : System} {event : Event}
    (inv : AllocInv start n fresh s) (room : n + 1 < 2 ^ 32) (stepped : step s event = some next) :
    AllocInv start (n + if event.increments then 1 else 0) (event.fresh fresh) next ∧
      (UniqueAllocs next ↔ UniqueAllocs s ∧ event.mayRead fresh = true) := by
  cases event with
  | incr thread =>
    simp only [step] at stepped
    split at stepped
    · next idle =>
      cases stepped
      exact alloc_incr inv room idle
    · cases stepped
  | get thread succeeds =>
    simp only [step] at stepped
    split at stepped
    · next busy =>
      cases stepped
      have idle : held Task.allocNum s.tasks thread = none := by
        rw [held, busy]
        rfl
      cases succeeds with
      | false =>
        refine alloc_frame inv ?_ ?_ ?_
        · rfl
        · rfl
        · exact held_same idle.symm
      | true =>
        exact alloc_read inv idle
    · cases stepped
  | number thread timeSec timeUsec code size p ptr =>
    simp only [step] at stepped
    split at stepped
    · next allocNum busy =>
      split at stepped
      · next known =>
        cases stepped
        have allocates : ∀ code ∈ allocationCodes, code.byte ≠ MsgCode.free.byte := by decide
        refine alloc_frame inv ?_ ?_ ?_
        · rfl
        · rfl
        · apply held_same
          rw [held, busy]
          simp [Task.allocNum, allocNumOf, allocates code known]
      · cases stepped
    · cases stepped
  | other thread timeSec timeUsec message =>
    simp only [step] at stepped
    split at stepped
    · next idle =>
      cases stepped
      refine alloc_frame inv ?_ ?_ ?_
      · rfl
      · rfl
      · apply held_same
        rw [held, idle]
        cases message <;> rfl
    · cases stepped
  | append thread =>
    simp only [step] at stepped
    split at stepped
    · next message busy =>
      cases stepped
      exact alloc_append inv busy
    · cases stepped

/-- The allocation numbers are unique just when some thread counts up between any two
    reads. -/
theorem run_alloc {start : UInt32} {n : Nat} {fresh : Bool} {s final : System} {events : List Event}
    (inv : AllocInv start n fresh s) (few : n + events.countP Event.increments < 2 ^ 31)
    (ran : run step s events = some final) :
    UniqueAllocs final ↔ UniqueAllocs s ∧ incrementedBetween fresh events = true := by
  induction events generalizing n fresh s with
  | nil =>
    cases ran
    exact (and_iff_left rfl).symm
  | cons event rest ih =>
    obtain ⟨next, stepped, later⟩ := run_cons_some.mp ran
    rw [List.countP_cons] at few
    obtain ⟨inv', unique⟩ := step_alloc inv (by omega) stepped
    rw [ih inv' (by omega) later, unique, incrementedBetween, Bool.and_eq_true, and_assoc]

/-- In every run, no two messages have the same message number. No two messages of
    allocations have the same allocation number if between any two reads by calls that
    send a message some thread counts up; and only if, once all calls have returned. -/
theorem numbers_unique_iff (counters : Counters) (events : List Event) (s : System)
    (ran : run step (System.initial counters) events = some s)
    (fewMessages : events.countP Event.takesMsgNum < 2 ^ 31)
    (fewAllocations : events.countP Event.increments < 2 ^ 31) :
    s.msgNums.Nodup ∧ (incrementedBetween true events = true → s.allocNums.Nodup) ∧
      (Complete s → (s.allocNums.Nodup ↔ incrementedBetween true events = true)) := by
  have unique := run_msgInv (initial_msgInv counters) (by omega) ran
  have start : UniqueAllocs (System.initial counters) := unique_start
  have exact' := run_alloc (initial_allocInv counters) (by omega) ran
  rw [and_iff_right start] at exact'
  refine ⟨unique.distinct, ?_, ?_⟩
  · intro between
    exact (exact'.mpr between).distinct
  · intro complete
    have idle : ∀ thread, held Task.allocNum s.tasks thread = none := by
      intro thread
      rw [held, complete thread]
      rfl
    rw [← exact', UniqueAllocs, unique_idle idle]

/-- Two threads allocate one after the other, and the second call of the first one fails. -/
def inTurn : List Event :=
  [.incr 1, .get 1 true, .incr 2, .number 1 0 0 .malloc 8 4096 0, .get 2 true, .append 1, .incr 1, .get 1 false,
    .number 2 0 0 .calloc 8 8192 0, .append 2, .other 1 0 0 (.free 4096), .append 1]

theorem inTurn_unique : ∃ s, run step (System.initial ⟨0, 0⟩) inTurn = some s ∧ s.msgNums.Nodup ∧ s.allocNums.Nodup :=
  ⟨_, rfl, (numbers_unique_iff ⟨0, 0⟩ inTurn _ rfl (by decide) (by decide)).1,
    (numbers_unique_iff ⟨0, 0⟩ inTurn _ rfl (by decide) (by decide)).2.1 (by decide)⟩

/-- Both threads count up before either of them reads. -/
theorem crossed_duplicate : ¬ ∀ counters events s, run step (System.initial counters) events = some s →
    events.length < 2 ^ 31 → s.msgNums.Nodup ∧ s.allocNums.Nodup := by
  intro claim
  have unique := claim ⟨0, 0⟩ [.incr 1, .incr 2, .get 1 true, .get 2 true, .number 1 0 0 .malloc 8 4096 0, .append 1,
    .number 2 0 0 .malloc 8 8192 0, .append 2] _ rfl (by decide)
  revert unique
  decide +kernel

end Aleakd.AllocNumbers
