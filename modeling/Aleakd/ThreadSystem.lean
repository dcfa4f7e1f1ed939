import Aleakd.Parties
import Aleakd.ServerLedger
import Aleakd.Wrapper

/-!
The captured program as its threads are seen from outside: each is created by
another one, allocates and frees, and appends a message about each of these to the
stream of messages, in steps that interleave in any order. A message gets its
number in one step and is appended in a later one; `pthread_create` reports the
new thread only after that may run.
-/
namespace Aleakd.ThreadSystem
open Aleakd.Messages Aleakd.Operations Aleakd.OperationList Aleakd.Wrapper Aleakd.Ledger Aleakd.ServerLedger Aleakd.Runs
open Aleakd.Parties (update_some)

/-- What a thread is in the middle of. -/
inductive Task where
  /-- `real_pthread_create` has returned with the new thread. -/
  | created (thread : UInt64)
  /-- a message with its number, still to be appended -/
  | send (message : Message)

/-- A block, from before its message is appended until the message of its free is. -/
inductive BlockState where
  | allocating (thread : UInt64)
  | live
  | freeing (thread : UInt64)
deriving DecidableEq

structure System where
  counters : Counters
  /-- every thread id that has been used -/
  threads : List UInt64
  created : List UInt64
  tasks : UInt64 → Option Task
  blocks : UInt64 → Option BlockState
  /-- the messages, as they were appended -/
  stream : List Message

/-- After initialisation: one thread, and nothing reported about it. -/
def System.initial (main : UInt64) (counters : Counters) : System where
  counters
  threads := [main]
  created := []
  tasks _ := none
  blocks _ := none
  stream := []

inductive Event where
  /-- `real_pthread_create` makes the new thread runnable -/
  | create (thread child : UInt64)
  /-- the creator takes a number for its message -/
  | number (thread timeSec timeUsec : UInt64)
  /-- a real allocation function returns a block, and its message gets a number -/
  | alloc (code : MsgCode) (thread timeSec timeUsec size ptr : UInt64)
  /-- the message of a `free` gets a number -/
  | free (thread timeSec timeUsec ptr : UInt64)
  | append (thread : UInt64)

/-- The codes of the functions that allocate without freeing, `realloc` of NULL among
    them. -/
def allocationCodes : List MsgCode :=
  [.malloc, .calloc, .realloc, .posixMemalign, .alignedAlloc, .memalign, .valloc, .pvalloc]

/-- What an appended message settles about its blocks. -/
def settle (blocks : UInt64 → Option BlockState) : Message → UInt64 → Option BlockState
  | .memory _ data =>
    let blocks := if data.freePtr ≠ 0 then Function.update blocks data.freePtr none else blocks
    if data.allocPtr ≠ 0 then Function.update blocks data.allocPtr (some .live) else blocks
  | _ => blocks

def step (s : System) : Event → Option System
  | .create thread child =>
    if thread ∈ s.threads ∧ (s.tasks thread).isNone ∧ child ∉ s.threads then
      some { s with
        threads := child :: s.threads
        created := child :: s.created
        tasks := Function.update s.tasks thread (some (.created child)) }
    else none
  | .number thread timeSec timeUsec =>
    match s.tasks thread with
    | some (.created child) =>
      let (counters, header, data) := pthreadCreate child s.counters ⟨timeSec, timeUsec, thread⟩
      some { s with counters, tasks := Function.update s.tasks thread (some (.send (.thread header data))) }
    | _ => none
  | .alloc code thread timeSec timeUsec size ptr =>
    if thread ∈ s.threads ∧ (s.tasks thread).isNone ∧ code ∈ allocationCodes ∧ ptr ≠ 0 ∧ (s.blocks ptr).isNone then
      match allocation code true ptr size 0 s.counters ⟨timeSec, timeUsec, thread⟩ with
      | (counters, some (header, data)) =>
        some { s with
          counters
          tasks := Function.update s.tasks thread (some (.send (.memory header data)))
          blocks := Function.update s.blocks ptr (some (.allocating thread)) }
      | (_, none) => none
    else none
  | .free thread timeSec timeUsec ptr =>
    if thread ∈ s.threads ∧ (s.tasks thread).isNone ∧ s.blocks ptr = some .live then
      match Wrapper.free ptr s.counters ⟨timeSec, timeUsec, thread⟩ with
      | (counters, some (header, data)) =>
        some { s with
          counters
          tasks := Function.update s.tasks thread (some (.send (.memory header data)))
          blocks := Function.update s.blocks ptr (some (.freeing thread)) }
      | (_, none) => none
    else none
  | .append thread =>
    match s.tasks thread with
    | some (.send message) =>
      some { s with
        tasks := Function.update s.tasks thread none
        blocks := settle s.blocks message
        stream := s.stream ++ [message] }
    | _ => none

/-- Every call has returned. -/
def Complete (s : System) : Prop := ∀ thread, s.tasks thread = none

/-! ## What the messages tell -/

/-- The memory operations of the messages. -/
def operationsOf (messages : List Message) : List MemoryOperation :=
  messages.filterMap fun
    | .memory header data => some (received (header, data))
    | _ => none

/-- The allocator that the messages tell of, where there can be one. -/
def told (messages : List Message) : Option Allocator :=
  run Allocator.step Allocator.empty (operationsOf messages)

/-- The threads that the messages announce. -/
def announced (messages : List Message) : List UInt64 :=
  messages.filterMap fun
    | .thread _ data => some data.threadId
    | _ => none

/-- The thread that a task is to announce. -/
def announces : Task → Option UInt64
  | .created child => some child
  | .send (.thread _ data) => some data.threadId
  | .send _ => none

/-! ## What holds in every run -/

/-- A message that a thread is to append, with the block that it is about. -/
inductive Proper (blocks : UInt64 → Option BlockState) (thread : UInt64) : Message → Prop where
  | create {header : ServerMsgHeaderV1} {data : ServerMsgThreadDataV1}
      (code : header.msgCode = MsgCode.pthreadCreate.byte) : Proper blocks thread (.thread header data)
  | alloc {header : ServerMsgHeaderV1} {data : ServerMsgMemoryDataV1} (code : MsgCode) (known : code ∈ allocationCodes)
      (coded : header.msgCode = code.byte) (by' : header.threadId = thread) (noFree : data.freePtr = 0)
      (given : data.allocPtr ≠ 0) (block : blocks data.allocPtr = some (.allocating thread)) :
      Proper blocks thread (.memory header data)
  | free {header : ServerMsgHeaderV1} {data : ServerMsgMemoryDataV1} (coded : header.msgCode = MsgCode.free.byte)
      (noAlloc : data.allocPtr = 0) (noSize : data.allocSize = 0) (given : data.freePtr ≠ 0)
      (block : blocks data.freePtr = some (.freeing thread)) : Proper blocks thread (.memory header data)

/-- A block that the messages tell of as live. -/
def Reported (state : Option BlockState) : Prop := state = some .live ∨ ∃ thread, state = some (.freeing thread)

/-- The kinds of messages that threads append. -/
def Kinds (messages : List Message) : Prop := ∀ message ∈ messages,
  (∃ header data, message = .thread header data ∧ header.msgCode = MsgCode.pthreadCreate.byte) ∨
    ∃ header data, message = .memory header data

structure Inv (s : System) : Prop where
  proper : ∀ thread message, s.tasks thread = some (.send message) → Proper s.blocks thread message
  ledger : ∃ a, told s.stream = some a ∧ ∀ ptr, ptr ∈ a.live ↔ Reported (s.blocks ptr)
  kinds : Kinds s.stream
  pending : ∀ thread task child, s.tasks thread = some task → announces task = some child →
    child ∈ s.threads ∧ child ∉ announced s.stream
  alone : ∀ thread thread' task task' child, s.tasks thread = some task → s.tasks thread' = some task' →
    announces task = some child → announces task' = some child → thread = thread'
  once : (announced s.stream).Nodup
  known : ∀ child ∈ announced s.stream, child ∈ s.threads

theorem initial_inv (main : UInt64) (counters : Counters) : Inv (System.initial main counters) where
  proper := by
    intro thread message task
    cases task
  ledger := by
    refine ⟨Allocator.empty, rfl, ?_⟩
    intro ptr
    simp [Allocator.empty, Reported, System.initial, Finmap.notMem_empty]
  kinds := by simp [Kinds, System.initial]
  pending := by
    intro thread task child busy
    cases busy
  alone := by
    intro thread thread' task task' child busy
    cases busy
  once := List.nodup_nil
  known := by simp [System.initial, announced]

/-- Blocks of other threads may change. -/
theorem proper_frame {blocks blocks' : UInt64 → Option BlockState} {thread : UInt64} {message : Message}
    (proper : Proper blocks thread message)
    (same : ∀ ptr, blocks ptr = some (.allocating thread) ∨ blocks ptr = some (.freeing thread) →
      blocks' ptr = blocks ptr) : Proper blocks' thread message := by
  cases proper with
  | create code => exact .create code
  | alloc code known coded by' noFree given block =>
    exact .alloc code known coded by' noFree given ((same _ (.inl block)).trans block)
  | free coded noAlloc noSize given block =>
    exact .free coded noAlloc noSize given ((same _ (.inr block)).trans block)

theorem create_inv {s : System} (inv : Inv s) {thread child : UInt64} (fresh : child ∉ s.threads) :
    Inv { s with
      threads := child :: s.threads
      created := child :: s.created
      tasks := Function.update s.tasks thread (some (.created child)) } where
  proper := by
    intro other message busy
    rcases update_some busy with ⟨_, new⟩ | ⟨_, busy⟩
    · cases new
    · exact inv.proper other message busy
  ledger := inv.ledger
  kinds := inv.kinds
  pending := by
    intro other task id busy about
    rcases update_some busy with ⟨_, new⟩ | ⟨_, busy⟩
    · cases new
      cases about
      exact ⟨List.mem_cons_self, fun member => fresh (inv.known _ member)⟩
    · obtain ⟨known, unsent⟩ := inv.pending other task id busy about
      exact ⟨List.mem_cons_of_mem child known, unsent⟩
  alone := by
    -- the new id is not the one of any pending announcement
    intro first second task task' id busy busy' about about'
    rcases update_some busy with ⟨rfl, new⟩ | ⟨_, busy⟩
    · cases new
      cases about
      rcases update_some busy' with ⟨same, _⟩ | ⟨_, busy'⟩
      · exact same.symm
      · exact absurd (inv.pending second task' _ busy' about').1 fresh
    · rcases update_some busy' with ⟨_, new⟩ | ⟨_, busy'⟩
      · cases new
        cases about'
        exact absurd (inv.pending first task _ busy about).1 fresh
      · exact inv.alone first second task task' id busy busy' about about'
  once := inv.once
  known := fun id member => List.mem_cons_of_mem child (inv.known id member)

theorem number_inv {s : System} (inv : Inv s) {thread child : UInt64} (task : s.tasks thread = some (.created child))
    {header : ServerMsgHeaderV1} {data : ServerMsgThreadDataV1}
    (code : header.msgCode = MsgCode.pthreadCreate.byte) (about : data.threadId = child) (counters : Counters) :
    Inv { s with counters, tasks := Function.update s.tasks thread (some (.send (.thread header data))) } := by
  -- the thread announces the same id as before
  have before : ∀ other task' id, Function.update s.tasks thread (some (.send (.thread header data))) other =
      some task' → announces task' = some id → ∃ task'', s.tasks other = some task'' ∧ announces task'' = some id := by
    intro other task' id busy announce
    rcases update_some busy with ⟨rfl, new⟩ | ⟨_, busy⟩
    · cases new
      rw [announces, about] at announce
      exact ⟨_, task, announce⟩
    · exact ⟨task', busy, announce⟩
  constructor
  case proper =>
    intro other message busy
    rcases update_some busy with ⟨_, new⟩ | ⟨_, busy⟩
    · cases new
      exact .create code
    · exact inv.proper other message busy
  case ledger => exact inv.ledger
  case kinds => exact inv.kinds
  case pending =>
    intro other task' id busy announce
    obtain ⟨task'', busy', announce'⟩ := before other task' id busy announce
    exact inv.pending other task'' id busy' announce'
  case alone =>
    intro first second task' task'' id busy busy' announce announce'
    obtain ⟨_, busy, announce⟩ := before first task' id busy announce
    obtain ⟨_, busy', announce'⟩ := before second task'' id busy' announce'
    exact inv.alone first second _ _ id busy busy' announce announce'
  case once => exact inv.once
  case known => exact inv.known

/-- A thread begins to report about a block that no other thread is busy with. -/
theorem begin_inv {s : System} (inv : Inv s) {thread ptr : UInt64} {header : ServerMsgHeaderV1}
    {data : ServerMsgMemoryDataV1} {state : BlockState} (idle : s.blocks ptr = none ∨ s.blocks ptr = some .live)
    (reported : Reported (some state) ↔ Reported (s.blocks ptr))
    (proper : Proper (Function.update s.blocks ptr (some state)) thread (.memory header data)) (counters : Counters) :
    Inv { s with
      counters
      tasks := Function.update s.tasks thread (some (.send (.memory header data)))
      blocks := Function.update s.blocks ptr (some state) } where
  proper := by
    intro other message busy
    rcases update_some busy with ⟨rfl, new⟩ | ⟨_, busy⟩
    · cases new
      exact proper
    · apply proper_frame (inv.proper other message busy)
      intro ptr' taken
      apply Function.update_of_ne
      rintro rfl
      rcases idle with idle | idle <;> rw [idle] at taken <;> rcases taken with taken | taken <;> cases taken
  ledger := by
    obtain ⟨a, tells, same⟩ := inv.ledger
    refine ⟨a, tells, ?_⟩
    intro ptr'
    show ptr' ∈ a.live ↔ Reported (Function.update s.blocks ptr (some state) ptr')
    by_cases here : ptr' = ptr
    · subst here
      rw [same, Function.update_self, reported]
    · rw [same, Function.update_of_ne here]
  kinds := inv.kinds
  pending := by
    intro other task id busy about
    rcases update_some busy with ⟨_, new⟩ | ⟨_, busy⟩
    · cases new
      cases about
    · exact inv.pending other task id busy about
  alone := by
    intro first second task task' id busy busy' about about'
    rcases update_some busy with ⟨_, new⟩ | ⟨_, busy⟩
    · cases new
      cases about
    · rcases update_some busy' with ⟨_, new⟩ | ⟨_, busy'⟩
      · cases new
        cases about'
      · exact inv.alone first second task task' id busy busy' about about'
  once := inv.once
  known := inv.known

/-! ## Appending a message -/

theorem told_append (messages : List Message) (message : Message) :
    told (messages ++ [message]) =
      (told messages).bind fun a => run Allocator.step a (operationsOf [message]) := by
  rw [told, operationsOf, List.filterMap_append, run_append]
  rfl

theorem allocationCodes_known : ∀ code ∈ allocationCodes, code ∈ MsgCode.named ∧ code ∈ MsgCode.memory := by
  decide

/-- A message that is appended fits the blocks that were reported before. -/
theorem proper_posts {blocks : UInt64 → Option BlockState} {thread : UInt64} {header : ServerMsgHeaderV1}
    {data : ServerMsgMemoryDataV1} (proper : Proper blocks thread (.memory header data)) {a : Allocator}
    (same : ∀ ptr, ptr ∈ a.live ↔ Reported (blocks ptr)) :
    ∃ next, a.step (received (header, data)) = some next ∧
      ∀ ptr, ptr ∈ next.live ↔ Reported (settle blocks (.memory header data) ptr) := by
  cases proper with
  | alloc code known coded by' noFree given block =>
    have absent : data.allocPtr ∉ a.live := by
      rw [same, block]
      rintro (state | ⟨_, state⟩) <;> cases state
    have codes := allocationCodes_known code known
    have entry : a.entry (received (header, data)) =
        ⟨none, some (data.allocPtr, ⟨a.messages, data.allocSize, header.threadId⟩)⟩ := by
      simp [Allocator.entry, received, memoryOperation, noFree, given]
    have possible : a.Possible (received (header, data)) := by
      refine ⟨?_, ?_, fun zero => absurd zero given⟩
      · show MsgCode.ofByte header.msgCode ∈ MsgCode.memory
        rw [coded, MsgCode.ofByte_byte codes.1]
        exact codes.2
      · rw [entry]
        simpa [Valid, release] using absent
    refine ⟨_, if_pos possible, ?_⟩
    intro ptr
    simp only [entry, post, release, add, Finmap.mem_insert, same, settle, noFree, ne_eq, not_true_eq_false, if_false,
      given, not_false_eq_true, if_true]
    by_cases here : ptr = data.allocPtr
    · simp [here, Reported]
    · simp [here]
  | free coded noAlloc noSize given block =>
    have present : data.freePtr ∈ a.live := by
      rw [same, block]
      exact .inr ⟨thread, rfl⟩
    have entry : a.entry (received (header, data)) = ⟨some data.freePtr, none⟩ := by
      simp [Allocator.entry, received, memoryOperation, noAlloc, given]
    have code : (received (header, data)).msgCode = .free := by
      show MsgCode.ofByte header.msgCode = .free
      rw [coded]
      decide
    have possible : a.Possible (received (header, data)) := by
      refine ⟨by rw [code]; decide, ?_, fun _ => ⟨code, noSize⟩⟩
      rw [entry]
      simpa [Valid] using present
    refine ⟨_, if_pos possible, ?_⟩
    intro ptr
    simp only [entry, post, release, add, Finmap.mem_erase, same, settle, noAlloc, ne_eq, not_true_eq_false, if_false,
      given, not_false_eq_true, if_true]
    by_cases here : ptr = data.freePtr
    · simp [here, Reported]
    · simp [here]

/-- Only the blocks of the message are settled. -/
theorem settle_other {blocks : UInt64 → Option BlockState} {thread other : UInt64} {message : Message}
    (proper : Proper blocks thread message) (apart : other ≠ thread) {ptr : UInt64}
    (taken : blocks ptr = some (.allocating other) ∨ blocks ptr = some (.freeing other)) :
    settle blocks message ptr = blocks ptr := by
  have elsewhere : ∀ ptr', blocks ptr' = some (.allocating thread) ∨ blocks ptr' = some (.freeing thread) →
      ptr ≠ ptr' := by
    rintro ptr' mine rfl
    rcases taken with taken | taken <;> rcases mine with mine | mine <;> rw [mine] at taken <;> cases taken <;>
      exact apart rfl
  cases proper with
  | create code => rfl
  | alloc code known coded by' noFree given block =>
    simp [settle, noFree, given, Function.update_of_ne (elsewhere _ (.inl block))]
  | free coded noAlloc noSize given block =>
    simp [settle, noAlloc, given, Function.update_of_ne (elsewhere _ (.inr block))]

theorem announced_append (messages : List Message) (message : Message) :
    announced (messages ++ [message]) = announced messages ++ announced [message] := by
  simp [announced]

/-- What an appended message announces, its thread was to announce. -/
theorem announces_of_announced {message : Message} {child : UInt64} (member : child ∈ announced [message]) :
    announces (.send message) = some child := by
  cases message with
  | thread header data =>
    rw [announced, List.filterMap_cons] at member
    simp only [List.filterMap_nil, List.mem_singleton] at member
    rw [announces, member]
  | app | memory | backtrace | symbolInfos => cases member

theorem append_inv {s : System} (inv : Inv s) {thread : UInt64} {message : Message}
    (task : s.tasks thread = some (.send message)) :
    Inv { s with
      tasks := Function.update s.tasks thread none
      blocks := settle s.blocks message
      stream := s.stream ++ [message] } := by
  have proper := inv.proper thread message task
  obtain ⟨a, tells, same⟩ := inv.ledger
  have others : ∀ other task', Function.update s.tasks thread none other = some task' →
      other ≠ thread ∧ s.tasks other = some task' := by
    intro other task' busy
    rcases update_some busy with ⟨_, new⟩ | both
    · cases new
    · exact both
  constructor
  case proper =>
    intro other message' busy
    obtain ⟨apart, busy⟩ := others other _ busy
    exact proper_frame (inv.proper other message' busy) fun ptr taken => settle_other proper apart taken
  case ledger =>
    show ∃ a, told (s.stream ++ [message]) = some a ∧ _
    rw [told_append, tells, Option.bind_some]
    cases message with
    | thread header data => exact ⟨a, rfl, same⟩
    | memory header data =>
      obtain ⟨next, stepped, same'⟩ := proper_posts proper same
      exact ⟨next, run_cons_some.mpr ⟨next, stepped, rfl⟩, same'⟩
    | app | backtrace | symbolInfos => cases proper
  case kinds =>
    intro message' member
    rcases List.mem_append.mp member with old | new
    · exact inv.kinds message' old
    · rw [List.mem_singleton.mp new]
      cases proper with
      | create code => exact .inl ⟨_, _, rfl, code⟩
      | alloc => exact .inr ⟨_, _, rfl⟩
      | free => exact .inr ⟨_, _, rfl⟩
  case pending =>
    intro other task' child busy about
    obtain ⟨apart, busy⟩ := others other task' busy
    obtain ⟨known, unsent⟩ := inv.pending other task' child busy about
    refine ⟨known, ?_⟩
    intro member
    rw [announced_append] at member
    rcases List.mem_append.mp member with old | new
    · exact unsent old
    · exact apart (inv.alone other thread _ _ child busy task about (announces_of_announced new))
  case alone =>
    intro first second task' task'' child busy busy' about about'
    exact inv.alone first second task' task'' child (others first _ busy).2 (others second _ busy').2 about about'
  case once =>
    show (announced (s.stream ++ [message])).Nodup
    rw [announced_append, List.nodup_append]
    refine ⟨inv.once, ?_, ?_⟩
    · cases message <;> simp [announced]
    · rintro child old _ new rfl
      exact (inv.pending thread _ child task (announces_of_announced new)).2 old
  case known =>
    intro child member
    rw [announced_append] at member
    rcases List.mem_append.mp member with old | new
    · exact inv.known child old
    · exact (inv.pending thread _ child task (announces_of_announced new)).1

/-! ## Every run -/

theorem step_inv {s next : System} (inv : Inv s) {event : Event} (stepped : step s event = some next) : Inv next := by
  cases event with
  | create thread child =>
    simp only [step, Option.ite_none_right_eq_some, Option.some.injEq] at stepped
    obtain ⟨⟨_, _, fresh⟩, rfl⟩ := stepped
    exact create_inv inv fresh
  | number thread timeSec timeUsec =>
    simp only [step] at stepped
    split at stepped
    · next child task =>
      cases stepped
      exact number_inv inv task rfl rfl _
    · cases stepped
  | alloc code thread timeSec timeUsec size ptr =>
    simp only [step, Option.ite_none_right_eq_some] at stepped
    obtain ⟨⟨_, _, known, given, unused⟩, stepped⟩ := stepped
    have idle : s.blocks ptr = none := Option.isNone_iff_eq_none.mp unused
    cases stepped
    refine begin_inv inv (.inl idle) ?_ ?_ _
    · rw [idle]
      simp [Reported]
    · exact .alloc code known rfl rfl rfl given (Function.update_self _ _ _)
  | free thread timeSec timeUsec ptr =>
    simp only [step, Option.ite_none_right_eq_some] at stepped
    obtain ⟨⟨_, _, live⟩, stepped⟩ := stepped
    by_cases given : ptr = 0
    · rw [Wrapper.free, if_neg (not_not_intro given)] at stepped
      cases stepped
    · rw [Wrapper.free, if_pos given] at stepped
      cases stepped
      refine begin_inv inv (.inr live) ?_ ?_ _
      · rw [live]
        simp [Reported]
      · exact .free rfl rfl rfl given (Function.update_self _ _ _)
  | append thread =>
    simp only [step] at stepped
    split at stepped
    · next message task =>
      cases stepped
      exact append_inv inv task
    · cases stepped

theorem run_inv {main : UInt64} {counters : Counters} {events : List Event} {s : System}
    (ran : run step (System.initial main counters) events = some s) : Inv s :=
  run_keeps (fun _ _ _ inv stepped => step_inv inv stepped) (initial_inv main counters) ran

end Aleakd.ThreadSystem
