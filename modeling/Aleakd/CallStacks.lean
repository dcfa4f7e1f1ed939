import Aleakd.NameFields
import Aleakd.Symbols

/-!
The whole of a wrapped call with its backtrace: a thread numbers and appends the memory
message, numbers and appends the backtrace, then checks the addresses of it one by one and
sends the symbols that are not cached. Seen from the backtraces alone, and from the symbols
alone, this is what the two smaller systems do; together they tell what the server knows
once the threads are done.
-/
namespace Aleakd.CallStacks
open Aleakd.Messages Aleakd.Operations Aleakd.ApplicationWindow Aleakd.Framing Aleakd.SessionTotals Aleakd.Wrapper
open Aleakd.Runs Aleakd.Parties Aleakd.Backtraces Aleakd.Symbols Aleakd.ByteMemory

/-- What `backtrace_get_infos` gives for an address that `dladdr` finds in an object; a name
    is empty where it is `NULL`. -/
structure DlInfo where
  fname : CString
  fbase : UInt64
  sname : CString
  saddr : UInt64

/-- The data of the symbol message that `backtrace_send` makes of it, with what the copies of
    the names leave in their fields. -/
def DlInfo.data (info : DlInfo) (addr : UInt64) (header : ServerMsgHeaderV1) : ServerMsgSymbolInfosDataV1 :=
  let filled :=
    NameFields.backtraceSend addr (some info.fname) info.fbase (some info.sname) info.saddr (fun _ => 0) header
  { addr
    objectName := ⟨load filled.memory 39 256, load_length _ _ _⟩
    objectAddr := info.fbase
    symbolName := ⟨load filled.memory 303 96, load_length _ _ _⟩
    symbolAddr := info.saddr }

/-- The names are shorter than their fields. -/
structure DlInfo.Short (info : DlInfo) : Prop where
  fname : info.fname.val.length < 256
  sname : info.sname.val.length < 96

/-- What the server reads in it. -/
def DlInfo.symbolInfos (info : DlInfo) (addr : UInt64) : SymbolInfos :=
  ⟨addr, info.fname.val, info.fbase, info.sname.val, info.saddr⟩

/-- What a thread is in the middle of. -/
inductive Task where
  /-- a memory message with its number, still to be appended -/
  | memory (header : ServerMsgHeaderV1) (data : ServerMsgMemoryDataV1)
  /-- the message is appended, and its backtrace is to be sent for the number -/
  | owes (operation : Nat) (originMsgNum : UInt32)
  /-- the backtrace message, still to be appended -/
  | backtrace (operation : Nat) (listAddr : Addresses) (header : ServerMsgHeaderV1) (data : ServerMsgBacktraceDataV1)
  /-- the addresses that are still to be checked -/
  | checks (listAddr : List UInt64)
  /-- the address was not cached, and its symbol is to be sent -/
  | resolve (addr : UInt64) (listAddr : List UInt64)
  /-- the symbol message, still to be appended -/
  | symbolInfos (header : ServerMsgHeaderV1) (data : ServerMsgSymbolInfosDataV1) (listAddr : List UInt64)

structure System where
  counters : Counters
  cache : List CachedAddr
  tasks : UInt64 → Option Task
  /-- the messages, as they were appended -/
  stream : List Message
  /-- for each operation, the thread that appended its message, and the backtrace that
      this thread has sent for it -/
  own : List (UInt64 × Option Backtrace)

def System.initial (cacheCount : Nat) (counters : Counters) : System where
  counters
  cache := backtraceInit cacheCount
  tasks _ := none
  stream := []
  own := []

inductive Event where
  | number (thread timeSec timeUsec : UInt64) (code : MsgCode) (data : ServerMsgMemoryDataV1)
  /-- `backtrace` is called, and the message is made -/
  | backtraceSend (thread timeSec timeUsec : UInt64) (listAddr : Addresses)
  | check (thread : UInt64)
  | symbolInfos (thread timeSec timeUsec : UInt64)
  | append (thread : UInt64)
  | finish (thread : UInt64)

/-- The event takes a number. -/
def Event.takesNumber : Event → Bool
  | .number .. | .backtraceSend .. | .symbolInfos .. => true
  | .check _ | .append _ | .finish _ => false

section
variable (dladdr : UInt64 → DlInfo)

def step (s : System) : Event → Option System
  | .number thread timeSec timeUsec code data =>
    match s.tasks thread with
    | none =>
      let (counters, header, _) := servercommMsgMemoryInitV1 s.counters ⟨timeSec, timeUsec, thread⟩
      let header := { header with msgCode := code.byte }
      some { s with counters, tasks := Function.update s.tasks thread (some (.memory header data)) }
    | _ => none
  | .backtraceSend thread timeSec timeUsec listAddr =>
    match s.tasks thread with
    | some (.owes operation originMsgNum) =>
      if 0 ∈ listAddr.val then none
      else
        let (counters, header, data) := backtraceMessage listAddr originMsgNum s.counters ⟨timeSec, timeUsec, thread⟩
        some { s with
          counters
          tasks := Function.update s.tasks thread (some (.backtrace operation listAddr header data)) }
    | _ => none
  | .check thread =>
    match s.tasks thread with
    | some (.checks (addr :: listAddr)) =>
      match backtraceCheckAddr s.cache addr with
      | (cache, true) => some { s with cache, tasks := Function.update s.tasks thread (some (.checks listAddr)) }
      | (cache, false) => some { s with cache, tasks := Function.update s.tasks thread (some (.resolve addr listAddr)) }
    | _ => none
  | .symbolInfos thread timeSec timeUsec =>
    match s.tasks thread with
    | some (.resolve addr listAddr) =>
      let (counters, header, _) := servercommMsgSymbolinfosInitV1 s.counters ⟨timeSec, timeUsec, thread⟩
      some { s with
        counters
        tasks := Function.update s.tasks thread (some (.symbolInfos header ((dladdr addr).data addr header) listAddr)) }
    | _ => none
  | .append thread =>
    match s.tasks thread with
    | some (.memory header data) =>
      some { s with
        tasks := Function.update s.tasks thread (some (.owes s.own.length header.msgNum))
        stream := s.stream ++ [.memory header data]
        own := s.own ++ [(thread, none)] }
    | some (.backtrace operation listAddr header data) =>
      some { s with
        tasks := Function.update s.tasks thread (some (.checks listAddr.val))
        stream := s.stream ++ [.backtrace header data]
        own := s.own.set operation (thread, some ⟨data.originMsgNum.toInt32, listAddr.val⟩) }
    | some (.symbolInfos header data listAddr) =>
      some { s with
        tasks := Function.update s.tasks thread (some (.checks listAddr))
        stream := s.stream ++ [.symbolInfos header data] }
    | _ => none
  | .finish thread =>
    match s.tasks thread with
    | some (.checks []) => some { s with tasks := Function.update s.tasks thread none }
    | _ => none

/-- What a step does, and what the thread was in the middle of. -/
inductive Stepped (s : System) : Event → System → Prop where
  | number {thread timeSec timeUsec : UInt64} {code : MsgCode} {data : ServerMsgMemoryDataV1}
      {counters : Counters} {header : ServerMsgHeaderV1} {empty : ServerMsgMemoryDataV1}
      (idle : s.tasks thread = none)
      (made : servercommMsgMemoryInitV1 s.counters ⟨timeSec, timeUsec, thread⟩ = (counters, header, empty)) :
      Stepped s (.number thread timeSec timeUsec code data) { s with
        counters
        tasks := Function.update s.tasks thread (some (.memory { header with msgCode := code.byte } data)) }
  | backtraceSend {thread timeSec timeUsec : UInt64} {listAddr : Addresses} {operation : Nat} {originMsgNum : UInt32}
      {counters : Counters} {header : ServerMsgHeaderV1} {data : ServerMsgBacktraceDataV1}
      (owes : s.tasks thread = some (.owes operation originMsgNum)) (nonNull : 0 ∉ listAddr.val)
      (made : backtraceMessage listAddr originMsgNum s.counters ⟨timeSec, timeUsec, thread⟩ =
        (counters, header, data)) :
      Stepped s (.backtraceSend thread timeSec timeUsec listAddr) { s with
        counters
        tasks := Function.update s.tasks thread (some (.backtrace operation listAddr header data)) }
  | cached {thread addr : UInt64} {listAddr : List UInt64} {cache : List CachedAddr}
      (busy : s.tasks thread = some (.checks (addr :: listAddr)))
      (checked : backtraceCheckAddr s.cache addr = (cache, true)) :
      Stepped s (.check thread) { s with cache, tasks := Function.update s.tasks thread (some (.checks listAddr)) }
  | new {thread addr : UInt64} {listAddr : List UInt64} {cache : List CachedAddr}
      (busy : s.tasks thread = some (.checks (addr :: listAddr)))
      (checked : backtraceCheckAddr s.cache addr = (cache, false)) :
      Stepped s (.check thread)
        { s with cache, tasks := Function.update s.tasks thread (some (.resolve addr listAddr)) }
  | symbolInfos {thread timeSec timeUsec addr : UInt64} {listAddr : List UInt64}
      {counters : Counters} {header : ServerMsgHeaderV1} {empty : ServerMsgSymbolInfosDataV1}
      (busy : s.tasks thread = some (.resolve addr listAddr))
      (made : servercommMsgSymbolinfosInitV1 s.counters ⟨timeSec, timeUsec, thread⟩ = (counters, header, empty)) :
      Stepped s (.symbolInfos thread timeSec timeUsec) { s with
        counters
        tasks := Function.update s.tasks thread (some (.symbolInfos header ((dladdr addr).data addr header) listAddr)) }
  | appendMemory {thread : UInt64} {header : ServerMsgHeaderV1} {data : ServerMsgMemoryDataV1}
      (busy : s.tasks thread = some (.memory header data)) :
      Stepped s (.append thread) { s with
        tasks := Function.update s.tasks thread (some (.owes s.own.length header.msgNum))
        stream := s.stream ++ [.memory header data]
        own := s.own ++ [(thread, none)] }
  | appendBacktrace {thread : UInt64} {operation : Nat} {listAddr : Addresses} {header : ServerMsgHeaderV1}
      {data : ServerMsgBacktraceDataV1} (busy : s.tasks thread = some (.backtrace operation listAddr header data)) :
      Stepped s (.append thread) { s with
        tasks := Function.update s.tasks thread (some (.checks listAddr.val))
        stream := s.stream ++ [.backtrace header data]
        own := s.own.set operation (thread, some ⟨data.originMsgNum.toInt32, listAddr.val⟩) }
  | appendSymbolInfos {thread : UInt64} {header : ServerMsgHeaderV1} {data : ServerMsgSymbolInfosDataV1}
      {listAddr : List UInt64} (busy : s.tasks thread = some (.symbolInfos header data listAddr)) :
      Stepped s (.append thread) { s with
        tasks := Function.update s.tasks thread (some (.checks listAddr))
        stream := s.stream ++ [.symbolInfos header data] }
  | finish {thread : UInt64} (busy : s.tasks thread = some (.checks [])) :
      Stepped s (.finish thread) { s with tasks := Function.update s.tasks thread none }

variable {dladdr}

/-- The step function does one of these. -/
theorem step_stepped {s next : System} {e : Event} (stepped : step dladdr s e = some next) :
    Stepped dladdr s e next := by
  cases e with
  | number thread timeSec timeUsec code data =>
    simp only [step] at stepped
    split at stepped
    · next idle =>
      cases stepped
      exact .number idle rfl
    · cases stepped
  | backtraceSend thread timeSec timeUsec listAddr =>
    simp only [step] at stepped
    split at stepped
    · next operation originMsgNum owes =>
      split at stepped
      · cases stepped
      · next nonNull =>
        cases stepped
        exact .backtraceSend owes nonNull rfl
    · cases stepped
  | check thread =>
    simp only [step] at stepped
    split at stepped
    · next addr listAddr busy =>
      split at stepped
      · next cache checked =>
        cases stepped
        exact .cached busy checked
      · next cache checked =>
        cases stepped
        exact .new busy checked
    · cases stepped
  | symbolInfos thread timeSec timeUsec =>
    simp only [step] at stepped
    split at stepped
    · next addr listAddr busy =>
      cases stepped
      exact .symbolInfos busy rfl
    · cases stepped
  | append thread =>
    simp only [step] at stepped
    split at stepped
    · next header data busy =>
      cases stepped
      exact .appendMemory busy
    · next operation listAddr header data busy =>
      cases stepped
      exact .appendBacktrace busy
    · next header data listAddr busy =>
      cases stepped
      exact .appendSymbolInfos busy
    · cases stepped
  | finish thread =>
    simp only [step] at stepped
    split at stepped
    · next busy =>
      cases stepped
      exact .finish busy
    · cases stepped

/-- Every call has returned. -/
def Complete (s : System) : Prop := ∀ thread, s.tasks thread = none

/-! ## The two smaller systems -/

def Task.traced : Task → Option Backtraces.Task
  | .memory header data => some (.memory header data)
  | .owes operation originMsgNum => some (.owes operation originMsgNum)
  | .backtrace operation listAddr header data => some (.backtrace operation listAddr header data)
  | .checks _ | .resolve .. => none
  | .symbolInfos header data _ => some (.symbolInfos header data)

/-- The system, as far as the backtraces go. -/
def System.traced (s : System) : Backtraces.System := ⟨s.counters, held Task.traced s.tasks, s.stream, s.own⟩

def Task.resolved : Task → Option Symbols.Task
  | .memory .. | .owes .. => none
  | .backtrace _ listAddr header data => some (.backtrace listAddr header data)
  | .checks listAddr => some (.checks listAddr)
  | .resolve addr listAddr => some (.resolve addr listAddr)
  | .symbolInfos header data listAddr => some (.symbolInfos header data listAddr)

/-- The system, as far as the symbols go. -/
def System.resolved (s : System) : Symbols.System := ⟨s.counters, s.cache, held Task.resolved s.tasks, s.stream⟩

/-- A thread that goes on with what is nothing to the part, or the same to it. -/
theorem held_quiet {Part : Type} {part : Task → Option Part} {tasks : UInt64 → Option Task} {thread : UInt64}
    {task new : Option Task} (busy : tasks thread = task) (quiet : new.bind part = task.bind part) :
    held part (Function.update tasks thread new) = held part tasks :=
  held_same (by rw [held, busy, quiet])

/-- A step is one of the backtraces, which takes a number if it does, or changes nothing
    about them. -/
theorem step_traced {s next : System} {e : Event} (stepped : step dladdr s e = some next) :
    (∃ e', Backtraces.step s.traced e' = some next.traced ∧ e'.takesNumber = e.takesNumber) ∨
      next.traced = s.traced := by
  cases step_stepped stepped with
  | @number thread timeSec timeUsec code data counters header empty idle made =>
    refine .inl ⟨.number thread timeSec timeUsec code data, ?_, rfl⟩
    simp [Backtraces.step, System.traced, held_update, held, idle, Task.traced, made]
  | @backtraceSend thread timeSec timeUsec listAddr operation originMsgNum counters header data owes nonNull made =>
    refine .inl ⟨.numberBacktrace thread timeSec timeUsec listAddr, ?_, rfl⟩
    simp [Backtraces.step, System.traced, held_update, held, owes, Task.traced, made]
  | @symbolInfos thread timeSec timeUsec addr listAddr counters header empty busy made =>
    refine .inl ⟨.numberSymbolInfos thread timeSec timeUsec ((dladdr addr).data addr header), ?_, rfl⟩
    simp [Backtraces.step, System.traced, held_update, held, busy, Task.traced, made]
  | cached busy | new busy | finish busy =>
    exact .inr (congrArg (fun tasks => Backtraces.System.mk s.counters tasks s.stream s.own) (held_quiet busy rfl))
  | @appendMemory thread _ _ busy | @appendBacktrace thread _ _ _ _ busy | @appendSymbolInfos thread _ _ _ busy =>
    refine .inl ⟨.append thread, ?_, rfl⟩
    simp [Backtraces.step, System.traced, held_update, held, busy, Task.traced]

/-- A step is one of the symbols, or only counts. -/
theorem step_resolved {s next : System} {e : Event} (stepped : step dladdr s e = some next) :
    (∃ e', Symbols.step s.resolved e' = some next.resolved) ∨
      ∃ counters, next.resolved = { s.resolved with counters } := by
  cases step_stepped stepped with
  | @number thread timeSec timeUsec code data counters header empty idle made =>
    refine .inr ⟨counters, ?_⟩
    exact congrArg (fun tasks => Symbols.System.mk _ s.cache tasks s.stream) (held_quiet idle rfl)
  | @backtraceSend thread timeSec timeUsec listAddr operation originMsgNum counters header data owes nonNull made =>
    refine .inl ⟨.backtraceSend thread timeSec timeUsec listAddr originMsgNum, ?_⟩
    simp [Symbols.step, System.resolved, held_update, held, owes, Task.resolved, nonNull, made]
  | @cached thread _ _ _ busy checked | @new thread _ _ _ busy checked =>
    refine .inl ⟨.check thread, ?_⟩
    simp [Symbols.step, System.resolved, held_update, held, busy, Task.resolved, checked]
  | @symbolInfos thread timeSec timeUsec addr listAddr counters header empty busy made =>
    refine .inl ⟨.symbolInfos thread timeSec timeUsec ((dladdr addr).data addr header), ?_⟩
    simp [Symbols.step, System.resolved, held_update, held, busy, Task.resolved, DlInfo.data, made]
  | @appendMemory thread header data busy =>
    refine .inl ⟨.memory header data, ?_⟩
    have same : held Task.resolved (Function.update s.tasks thread (some (.owes s.own.length header.msgNum))) =
        held Task.resolved s.tasks := held_quiet busy rfl
    simp [Symbols.step, System.resolved, same]
  | @appendBacktrace thread _ _ _ _ busy | @appendSymbolInfos thread _ _ _ busy =>
    refine .inl ⟨.append thread, ?_⟩
    simp [Symbols.step, System.resolved, held_update, held, busy, Task.resolved]
  | @finish thread busy =>
    refine .inl ⟨.finish thread, ?_⟩
    simp [Symbols.step, System.resolved, held_update, held, busy, Task.resolved]

/-! ## What holds in every run -/

/-- A name that is shorter than its field is copied as it is. -/
theorem copied_short {name : CString} {size : Nat} (positive : 1 < size) (small : size ≤ 2 ^ 31)
    (short : name.val.length < size) : NameFields.copied (some name) = name.val := by
  have fits : NameFields.NameFits (size - 1) (some name) := by
    show name.val.length % 2 ^ 32 = min name.val.length (size - 1)
    omega
  rw [(NameFields.copied_iff (by omega) (by omega) (some name)).mpr fits]
  exact List.take_of_length_le (by omega : name.val.length ≤ size - 1)

/-- The server reads in a symbol message what it was made from, where the names are short. -/
theorem handlerCall_data (header header' : ServerMsgHeaderV1) {info : DlInfo} (short : info.Short) (addr : UInt64) :
    handlerCall (.symbolInfos header (info.data addr header')) = .symbolInfos (info.symbolInfos addr) := by
  have fname := copied_short (by decide) (by decide) short.fname
  have sname := copied_short (by decide) (by decide) short.sname
  obtain ⟨_, objectName, symbolName⟩ := NameFields.backtraceSend_loads addr info.fbase info.saddr (fun _ => 0) header'
    (fname.symm ▸ short.fname) (sname.symm ▸ short.sname)
  rw [fname] at objectName
  rw [sname] at symbolName
  simp only [handlerCall, DlInfo.data, DlInfo.symbolInfos, objectName, symbolName,
    takeWhile_padded info.fname.property, takeWhile_padded info.sname.property]

/-- A symbol message is made of what `dladdr` gives for its address. -/
def FromDladdr (dladdr : UInt64 → DlInfo) (header : ServerMsgHeaderV1) (data : ServerMsgSymbolInfosDataV1) : Prop :=
  data = (dladdr data.addr).data data.addr header

structure Inv (dladdr : UInt64 → DlInfo) (start : UInt32) (n : Nat) (s : System) : Prop where
  traced : Backtraces.Inv start n s.traced
  resolved : Symbols.Inv s.resolved
  sent : ∀ header data, Message.symbolInfos header data ∈ s.stream → FromDladdr dladdr header data
  sending : ∀ thread header data listAddr, s.tasks thread = some (.symbolInfos header data listAddr) →
    FromDladdr dladdr header data

theorem initial_inv (cacheCount : Nat) (counters : Counters) :
    Inv dladdr counters.msgNum 0 (System.initial cacheCount counters) where
  traced := Backtraces.initial_inv counters
  resolved := Symbols.initial_inv cacheCount counters
  sent := by simp [System.initial]
  sending := by simp [System.initial]

theorem sending_update {tasks : UInt64 → Option Task} {thread : UInt64} {new : Option Task}
    (sending : ∀ thread header data listAddr, tasks thread = some (.symbolInfos header data listAddr) →
      FromDladdr dladdr header data)
    (here : ∀ header data listAddr, new = some (.symbolInfos header data listAddr) → FromDladdr dladdr header data)
    (other : UInt64) (header : ServerMsgHeaderV1) (data : ServerMsgSymbolInfosDataV1) (listAddr : List UInt64)
    (busy : Function.update tasks thread new other = some (.symbolInfos header data listAddr)) :
    FromDladdr dladdr header data := by
  rcases update_some busy with ⟨_, new⟩ | ⟨_, busy⟩
  · exact here header data listAddr new
  · exact sending other header data listAddr busy

/-- What the symbol messages say, and are to say. -/
theorem step_sent {s next : System} {e : Event} {start : UInt32} {n : Nat} (inv : Inv dladdr start n s)
    (stepped : step dladdr s e = some next) :
    (∀ header data, Message.symbolInfos header data ∈ next.stream → FromDladdr dladdr header data) ∧
      ∀ thread header data listAddr, next.tasks thread = some (.symbolInfos header data listAddr) →
        FromDladdr dladdr header data := by
  cases step_stepped stepped with
  | number | backtraceSend | cached | new | finish =>
    exact ⟨inv.sent, sending_update inv.sending (by simp)⟩
  | symbolInfos =>
    refine ⟨inv.sent, sending_update inv.sending ?_⟩
    intro header data listAddr new
    cases new
    rfl
  | appendMemory busy | appendBacktrace busy =>
    exact ⟨by simpa using inv.sent, sending_update inv.sending (by simp)⟩
  | @appendSymbolInfos thread header data listAddr busy =>
    refine ⟨?_, sending_update inv.sending (by simp)⟩
    intro header' data' member
    rcases List.mem_append.mp member with old | new
    · exact inv.sent header' data' old
    · cases List.mem_singleton.mp new
      exact inv.sending thread header data listAddr busy

/-- The numbers of messages do not matter to the symbols. -/
theorem resolved_counters {s : Symbols.System} (inv : Symbols.Inv s) (counters : Counters) :
    Symbols.Inv { s with counters } := ⟨inv.cached, inv.sent, inv.nonNull, inv.truthful, inv.session⟩

theorem step_inv {s next : System} {e : Event} {start : UInt32} {n : Nat} (inv : Inv dladdr start n s)
    (few : n + 1 < 2 ^ 32) (stepped : step dladdr s e = some next) :
    ∃ m, m ≤ n + (if e.takesNumber then 1 else 0) ∧ Inv dladdr start m next := by
  obtain ⟨sent, sending⟩ := step_sent inv stepped
  have resolved : Symbols.Inv next.resolved := by
    rcases step_resolved stepped with ⟨e', stepped'⟩ | ⟨counters, same⟩
    · exact Symbols.step_inv inv.resolved stepped'
    · rw [same]
      exact resolved_counters inv.resolved counters
  rcases step_traced stepped with ⟨e', stepped', takes⟩ | same
  · exact ⟨_, by rw [takes], Backtraces.step_inv inv.traced few stepped', resolved, sent, sending⟩
  · exact ⟨n, Nat.le_add_right _ _, by rw [same]; exact inv.traced, resolved, sent, sending⟩

theorem run_inv {s final : System} {events : List Event} {start : UInt32} {n : Nat} (inv : Inv dladdr start n s)
    (few : n + events.countP Event.takesNumber < 2 ^ 31) (ran : run (step dladdr) s events = some final) :
    ∃ m, Inv dladdr start m final := by
  induction events generalizing n s with
  | nil =>
    cases ran
    exact ⟨n, inv⟩
  | cons event rest ih =>
    obtain ⟨next, stepped, later⟩ := run_cons_some.mp ran
    rw [List.countP_cons] at few
    obtain ⟨m, most, inv'⟩ := step_inv inv (by omega) stepped
    exact ih inv' (by omega) later

/-! ## When every call has returned -/

/-- Each operation that the server has is that of a thread, with the backtrace that this
    thread has sent for it. -/
theorem Inv.operation {s : System} {start : UInt32} {n : Nat} (inv : Inv dladdr start n s) (complete : Complete s)
    {i : Nat} {operation : MemoryOperation}
    (object : (afterStream s.stream).operations.listMemoryOperation[i]? = some operation) :
    ∃ backtrace, s.own[i]? = some (operation.callerThreadId, some backtrace) ∧
      operation.backTrace = some backtrace ∧ backtrace ∈ backtracesOf s.stream := by
  have own := congrArg (fun own => own[i]?) inv.traced.own
  have here : s.own[i]? = some (traceOf operation) := by
    refine own.symm.trans ?_
    simp only [List.getElem?_map]
    rw [show s.traced.objects[i]? = some operation from object]
    rfl
  cases trace : operation.backTrace with
  | none =>
    have missing : s.traced.own[i]? = some (operation.callerThreadId, none) := by
      rw [show s.traced.own[i]? = some (traceOf operation) from here, traceOf, trace]
    obtain ⟨number, owed⟩ := inv.traced.owed operation.callerThreadId i missing
    simp [System.traced, held, complete operation.callerThreadId] at owed
  | some backtrace =>
    refine ⟨backtrace, by rw [here, traceOf, trace], rfl, ?_⟩
    refine inv.traced.sent.mem_iff.mp (List.mem_filterMap.mpr ⟨traceOf operation, List.mem_of_getElem? here, ?_⟩)
    exact trace

/-- The server has for each address of a backtrace what `dladdr` gives for it. -/
theorem Inv.symbol {s : System} {start : UInt32} {n : Nat} (inv : Inv dladdr start n s) (complete : Complete s)
    (short : ∀ addr, (dladdr addr).Short) {backtrace : Backtrace} (sent : backtrace ∈ backtracesOf s.stream) {addr : UInt64}
    (member : addr ∈ backtrace.listAddr) :
    (afterStream s.stream).listSymbolInfos.lookup addr = some ((dladdr addr).symbolInfos addr) := by
  have known := inv.resolved.sent addr (List.mem_flatMap.mpr ⟨backtrace, sent, member⟩)
  have idle : ∀ thread, s.resolved.tasks thread = none := fun thread => by
    simp [System.resolved, held, complete thread]
  rcases known with (sent' | ⟨thread, pending⟩) | ⟨thread, still⟩
  · obtain ⟨symbolInfos, isSent, here⟩ := sent'
    have found : (firstSymbolInfos s.stream addr).isSome = true :=
      List.find?_isSome.mpr ⟨symbolInfos, isSent, decide_eq_true here⟩
    obtain ⟨first, isFirst⟩ := Option.isSome_iff_exists.mp found
    have session : ∀ message ∈ s.stream, handlerCall message ≠ .newConnection := inv.resolved.session
    rw [lookup_first session addr, isFirst]
    have about : first.addr = addr := by simpa using List.find?_some isFirst
    obtain ⟨message, inStream, call⟩ := List.mem_filterMap.mp (List.mem_of_find?_eq_some isFirst)
    cases message with
    | symbolInfos header data =>
      have from' := inv.sent header data inStream
      rw [FromDladdr] at from'
      rw [from', handlerCall_data _ _ (short _)] at call
      cases call
      rw [← about]
      rfl
    | _ => cases call
  · simp [held, idle] at pending
  · simp [idle, remaining] at still

end

end Aleakd.CallStacks
