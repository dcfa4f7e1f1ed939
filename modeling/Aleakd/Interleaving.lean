import Aleakd.ServerLocks
import Aleakd.Widgets

/-!
The thread that receives and the thread of the window, at once and step by step: what each
does between the locks that `ServerLocks` has it take, the loop of the search round by
round. Within a session, every interleaving of the two comes to what the calls come to
when each of them is one step, as `Widgets` has it.
-/
namespace Aleakd.Interleaving
open Aleakd.Messages Aleakd.Operations Aleakd.OperationList Aleakd.Stats Aleakd.Threads Aleakd.ApplicationWindow
open Aleakd.Search Aleakd.ListView Aleakd.Rows Aleakd.Widgets Aleakd.Runs Aleakd.LockOrder Aleakd.ServerLocks

/-! ## The thread that receives -/

def kind : Callback → HandlerCall
  | .newConnection => .newConnection
  | .memoryOperation _ => .memoryOperation
  | .threadOperation _ => .threadOperation
  | .backtrace _ => .backtrace
  | .symbolInfos _ => .symbolInfos

/-- A call of the handler within a session, and how far it has come in its program. -/
structure ReceiverAt where
  call : Callback
  inSession : call ≠ .newConnection
  position : Nat
  /-- `pMemoryOperationFreed` -/
  freed : Option MemoryOperation

/-- What the thread does at a place in a call, with `pMemoryOperationFreed`. -/
def handlerAccess (call : Callback) (position : Nat) (freed : Option MemoryOperation) (c : Controller) :
    Option MemoryOperation × Controller :=
  match call, position with
  | .memoryOperation operation, 1 =>
    let (operations, freed) := c.operations.addMemoryOperation operation
    (freed, { c with operations })
  | .memoryOperation operation, 3 =>
    (freed, { c with
      globalStats := c.globalStats.addMemoryOperation operation freed
      threads := c.threads.addMemoryOperation operation freed })
  | .threadOperation operation, 1 => (freed, c.updateThreadInfos operation)
  | .backtrace backtrace, 1 => (freed, { c with operations := c.operations.addBacktrace backtrace })
  | .symbolInfos symbolInfos, 1 =>
    (freed, { c with
      listSymbolInfos :=
        if symbolInfos.addr ∈ c.listSymbolInfos then c.listSymbolInfos
        else Finmap.insert symbolInfos.addr symbolInfos c.listSymbolInfos })
  | .backtrace _, 4 | .symbolInfos _, 4 => (freed, { c with globalStats := c.globalStats.countMessage })
  | _, _ => (freed, c)

def ReceiverAt.access (r : ReceiverAt) (c : Controller) : Option MemoryOperation × Controller :=
  handlerAccess r.call r.position r.freed c

/-- The receiving thread with its next access done. -/
def ReceiverAt.advance (r : ReceiverAt) (c : Controller) : ReceiverAt :=
  { r with position := r.position + 1, freed := (r.access c).1 }

/-! ## The thread of the window -/

inductive SlotCall where
  | filterButtonClicked
  | timerUpdate
deriving DecidableEq

def SlotCall.program : SlotCall → Program
  | .filterButtonClicked => WindowCall.filterButtonClicked.program
  | .timerUpdate => WindowCall.timerUpdate.program

/-- A slot, how far it has come in its program, and its variables. -/
structure SlotAt where
  call : SlotCall
  position : Nat
  /-- `iThreadId`, `tvMin`, `tvMax` and `bNotFreed` of the search -/
  criteria : Criteria
  /-- the iterator of the search -/
  round : Nat
  memoryUsageUpdate : MemoryUsage
  tvStart : Timeval
  peakMemoryUsage : UInt64

def SlotAt.start (call : SlotCall) : SlotAt := ⟨call, 0, Criteria.none, 0, MemoryUsage.empty, ⟨0, 0⟩, 0⟩

/-- A round of the loop over `m_listMemoryOperation`. -/
def searchRound (criteria : Criteria) (results : MemoryStats × List Nat) (entry : MemoryOperation × Nat) :
    MemoryStats × List Nat :=
  if criteria.accepts entry.1 then (addFound results.1 entry.1, results.2 ++ [entry.2]) else results

/-- What the last loop of a tick draws with, of what it no longer has the lock for. -/
def SlotAt.copied (t : SlotAt) (c : Controller) : Controller :=
  { c with globalStats := { c.globalStats with tvStartTime := t.tvStart, peakRemainingSize := t.peakMemoryUsage } }

/-- The text of a label of the status bar. -/
def captureLabel (c : Controller) (item : CaptureItem) : List Char :=
  captureText item (getBeautifulNumberString (number (captured c item)))

/-- What the slot does where it is; the loop of the search is there until it is through. -/
def SlotAt.access (fromUtf8 : List UInt8 → List Char) (t : SlotAt) (w : Window) : Option (SlotAt × Window) :=
  let next := { t with position := t.position + 1 }
  match t.call, t.position with
  | .filterButtonClicked, 0 =>
    some ({ next with criteria := w.listView.criteria, round := 0 },
      { w with controller := { w.controller with
          searchStats := w.controller.searchStats.reset
          listFilterMemoryOperation := [] } })
  | .filterButtonClicked, 2 =>
    match w.controller.operations.listMemoryOperation[t.round]? with
    | some operation =>
      let (searchStats, listFilterMemoryOperation) := searchRound t.criteria
        (w.controller.searchStats, w.controller.listFilterMemoryOperation) (operation, t.round)
      some ({ t with round := t.round + 1 },
        { w with controller := { w.controller with searchStats, listFilterMemoryOperation } })
    | none => some (next, w)
  | .filterButtonClicked, 4 =>
    some (next, { w with loadedCount := fetchTo 0 w.controller.listFilterMemoryOperation.length })
  | .timerUpdate, 1 =>
    some (next, { w with
      statusFilter := fun item => getBeautifulNumberString (number (displayed w.controller.searchStats item))
      statusGlobal := fun item => getBeautifulNumberString (number (displayed w.controller.globalStats item))
      capture := fun item =>
        match item with
        | .symbolInfosCount => w.capture item
        | item => captureLabel w.controller item })
  | .timerUpdate, 3 =>
    some (next, { w with
      capture := fun item =>
        match item with
        | .symbolInfosCount => captureLabel w.controller item
        | item => w.capture item })
  | .timerUpdate, 5 =>
    (Chart.collectUsage { w.controller with listFilterThreadInfos := w.controller.threads.listThreadInfos }).map
      fun (memoryUsageUpdate, controller) =>
        ({ next with
            memoryUsageUpdate
            tvStart := w.controller.globalStats.tvStartTime
            peakMemoryUsage := w.controller.globalStats.peakRemainingSize },
          { w with
            controller
            threadIdComboBox := refreshThreads fromUtf8 w.controller.threads w.threadIdComboBox })
  | .timerUpdate, 7 =>
    (Chart.drawUsage (t.copied w.controller) t.memoryUsageUpdate w.memoryUsageView).map fun memoryUsageView =>
      (next, { w with memoryUsageView })
  | _, _ => some (next, w)

/-! ## Both -/

/-- A thread that is in no call has none here. -/
structure System where
  window : Window
  receiver : Option ReceiverAt
  slot : Option SlotAt

/-- Both threads are in no call. -/
def System.idle (w : Window) : System := ⟨w, none, none⟩

/-- The locks that a thread has, so far in a program. -/
def held (program : Program) (position : Nat) : List (Lock × Mode) := (program.take position).foldl after []

/-- The program that a thread is in, and how far. -/
def System.within (s : System) : Party → Program × Nat
  | .receiver => (s.receiver.map fun r => ((kind r.call).program, r.position)).getD ([], 0)
  | .window => (s.slot.map fun t => (t.call.program, t.position)).getD ([], 0)

def System.locks (s : System) : LockOrder.State Party Lock Field where
  program party := (s.within party).1.drop (s.within party).2
  holds party := held (s.within party).1 (s.within party).2

inductive Event where
  /-- the receiving thread calls the handler -/
  | call (call : Callback)
  /-- it goes on -/
  | receiver
  /-- the user leaves the widgets like this -/
  | edit (e : Edit)
  /-- a slot is called -/
  | slot (call : SlotCall)
  /-- it goes on -/
  | window

/-- `none` where the thread is in a call already, or has to wait, and at the loops of a tick
    if they do not end. -/
def step (fromUtf8 : List UInt8 → List Char) (s : System) : Event → Option System
  | .call call =>
    match s.receiver with
    | none => if inSession : call ≠ .newConnection then some { s with receiver := some ⟨call, inSession, 0, none⟩ } else none
    | some _ => none
  | .receiver =>
    match s.receiver with
    | none => none
    | some r =>
      match (kind r.call).program[r.position]? with
      | none => some { s with receiver := none }
      | some action =>
        if Possible s.locks action then
          some { s with
            window := { s.window with controller := (r.access s.window.controller).2 }
            receiver := some (r.advance s.window.controller) }
        else none
  | .edit e =>
    match s.slot with
    | none => some { s with window := s.window.edit e }
    | some _ => none
  | .slot call =>
    match s.slot with
    | none => some { s with slot := some (SlotAt.start call) }
    | some _ => none
  | .window =>
    match s.slot with
    | none => none
    | some t =>
      match t.call.program[t.position]? with
      | none => some { s with slot := none }
      | some action =>
        if Possible s.locks action then
          (t.access fromUtf8 s.window).map fun (t, window) => { s with window, slot := some t }
        else none

/-! ## The locks -/

theorem slotProgram_ordered (call : SlotCall) : Ordered [] call.program := by
  cases call <;> decide

@[simp] theorem held_zero (program : Program) : held program 0 = [] := by simp [held]

theorem held_succ {program : Program} {position : Nat} {action : Action Lock Field}
    (here : program[position]? = some action) :
    held program (position + 1) = after (held program position) action := by
  simp [held, List.take_add_one, here]

theorem drop_of_getElem? {program : Program} {position : Nat} {action : Action Lock Field}
    (here : program[position]? = some action) :
    program.drop position = action :: program.drop (position + 1) := by
  obtain ⟨inside, rfl⟩ := List.getElem?_eq_some_iff.mp here
  exact List.drop_eq_getElem_cons inside

/-- A thread that goes on in its program goes on as `LockOrder` has it. -/
theorem step_locks {s next : System} {party : Party} {program : Program} {position : Nat} {action : Action Lock Field}
    (inside : s.within party = (program, position)) (here : program[position]? = some action)
    (possible : Possible s.locks action) (goesOn : next.within party = (program, position + 1))
    (waits : ∀ other, other ≠ party → next.within other = s.within other) :
    LockOrder.step s.locks party = some next.locks := by
  have now : s.locks.program party = action :: program.drop (position + 1) := by
    show (s.within party).1.drop (s.within party).2 = _
    rw [inside]
    exact drop_of_getElem? here
  have programs : Function.update s.locks.program party (program.drop (position + 1)) = next.locks.program := by
    funext other
    by_cases same : other = party
    · subst same
      simp [System.locks, goesOn]
    · simp [System.locks, same, waits other same]
  have holds : Function.update s.locks.holds party (after (s.locks.holds party) action) = next.locks.holds := by
    funext other
    by_cases same : other = party
    · subst same
      simp [System.locks, inside, goesOn, held_succ here]
    · simp [System.locks, same, waits other same]
  rw [LockOrder.step, now]
  simp only [if_pos possible, programs, holds]

theorem call_cases {fromUtf8 : List UInt8 → List Char} {s next : System} {call : Callback}
    (stepped : step fromUtf8 s (.call call) = some next) :
    ∃ inSession, s.receiver = none ∧ next = { s with receiver := some ⟨call, inSession, 0, none⟩ } := by
  simp only [step] at stepped
  split at stepped
  · next none =>
    split at stepped
    · next inSession => exact ⟨inSession, none, (Option.some.inj stepped).symm⟩
    · cases stepped
  · cases stepped

/-- What the receiving thread can do next. -/
theorem receiver_cases {fromUtf8 : List UInt8 → List Char} {s next : System}
    (stepped : step fromUtf8 s .receiver = some next) :
    ∃ r, s.receiver = some r ∧
      ((kind r.call).program[r.position]? = none ∧ next = { s with receiver := none } ∨
        ∃ action, (kind r.call).program[r.position]? = some action ∧ Possible s.locks action ∧
          next = { s with
            window := { s.window with controller := (r.access s.window.controller).2 }
            receiver := some (r.advance s.window.controller) }) := by
  simp only [step] at stepped
  split at stepped
  · cases stepped
  · next r inCall =>
    refine ⟨r, inCall, ?_⟩
    split at stepped
    · next through => exact .inl ⟨through, (Option.some.inj stepped).symm⟩
    · next action here =>
      split at stepped
      · next possible => exact .inr ⟨action, here, possible, (Option.some.inj stepped).symm⟩
      · cases stepped

/-- What the thread of the window can do next. -/
theorem window_cases {fromUtf8 : List UInt8 → List Char} {s next : System}
    (stepped : step fromUtf8 s .window = some next) :
    ∃ t, s.slot = some t ∧
      (t.call.program[t.position]? = none ∧ next = { s with slot := none } ∨
        ∃ action t' window, t.call.program[t.position]? = some action ∧ Possible s.locks action ∧
          t.access fromUtf8 s.window = some (t', window) ∧ next = { s with window, slot := some t' }) := by
  simp only [step] at stepped
  split at stepped
  · cases stepped
  · next t inSlot =>
    refine ⟨t, inSlot, ?_⟩
    split at stepped
    · next through => exact .inl ⟨through, (Option.some.inj stepped).symm⟩
    · next action here =>
      split at stepped
      · next possible =>
        obtain ⟨⟨t', window⟩, accessed, rfl⟩ := Option.map_eq_some_iff.mp stepped
        exact .inr ⟨action, t', window, here, possible, accessed, rfl⟩
      · cases stepped

/-- The slot goes on in its program, but for the loop of the search. -/
theorem access_position {fromUtf8 : List UInt8 → List Char} {t t' : SlotAt} {w w' : Window}
    (accessed : t.access fromUtf8 w = some (t', w')) :
    t'.call = t.call ∧ (t'.position = t.position + 1 ∨
      t'.position = t.position ∧ t.call = .filterButtonClicked ∧ t.position = 2) := by
  unfold SlotAt.access at accessed
  split at accessed
  case h_2 isSearch inLoop => split at accessed <;> cases accessed <;> simp [isSearch, inLoop]
  case h_6 | h_7 =>
    obtain ⟨_, _, same⟩ := Option.map_eq_some_iff.mp accessed
    cases same
    simp
  all_goals cases accessed; simp

theorem within_ordered (s : System) (party : Party) : Ordered (s.locks.holds party) (s.locks.program party) := by
  have each : Ordered [] (s.within party).1 := by
    cases party with
    | receiver =>
      cases inCall : s.receiver with
      | none => simp [System.within, inCall, Ordered]
      | some r => simpa [System.within, inCall] using handlerCall_ordered (kind r.call)
    | window =>
      cases inSlot : s.slot with
      | none => simp [System.within, inSlot, Ordered]
      | some t => simpa [System.within, inSlot] using slotProgram_ordered t.call
  exact ordered_drop each _

theorem held_over {program : Program} (ordered : Ordered [] program) {position : Nat}
    (through : program[position]? = none) : held program position = [] := by
  have rest := ordered_drop ordered position
  rwa [List.drop_eq_nil_of_le (List.getElem?_eq_none_iff.mp through)] at rest

/-- No lock that one thread has for writing is the other's too. -/
theorem step_orderly {fromUtf8 : List UInt8 → List Char} {s next : System} {e : Event} (orderly : Orderly s.locks)
    (stepped : step fromUtf8 s e = some next) : Orderly next.locks := by
  have still (same : ∀ party, next.locks.holds party = s.locks.holds party) : Orderly next.locks := by
    refine ⟨within_ordered next, ?_⟩
    intro party other lock differ
    rw [same, same]
    exact orderly.apart party other lock differ
  cases e with
  | call call =>
    obtain ⟨_, none, rfl⟩ := call_cases stepped
    exact still fun party => by cases party <;> simp [System.locks, System.within, none]
  | receiver =>
    obtain ⟨r, inCall, ⟨through, rfl⟩ | ⟨action, here, possible, rfl⟩⟩ := receiver_cases stepped
    · have none := held_over (handlerCall_ordered (kind r.call)) through
      exact still fun party => by cases party <;> simp [System.locks, System.within, inCall, none]
    · refine LockOrder.step_orderly orderly (show LockOrder.step s.locks .receiver = _ from
        step_locks ?_ here possible ?_ ?_)
      · simp [System.within, inCall]
      · simp [System.within, ReceiverAt.advance]
      · intro other differ
        cases other with
        | receiver => exact absurd rfl differ
        | window => rfl
  | edit e =>
    simp only [step] at stepped
    split at stepped
    · next none =>
      cases stepped
      exact still fun party => rfl
    · cases stepped
  | slot call =>
    simp only [step] at stepped
    split at stepped
    · next none =>
      cases stepped
      exact still fun party => by cases party <;> simp [System.locks, System.within, none, SlotAt.start]
    · cases stepped
  | window =>
    obtain ⟨t, inSlot, ⟨through, rfl⟩ | ⟨action, t', w', here, possible, accessed, rfl⟩⟩ := window_cases stepped
    · have none := held_over (slotProgram_ordered t.call) through
      exact still fun party => by cases party <;> simp [System.locks, System.within, inSlot, none]
    · obtain ⟨call, goesOn | ⟨stays, _⟩⟩ := access_position accessed
      · refine LockOrder.step_orderly orderly (show LockOrder.step s.locks .window = _ from
          step_locks ?_ here possible ?_ ?_)
        · simp [System.within, inSlot]
        · simp [System.within, call, goesOn]
        · intro other differ
          cases other with
          | receiver => rfl
          | window => exact absurd rfl differ
      · exact still fun party => by cases party <;> simp [System.locks, System.within, inSlot, call, stays]

/-! ## What the receiving thread has done -/

/-- Where a call has all its locks, and counts from there on. -/
def commitAt : Callback → Nat
  | .memoryOperation _ => 3
  | .backtrace _ | .symbolInfos _ => 4
  | .threadOperation _ | .newConnection => 1

/-- The first access of the call is done, the call does not count yet. -/
def Pends (call : Callback) (position : Nat) : Prop := 1 < position ∧ position ≤ commitAt call

instance (call : Callback) (position : Nat) : Decidable (Pends call position) :=
  inferInstanceAs (Decidable (_ ∧ _))

/-- What the thread has changed for a call that does not count yet. -/
def pending (receiver : Option ReceiverAt) (c : Controller) : Controller :=
  match receiver with
  | some r => if Pends r.call r.position then (handlerAccess r.call 1 r.freed c).2 else c
  | none => c

/-- Controllers with the same of what the locks are for. -/
structure Shared (a b : Controller) : Prop where
  operations : a.operations = b.operations
  threads : a.threads = b.threads
  listSymbolInfos : a.listSymbolInfos = b.listSymbolInfos
  globalStats : a.globalStats = b.globalStats

theorem Shared.refl (c : Controller) : Shared c c := ⟨rfl, rfl, rfl, rfl⟩

theorem Shared.trans {a b c : Controller} (first : Shared a b) (second : Shared b c) : Shared a c :=
  ⟨first.operations.trans second.operations, first.threads.trans second.threads,
    first.listSymbolInfos.trans second.listSymbolInfos, first.globalStats.trans second.globalStats⟩

/-- What the thread does depends on what the locks are for alone. -/
theorem access_shared (call : Callback) (position : Nat) (freed : Option MemoryOperation) {a b : Controller}
    (shared : Shared a b) : (handlerAccess call position freed a).1 = (handlerAccess call position freed b).1 ∧
      Shared (handlerAccess call position freed a).2 (handlerAccess call position freed b).2 := by
  obtain ⟨operations, threads, listSymbolInfos, globalStats⟩ := shared
  unfold handlerAccess
  split <;> refine ⟨?_, ?_, ?_, ?_, ?_⟩ <;>
    simp [operations, threads, listSymbolInfos, globalStats, Controller.updateThreadInfos]

/-- It does something twice: at its first access, and where the call comes to count. -/
theorem access_idle {call : Callback} {position : Nat} (first : position ≠ 1) (commits : position ≠ commitAt call)
    (freed : Option MemoryOperation) (c : Controller) : handlerAccess call position freed c = (freed, c) := by
  unfold handlerAccess
  split <;> simp_all [commitAt]

/-- The first access needs nothing of what came before. -/
theorem access_first (call : Callback) (freed freed' : Option MemoryOperation) (c : Controller) :
    (handlerAccess call 1 freed c).2 = (handlerAccess call 1 freed' c).2 := by
  cases call <;> rfl

/-- Done over again, it leaves the same behind for the rest of the call. -/
theorem access_again (call : Callback) (freed : Option MemoryOperation) (c : Controller) :
    (handlerAccess call 1 (handlerAccess call 1 freed c).1 c).1 = (handlerAccess call 1 freed c).1 := by
  cases call <;> rfl

/-- What is in the controller, against the controller after the calls that count. -/
structure ReceiverFollows (receiver : Option ReceiverAt) (c counted : Controller) : Prop where
  shared : Shared c (pending receiver counted)
  freed : ∀ r, receiver = some r → Pends r.call r.position → r.freed = (handlerAccess r.call 1 r.freed counted).1

/-- Where the call comes to count, it has done what the handler does. -/
theorem access_commit {r : ReceiverAt} {c counted : Controller} (follows : ReceiverFollows (some r) c counted)
    (commits : r.position = commitAt r.call) : Shared (r.access c).2 (counted.handle r.call) := by
  refine (access_shared r.call r.position r.freed follows.shared).2.trans ?_
  have freed := follows.freed r rfl
  obtain ⟨call, inSession, position, before⟩ := r
  cases call with
  | newConnection => exact absurd rfl inSession
  | threadOperation operation =>
    cases commits
    exact Shared.refl _
  | memoryOperation operation =>
    cases commits
    have same : before = (counted.operations.addMemoryOperation operation).2 := freed ⟨by simp, Nat.le_refl _⟩
    subst same
    exact ⟨rfl, rfl, rfl, rfl⟩
  | backtrace backtrace =>
    cases commits
    exact ⟨rfl, rfl, rfl, rfl⟩
  | symbolInfos symbolInfos =>
    cases commits
    exact ⟨rfl, rfl, rfl, rfl⟩

/-- The thread goes on, and the call that it is in comes to count at one place. -/
theorem receiver_follows {r : ReceiverAt} {c counted : Controller} (follows : ReceiverFollows (some r) c counted) :
    ReceiverFollows (some (r.advance c)) (r.access c).2
      (if r.position = commitAt r.call then counted.handle r.call else counted) := by
  by_cases commits : r.position = commitAt r.call
  · have through : ¬ Pends (r.advance c).call (r.advance c).position := by
      intro pends
      have := pends.2
      simp only [ReceiverAt.advance, commits] at this
      omega
    rw [if_pos commits]
    refine ⟨?_, fun r' same pends => ?_⟩
    · rw [pending, if_neg through]
      exact access_commit follows commits
    · cases same
      exact absurd pends through
  · rw [if_neg commits]
    have shared := follows.shared
    by_cases first : r.position = 1
    · have none : pending (some r) counted = counted := if_neg fun pends => by
        have := pends.1
        omega
      rw [none] at shared
      obtain ⟨freed, done⟩ := access_shared r.call 1 r.freed shared
      have here : r.access c = handlerAccess r.call 1 r.freed c := by rw [ReceiverAt.access, first]
      refine ⟨?_, fun r' same pends => ?_⟩
      · rw [here, pending]
        split
        · refine done.trans ?_
          rw [access_first (r.advance c).call (r.advance c).freed r.freed]
          exact Shared.refl _
        · next through =>
          -- only a call that counts at once is not pending
          exfalso
          refine through ⟨by simp [ReceiverAt.advance, first], ?_⟩
          have := first ▸ commits
          simp only [ReceiverAt.advance, first]
          revert this
          cases r.call <;> simp [commitAt]
      · cases same
        show (r.access c).1 = (handlerAccess r.call 1 (r.access c).1 counted).1
        rw [here, freed, access_again]
    · have idle : r.access c = (r.freed, c) := access_idle first commits r.freed c
      have whether : Pends (r.advance c).call (r.advance c).position ↔ Pends r.call r.position := by
        show 1 < r.position + 1 ∧ r.position + 1 ≤ commitAt r.call ↔ 1 < r.position ∧ r.position ≤ commitAt r.call
        have : r.position = 0 → 1 ≤ commitAt r.call := fun _ => by cases r.call <;> simp [commitAt]
        omega
      have freed : (r.advance c).freed = r.freed := by rw [ReceiverAt.advance, idle]
      refine ⟨?_, fun r' same pends => ?_⟩
      · rw [idle, pending, if_congr whether rfl rfl, freed]
        exact shared
      · cases same
        rw [freed]
        exact follows.freed r rfl (whether.mp pends)

/-! ## What the window's thread has done -/

/-- A window without what the locks are for, and without the labels of the status bar. -/
def own (w : Window) : Window :=
  { w with
    controller := { w.controller with
      operations := OperationLists.empty
      threads := ThreadTable.empty
      listSymbolInfos := ∅
      globalStats := MemoryStats.zero }
    capture := fun _ => [] }

def symbolLabel (n : Nat) : List Char := captureText .symbolInfosCount (getBeautifulNumberString (number n))

/-- The symbols may be one ahead of the messages that count. -/
def Ahead (shown counted : List Char) : Prop :=
  shown = counted ∨ ∃ n, counted = symbolLabel n ∧ shown = symbolLabel (n + 1)

/-- The labels that are shown, against those of the calls that count. -/
structure Labels (shown counted : CaptureItem → List Char) : Prop where
  others : ∀ item, item ≠ .symbolInfosCount → shown item = counted item
  symbols : Ahead (shown .symbolInfosCount) (counted .symbolInfosCount)

/-- Nothing else differs in two windows, but what the locks are for. -/
structure Agree (shown counted : Window) : Prop where
  own : own shown = own counted
  labels : Labels shown.capture counted.capture

/-- The search has asked the widgets. -/
def began (w : Window) : Window :=
  { w with controller := { w.controller with
      searchStats := w.controller.searchStats.reset
      listFilterMemoryOperation := [] } }

/-- The last line of the search. -/
def found (w : Window) : Window :=
  { w with loadedCount := fetchTo 0 w.controller.listFilterMemoryOperation.length }

/-- The rounds of the search that are left. -/
def searched (t : SlotAt) (objects : List MemoryOperation) (w : Window) : Window :=
  let (searchStats, listFilterMemoryOperation) := (objects.zipIdx.drop t.round).foldl (searchRound t.criteria)
    (w.controller.searchStats, w.controller.listFilterMemoryOperation)
  found { w with controller := { w.controller with searchStats, listFilterMemoryOperation } }

/-- The statistics that a tick writes. -/
def displays (c : Controller) (w : Window) : Window :=
  { w with
    statusFilter := fun item => getBeautifulNumberString (number (displayed c.searchStats item))
    statusGlobal := fun item => getBeautifulNumberString (number (displayed c.globalStats item)) }

/-- The last access of a tick under the locks. -/
def collects (fromUtf8 : List UInt8 → List Char) (threads : ThreadTable) (time value : UInt64) (w : Window) : Window :=
  { w with
    controller := { w.controller with
      listFilterThreadInfos := threads.listThreadInfos
      lastUpdateTime := time
      lastUpdateValue := value }
    threadIdComboBox := refreshThreads fromUtf8 threads w.threadIdComboBox }

/-- The window of a slot that is under way, against the window after the slots that count:
    a search counts where it gets the lock, a tick at its last access under the locks. -/
def SlotFollows (slot : Option SlotAt) (shown counted : Window) : Prop :=
  match slot with
  | none => Agree shown counted
  | some t =>
    match t.call, t.position with
    | .filterButtonClicked, 1 =>
      own shown = began (own counted) ∧ Labels shown.capture counted.capture ∧
        t.criteria = counted.listView.criteria ∧ t.round = 0
    | .filterButtonClicked, 2 =>
      searched t shown.controller.operations.listMemoryOperation (own shown) = own counted ∧
        Labels shown.capture counted.capture
    | .filterButtonClicked, 3 | .filterButtonClicked, 4 =>
      found (own shown) = own counted ∧ Labels shown.capture counted.capture
    | .timerUpdate, 2 | .timerUpdate, 3 =>
      own shown = displays counted.controller (own counted) ∧
        (∀ item, item ≠ .symbolInfosCount → shown.capture item = captureLabel counted.controller item) ∧
        Ahead (shown.capture .symbolInfosCount) (counted.capture .symbolInfosCount)
    | .timerUpdate, 4 | .timerUpdate, 5 =>
      own shown = displays counted.controller (own counted) ∧ Labels shown.capture (captureLabel counted.controller)
    | .timerUpdate, 6 | .timerUpdate, 7 =>
      ∃ view, Chart.drawUsage (t.copied shown.controller) t.memoryUsageUpdate shown.memoryUsageView = some view ∧
        { own shown with memoryUsageView := view } = own counted ∧ Labels shown.capture counted.capture
    | _, _ => Agree shown counted

/-! ## Steps of the receiving thread -/

theorem access_own (r : ReceiverAt) (w : Window) :
    own { w with controller := (r.access w.controller).2 } = own w := by
  obtain ⟨call, inSession, position, freed⟩ := r
  simp only [ReceiverAt.access, handlerAccess]
  split <;> rfl

theorem handle_own (w : Window) {call : Callback} (inSession : call ≠ .newConnection) : own (w.handle call) = own w := by
  cases call with
  | newConnection => exact absurd rfl inSession
  | _ => rfl

theorem handle_capture (w : Window) {call : Callback} : (w.handle call).capture = w.capture := by
  cases call <;> rfl

theorem handle_controller (w : Window) {call : Callback} (inSession : call ≠ .newConnection) :
    (w.handle call).controller = w.controller.handle call := by
  cases call with
  | newConnection => exact absurd rfl inSession
  | _ => rfl

/-- What is drawn takes two values of the controller alone. -/
theorem drawUsage_congr {a b : Controller} (start : a.globalStats.tvStartTime = b.globalStats.tvStartTime)
    (peak : a.globalStats.peakRemainingSize = b.globalStats.peakRemainingSize) (u : MemoryUsage)
    (view : Chart.MemoryUsageView) : Chart.drawUsage a u view = Chart.drawUsage b u view := by
  have same : Chart.draw a u = Chart.draw b u := by
    funext i view
    rw [Chart.draw, Chart.draw, start, peak]
  rw [Chart.drawUsage, Chart.drawUsage, same]

/-- A slot follows on if nothing changes that it has yet to look at. -/
theorem slot_stays {slot : Option SlotAt} {shown shown' counted counted' : Window}
    (follows : SlotFollows slot shown counted) (here : own shown' = own shown) (label : shown'.capture = shown.capture)
    (there : own counted' = own counted) (label' : counted'.capture = counted.capture)
    (search : ∀ t, slot = some t → t.call = .filterButtonClicked → t.position = 2 →
      shown'.controller.operations = shown.controller.operations)
    (tick : ∀ t, slot = some t → t.call = .timerUpdate → 2 ≤ t.position → t.position ≤ 5 → counted' = counted) :
    SlotFollows slot shown' counted' := by
  have agree : Agree shown counted → Agree shown' counted' := by
    rintro ⟨own, labels⟩
    exact ⟨by rw [here, there, own], by rw [label, label']; exact labels⟩
  cases slot with
  | none => exact agree follows
  | some t =>
    obtain ⟨call, position, criteria, round, u, tvStart, peak⟩ := t
    cases call with
    | filterButtonClicked =>
      match position with
      | 0 | position + 5 => exact agree follows
      | 1 =>
        obtain ⟨begun, labels, asked, first⟩ := follows
        have asks : counted'.listView = counted.listView := by
          show (own counted').listView = (own counted).listView
          rw [there]
        exact ⟨by rw [here, there, begun], by rw [label, label']; exact labels, by rw [asks]; exact asked, first⟩
      | 2 =>
        obtain ⟨goesOn, labels⟩ := follows
        have objects := congrArg OperationLists.listMemoryOperation (search _ rfl rfl rfl)
        exact ⟨by rw [here, there, objects]; exact goesOn, by rw [label, label']; exact labels⟩
      | 3 | 4 =>
        obtain ⟨all, labels⟩ := follows
        exact ⟨by rw [here, there, all], by rw [label, label']; exact labels⟩
    | timerUpdate =>
      match position with
      | 0 | 1 | position + 8 => exact agree follows
      | 2 | 3 =>
        obtain ⟨texts, others, symbols⟩ := follows
        obtain rfl := tick _ rfl rfl (by simp) (by simp)
        exact ⟨by rw [here, texts], by rw [label]; exact others, by rw [label]; exact symbols⟩
      | 4 | 5 =>
        obtain ⟨texts, labels⟩ := follows
        obtain rfl := tick _ rfl rfl (by simp) (by simp)
        exact ⟨by rw [here, texts], by rw [label]; exact labels⟩
      | 6 | 7 =>
        obtain ⟨view, drawn, all, labels⟩ := follows
        have views : shown'.memoryUsageView = shown.memoryUsageView := by
          show (own shown').memoryUsageView = (own shown).memoryUsageView
          rw [here]
        refine ⟨view, ?_, by rw [here, there]; exact all, by rw [label, label']; exact labels⟩
        rw [views]
        exact (drawUsage_congr rfl rfl _ _).trans drawn

/-- A lock that the receiving thread has for writing the window's thread does not have. -/
theorem apart {s : System} (orderly : Orderly s.locks) {r : ReceiverAt} {t : SlotAt} (inCall : s.receiver = some r)
    (inSlot : s.slot = some t) {lock : Lock}
    (writes : (lock, Mode.exclusive) ∈ held (kind r.call).program r.position) :
    lock ∉ (held t.call.program t.position).map Prod.fst := by
  have apart := orderly.apart .receiver .window lock (by decide)
  simp only [System.locks, System.within, inCall, inSlot, Option.map_some, Option.getD_some] at apart
  exact apart writes

theorem stats_held {r : ReceiverAt} (commits : r.position = commitAt r.call) :
    (Lock.globalStats, Mode.exclusive) ∈ held (kind r.call).program r.position := by
  obtain ⟨call, inSession, position, freed⟩ := r
  cases call with
  | newConnection => exact absurd rfl inSession
  | _ => cases commits; exact of_decide_eq_true rfl

/-- It is in the list of operations only with the lock. -/
theorem list_held {r : ReceiverAt} {c : Controller} (changes : (r.access c).2.operations ≠ c.operations) :
    (Lock.listMemoryOperation, Mode.exclusive) ∈ held (kind r.call).program r.position := by
  obtain ⟨call, inSession, position, freed⟩ := r
  simp only [ReceiverAt.access, handlerAccess] at changes
  split at changes
  case h_1 | h_4 => exact of_decide_eq_true rfl
  all_goals exact absurd rfl changes

/-- What the two threads have done, against the window after the calls and slots that count. -/
structure Follows (s : System) (counted : Window) : Prop where
  receiver : ReceiverFollows s.receiver s.window.controller counted.controller
  slot : SlotFollows s.slot s.window counted

theorem receiver_step {s : System} {counted : Window} (orderly : Orderly s.locks) (follows : Follows s counted)
    {r : ReceiverAt} (inCall : s.receiver = some r) :
    Follows { s with
        window := { s.window with controller := (r.access s.window.controller).2 }
        receiver := some (r.advance s.window.controller) }
      (if r.position = commitAt r.call then counted.handle r.call else counted) := by
  obtain ⟨receiver, slot⟩ := follows
  rw [inCall] at receiver
  constructor
  · have advanced := receiver_follows receiver
    split at advanced
    · next commits =>
      rw [if_pos commits, handle_controller counted r.inSession]
      exact advanced
    · next commits =>
      rw [if_neg commits]
      exact advanced
  · refine slot_stays slot (access_own r s.window) rfl ?_ ?_ ?_ ?_
    · split
      · exact handle_own counted r.inSession
      · rfl
    · split
      · exact handle_capture counted
      · rfl
    · rintro ⟨call, position, criteria, round, u, tvStart, peak⟩ inSlot rfl rfl
      by_contra changes
      refine apart orderly inCall inSlot (list_held changes) ?_
      exact of_decide_eq_true rfl
    · rintro ⟨call, position, criteria, round, u, tvStart, peak⟩ inSlot rfl first last
      refine if_neg fun commits => ?_
      refine apart orderly inCall inSlot (stats_held commits) ?_
      simp only at first last
      obtain rfl | rfl | rfl | rfl : position = 2 ∨ position = 3 ∨ position = 4 ∨ position = 5 := by omega
      all_goals exact of_decide_eq_true rfl

/-! ## Steps of the search -/

theorem receiver_stays {receiver : Option ReceiverAt} {c c' counted counted' : Controller}
    (follows : ReceiverFollows receiver c counted) (here : Shared c' c) (there : Shared counted counted') :
    ReceiverFollows receiver c' counted' := by
  constructor
  · refine here.trans (follows.shared.trans ?_)
    cases receiver with
    | none => exact there
    | some r =>
      rw [pending, pending]
      split
      · exact (access_shared r.call 1 r.freed there).2
      · exact there
  · intro r same pends
    rw [← (access_shared r.call 1 r.freed there).1]
    exact follows.freed r same pends

/-- A backtrace changes nothing for the search. -/
theorem search_addBacktrace (criteria : Criteria) (l : OperationLists) (backtrace : Backtrace) (s : MemoryStats) :
    search criteria (l.addBacktrace backtrace).listMemoryOperation s = search criteria l.listMemoryOperation s := by
  let bare (operation : MemoryOperation) : MemoryOperation := { operation with backTrace := none }
  have added (stats : MemoryStats) (operation : MemoryOperation) :
      addFound stats (bare operation) = addFound stats operation := by
    have sizes : addSizes stats (bare operation) = addSizes stats operation := rfl
    have code (counts : MemoryStats) : counts.countCode (bare operation) = counts.countCode operation := rfl
    rw [addFound, addFound, sizes, code]
  have ofBare : ∀ objects, search criteria objects s = search criteria (objects.map bare) s := by
    intro objects
    rw [search, search, List.zipIdx_map, List.foldl_map]
    simp only [Prod.map_fst, Prod.map_snd, id_eq, added]
    rfl
  obtain ⟨_, same | ⟨i, changed⟩⟩ := addBacktrace_effect l backtrace
  · rw [same]
  · have sameBare : (l.addBacktrace backtrace).listMemoryOperation.map bare = l.listMemoryOperation.map bare := by
      rw [changed]
      refine List.ext_getElem? fun j => ?_
      rw [List.getElem?_map, List.getElem?_map, List.getElem?_modify]
      by_cases here : i = j <;> cases l.listMemoryOperation[j]? <;> simp [here, bare]
    rw [ofBare, sameBare, ← ofBare]

/-- Where a reader can have the list of operations, it is that of the calls that count, but
    for a backtrace. -/
theorem search_pending {s : System} {counted : Controller} (follows : ReceiverFollows s.receiver s.window.controller counted)
    (possible : Possible s.locks (.acquire .listMemoryOperation .shared)) (criteria : Criteria) (stats : MemoryStats) :
    search criteria s.window.controller.operations.listMemoryOperation stats =
      search criteria counted.operations.listMemoryOperation stats := by
  rw [follows.shared.operations]
  cases inCall : s.receiver with
  | none => rfl
  | some r =>
    rw [pending]
    split
    · next pends =>
      obtain ⟨call, inSession, position, freed⟩ := r
      cases call with
      | newConnection => exact absurd rfl inSession
      | threadOperation operation => rfl
      | symbolInfos symbolInfos => rfl
      | backtrace backtrace => exact search_addBacktrace criteria _ backtrace stats
      | memoryOperation operation =>
        have writes := (possible .receiver).1
        simp only [System.locks, System.within, inCall, Option.map_some, Option.getD_some] at writes
        refine absurd ?_ writes
        obtain ⟨first, last⟩ := pends
        simp only [commitAt] at first last
        obtain rfl | rfl : position = 2 ∨ position = 3 := by omega
        all_goals exact of_decide_eq_true rfl
    · rfl

theorem zipIdx_drop {objects : List MemoryOperation} {round : Nat} {operation : MemoryOperation}
    (inside : objects[round]? = some operation) :
    objects.zipIdx.drop round = (operation, round) :: objects.zipIdx.drop (round + 1) := by
  obtain ⟨within, rfl⟩ := List.getElem?_eq_some_iff.mp inside
  rw [List.drop_eq_getElem_cons (by rwa [List.length_zipIdx]), List.getElem_zipIdx, Nat.zero_add]

theorem search_step {fromUtf8 : List UInt8 → List Char} {s : System} {counted : Window} (follows : Follows s counted)
    {t t' : SlotAt} {window : Window} {action : Action Lock ServerLocks.Field} (inSlot : s.slot = some t)
    (isSearch : t.call = .filterButtonClicked) (here : t.call.program[t.position]? = some action)
    (possible : Possible s.locks action) (accessed : t.access fromUtf8 s.window = some (t', window)) :
    Follows { s with window, slot := some t' }
      (if t.position = 1 then counted.onFilterButtonClicked else counted) := by
  obtain ⟨receiver, slot⟩ := follows
  rw [inSlot] at slot
  obtain ⟨call, position, criteria, round, u, tvStart, peak⟩ := t
  cases isSearch
  match position with
  | 0 =>
    cases accessed
    refine ⟨receiver_stays receiver ⟨rfl, rfl, rfl, rfl⟩ (Shared.refl _), ?_⟩
    obtain ⟨same, labels⟩ := slot
    refine ⟨congrArg began same, labels, ?_, rfl⟩
    show (own s.window).listView.criteria = (own counted).listView.criteria
    rw [same]
  | 1 =>
    cases accessed
    cases here
    refine ⟨receiver_stays receiver (Shared.refl _) ⟨rfl, rfl, rfl, rfl⟩, ?_⟩
    obtain ⟨begun, labels, rfl, rfl⟩ := slot
    refine ⟨?_, labels⟩
    have results := search_pending receiver possible counted.listView.criteria counted.controller.searchStats.reset
    rw [begun]
    show found { began (own counted) with controller := { (began (own counted)).controller with
        searchStats := (search counted.listView.criteria s.window.controller.operations.listMemoryOperation
          counted.controller.searchStats.reset).1
        listFilterMemoryOperation := (search counted.listView.criteria
          s.window.controller.operations.listMemoryOperation counted.controller.searchStats.reset).2 } } = _
    rw [results]
    rfl
  | 2 =>
    obtain ⟨goesOn, labels⟩ := slot
    simp only [SlotAt.access] at accessed
    split at accessed
    · next operation inside =>
      cases accessed
      refine ⟨receiver_stays receiver ⟨rfl, rfl, rfl, rfl⟩ (Shared.refl _), ?_, labels⟩
      have left := zipIdx_drop inside
      simp only [searched, left, List.foldl_cons] at goesOn
      exact goesOn
    · next through =>
      cases accessed
      refine ⟨receiver, ?_, labels⟩
      have left : s.window.controller.operations.listMemoryOperation.zipIdx.drop round = [] := by
        rw [List.drop_eq_nil_iff, List.length_zipIdx]
        exact List.getElem?_eq_none_iff.mp through
      simp only [searched, left, List.foldl_nil] at goesOn
      exact goesOn
  | 3 =>
    cases accessed
    exact ⟨receiver, slot⟩
  | 4 =>
    cases accessed
    refine ⟨receiver_stays receiver ⟨rfl, rfl, rfl, rfl⟩ (Shared.refl _), ?_⟩
    obtain ⟨all, labels⟩ := slot
    exact ⟨all, labels⟩
  | position + 5 => cases here

/-! ## Steps of a tick -/

/-- What is collected depends on the statistics and on what was drawn last alone. -/
theorem collectUsage_congr {a b a' : Controller} {u : MemoryUsage} (stats : a.globalStats = b.globalStats)
    (time : a.lastUpdateTime = b.lastUpdateTime) (value : a.lastUpdateValue = b.lastUpdateValue)
    (collected : Chart.collectUsage a = some (u, a')) :
    ∃ time value, a' = { a with lastUpdateTime := time, lastUpdateValue := value } ∧
      Chart.collectUsage b = some (u, { b with lastUpdateTime := time, lastUpdateValue := value }) := by
  have same : Chart.collect a = Chart.collect b := by
    funext i results
    rw [Chart.collect, Chart.collect, stats, time, value]
  rw [Chart.collectUsage, same, stats, time] at collected
  rw [Chart.collectUsage]
  generalize (if b.lastUpdateTime = 0 then _ else _) = startTime at collected ⊢
  by_cases started : startTime ≠ 0
  · simp only [if_pos started] at collected ⊢
    obtain ⟨⟨u', lastSize⟩, looped, ended⟩ := Option.map_eq_some_iff.mp collected
    obtain ⟨rfl, rfl⟩ := Prod.mk.injEq .. ▸ ended
    rw [looped]
    by_cases drawn : u'.count > 0
    · exact ⟨u'.lastTime, lastSize, by simp [drawn, stats], by simp [drawn]⟩
    · exact ⟨a.lastUpdateTime, a.lastUpdateValue, if_neg drawn, by simp [drawn, time, value]⟩
  · simp only [if_neg started] at collected ⊢
    cases collected
    exact ⟨a.lastUpdateTime, a.lastUpdateValue, rfl, by rw [time, value]⟩

theorem update_bounded {u : MemoryUsage} {i size : UInt64} {n : Nat} (inside : i.toNat < n)
    (bounded : u.lastTime.toNat < n) : (u.update i size).lastTime.toNat < n := by
  rw [MemoryUsage.update]
  split
  · exact inside
  · split
    · exact inside
    · exact bounded

/-- A copy of the samples that comes to an end ends below the largest second. -/
theorem collectUsage_bounded {a a' : Controller} {u : MemoryUsage} (collected : Chart.collectUsage a = some (u, a')) :
    u.lastTime.toNat < 2 ^ 64 - 1 := by
  simp only [Chart.collectUsage] at collected
  generalize (if a.lastUpdateTime = 0 then _ else _) = startTime at collected
  split at collected
  · obtain ⟨⟨u', lastSize⟩, looped, same⟩ := Option.map_eq_some_iff.mp collected
    cases same
    have bounded : a.globalStats.memoryUsage.lastTime.toNat < 2 ^ 64 - 1 := by
      by_contra endless
      have all := a.globalStats.memoryUsage.lastTime.toNat_lt
      rw [Loops.forUpTo, Loops.rounds_endless (by omega)] at looped
      cases looped
    refine @Loops.rounds_keeps _ _ _ (fun results => results.1.lastTime.toNat < 2 ^ 64 - 1) ?_ _ _ _ _ (by decide) looped
    rintro i ⟨u, lastSize⟩ below inv
    have inside := lt_of_le_of_lt (UInt64.le_iff_toNat_le.mp below) bounded
    simp only [Chart.collect]
    split
    · split
      · split
        · exact update_bounded inside inv
        · exact inv
      · exact update_bounded inside inv
    · exact inv
  · cases collected
    decide

/-- The loop that draws ends where the one that collects does. -/
theorem drawUsage_ends {a a' c : Controller} {u : MemoryUsage} (collected : Chart.collectUsage a = some (u, a'))
    (view : Chart.MemoryUsageView) : ∃ view', Chart.drawUsage c u view = some view' := by
  rw [Chart.drawUsage]
  split
  · exact Loops.forUpTo_ends (collectUsage_bounded collected) _ _ _
  · exact ⟨view, rfl⟩

/-- Before a call counts, it has changed nothing of the statistics, -/
theorem pending_stats (receiver : Option ReceiverAt) (c : Controller) :
    (pending receiver c).globalStats = c.globalStats ∧ (pending receiver c).threads = c.threads := by
  cases receiver with
  | none => exact ⟨rfl, rfl⟩
  | some r =>
    rw [pending]
    split
    · next pends =>
      obtain ⟨call, inSession, position, freed⟩ := r
      cases call with
      | threadOperation operation =>
        obtain ⟨first, last⟩ := pends
        exact absurd first (Nat.not_lt.mpr last)
      | _ => exact ⟨rfl, rfl⟩
    · exact ⟨rfl, rfl⟩

/-- and of the symbols that it has put one there at most. -/
theorem pending_symbols (receiver : Option ReceiverAt) (c : Controller) :
    Ahead (captureLabel (pending receiver c) .symbolInfosCount) (captureLabel c .symbolInfosCount) := by
  cases receiver with
  | none => exact .inl rfl
  | some r =>
    rw [pending]
    split
    · obtain ⟨call, inSession, position, freed⟩ := r
      cases call with
      | threadOperation operation => exact .inl rfl
      | symbolInfos symbolInfos =>
        simp only [handlerAccess]
        split
        · exact .inl rfl
        · next new =>
          refine .inr ⟨c.listSymbolInfos.keys.card, rfl, ?_⟩
          have keys : (Finmap.insert symbolInfos.addr symbolInfos c.listSymbolInfos).keys =
              insert symbolInfos.addr c.listSymbolInfos.keys := by
            ext addr
            simp [Finmap.mem_keys]
          show symbolLabel _ = _
          rw [keys, Finset.card_insert_of_notMem (by rwa [Finmap.mem_keys])]
      | _ => exact .inl rfl
    · exact .inl rfl

/-- The labels but the count of symbols are about what is under the lock of the statistics. -/
theorem captureLabel_congr {a b : Controller} (stats : a.globalStats = b.globalStats) (threads : a.threads = b.threads)
    {item : CaptureItem} (other : item ≠ .symbolInfosCount) : captureLabel a item = captureLabel b item := by
  cases item with
  | symbolInfosCount => exact absurd rfl other
  | _ => simp [captureLabel, captured, stats, threads]

/-- Where the tick copies the samples, it counts. -/
theorem collect_step {fromUtf8 : List UInt8 → List Char} {s : System} {counted : Window}
    (receiver : ReceiverFollows s.receiver s.window.controller counted.controller)
    (stats : s.window.controller.globalStats = counted.controller.globalStats)
    (threads : s.window.controller.threads = counted.controller.threads)
    (texts : own s.window = displays counted.controller (own counted))
    (labels : Labels s.window.capture (captureLabel counted.controller)) {t t' : SlotAt} {window : Window}
    (isTick : t.call = .timerUpdate) (last : t.position = 5)
    (accessed : t.access fromUtf8 s.window = some (t', window)) :
    ∃ counted', counted.onTimerUpdate fromUtf8 = some counted' ∧
      Follows { s with window, slot := some t' } counted' := by
  obtain ⟨call, position, criteria, round, u, tvStart, peak⟩ := t
  cases isTick
  cases last
  simp only [SlotAt.access] at accessed
  obtain ⟨⟨u, controller⟩, collected, same⟩ := Option.map_eq_some_iff.mp accessed
  cases same
  have field {α : Type} (f : Window → α) (stays : ∀ w, f (own w) = f w) (kept : ∀ c w, f (displays c w) = f w) :
      f s.window = f counted := by
    rw [← stays, texts, kept, stays]
  obtain ⟨time, value, rfl, there⟩ := @collectUsage_congr
    { s.window.controller with listFilterThreadInfos := s.window.controller.threads.listThreadInfos }
    { counted.controller with listFilterThreadInfos := counted.controller.threads.listThreadInfos } _ _ stats
    (field (fun w => w.controller.lastUpdateTime) (fun _ => rfl) fun _ _ => rfl)
    (field (fun w => w.controller.lastUpdateValue) (fun _ => rfl) fun _ _ => rfl) collected
  obtain ⟨view, drawn⟩ := @drawUsage_ends _ _ { counted.controller with
    listFilterThreadInfos := counted.controller.threads.listThreadInfos
    lastUpdateTime := time
    lastUpdateValue := value } _ there counted.memoryUsageView
  refine ⟨{ displays counted.controller (collects fromUtf8 counted.controller.threads time value counted) with
    capture := captureLabel counted.controller
    memoryUsageView := view }, ?_, receiver_stays receiver ⟨rfl, rfl, rfl, rfl⟩ ⟨rfl, rfl, rfl, rfl⟩, view, ?_, ?_,
    labels⟩
  · have chart : Chart.onTimerUpdate counted.controller counted.memoryUsageView = some (_, view) :=
      Option.bind_eq_some_iff.mpr ⟨_, there, Option.map_eq_some_iff.mpr ⟨view, drawn, rfl⟩⟩
    exact Option.map_eq_some_iff.mpr ⟨_, chart, rfl⟩
  · have views := field Window.memoryUsageView (fun _ => rfl) fun _ _ => rfl
    rw [views]
    refine (drawUsage_congr ?_ ?_ _ _).trans drawn
    · exact congrArg MemoryStats.tvStartTime stats
    · exact congrArg MemoryStats.peakRemainingSize stats
  · show { collects fromUtf8 s.window.controller.threads time value (own s.window) with memoryUsageView := view } = _
    rw [texts, threads]
    rfl

theorem tick_step {fromUtf8 : List UInt8 → List Char} {s : System} {counted : Window} (follows : Follows s counted)
    {t t' : SlotAt} {window : Window} {action : Action Lock ServerLocks.Field} (inSlot : s.slot = some t)
    (isTick : t.call = .timerUpdate) (here : t.call.program[t.position]? = some action)
    (accessed : t.access fromUtf8 s.window = some (t', window)) :
    ∃ counted', (if t.position = 5 then counted.onTimerUpdate fromUtf8 = some counted' else counted' = counted) ∧
      Follows { s with window, slot := some t' } counted' := by
  obtain ⟨receiver, slot⟩ := follows
  rw [inSlot] at slot
  obtain ⟨statistics, threadTable⟩ := pending_stats s.receiver counted.controller
  have stats := receiver.shared.globalStats.trans statistics
  have threads := receiver.shared.threads.trans threadTable
  obtain ⟨call, position, criteria, round, u, tvStart, peak⟩ := t
  cases isTick
  match position with
  | 0 =>
    cases accessed
    exact ⟨counted, rfl, receiver, slot⟩
  | 1 =>
    cases accessed
    refine ⟨counted, rfl, receiver_stays receiver ⟨rfl, rfl, rfl, rfl⟩ (Shared.refl _), ?_⟩
    obtain ⟨same, labels⟩ := slot
    refine ⟨?_, ?_, labels.symbols⟩
    · have searchStats : s.window.controller.searchStats = counted.controller.searchStats := by
        show (own s.window).controller.searchStats = (own counted).controller.searchStats
        rw [same]
      show displays s.window.controller (own s.window) = displays counted.controller (own counted)
      rw [same, displays, displays, searchStats, stats]
    · intro item other
      rw [← captureLabel_congr stats threads other]
      cases item with
      | symbolInfosCount => exact absurd rfl other
      | _ => rfl
  | 2 =>
    cases accessed
    exact ⟨counted, rfl, receiver, slot⟩
  | 3 =>
    cases accessed
    refine ⟨counted, rfl, receiver_stays receiver ⟨rfl, rfl, rfl, rfl⟩ (Shared.refl _), ?_⟩
    obtain ⟨texts, others, _⟩ := slot
    refine ⟨texts, ?_, ?_⟩
    · intro item other
      rw [← others item other]
      cases item with
      | symbolInfosCount => exact absurd rfl other
      | _ => rfl
    · have symbols := pending_symbols s.receiver counted.controller
      rw [captureLabel, captured, ← receiver.shared.listSymbolInfos] at symbols
      exact symbols
  | 4 =>
    cases accessed
    exact ⟨counted, rfl, receiver, slot⟩
  | 5 =>
    obtain ⟨texts, labels⟩ := slot
    obtain ⟨counted', ticked, follows⟩ := collect_step receiver stats threads texts labels rfl rfl accessed
    exact ⟨counted', by rw [if_pos rfl]; exact ticked, follows⟩
  | 6 =>
    cases accessed
    exact ⟨counted, rfl, receiver, slot⟩
  | 7 =>
    obtain ⟨view, drawn, all, labels⟩ := slot
    simp only [SlotAt.access, drawn, Option.map_some, Option.some.injEq, Prod.mk.injEq] at accessed
    obtain ⟨rfl, rfl⟩ := accessed
    exact ⟨counted, rfl, receiver_stays receiver ⟨rfl, rfl, rfl, rfl⟩ (Shared.refl _), all, labels⟩
  | position + 8 => cases here

/-! ## Every run -/

def SlotCall.event : SlotCall → Widgets.Event
  | .filterButtonClicked => .filterButtonClicked
  | .timerUpdate => .timerUpdate

/-- What the receiving thread is called for, and what the window's thread is. -/
def handlerCalls (events : List Widgets.Event) : List Callback :=
  events.filterMap fun e =>
    match e with
    | .handler call => some call
    | _ => none

def windowCalls (events : List Widgets.Event) : List Widgets.Event :=
  events.filter fun e =>
    match e with
    | .handler _ => false
    | _ => true

def Event.handlerCalls : Event → List Callback
  | .call callback => [callback]
  | _ => []

def Event.windowCalls : Event → List Widgets.Event
  | .edit e => [.edit e]
  | .slot slotCall => [slotCall.event]
  | _ => []

/-- Where a slot counts. -/
def countsAt : SlotCall → Nat
  | .filterButtonClicked => 1
  | .timerUpdate => 5

/-- The call that does not count yet. -/
def uncounted : Option ReceiverAt → List Callback
  | some r => if r.position ≤ commitAt r.call then [r.call] else []
  | none => []

def uncountedSlot : Option SlotAt → List Widgets.Event
  | some t => if t.position ≤ countsAt t.call then [t.call.event] else []
  | none => []

/-- A call that is over counts. -/
theorem commitAt_lt {call : Callback} {position : Nat} (through : (kind call).program[position]? = none) :
    commitAt call < position := by
  have long : commitAt call < (kind call).program.length := by
    cases call <;> exact of_decide_eq_true rfl
  have behind := List.getElem?_eq_none_iff.mp through
  omega

theorem countsAt_lt {call : SlotCall} {position : Nat} (through : call.program[position]? = none) :
    countsAt call < position ∧ ∀ t : SlotAt, t.call = call → t.position = position →
      ∀ shown counted, SlotFollows (some t) shown counted → Agree shown counted := by
  have behind := List.getElem?_eq_none_iff.mp through
  cases call with
  | filterButtonClicked =>
    have long : SlotCall.filterButtonClicked.program.length = 5 := rfl
    rw [long] at behind
    obtain ⟨position, rfl⟩ := Nat.exists_eq_add_of_le' behind
    refine ⟨by simp [countsAt], ?_⟩
    rintro ⟨call, position, criteria, round, u, tvStart, peak⟩ rfl rfl shown counted follows
    exact follows
  | timerUpdate =>
    have long : SlotCall.timerUpdate.program.length = 8 := rfl
    rw [long] at behind
    obtain ⟨position, rfl⟩ := Nat.exists_eq_add_of_le' behind
    refine ⟨by simp [countsAt], ?_⟩
    rintro ⟨call, position, criteria, round, u, tvStart, peak⟩ rfl rfl shown counted follows
    exact follows

/-- A step comes to no step, or one, of the window whose calls and slots are one step each. -/
def Covered (fromUtf8 : List UInt8 → List Char) (s next : System) (e : Event) (counted : Window) : Prop :=
  ∃ events counted', run (Widgets.step fromUtf8) counted events = some counted' ∧ Follows next counted' ∧
    handlerCalls events ++ uncounted next.receiver = uncounted s.receiver ++ e.handlerCalls ∧
    windowCalls events ++ uncountedSlot next.slot = uncountedSlot s.slot ++ e.windowCalls

section
variable {fromUtf8 : List UInt8 → List Char} {s next : System} {counted : Window}

theorem call_covered {call : Callback} (follows : Follows s counted) (stepped : step fromUtf8 s (.call call) = some next) :
    Covered fromUtf8 s next (.call call) counted := by
  obtain ⟨inSession, none, rfl⟩ := call_cases stepped
  obtain ⟨receiver, slot⟩ := follows
  rw [none] at receiver
  have before : ¬ Pends call 0 := fun pends => absurd pends.1 (by simp)
  refine ⟨[], counted, rfl, ⟨⟨?_, ?_⟩, slot⟩, ?_, ?_⟩
  · rw [pending, if_neg before]
    exact receiver.shared
  · intro r same pends
    cases same
    exact absurd pends before
  · simp [handlerCalls, uncounted, none, Event.handlerCalls]
  · simp [windowCalls, Event.windowCalls]

theorem receiver_covered (orderly : Orderly s.locks) (follows : Follows s counted)
    (stepped : step fromUtf8 s .receiver = some next) : Covered fromUtf8 s next .receiver counted := by
  obtain ⟨r, inCall, ⟨through, rfl⟩ | ⟨action, here, possible, rfl⟩⟩ := receiver_cases stepped
  · have behind := Nat.not_le.mpr (commitAt_lt through)
    obtain ⟨receiver, slot⟩ := follows
    rw [inCall] at receiver
    have shared := receiver.shared
    rw [pending, if_neg fun pends => behind pends.2] at shared
    refine ⟨[], counted, rfl, ⟨⟨shared, fun r same => by cases same⟩, slot⟩, ?_, ?_⟩
    · simp [handlerCalls, uncounted, inCall, Event.handlerCalls, behind]
    · simp [windowCalls, Event.windowCalls]
  · have advanced := receiver_step orderly follows inCall
    by_cases commits : r.position = commitAt r.call
    · rw [if_pos commits] at advanced
      refine ⟨[.handler r.call], _, rfl, advanced, ?_, ?_⟩
      · simp [handlerCalls, uncounted, inCall, Event.handlerCalls, ReceiverAt.advance, commits]
      · simp [windowCalls, Event.windowCalls]
    · rw [if_neg commits] at advanced
      refine ⟨[], counted, rfl, advanced, ?_, ?_⟩
      · have whether : r.position + 1 ≤ commitAt r.call ↔ r.position ≤ commitAt r.call := by omega
        simp [handlerCalls, uncounted, inCall, Event.handlerCalls, ReceiverAt.advance, whether]
      · simp [windowCalls, Event.windowCalls]

theorem edit_covered {edit : Edit} (follows : Follows s counted) (stepped : step fromUtf8 s (.edit edit) = some next) :
    Covered fromUtf8 s next (.edit edit) counted := by
  simp only [step] at stepped
  split at stepped
  · next none =>
    cases stepped
    obtain ⟨receiver, slot⟩ := follows
    rw [none] at slot
    refine ⟨[.edit edit], _, rfl, ⟨receiver, ?_⟩, ?_, ?_⟩
    · rw [none]
      exact ⟨congrArg (fun w : Window => w.edit edit) slot.own, slot.labels⟩
    · simp [handlerCalls, Event.handlerCalls]
    · simp [windowCalls, uncountedSlot, none, Event.windowCalls]
  · cases stepped

theorem slot_covered {call : SlotCall} (follows : Follows s counted) (stepped : step fromUtf8 s (.slot call) = some next) :
    Covered fromUtf8 s next (.slot call) counted := by
  simp only [step] at stepped
  split at stepped
  · next none =>
    cases stepped
    obtain ⟨receiver, slot⟩ := follows
    rw [none] at slot
    refine ⟨[], counted, rfl, ⟨receiver, ?_⟩, ?_, ?_⟩
    · cases call <;> exact slot
    · simp [handlerCalls, Event.handlerCalls]
    · simp [windowCalls, uncountedSlot, none, Event.windowCalls, SlotAt.start]
  · cases stepped

/-- The slot comes to count. -/
theorem counting_covered {t t' : SlotAt} {w' counted' : Window} (inSlot : s.slot = some t) (call : t'.call = t.call)
    (now : t.position = countsAt t.call) (behind : countsAt t.call < t'.position)
    (moved : Widgets.step fromUtf8 counted t.call.event = some counted')
    (follows : Follows { s with window := w', slot := some t' } counted') :
    Covered fromUtf8 s { s with window := w', slot := some t' } .window counted := by
  refine ⟨[t.call.event], counted', run_cons_some.mpr ⟨_, moved, rfl⟩, follows, ?_, ?_⟩
  · cases t.call <;> simp [handlerCalls, SlotCall.event, Event.handlerCalls]
  · have one : windowCalls [t.call.event] = [t.call.event] := by
      cases t.call <;> rfl
    simp [uncountedSlot, inSlot, Event.windowCalls, call, Nat.not_le.mpr behind, Nat.le_of_eq now, one]

/-- The slot goes on, and counts as it did. -/
theorem waiting_covered {t t' : SlotAt} {w' : Window} (inSlot : s.slot = some t) (call : t'.call = t.call)
    (still : t'.position ≤ countsAt t.call ↔ t.position ≤ countsAt t.call)
    (follows : Follows { s with window := w', slot := some t' } counted) :
    Covered fromUtf8 s { s with window := w', slot := some t' } .window counted := by
  refine ⟨[], counted, rfl, follows, ?_, ?_⟩
  · simp [handlerCalls, Event.handlerCalls]
  · simp [windowCalls, uncountedSlot, inSlot, Event.windowCalls, still, call]

theorem window_covered (follows : Follows s counted) (stepped : step fromUtf8 s .window = some next) :
    Covered fromUtf8 s next .window counted := by
  obtain ⟨t, inSlot, ⟨through, rfl⟩ | ⟨action, t', w', here, possible, accessed, rfl⟩⟩ := window_cases stepped
  · obtain ⟨behind, agrees⟩ := countsAt_lt through
    obtain ⟨receiver, slot⟩ := follows
    rw [inSlot] at slot
    refine ⟨[], counted, rfl, ⟨receiver, agrees t rfl rfl _ _ slot⟩, ?_, ?_⟩
    · simp [handlerCalls, Event.handlerCalls]
    · simp [windowCalls, uncountedSlot, inSlot, Event.windowCalls, Nat.not_le.mpr behind]
  · obtain ⟨call, position⟩ := access_position accessed
    have still (waits : t.position ≠ countsAt t.call) :
        t'.position ≤ countsAt t.call ↔ t.position ≤ countsAt t.call := by
      rcases position with goesOn | ⟨stays, _⟩
      · omega
      · rw [stays]
    have behind (now : t.position = countsAt t.call) : countsAt t.call < t'.position := by
      rcases position with goesOn | ⟨stays, isSearch, inLoop⟩
      · omega
      · simp [isSearch, inLoop, countsAt] at now
    cases which : t.call with
    | filterButtonClicked =>
      have advanced := search_step follows inSlot which here possible accessed
      by_cases first : t.position = 1
      · have now : t.position = countsAt t.call := by rw [which, first]; rfl
        rw [if_pos first] at advanced
        exact counting_covered inSlot call now (behind now) (by rw [which]; rfl) advanced
      · have waits : t.position ≠ countsAt t.call := by rw [which]; exact first
        rw [if_neg first] at advanced
        exact waiting_covered inSlot call (still waits) advanced
    | timerUpdate =>
      obtain ⟨counted', moved, advanced⟩ := tick_step follows inSlot which here accessed
      by_cases last : t.position = 5
      · have now : t.position = countsAt t.call := by rw [which, last]; rfl
        rw [if_pos last] at moved
        exact counting_covered inSlot call now (behind now) (by rw [which]; exact moved) advanced
      · have waits : t.position ≠ countsAt t.call := by rw [which]; exact last
        rw [if_neg last] at moved
        exact waiting_covered inSlot call (still waits) (moved ▸ advanced)

theorem step_covered {e : Event} (orderly : Orderly s.locks) (follows : Follows s counted)
    (stepped : step fromUtf8 s e = some next) : Covered fromUtf8 s next e counted := by
  cases e with
  | call call => exact call_covered follows stepped
  | receiver => exact receiver_covered orderly follows stepped
  | edit edit => exact edit_covered follows stepped
  | slot call => exact slot_covered follows stepped
  | window => exact window_covered follows stepped

end

theorem idle_orderly (w : Window) : Orderly (System.idle w).locks := by
  refine ⟨within_ordered _, fun party other lock differ has => ?_⟩
  cases party <;> simp [System.locks, System.within, System.idle] at has

theorem idle_follows (w : Window) : Follows (System.idle w) w where
  receiver := ⟨Shared.refl _, fun r inCall => by cases inCall⟩
  slot := ⟨rfl, fun _ _ => rfl, .inl rfl⟩

/-- What has come in and been asked for, but for what does not count yet, is what a run of
    the window takes whose calls and slots are one step each. -/
theorem run_follows {fromUtf8 : List UInt8 → List Char} {w : Window} {events : List Event} {s : System}
    (ran : run (step fromUtf8) (System.idle w) events = some s) :
    Orderly s.locks ∧ ∃ atomic later, run (Widgets.step fromUtf8) w atomic = some later ∧ Follows s later ∧
      handlerCalls atomic ++ uncounted s.receiver = events.flatMap Event.handlerCalls ∧
      windowCalls atomic ++ uncountedSlot s.slot = events.flatMap Event.windowCalls := by
  induction events using List.reverseRecOn generalizing s with
  | nil =>
    cases ran
    refine ⟨idle_orderly w, [], w, rfl, idle_follows w, ?_, ?_⟩
    · simp [handlerCalls, uncounted, System.idle]
    · simp [windowCalls, uncountedSlot, System.idle]
  | append_singleton events e ih =>
    rw [run_concat, Option.bind_eq_some_iff] at ran
    obtain ⟨before, ran, stepped⟩ := ran
    obtain ⟨orderly, atomic, later, atomically, follows, calls, slots⟩ := ih ran
    obtain ⟨more, next, moved, follows', calls', slots'⟩ := step_covered orderly follows stepped
    refine ⟨step_orderly orderly stepped, atomic ++ more, next, ?_, follows', ?_, ?_⟩
    · rw [run_append, atomically, Option.bind_some, moved]
    · rw [List.flatMap_append, List.flatMap_singleton, ← calls, List.append_assoc, ← calls', handlerCalls, handlerCalls,
        handlerCalls, List.filterMap_append, List.append_assoc]
    · rw [List.flatMap_append, List.flatMap_singleton, ← slots, List.append_assoc, ← slots', windowCalls, windowCalls,
        windowCalls, List.filter_append, List.append_assoc]

theorem eq_of_own {v w : Window} (same : own v = own w) (shared : Shared v.controller w.controller) :
    v = { w with capture := v.capture } := by
  obtain ⟨⟨⟩⟩ := v
  obtain ⟨⟨⟩⟩ := w
  obtain ⟨rfl, rfl, rfl, rfl⟩ := shared
  simp_all [own]

/-- However the steps of the two threads interleave within a session, the calls of the
    handler and the slots come to what they come to one after the other, each thread's in
    its own order: every search finds what it would find then, every tick shows what it
    would show, but that it may count one symbol more, whose message does not count yet. -/
theorem calls_atomic {fromUtf8 : List UInt8 → List Char} {w : Window} {events : List Event} {s : System}
    (ran : run (step fromUtf8) (System.idle w) events = some s) (returned : s.receiver = none) (ended : s.slot = none) :
    ∃ atomic later, run (Widgets.step fromUtf8) w atomic = some later ∧
      handlerCalls atomic = events.flatMap Event.handlerCalls ∧ windowCalls atomic = events.flatMap Event.windowCalls ∧
      s.window = { later with capture := s.window.capture } ∧ Labels s.window.capture later.capture := by
  obtain ⟨_, atomic, later, atomically, ⟨receiver, slot⟩, calls, slots⟩ := run_follows ran
  rw [returned] at receiver calls
  rw [ended] at slot slots
  exact ⟨atomic, later, atomically, by simpa [uncounted] using calls, by simpa [uncountedSlot] using slots,
    eq_of_own slot.own receiver.shared, slot.labels⟩

/-- An allocation comes in while a search has the list. -/
def waiting : List Event :=
  let operation (msgNum : UInt32) (ptr : UInt64) : MemoryOperation := ⟨⟨5, 0⟩, msgNum, .malloc, 7, 16, ptr, 1, 0, false, none⟩
  .call (.memoryOperation (operation 1 4096)) :: List.replicate 7 .receiver ++
  [.slot .filterButtonClicked, .window, .window, .call (.memoryOperation (operation 2 8192)), .window, .window, .window] ++
  List.replicate 4 .receiver ++ [.window] ++ List.replicate 3 .receiver ++ [.window]

theorem calls_atomic_waiting : ∃ s, run (step fun _ => []) (System.idle Window.fresh) waiting = some s ∧
    ∃ atomic later, run (Widgets.step fun _ => []) Window.fresh atomic = some later ∧
      handlerCalls atomic = waiting.flatMap Event.handlerCalls ∧
      windowCalls atomic = waiting.flatMap Event.windowCalls ∧
      s.window = { later with capture := s.window.capture } ∧ Labels s.window.capture later.capture := by
  obtain ⟨s, ran, idle⟩ : ∃ s, run (step fun _ => []) (System.idle Window.fresh) waiting = some s ∧
      (s.receiver.isNone && s.slot.isNone) = true := (Option.any_eq_true _ _).mp (by decide +kernel)
  obtain ⟨returned, ended⟩ : s.receiver = none ∧ s.slot = none := by simpa using idle
  exact ⟨s, ran, calls_atomic ran returned ended⟩

end Aleakd.Interleaving
