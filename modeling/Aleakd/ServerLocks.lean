import Aleakd.LockOrder
import Mathlib.Data.Fintype.EquivFin

/-!
The locks of `QApplicationWindowController`. The thread that receives calls the handler,
the thread of the window runs the slots and paints the views; both work on the members of
one controller. Here each function is the locks that it takes and the members that it
touches in between.
-/
namespace Aleakd.ServerLocks
open Aleakd.LockOrder Aleakd.Runs

inductive Lock where
  | listMemoryOperation
  | globalStats
  | symbolInfos
deriving DecidableEq

instance : Fintype Lock := ⟨{.listMemoryOperation, .globalStats, .symbolInfos}, by intro lock; cases lock <;> decide⟩

/-- The order in which they are taken where one is taken under another. -/
def Lock.rank : Lock → Nat
  | .listMemoryOperation => 0
  | .globalStats => 1
  | .symbolInfos => 2

instance : LinearOrder Lock := LinearOrder.lift' Lock.rank (by decide)

inductive Party where
  | receiver
  | window
deriving DecidableEq

instance : Fintype Party := ⟨{.receiver, .window}, by intro party; cases party <;> decide⟩

/-- The members that are not set once and for all. -/
inductive Field where
  | listMemoryOperation
  | listMemoryOperationNonFreed
  | listMemoryOperationWithoutBacktrace
  /-- `m_bFreed` and `m_pBackTrace` of the operations -/
  | memoryOperation
  | listThreadInfos
  | listThreadInfosAlive
  /-- the fields of the entries -/
  | threadInfos
  | listSymbolInfos
  | globalStats
  | searchStats
  | listFilterMemoryOperation
  | listFilterThreadInfos
  /-- `m_iLastUpdateTime` and `m_iLastUpdateValue` -/
  | lastUpdate
  /-- `m_iLoadedCount` of the model of the operations -/
  | loadedCount
  | threadIdComboBox
  | lineSeries
deriving DecidableEq

abbrev Program := List (Action Lock Field)

/-! ## The functions -/

/-- A critical section for writing. -/
def forWrite (lock : Lock) (touched : List (Field × Bool)) : Program :=
  [.acquire lock .exclusive, .access touched, .release lock]

/-- A critical section for reading. -/
def forRead (lock : Lock) (touched : List (Field × Bool)) : Program :=
  [.acquire lock .shared, .access touched, .release lock]

/-- What `getThreadInfos` and its callers change. -/
def threadFields : List (Field × Bool) :=
  [(.listThreadInfosAlive, true), (.listThreadInfos, true), (.threadInfos, true)]

def addMemoryOperation : Program :=
  [.acquire .listMemoryOperation .exclusive,
    .access [(.listMemoryOperationNonFreed, true), (.memoryOperation, true), (.listMemoryOperation, true),
      (.listMemoryOperationWithoutBacktrace, true)]] ++
  forWrite .globalStats ((.globalStats, true) :: threadFields) ++
  [.release .listMemoryOperation]

def updateThreadInfos : Program := forWrite .globalStats ((.globalStats, true) :: threadFields)

/-- The last lines of `addBacktrace`, `addSymbolInfos` and `onNewConnection`. -/
def countMessage : Program := forWrite .globalStats [(.globalStats, true)]

def addBacktrace : Program :=
  forWrite .listMemoryOperation [(.listMemoryOperationWithoutBacktrace, true), (.memoryOperation, true)] ++ countMessage

def addSymbolInfos : Program := forWrite .symbolInfos [(.listSymbolInfos, true)] ++ countMessage

def clearData : Program :=
  forWrite .listMemoryOperation [(.listMemoryOperation, true), (.listMemoryOperationNonFreed, true),
    (.listMemoryOperationWithoutBacktrace, true)] ++
  forWrite .symbolInfos [(.listSymbolInfos, true)] ++
  [.access [(.searchStats, true)]] ++
  forWrite .globalStats [(.globalStats, true), (.listThreadInfos, true)] ++
  -- nothing is locked for the rest
  [.access [(.listFilterMemoryOperation, true), (.loadedCount, true), (.listFilterThreadInfos, true),
    (.threadIdComboBox, true), (.lineSeries, true), (.lastUpdate, true)]]

def onNewConnection : Program := clearData ++ countMessage

def onFilterButtonClicked : Program :=
  [.access [(.threadIdComboBox, false), (.searchStats, true), (.listFilterMemoryOperation, true)]] ++
  forRead .listMemoryOperation [(.listMemoryOperation, false), (.memoryOperation, false), (.searchStats, true),
    (.listFilterMemoryOperation, true)] ++
  [.access [(.loadedCount, true), (.listFilterMemoryOperation, false)]]

def onTimerUpdate : Program :=
  [.acquire .globalStats .shared,
    .access [(.searchStats, false), (.globalStats, false), (.listThreadInfos, false)]] ++
  forRead .symbolInfos [(.listSymbolInfos, false)] ++
  [.access [(.listFilterThreadInfos, true), (.threadIdComboBox, true), (.listThreadInfos, false), (.threadInfos, false),
      (.globalStats, false), (.lastUpdate, true)],
    .release .globalStats,
    .access [(.lineSeries, true)]]

/-- Where the operation has a backtrace, its symbols are looked up. -/
def onMemoryOperationDoubleClicked (backtrace : Bool) : Program :=
  [.access [(.listFilterMemoryOperation, false), (.memoryOperation, false)]] ++
  if backtrace then forRead .symbolInfos [(.listSymbolInfos, false)] else []

def onThreadInfosDoubleClicked : Program :=
  [.access [(.listThreadInfos, false), (.threadInfos, false), (.threadIdComboBox, true)]]

/-- The calls of the handler. -/
inductive HandlerCall where
  | memoryOperation
  | threadOperation
  | backtrace
  | symbolInfos
  | newConnection
deriving DecidableEq

def HandlerCall.program : HandlerCall → Program
  | .memoryOperation => addMemoryOperation
  | .threadOperation => updateThreadInfos
  | .backtrace => addBacktrace
  | .symbolInfos => addSymbolInfos
  | .newConnection => onNewConnection

/-- The slots, and what the views call of their models. -/
inductive WindowCall where
  | filterButtonClicked
  | timerUpdate
  | memoryOperationDoubleClicked (backtrace : Bool)
  | threadInfosDoubleClicked
  | memoryOperationRowCount
  | memoryOperationData
  | threadInfosData
deriving DecidableEq

def WindowCall.program : WindowCall → Program
  | .filterButtonClicked => onFilterButtonClicked
  | .timerUpdate => onTimerUpdate
  | .memoryOperationDoubleClicked backtrace => onMemoryOperationDoubleClicked backtrace
  | .threadInfosDoubleClicked => onThreadInfosDoubleClicked
  | .memoryOperationRowCount => [.access [(.loadedCount, false)]]
  | .memoryOperationData => [.access [(.loadedCount, false), (.listFilterMemoryOperation, false), (.memoryOperation, false)]]
  | .threadInfosData => [.access [(.listFilterThreadInfos, false), (.threadInfos, false)]]

/-- What the two threads do, for the calls that each of them makes. -/
def programOf (handlerCalls : List HandlerCall) (windowCalls : List WindowCall) : Party → Program
  | .receiver => handlerCalls.flatMap HandlerCall.program
  | .window => windowCalls.flatMap WindowCall.program

theorem handlerCall_ordered (call : HandlerCall) : Ordered [] call.program := by
  cases call <;> decide

theorem windowCall_ordered (call : WindowCall) : Ordered [] call.program := by
  cases call with
  | memoryOperationDoubleClicked backtrace => cases backtrace <;> decide
  | _ => decide

theorem programOf_ordered (handlerCalls : List HandlerCall) (windowCalls : List WindowCall) (party : Party) :
    Ordered [] (programOf handlerCalls windowCalls party) := by
  cases party with
  | receiver => exact ordered_flatMap handlerCall_ordered handlerCalls
  | window => exact ordered_flatMap windowCall_ordered windowCalls

/-! ## No deadlock -/

/-- Whatever the two threads are called for, and however their steps interleave, one of
    them can go on until both are through; and a thread that has locks only takes one that
    comes behind them in the one order of all. -/
theorem window_never_stuck (handlerCalls : List HandlerCall) (windowCalls : List WindowCall) (schedule : List Party)
    (s : State Party Lock Field)
    (ran : run step (State.start (programOf handlerCalls windowCalls)) schedule = some s) :
    ((∀ party, s.program party = []) ∨ ∃ party, (step s party).isSome) ∧
      ∀ party lock mode rest, s.program party = .acquire lock mode :: rest → ∀ held ∈ s.holds party, held.1 < lock := by
  have orderly := run_orderly (programOf_ordered handlerCalls windowCalls) ran
  constructor
  · by_cases done : ∀ party, s.program party = []
    · exact .inl done
    · exact .inr (progress orderly (by simpa using done))
  · intro party lock mode rest takes
    have ordered := orderly.ordered party
    rw [takes] at ordered
    exact ordered.1

/-- The window has the statistics while the other thread waits for them. -/
theorem window_never_stuck_waiting : ∃ s, run step (State.start (programOf [.memoryOperation] [.timerUpdate]))
    [.receiver, .window, .receiver] = some s ∧
    ((∀ party, s.program party = []) ∨ ∃ party, (step s party).isSome) ∧
      ∀ party lock mode rest, s.program party = .acquire lock mode :: rest → ∀ held ∈ s.holds party, held.1 < lock :=
  ⟨_, rfl, window_never_stuck [.memoryOperation] [.timerUpdate] [.receiver, .window, .receiver] _ rfl⟩

/-! ## Races -/

/-- No run of the two threads comes to a race at the field; with no new connection, that
    is, unless `reconnects` says so. -/
def RaceFree (reconnects : Bool) (field : Field) : Prop :=
  ∀ (handlerCalls : List HandlerCall) (windowCalls : List WindowCall) (schedule : List Party)
    (s : State Party Lock Field), (reconnects = false → .newConnection ∉ handlerCalls) →
    run step (State.start (programOf handlerCalls windowCalls)) schedule = some s → ¬ Race s field

/-- What guards a field, if anything does. The thread that receives is in the window's own
    fields for a new connection alone. -/
def guardOf (reconnects : Bool) : Field → Option (Guard Party Lock)
  | .listMemoryOperation => some (.lockedBy .listMemoryOperation)
  | .listSymbolInfos => some (.lockedBy .symbolInfos)
  | .globalStats => some (.lockedBy .globalStats)
  | .listMemoryOperationNonFreed | .listMemoryOperationWithoutBacktrace | .listThreadInfosAlive =>
    some (.ownedBy .receiver)
  | .searchStats | .listFilterMemoryOperation | .listFilterThreadInfos | .lastUpdate | .loadedCount
  | .threadIdComboBox | .lineSeries => if reconnects then none else some (.ownedBy .window)
  | .memoryOperation | .listThreadInfos | .threadInfos => none

theorem handlerCall_guarded {reconnects : Bool} {field : Field} {guard : Guard Party Lock}
    (has : guardOf reconnects field = some guard) (call : HandlerCall)
    (allowed : reconnects = false → call ≠ .newConnection) : Guarded .receiver field guard [] call.program := by
  cases reconnects with
  | true => cases field <;> cases has <;> cases call <;> decide
  | false =>
    cases call with
    | newConnection => exact absurd rfl (allowed rfl)
    | _ => cases field <;> cases has <;> decide

theorem windowCall_guarded {reconnects : Bool} {field : Field} {guard : Guard Party Lock}
    (has : guardOf reconnects field = some guard) (call : WindowCall) : Guarded .window field guard [] call.program := by
  cases reconnects <;> cases field <;> cases has <;> cases call <;> (try cases ‹Bool›) <;> decide

/-- A field with a guard is never raced for. -/
theorem raceFree_of_guard {reconnects : Bool} {field : Field} {guard : Guard Party Lock}
    (has : guardOf reconnects field = some guard) : RaceFree reconnects field := by
  intro handlerCalls windowCalls schedule s allowed ran
  refine no_race (programOf_ordered handlerCalls windowCalls) (?_ : ∀ party, Guarded party field guard [] _) ran
  intro party
  cases party with
  | receiver =>
    refine guarded_flatMap handlerCall_ordered fun call member => handlerCall_guarded has call ?_
    rintro once rfl
    exact allowed once member
  | window => exact guarded_flatMap windowCall_ordered fun call _ => windowCall_guarded has call

/-- One call of each thread, and how far they have come when both are at the field. -/
theorem not_raceFree {reconnects : Bool} {field : Field} (handlerCall : HandlerCall) (windowCall : WindowCall)
    (schedule : List Party) (writes : Bool) {s : State Party Lock Field}
    (allowed : reconnects = false → handlerCall ≠ .newConnection)
    (ran : run step (State.start (programOf [handlerCall] [windowCall])) schedule = some s)
    (first : s.Touches .receiver field true) (second : s.Touches .window field writes) :
    ¬ RaceFree reconnects field := by
  intro free
  refine free [handlerCall] [windowCall] schedule s ?_ ran ⟨.receiver, .window, by decide, first, writes, second⟩
  intro once member
  exact allowed once (List.mem_singleton.mp member).symm

/-- A field without a guard is raced for: the flags and backtraces, the list of threads and
    its entries by calls of one session, the rest when a connection comes in. -/
theorem races {reconnects : Bool} {field : Field} (none : guardOf reconnects field = none) :
    ¬ RaceFree reconnects field := by
  -- what `clearData` has no lock for, after six or ten steps
  have clears (windowCall : WindowCall) (steps : Nat) (later : List Party) (writes : Bool)
      {s : State Party Lock Field} (inSession : (guardOf false field).isSome)
      (ran : run step (State.start (programOf [.newConnection] [windowCall]))
        (List.replicate steps .receiver ++ later) = some s)
      (first : s.Touches .receiver field true) (second : s.Touches .window field writes) :
      ¬ RaceFree reconnects field := by
    cases reconnects with
    | true => exact not_raceFree .newConnection windowCall _ writes Bool.noConfusion ran first second
    | false => simp [none] at inSession
  cases field with
  | memoryOperation =>
    exact not_raceFree .memoryOperation .memoryOperationData [.receiver] false (fun _ => by decide) rfl
      ⟨_, _, rfl, by decide⟩ ⟨_, _, rfl, by decide⟩
  | listThreadInfos =>
    exact not_raceFree .threadOperation .threadInfosDoubleClicked [.receiver] false (fun _ => by decide) rfl
      ⟨_, _, rfl, by decide⟩ ⟨_, _, rfl, by decide⟩
  | threadInfos =>
    exact not_raceFree .threadOperation .threadInfosData [.receiver] false (fun _ => by decide) rfl
      ⟨_, _, rfl, by decide⟩ ⟨_, _, rfl, by decide⟩
  | searchStats =>
    exact clears .filterButtonClicked 6 [] true rfl rfl
      ⟨_, _, rfl, by decide⟩ ⟨_, _, rfl, by decide⟩
  | listFilterMemoryOperation =>
    exact clears .filterButtonClicked 10 [] true rfl rfl
      ⟨_, _, rfl, by decide⟩ ⟨_, _, rfl, by decide⟩
  | listFilterThreadInfos =>
    exact clears .threadInfosData 10 [] false rfl rfl
      ⟨_, _, rfl, by decide⟩ ⟨_, _, rfl, by decide⟩
  | lastUpdate =>
    exact clears .timerUpdate 10 (List.replicate 5 .window) true rfl rfl
      ⟨_, _, rfl, by decide⟩ ⟨_, _, rfl, by decide⟩
  | loadedCount =>
    exact clears .memoryOperationRowCount 10 [] false rfl rfl
      ⟨_, _, rfl, by decide⟩ ⟨_, _, rfl, by decide⟩
  | threadIdComboBox =>
    exact clears .filterButtonClicked 10 [] false rfl rfl
      ⟨_, _, rfl, by decide⟩ ⟨_, _, rfl, by decide⟩
  | lineSeries =>
    exact clears .timerUpdate 10 (List.replicate 7 .window) true rfl rfl
      ⟨_, _, rfl, by decide⟩ ⟨_, _, rfl, by decide⟩
  | listMemoryOperation | listSymbolInfos | globalStats | listMemoryOperationNonFreed
  | listMemoryOperationWithoutBacktrace | listThreadInfosAlive => cases none

/-- Over any runs, these six members alone are safe from the other thread. Within a session
    only three are not: the flags and backtraces of the operations, the list of threads,
    and what its entries say. -/
theorem members_raceFree_iff (field : Field) :
    (RaceFree true field ↔ field ∈ [.listMemoryOperation, .listMemoryOperationNonFreed,
      .listMemoryOperationWithoutBacktrace, .listThreadInfosAlive, .listSymbolInfos, .globalStats]) ∧
    (RaceFree false field ↔ field ∉ [.memoryOperation, .listThreadInfos, .threadInfos]) := by
  have whenever : ∀ reconnects, RaceFree reconnects field ↔ (guardOf reconnects field).isSome := by
    intro reconnects
    cases has : guardOf reconnects field with
    | none => simpa using races has
    | some guard => simpa using raceFree_of_guard has
  rw [whenever, whenever]
  cases field <;> decide

end Aleakd.ServerLocks
