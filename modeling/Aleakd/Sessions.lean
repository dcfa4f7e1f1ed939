import Aleakd.Framing
import Aleakd.HighWater
import Aleakd.ThreadTables

/-!
What an earlier session leaves behind: the messages of one session, handled by a
controller that has been through others and by one that has not. Two things
outlive `clearData`: the ids in `m_listThreadInfosAlive`, and the peak of
`m_globalStats`.
-/
namespace Aleakd.Sessions
open Aleakd.Messages Aleakd.Operations Aleakd.OperationList Aleakd.Stats Aleakd.Threads Aleakd.ApplicationWindow
open Aleakd.ThreadSessions Aleakd.ThreadTables Aleakd.HighWater Aleakd.Framing Aleakd.TakeLast

/-- What the server shows of a session. -/
structure View where
  operations : OperationLists
  listThreadInfos : List ThreadInfos
  listSymbolInfos : Finmap fun _ : UInt64 => SymbolInfos
  globalStats : MemoryStats

def view (c : Controller) : View where
  operations := c.operations
  listThreadInfos := c.threads.entries
  listSymbolInfos := c.listSymbolInfos
  globalStats := c.globalStats

/-! ## The session of a controller -/

/-- The operation that a call frees. -/
def freedBy (l : OperationLists) : Callback → Option MemoryOperation
  | .memoryOperation operation => (l.free operation.freePtr).2
  | .newConnection | .threadOperation _ | .backtrace _ | .symbolInfos _ => none

/-- The threads of the controller are those of the session, and every block belongs
    to an id that is alive. -/
structure Stands (c : Controller) (s : Session) : Prop where
  table : ∃ base, Shaped base c.threads ∧ session base c.threads = s
  callers : ∀ operation ∈ c.operations.listMemoryOperation, operation.allocPtr ≠ 0 →
    s.alive operation.callerThreadId

theorem fresh_stands : Stands Controller.fresh Session.empty where
  table := ⟨0, empty_shaped, empty_session⟩
  callers := by simp [Controller.fresh, OperationLists.empty]

theorem stands_entries {c : Controller} {s : Session} (stands : Stands c s) : c.threads.entries = s.entries := by
  obtain ⟨base, shaped, rfl⟩ := stands.table
  exact entries_eq shaped

/-- The ids that are alive and the numbers of entries are those of the controller. -/
theorem stands_same {c : Controller} {s s' : Session} (stands : Stands c s) (stands' : Stands c s') :
    s.alive = s'.alive ∧ s.count = s'.count := by
  constructor
  · obtain ⟨base, _, rfl⟩ := stands.table
    obtain ⟨base', _, rfl⟩ := stands'.table
    funext threadId
    rw [session_alive, session_alive]
  · funext threadId
    rw [Session.count, Session.count, ← stands_entries stands, ← stands_entries stands']

theorem freedBy_alive {c : Controller} {s : Session} (stands : Stands c s) (call : Callback)
    (operation : MemoryOperation) (freed : freedBy c.operations call = some operation) :
    s.alive operation.callerThreadId := by
  cases call with
  | memoryOperation incoming =>
    obtain ⟨member, _, pointer, given⟩ := free_taken freed
    apply stands.callers operation member
    rw [pointer]
    exact given
  | newConnection | threadOperation | backtrace | symbolInfos => cases freed

theorem handle_alive {c : Controller} {s : Session} (stands : Stands c s) (call : Callback) (threadId : UInt64) :
    (s.handle (freedBy c.operations call) call).alive threadId =
      (s.alive threadId || decide (subject call = some threadId)) :=
  (Session.handle_effect (freedBy_alive stands call) call threadId).1

/-- The blocks after a call belong to ids that are alive then. -/
theorem handle_callers {c : Controller} {s : Session} (stands : Stands c s) (call : Callback) :
    ∀ operation ∈ (c.handle call).operations.listMemoryOperation, operation.allocPtr ≠ 0 →
      (s.handle (freedBy c.operations call) call).alive operation.callerThreadId := by
  intro operation member given
  rw [handle_alive stands, Bool.or_eq_true]
  cases call with
  | newConnection => cases member
  | threadOperation => exact .inl (stands.callers operation member given)
  | symbolInfos => exact .inl (stands.callers operation member given)
  | backtrace backtrace =>
    left
    obtain ⟨_, same | ⟨i, changed⟩⟩ := addBacktrace_effect c.operations backtrace
    · have old : operation ∈ (c.operations.addBacktrace backtrace).listMemoryOperation := member
      rw [same] at old
      exact stands.callers operation old given
    · have old : operation ∈ (c.operations.addBacktrace backtrace).listMemoryOperation := member
      rw [changed] at old
      rcases mem_modify old with old | ⟨before, origin, rfl⟩
      · exact stands.callers operation old given
      · exact stands.callers before origin given
  | memoryOperation incoming =>
    have alive : ∀ other ∈ (c.operations.addMemoryOperation incoming).1.listMemoryOperation, other.allocPtr ≠ 0 →
        s.alive other.callerThreadId = true ∨
          decide (subject (.memoryOperation incoming) = some other.callerThreadId) = true := by
      apply addMemoryOperation_forall
      · exact fun _ alive => alive
      · exact fun other member given => .inl (stands.callers other member given)
      · intro given
        exact .inr (by simp [subject, given])
    exact alive operation member given

theorem handle_stands {c : Controller} {s : Session} (stands : Stands c s) (call : Callback) :
    Stands (c.handle call) (s.handle (freedBy c.operations call) call) := by
  refine ⟨?_, handle_callers stands call⟩
  obtain ⟨base, shaped, rfl⟩ := stands.table
  cases call with
  | newConnection => exact ⟨_, clear_session shaped⟩
  | memoryOperation operation => exact ⟨base, addMemoryOperation_session shaped operation _⟩
  | threadOperation operation => exact ⟨base, updateThreadInfos_session shaped operation⟩
  | backtrace | symbolInfos => exact ⟨base, shaped, rfl⟩

/-! ## Runs of one controller -/

/-- Some call is about the thread. -/
def Seen (calls : List Callback) (threadId : UInt64) : Prop := ∃ call ∈ calls, subject call = some threadId

/-- An id is alive once it has been seen, for ever. -/
theorem handleAll_alive {c : Controller} {s : Session} (stands : Stands c s) (calls : List Callback) :
    ∃ s', Stands (c.handleAll calls) s' ∧
      ∀ threadId, s'.alive threadId = true ↔ s.alive threadId = true ∨ Seen calls threadId := by
  induction calls generalizing c s with
  | nil => exact ⟨s, stands, by simp [Seen]⟩
  | cons call rest ih =>
    obtain ⟨s', stands', alive'⟩ := ih (handle_stands stands call)
    refine ⟨s', stands', ?_⟩
    intro threadId
    rw [alive', handle_alive stands]
    simp [Seen, or_assoc]

/-- The number of entries that the calls of one session make for a thread id. -/
def entriesMade (threadId : UInt64) : Bool → List Callback → Nat
  | _, [] => 0
  | alive, call :: rest =>
    (if subject call = some threadId ∧ (creates call || !alive) then 1 else 0) +
      entriesMade threadId (alive || subject call = some threadId) rest

theorem handleAll_count {c : Controller} {s : Session} (stands : Stands c s) {calls : List Callback}
    (session : .newConnection ∉ calls) (threadId : UInt64) :
    ∃ s', Stands (c.handleAll calls) s' ∧
      s'.count threadId = s.count threadId + entriesMade threadId (s.alive threadId) calls := by
  induction calls generalizing c s with
  | nil => exact ⟨s, stands, rfl⟩
  | cons call rest ih =>
    have notNew : call ≠ .newConnection := fun same => session (same ▸ List.mem_cons_self)
    have session' : .newConnection ∉ rest := fun member => session (List.mem_cons_of_mem call member)
    obtain ⟨s', stands', count'⟩ := ih (handle_stands stands call) session'
    have effect := Session.handle_effect (freedBy_alive stands call) call threadId
    refine ⟨s', stands', ?_⟩
    rw [count', effect.1, effect.2 notNew, entriesMade, Nat.add_assoc]

/-- Where the first call about a thread does not create it, an id that is alive
    already has one entry less. -/
theorem entriesMade_stale {threadId : UInt64} {call : Callback} (about : subject call = some threadId)
    (old : creates call = false) (later : List Callback) {earlier : List Callback}
    (unseen : ¬ Seen earlier threadId) :
    entriesMade threadId false (earlier ++ call :: later) =
      entriesMade threadId true (earlier ++ call :: later) + 1 := by
  induction earlier with
  | nil => simp [entriesMade, about, old, Nat.add_comm]
  | cons first rest ih =>
    have other : subject first ≠ some threadId := fun same => unseen ⟨first, List.mem_cons_self, same⟩
    have unseen' : ¬ Seen rest threadId := by
      rintro ⟨c, member, same⟩
      exact unseen ⟨c, List.mem_cons_of_mem first member, same⟩
    simp [entriesMade, other, ih unseen']

/-! ## Two sessions side by side -/

/-- Two sessions that differ only in ids that are stale in the first one and that
    the second one does not know. -/
structure Related (left : UInt64 → Bool) (s s' : Session) : Prop where
  entries : s.entries = s'.entries
  current : s.current = s'.current
  stale : ∀ threadId, s.stale threadId = (s'.stale threadId || left threadId)
  unknown : ∀ threadId, left threadId = true → s'.alive threadId = false

/-- The ids that are still left over when one has been seen. -/
def without (left : UInt64 → Bool) (about : Option UInt64) (threadId : UInt64) : Bool :=
  left threadId && decide (about ≠ some threadId)

theorem without_known {left : UInt64 → Bool} {threadId : UInt64} (known : left threadId = false) :
    without left (some threadId) = left := by
  funext other
  by_cases same : threadId = other
  · simp [without, ← same, known]
  · simp [without, same]

theorem related_known {left : UInt64 → Bool} {s s' : Session} (related : Related left s s') (threadId : UInt64)
    (alive : s'.alive threadId = true) : left threadId = false := by
  cases isLeft : left threadId with
  | false => rfl
  | true =>
    rw [related.unknown threadId isLeft] at alive
    cases alive

theorem modify_related {left : UInt64 → Bool} {s s' : Session} (related : Related left s s') (k : Option Nat)
    (change : ThreadInfos → ThreadInfos) : Related left (s.modify k change) (s'.modify k change) := by
  cases k with
  | none => exact related
  | some k =>
    refine ⟨?_, related.current, related.stale, related.unknown⟩
    show s.entries.modify k change = s'.entries.modify k change
    rw [related.entries]

theorem modify_both {left : UInt64 → Bool} {r r' : Session × Option Nat}
    (related : Related left r.1 r'.1 ∧ r.2 = r'.2) (change : ThreadInfos → ThreadInfos) :
    Related left (r.1.modify r.2 change) (r'.1.modify r'.2 change) := by
  rw [related.2]
  exact modify_related related.1 _ _

/-- A new entry for an id settles it in both. -/
theorem append_related {left : UInt64 → Bool} {s s' : Session} (related : Related left s s') (threadId : UInt64)
    (tvOperation : Timeval) :
    Related (without left (some threadId)) (s.append threadId tvOperation).1 (s'.append threadId tvOperation).1 ∧
      (s.append threadId tvOperation).2 = (s'.append threadId tvOperation).2 := by
  obtain ⟨entries, current, stale, unknown⟩ := related
  refine ⟨⟨?_, ?_, ?_, ?_⟩, ?_⟩
  · simp [Session.append, entries]
  · simp [Session.append, entries, current]
  · intro other
    by_cases same : other = threadId
    · simp [Session.append, without, same]
    · simp [Session.append, without, same, Ne.symm same, stale]
  · intro other isLeft
    simp only [without, Bool.and_eq_true, decide_eq_true_eq, ne_eq, Option.some.injEq] at isLeft
    rw [Session.append_alive, unknown other isLeft.1]
    simp [isLeft.2]
  · simp [Session.append, entries]

/-- A thread that is left over has to be created anew. -/
theorem getThreadInfos_related {left : UInt64 → Bool} {s s' : Session} (related : Related left s s')
    (threadId : UInt64) (threadCreation : Bool) (anew : left threadId = true → threadCreation = true)
    (tvOperation : Timeval) :
    Related (without left (some threadId)) (s.getThreadInfos threadId threadCreation tvOperation).1
        (s'.getThreadInfos threadId threadCreation tvOperation).1 ∧
      (s.getThreadInfos threadId threadCreation tvOperation).2 =
        (s'.getThreadInfos threadId threadCreation tvOperation).2 := by
  unfold Session.getThreadInfos
  have current : s.current threadId = s'.current threadId := by rw [related.current]
  cases entry : s'.current threadId with
  | some k =>
    rw [entry] at current
    simp only [current]
    cases threadCreation with
    | true =>
      have related' := modify_related related (some k) (ThreadInfos.terminate tvOperation)
      exact append_related related' threadId tvOperation
    | false =>
      have known := related_known related threadId (by simp [Session.alive, entry])
      rw [without_known known]
      exact ⟨related, rfl⟩
  | none =>
    rw [entry] at current
    simp only [current, related.stale]
    by_cases found : s'.stale threadId = true ∧ threadCreation = false
    · have known := related_known related threadId (by simp [Session.alive, found.1])
      simp only [found, Bool.true_or, and_self, if_true, without_known known]
      exact ⟨related, trivial⟩
    · have found' : ¬ ((s'.stale threadId || left threadId) = true ∧ threadCreation = false) := by
        rintro ⟨either, old⟩
        rcases Bool.or_eq_true_iff.mp either with stale | isLeft
        · exact found ⟨stale, old⟩
        · rw [anew isLeft] at old
          cases old
      simp only [if_neg found, if_neg found']
      exact append_related related threadId tvOperation

/-- A block belongs to a thread that both know, so its free changes the same entry. -/
theorem afterFree_related {left : UInt64 → Bool} {s s' : Session} (related : Related left s s')
    {freed : Option MemoryOperation}
    (freedAlive : ∀ operation, freed = some operation → s'.alive operation.callerThreadId) (tvOperation : Timeval) :
    Related left (s.afterFree freed tvOperation) (s'.afterFree freed tvOperation) := by
  cases freed with
  | none => exact related
  | some freed =>
    have known := related_known related freed.callerThreadId (freedAlive freed rfl)
    have range : s.getThreadInfosForMsgNum freed.callerThreadId freed.msgNum =
        s'.getThreadInfosForMsgNum freed.callerThreadId freed.msgNum := by
      unfold Session.getThreadInfosForMsgNum
      rw [related.entries, related.current]
    simp only [Session.afterFree, Session.updateThreadInfosAddFree, related.stale, known, Bool.or_false, range]
    split
    · exact related
    · split
      · exact modify_related related _ _
      · have both := getThreadInfos_related related freed.callerThreadId false (by simp [known]) tvOperation
        rw [without_known known] at both
        exact modify_both both _

theorem handle_related {left : UInt64 → Bool} {s s' : Session} (related : Related left s s')
    {freed : Option MemoryOperation}
    (freedAlive : ∀ operation, freed = some operation → s'.alive operation.callerThreadId) {call : Callback}
    (session : call ≠ .newConnection)
    (anew : ∀ threadId, left threadId = true → subject call = some threadId → creates call = true) :
    Related (without left (subject call)) (s.handle freed call) (s'.handle freed call) := by
  have nobody : without left none = left := by
    funext threadId
    simp [without]
  cases call with
  | newConnection => exact absurd rfl session
  | backtrace | symbolInfos =>
    rw [subject, nobody]
    exact related
  | threadOperation operation =>
    have both := getThreadInfos_related related operation.threadId (operation.msgCode = .pthreadCreate)
      (fun isLeft => anew _ isLeft rfl) operation.tvOperation
    exact modify_both both _
  | memoryOperation operation =>
    have related' := afterFree_related related freedAlive operation.tvOperation
    simp only [Session.handle, Session.addMemoryOperation]
    by_cases alloc : operation.allocPtr ≠ 0
    · have about : subject (.memoryOperation operation) = some operation.callerThreadId := if_pos alloc
      have both := getThreadInfos_related related' operation.callerThreadId false (fun isLeft => anew _ isLeft about)
        operation.tvOperation
      rw [if_pos alloc, if_pos alloc, about]
      exact modify_both both _
    · have about : subject (.memoryOperation operation) = none := if_neg alloc
      rw [if_neg alloc, if_neg alloc, about, nobody]
      exact related'

/-! ## Two controllers side by side -/

/-- The statistics without the peak. -/
def exceptPeak (s : MemoryStats) : MemoryStats := { s with peakRemainingSize := 0 }

theorem exceptPeak_addAlloc (s : MemoryStats) (operation : MemoryOperation) :
    exceptPeak (s.addAlloc operation) = exceptPeak ((exceptPeak s).addAlloc operation) := rfl

theorem exceptPeak_addFree (s : MemoryStats) (freed : Option MemoryOperation) :
    exceptPeak (s.addFree freed) = (exceptPeak s).addFree freed := by
  cases freed with
  | none => rfl
  | some freed => rfl

theorem exceptPeak_updateUsage (s : MemoryStats) (operation : MemoryOperation) :
    exceptPeak (s.updateUsage operation) = (exceptPeak s).updateUsage operation := rfl

theorem exceptPeak_countCode (s : MemoryStats) (operation : MemoryOperation) :
    exceptPeak (s.countCode operation) = (exceptPeak s).countCode operation := by
  unfold MemoryStats.countCode
  split <;> rfl

theorem exceptPeak_addMemoryOperation (s : MemoryStats) (operation : MemoryOperation)
    (freed : Option MemoryOperation) :
    exceptPeak (s.addMemoryOperation operation freed) =
      exceptPeak ((exceptPeak s).addMemoryOperation operation freed) := by
  -- the last two parts do not look at the peak, and the remaining count is taken from what they leave
  have stages (t : MemoryStats) : exceptPeak (t.addMemoryOperation operation freed) =
      let counted := (((exceptPeak (t.addAlloc operation)).addFree freed).updateUsage operation).countCode operation
      { counted with totalRemainingCount := counted.totalAllocCount - counted.totalFreeCount } := by
    rw [← exceptPeak_addFree, ← exceptPeak_updateUsage, ← exceptPeak_countCode]
    rfl
  rw [stages, stages, exceptPeak_addAlloc]

theorem eq_of_exceptPeak {s s' : MemoryStats} (same : exceptPeak s = exceptPeak s')
    (peak : s.peakRemainingSize = s'.peakRemainingSize) : s = s' := by
  have back : ∀ s : MemoryStats, s = { exceptPeak s with peakRemainingSize := s.peakRemainingSize } := fun _ => rfl
  rw [back s, back s', same, peak]

structure Alike (left : UInt64 → Bool) (c c' : Controller) : Prop where
  operations : c.operations = c'.operations
  symbols : c.listSymbolInfos = c'.listSymbolInfos
  stats : exceptPeak c.globalStats = exceptPeak c'.globalStats
  threads : ∃ s s', Stands c s ∧ Stands c' s' ∧ Related left s s'

theorem handle_alike {left : UInt64 → Bool} {c c' : Controller} (alike : Alike left c c') {call : Callback}
    (session : call ≠ .newConnection)
    (anew : ∀ threadId, left threadId = true → subject call = some threadId → creates call = true) :
    Alike (without left (subject call)) (c.handle call) (c'.handle call) := by
  obtain ⟨operations, symbols, stats, s, s', stands, stands', related⟩ := alike
  have counted : exceptPeak c.globalStats.countMessage = exceptPeak c'.globalStats.countMessage :=
    congrArg MemoryStats.countMessage stats
  constructor
  case threads =>
    have related' := handle_related related (freedBy_alive stands' call) session anew
    have stood := handle_stands stands call
    rw [operations] at stood
    exact ⟨_, _, stood, handle_stands stands' call, related'⟩
  case operations =>
    cases call with
    | newConnection => exact absurd rfl session
    | threadOperation | symbolInfos => exact operations
    | memoryOperation operation =>
      show (c.operations.addMemoryOperation operation).1 = (c'.operations.addMemoryOperation operation).1
      rw [operations]
    | backtrace backtrace =>
      show c.operations.addBacktrace backtrace = c'.operations.addBacktrace backtrace
      rw [operations]
  case symbols =>
    cases call with
    | newConnection => exact absurd rfl session
    | threadOperation | memoryOperation | backtrace => exact symbols
    | symbolInfos symbolInfos => simp [Controller.handle, Controller.addSymbolInfos, symbols]
  case stats =>
    cases call with
    | newConnection => exact absurd rfl session
    | threadOperation | backtrace | symbolInfos => exact counted
    | memoryOperation operation =>
      show exceptPeak (c.globalStats.addMemoryOperation operation (c.operations.addMemoryOperation operation).2) =
        exceptPeak (c'.globalStats.addMemoryOperation operation (c'.operations.addMemoryOperation operation).2)
      rw [exceptPeak_addMemoryOperation, stats, operations, ← exceptPeak_addMemoryOperation]

theorem handleAll_alike {segment : List Callback} (session : .newConnection ∉ segment) {left : UInt64 → Bool}
    {c c' : Controller} (alike : Alike left c c')
    (anew : ∀ earlier call later, segment = earlier ++ call :: later → ∀ threadId, left threadId = true →
      subject call = some threadId → ¬ Seen earlier threadId → creates call = true) :
    ∃ left', Alike left' (c.handleAll segment) (c'.handleAll segment) := by
  induction segment generalizing left c c' with
  | nil => exact ⟨left, alike⟩
  | cons call rest ih =>
    have notNew : call ≠ .newConnection := fun same => session (same ▸ List.mem_cons_self)
    have session' : .newConnection ∉ rest := fun member => session (List.mem_cons_of_mem call member)
    have next := handle_alike alike notNew fun threadId isLeft about =>
      anew [] call rest rfl threadId isLeft about (by simp [Seen])
    apply ih session' next
    intro earlier later rest' split threadId isLeft about unseen
    simp only [without, Bool.and_eq_true, decide_eq_true_eq] at isLeft
    refine anew (call :: earlier) later rest' (by rw [split, List.cons_append]) threadId isLeft.1 about ?_
    rintro ⟨other, member, same⟩
    rcases List.mem_cons.mp member with rfl | member
    · exact isLeft.2 same
    · exact unseen ⟨other, member, same⟩

/-- After a new connection, only the ids differ that were alive in one controller and
    not in the other. -/
theorem onNewConnection_alike {c c' : Controller} {s s' : Session} (stands : Stands c s) (stands' : Stands c' s')
    (more : ∀ threadId, s'.alive threadId = true → s.alive threadId = true) :
    Alike (fun threadId => s.alive threadId && !s'.alive threadId) c.onNewConnection c'.onNewConnection where
  operations := rfl
  symbols := rfl
  stats := rfl
  threads := by
    refine ⟨_, _, handle_stands stands .newConnection, handle_stands stands' .newConnection, rfl, rfl, ?_, ?_⟩
    · intro threadId
      have implies := more threadId
      show s.alive threadId = (s'.alive threadId || (s.alive threadId && !s'.alive threadId))
      cases known : s'.alive threadId with
      | true => rw [implies known, Bool.true_or]
      | false => simp
    · intro threadId isLeft
      simp only [Bool.and_eq_true, Bool.not_eq_eq_eq_not, Bool.not_true] at isLeft
      show (false || s'.alive threadId) = false
      rw [isLeft.2, Bool.or_false]

/-! ## Messages after an earlier session -/

/-- The last session of `B` meets a thread id that `A` left behind: no call of `B`
    before was about it, and the first one that is does not create it. -/
def LeftOver (A B : List Callback) (threadId : UInt64) : Prop :=
  Seen A threadId ∧ ∃ earlier call later, B = earlier ++ call :: later ∧ subject call = some threadId ∧
    creates call = false ∧ ¬ Seen earlier threadId ∧ .newConnection ∉ later

theorem lastConnection (calls : List Callback) :
    ∃ before segment, .newConnection :: calls = before ++ .newConnection :: segment ∧ .newConnection ∉ segment := by
  cases taken : takeLast (fun call => call = .newConnection) (.newConnection :: calls) with
  | none =>
    have fails := takeLast_none.mp taken .newConnection List.mem_cons_self
    simp at fails
  | some result =>
    obtain ⟨found, left⟩ := result
    obtain ⟨before, segment, split, _, holds, last⟩ := takeLast_some taken
    rw [of_decide_eq_true holds] at split
    refine ⟨before, segment, split, ?_⟩
    intro member
    simpa using last _ member

theorem seen_append {first second : List Callback} {threadId : UInt64} :
    Seen (first ++ second) threadId ↔ Seen first threadId ∨ Seen second threadId := by
  simp [Seen, or_and_right, exists_or]

theorem seen_newConnection {calls : List Callback} {threadId : UInt64} :
    Seen (.newConnection :: calls) threadId ↔ Seen calls threadId := by
  simp [Seen, subject]

/-- The number of entries of a thread in what the server shows at the end. -/
theorem count_entries (before : List Callback) {segment : List Callback} (session : .newConnection ∉ segment)
    (threadId : UInt64) :
    ∃ alive, (alive = true ↔ Seen before threadId) ∧
      (Controller.fresh.handleAll (before ++ .newConnection :: segment)).threads.entries.countP
          (fun infos => infos.threadId = threadId) = entriesMade threadId alive segment := by
  obtain ⟨s, stands, alive⟩ := handleAll_alive fresh_stands before
  obtain ⟨s', stands', count⟩ := handleAll_count (handle_stands stands .newConnection) session threadId
  refine ⟨s.alive threadId, ?_, ?_⟩
  · rw [alive]
    simp [Session.empty, Session.alive]
  · rw [Controller.handleAll_append, Controller.handleAll_cons, stands_entries stands']
    refine Eq.trans count ?_
    show 0 + entriesMade threadId (false || s.alive threadId) segment = _
    rw [Nat.zero_add, Bool.false_or]

/-- A thread id that is left over has fewer entries than it should. -/
theorem leftOver_differs {A B : List Callback} {threadId : UInt64} (leftOver : LeftOver A B threadId) :
    (Controller.fresh.handleAll (A ++ .newConnection :: B)).threads.entries ≠
      (Controller.fresh.handleAll (.newConnection :: B)).threads.entries := by
  obtain ⟨seen, earlier, call, later, rfl, about, old, unseen, last⟩ := leftOver
  obtain ⟨before, inner, split, inner_last⟩ := lastConnection earlier
  have session : .newConnection ∉ inner ++ call :: later := by
    have notNew : .newConnection ≠ call := by
      rintro rfl
      cases about
    simp [inner_last, notNew, last]
  have unseen' : ¬ Seen before threadId ∧ ¬ Seen inner threadId := by
    rw [← seen_newConnection, split, seen_append, seen_newConnection, not_or] at unseen
    exact unseen
  have whole : .newConnection :: (earlier ++ call :: later) = before ++ .newConnection :: (inner ++ call :: later) := by
    rw [← List.cons_append, split, List.append_assoc, List.cons_append]
  obtain ⟨alive, known, count⟩ := count_entries (A ++ before) session threadId
  obtain ⟨alive', known', count'⟩ := count_entries before session threadId
  have isAlive : alive = true := known.mpr (seen_append.mpr (.inl seen))
  have notAlive : alive' = false := Bool.eq_false_iff.mpr fun alive => unseen'.1 (known'.mp alive)
  intro same
  rw [whole, ← List.append_assoc] at same
  rw [isAlive, same] at count
  rw [notAlive, entriesMade_stale about old later unseen'.2] at count'
  omega

/-- Where no thread id is left over, everything but the peak is the same. -/
theorem alike_of_none_leftOver {A B : List Callback} (none : ∀ threadId, ¬ LeftOver A B threadId) :
    ∃ left, Alike left (Controller.fresh.handleAll (A ++ .newConnection :: B))
      (Controller.fresh.handleAll (.newConnection :: B)) := by
  obtain ⟨before, segment, split, session⟩ := lastConnection B
  obtain ⟨s, stands, alive⟩ := handleAll_alive fresh_stands (A ++ before)
  obtain ⟨s', stands', alive'⟩ := handleAll_alive fresh_stands before
  have empty : ∀ threadId, Session.empty.alive threadId = false := fun _ => rfl
  simp only [empty, Bool.false_eq_true, false_or] at alive alive'
  have start := onNewConnection_alike stands stands' fun threadId known =>
    (alive threadId).mpr (seen_append.mpr (.inr ((alive' threadId).mp known)))
  have run : Controller.fresh.handleAll (A ++ before ++ .newConnection :: segment) =
      (Controller.fresh.handleAll (A ++ before)).onNewConnection.handleAll segment := Controller.handleAll_append _ _ _
  have run' : Controller.fresh.handleAll (before ++ .newConnection :: segment) =
      (Controller.fresh.handleAll before).onNewConnection.handleAll segment := Controller.handleAll_append _ _ _
  rw [split, ← List.append_assoc, run, run']
  apply handleAll_alike session start
  intro earlier call later split' threadId isLeft about unseen
  simp only [Bool.and_eq_true, Bool.not_eq_eq_eq_not, Bool.not_true, Bool.eq_false_iff, ne_eq, alive, alive',
    seen_append] at isLeft
  by_contra old
  have seen : Seen A threadId := isLeft.1.resolve_right isLeft.2
  have last : .newConnection ∉ later := by
    intro member
    rw [split'] at session
    exact session (List.mem_append_right _ (List.mem_cons_of_mem call member))
  apply none threadId
  rcases before with _ | ⟨first, before⟩
  · rw [List.nil_append, List.cons.injEq] at split
    exact ⟨seen, earlier, call, later, by rw [split.2, split'], about, by simpa using old, unseen, last⟩
  · rw [List.cons_append, List.cons.injEq] at split
    obtain ⟨rfl, rest⟩ := split
    have unseen' : ¬ Seen (before ++ .newConnection :: earlier) threadId := by
      rw [seen_append, seen_newConnection, not_or]
      exact ⟨fun member => isLeft.2 (seen_newConnection.mpr member), unseen⟩
    exact ⟨seen, before ++ .newConnection :: earlier, call, later, by simp [rest, split'], about, by simpa using old,
      unseen', last⟩

/-- The server shows the same after an earlier session if and only if the earlier
    session had no higher peak and left no thread id behind that these messages meet
    without its creation. -/
theorem view_eq_iff {A B : List Callback} (freshA : ∀ call ∈ A, Fresh call) (freshB : ∀ call ∈ B, Fresh call) :
    view (Controller.fresh.handleAll (A ++ .newConnection :: B)) =
        view (Controller.fresh.handleAll (.newConnection :: B)) ↔
      highWater A ≤ highWater B ∧ ∀ threadId, ¬ LeftOver A B threadId := by
  have fresh' : ∀ call ∈ .newConnection :: B, Fresh call := by
    intro call member
    rcases List.mem_cons.mp member with rfl | member
    · trivial
    · exact freshB call member
  have fresh : ∀ call ∈ A ++ .newConnection :: B, Fresh call := by
    intro call member
    rcases List.mem_append.mp member with member | member
    · exact freshA call member
    · exact fresh' call member
  have peak := peakRemainingSize_eq fresh
  have peak' := peakRemainingSize_eq fresh'
  rw [highWater_append] at peak
  rw [highWater_newConnection] at peak'
  constructor
  · intro same
    have stats := congrArg (fun v => v.globalStats.peakRemainingSize) same
    refine ⟨?_, ?_⟩
    · rw [← larger_eq_right, ← peak, ← peak']
      exact stats
    · intro threadId leftOver
      exact leftOver_differs leftOver (congrArg View.listThreadInfos same)
  · rintro ⟨below, none⟩
    obtain ⟨left, operations, symbols, stats, s, s', stands, stands', related⟩ := alike_of_none_leftOver none
    have samePeak := peak.trans ((larger_eq_right.mpr below).trans peak'.symm)
    rw [view, view, operations, symbols, eq_of_exceptPeak stats samePeak, stands_entries stands,
      stands_entries stands', related.entries]

theorem handlerCalls_fresh (messages : List LibraryMessage) : ∀ call ∈ handlerCalls messages, Fresh call := by
  intro call member
  obtain ⟨m, _, rfl⟩ := List.mem_map.mp member
  cases m.message <;> simp [handlerCall, Fresh]

/-- `view_eq_iff` for messages `A` of earlier sessions and messages `B` of the last. -/
theorem isolated_iff (A B : List LibraryMessage) :
    view (Controller.fresh.handleAll (handlerCalls A ++ .newConnection :: handlerCalls B)) =
        view (Controller.fresh.handleAll (.newConnection :: handlerCalls B)) ↔
      highWater (handlerCalls A) ≤ highWater (handlerCalls B) ∧
        ∀ threadId, ¬ LeftOver (handlerCalls A) (handlerCalls B) threadId :=
  view_eq_iff (handlerCalls_fresh A) (handlerCalls_fresh B)

/-- An earlier session with one allocation of 100 bytes by thread 7, and a session with
    one of 10 bytes by the same thread id: the peak is still 100, and the thread has
    no entry. -/
theorem earlier_session_shows :
    ¬ ∀ A B : List LibraryMessage,
      view (Controller.fresh.handleAll (handlerCalls A ++ .newConnection :: handlerCalls B)) =
        view (Controller.fresh.handleAll (.newConnection :: handlerCalls B)) := by
  intro claim
  have same := claim [⟨.memory ⟨1, 0, 7, 1, 11⟩ ⟨100, 4096, 1, 0⟩, by decide⟩]
    [⟨.memory ⟨9, 0, 7, 1, 11⟩ ⟨10, 4096, 1, 0⟩, by decide⟩]
  have both := congrArg (fun v => (v.globalStats.peakRemainingSize, v.listThreadInfos.length)) same
  revert both
  -- 100 bytes and no entry on the left, 10 bytes and one entry on the right
  decide +kernel

end Aleakd.Sessions
