import Aleakd.CriticalSections
import Aleakd.LibraryLocks
import Aleakd.Symbols
import Aleakd.WriteFailures

/-!
The functions of the preloaded library that take a mutex, access by access:
`servercomm_msg_header_init_v1`, `backtrace_check_addr` and `servercomm_send`. The threads
of the captured program run them at the same time, and each call comes to as if it were
made at once.
-/
namespace Aleakd.AtomicCalls
open Aleakd.Runs Aleakd.CriticalSections Aleakd.ServerComm Aleakd.Memory Aleakd.Symbols
open Aleakd.LibraryLocks (Lock)
open Function

/-! ## The code -/

/-- What each mutex guards: `g_iMsgNum`, the transport, and `g_listAddr` with
    `g_listAddrCount`. -/
abbrev Guarded : Lock → Type
  | .msgCount => UInt32
  | .socket => Transport
  | .addrCount => List CachedAddr

inductive Request where
  | headerInit
  | checkAddr (addr : UInt64)
  | send (packet : Packet)

inductive Answer where
  | number (msgNum : UInt32)
  | cached (hit : Bool)
  | sent
deriving DecidableEq

def Request.lock : Request → Lock
  | .headerInit => .msgCount
  | .checkAddr _ => .addrCount
  | .send _ => .socket

/-- Where a thread is: before and after a call, or at an access of one of the functions,
    with its local variables. `wrote` is how the physical write of the call ended. -/
inductive Stage where
  | idle
  | called (request : Request)
  -- `g_iMsgNum++`, which is two accesses, and `msg_num = g_iMsgNum`
  | loading
  | storing (loaded : UInt32)
  | numbering
  -- the loop over the cache, and the writes after it
  | scanning (addr : UInt64) (i posMin : Nat) (valMin : Int32)
  | hitting (addr : UInt64) (i : Nat)
  | placing (addr : UInt64) (posMin : Nat)
  | counting (addr : UInt64) (posMin : Nat)
  -- `servercomm_send`
  | testing (packet : Packet)
  | measuring (packet : Packet)
  | flushing (packet : Packet)
  | resetting (packet : Packet) (wrote : Write)
  | copying (packet : Packet) (wrote : Write)
  | advancing (packet : Packet) (wrote : Write)
  | writing (packet : Packet)
  | leaving (request : Request) (wrote : Write) (answer : Answer)

/-- A thread, and the answers that it has got so far. -/
structure Caller where
  log : List (Request × Answer)
  stage : Stage

inductive Input where
  | call (request : Request)
  | go
  /-- a physical write, which may block, has returned -/
  | wrote (w : Write)

/-- The first access of a function. -/
def Request.entry : Request → Stage
  | .headerInit => .loading
  | .checkAddr addr => .scanning addr 0 0 Int32.maxValue
  | .send packet => .testing packet

/-- A round of the loop of `backtrace_check_addr`. -/
def scanRound (addr : UInt64) (i posMin : Nat) (valMin : Int32) (cache : List CachedAddr) : Stage :=
  match cache[i]? with
  | none => .placing addr posMin
  | some entry =>
    if entry.addr = addr then .hitting addr i
    else if entry.count < valMin then .scanning addr (i + 1) i entry.count
    else .scanning addr (i + 1) posMin valMin

def code (p : Caller) : Input → Option (Move Guarded Caller)
  | .call request =>
    match p.stage with
    | .idle => some (.alone ⟨p.log, .called request⟩)
    | _ => none
  | .go =>
    match p.stage with
    | .called request => some (.acquire request.lock ⟨p.log, request.entry⟩)
    | .loading => some (.access .msgCount fun n => some (n, ⟨p.log, .storing n⟩))
    | .storing loaded => some (.access .msgCount fun _ => some ((loaded + 1 : UInt32), ⟨p.log, .numbering⟩))
    | .numbering => some (.access .msgCount fun n => some (n, ⟨p.log, .leaving .headerInit .complete (.number n)⟩))
    | .scanning addr i posMin valMin =>
      some (.access .addrCount fun cache => some (cache, ⟨p.log, scanRound addr i posMin valMin cache⟩))
    | .hitting addr i =>
      some (.access .addrCount fun cache => some (
        List.modify cache i fun entry => { entry with count := entry.count + 1 },
        ⟨p.log, .leaving (.checkAddr addr) .complete (.cached true)⟩))
    | .placing addr posMin =>
      some (.access .addrCount fun cache => some (
        List.modify cache posMin fun entry => { entry with addr }, ⟨p.log, .counting addr posMin⟩))
    | .counting addr posMin =>
      some (.access .addrCount fun cache => some (
        List.modify cache posMin fun entry => { entry with count := 1 },
        ⟨p.log, .leaving (.checkAddr addr) .complete (.cached false)⟩))
    | .testing packet =>
      some (.access .socket fun t => some (t,
        ⟨p.log, if Transport.transfertBufferEnabled t then .measuring packet else .writing packet⟩))
    | .measuring packet =>
      some (.access .socket fun t => some (t,
        ⟨p.log, if bufferSize ≤ Transport.transfertBufferSize t + packet.bytes.length then .flushing packet
          else .copying packet .complete⟩))
    | .resetting packet w =>
      some (.access .socket fun t => some (
        { (t : Transport) with transfertBufferSize := 0 }, ⟨p.log, .copying packet w⟩))
    | .copying packet w =>
      some (.access .socket fun t =>
        (memcpy (Transport.transferBuffer t) (Transport.transfertBufferSize t) packet.bytes).map fun after =>
          ({ (t : Transport) with transferBuffer := after }, ⟨p.log, .advancing packet w⟩))
    | .advancing packet w =>
      some (.access .socket fun t => some (
        { (t : Transport) with transfertBufferSize := Transport.transfertBufferSize t + packet.bytes.length },
        ⟨p.log, .leaving (.send packet) w .sent⟩))
    | .leaving request _ answer => some (.release request.lock ⟨p.log ++ [(request, answer)], .idle⟩)
    | _ => none
  | .wrote w =>
    match p.stage with
    | .flushing packet =>
      some (.access .socket fun t => some (
        (servercommSendPhysical t w (Transport.buffered t)).1, ⟨p.log, .resetting packet w⟩))
    | .writing packet =>
      some (.access .socket fun t => some (
        (servercommSendPhysical t w packet.bytes).1, ⟨p.log, .leaving (.send packet) w .sent⟩))
    | _ => none

/-- The mutex that a thread has. -/
def Stage.holds : Stage → Option Lock
  | .idle | .called _ => none
  | .loading | .storing _ | .numbering => some .msgCount
  | .scanning .. | .hitting .. | .placing .. | .counting .. => some .addrCount
  | .testing _ | .measuring _ | .flushing _ | .resetting .. | .copying .. | .advancing .. | .writing _ => some .socket
  | .leaving request _ _ => some request.lock

def Caller.holds (p : Caller) : Option Lock := p.stage.holds

theorem scanRound_holds (addr : UInt64) (i posMin : Nat) (valMin : Int32) (cache : List CachedAddr) :
    (scanRound addr i posMin valMin cache).holds = some .addrCount := by
  unfold scanRound
  split
  · rfl
  · split
    · rfl
    · split <;> rfl

theorem code_disciplined : Disciplined code Caller.holds := by
  rintro ⟨log, stage⟩ input move next
  cases input with
  | call request => cases stage <;> cases next; rfl
  | wrote w =>
    cases stage <;> cases next <;> exact ⟨rfl, by rintro memory memory' next ⟨⟩; rfl⟩
  | go =>
    cases stage with
    | idle | flushing | writing => cases next
    | called request =>
      cases next
      exact ⟨rfl, by cases request <;> rfl⟩
    | leaving request w answer =>
      cases next
      exact ⟨rfl, rfl⟩
    | loading | storing | numbering | hitting | placing | counting | resetting | advancing =>
      cases next
      exact ⟨rfl, by rintro memory memory' next ⟨⟩; rfl⟩
    | scanning addr i posMin valMin =>
      cases next
      refine ⟨rfl, ?_⟩
      rintro memory memory' next ⟨⟩
      exact scanRound_holds addr i posMin valMin memory
    | testing packet | measuring packet =>
      cases next
      refine ⟨rfl, ?_⟩
      rintro memory memory' next ⟨⟩
      show Stage.holds (if _ then _ else _) = _
      split <;> rfl
    | copying packet w =>
      cases next
      refine ⟨rfl, ?_⟩
      intro memory memory' next copied
      obtain ⟨after, _, same⟩ := Option.map_eq_some_iff.mp copied
      cases same
      rfl

/-! ## Whole calls -/

/-- A call, made at once. -/
def Request.perform (w : Write) : (request : Request) → Guarded request.lock → Option (Guarded request.lock × Answer)
  | .headerInit, (n : UInt32) => some ((n + 1 : UInt32), .number (n + 1))
  | .checkAddr addr, cache => some ((backtraceCheckAddr cache addr).1, .cached (backtraceCheckAddr cache addr).2)
  | .send packet, t => (servercommSend t w packet.bytes).map fun result => (result.1, .sent)

theorem perform_checkAddr {w : Write} {addr : UInt64} {cache cache' : List CachedAddr} {hit : Bool}
    (checked : backtraceCheckAddr cache addr = (cache', hit)) :
    Request.perform w (.checkAddr addr) cache = some (cache', .cached hit) :=
  congrArg (fun result : List CachedAddr × Bool => some (result.1, Answer.cached result.2)) checked

theorem perform_send {w : Write} {packet : Packet} {t t' : Transport}
    (sent : servercommSend t w packet.bytes = some (t', 0)) : Request.perform w (.send packet) t = some (t', .sent) :=
  congrArg (Option.map fun result : Transport × Int => (result.1, Answer.sent)) sent

/-- What the threads have got so far from calls that are made at once. -/
structure Calls (Thread : Type) where
  memory : ∀ lock, Guarded lock
  log : Thread → List (Request × Answer)

variable {Thread : Type} [DecidableEq Thread]

def callStep (a : Calls Thread) (call : Thread × Request × Write) : Option (Calls Thread) :=
  (call.2.1.perform call.2.2 (a.memory call.2.1.lock)).map fun (memory, answer) =>
    { memory := update a.memory call.2.1.lock memory
      log := update a.log call.1 (a.log call.1 ++ [(call.2.1, answer)]) }

theorem callStep_some {a next : Calls Thread} {thread : Thread} {request : Request} {w : Write}
    (stepped : callStep a (thread, request, w) = some next) :
    ∃ memory answer, request.perform w (a.memory request.lock) = some (memory, answer) ∧
      next = ⟨update a.memory request.lock memory,
        update a.log thread (a.log thread ++ [(request, answer)])⟩ := by
  obtain ⟨⟨memory, answer⟩, performed, rfl⟩ := Option.map_eq_some_iff.mp stepped
  exact ⟨memory, answer, performed, rfl⟩

/-! ## On the way through a call -/

/-- The first half of `servercomm_send` with the transfer buffer. -/
def makeRoom (t : Transport) (w : Write) (buff : List UInt8) : Transport :=
  if bufferSize ≤ t.transfertBufferSize + buff.length then
    { (servercommSendPhysical t w t.buffered).1 with transfertBufferSize := 0 }
  else t

theorem servercommSend_enabled {t : Transport} (enabled : t.transfertBufferEnabled = true) (w : Write)
    (buff : List UInt8) : servercommSend t w buff =
      (memcpy (makeRoom t w buff).transferBuffer (makeRoom t w buff).transfertBufferSize buff).map fun after =>
        ({ makeRoom t w buff with
            transferBuffer := after
            transfertBufferSize := (makeRoom t w buff).transfertBufferSize + buff.length }, 0) := by
  simp [servercommSend, enabled, makeRoom]

/-- An entry is overwritten in two parts. -/
theorem modify_both (cache : List CachedAddr) (i : Nat) (addr : UInt64) :
    (cache.modify i fun entry => { entry with addr }).modify i (fun entry => { entry with count := 1 }) =
      cache.set i ⟨addr, 1⟩ := by
  rw [List.modify_modify_eq, List.set_eq_modify]
  rfl

/-- Where a call has come to, from the memory as it was when it took the mutex. -/
def Reached : (lock : Lock) → Guarded lock → Guarded lock → Stage → Prop
  | .msgCount, before, n, .loading => n = before
  | .msgCount, before, n, .storing loaded => n = before ∧ loaded = before
  | .msgCount, (before : UInt32), n, .numbering => n = before + 1
  | .addrCount, before, cache, .scanning addr i posMin valMin =>
    cache = before ∧ scan addr before 0 0 Int32.maxValue = scan addr (List.drop i before) i posMin valMin
  | .addrCount, before, cache, .hitting addr i => cache = before ∧ scan addr before 0 0 Int32.maxValue = .found i
  | .addrCount, before, cache, .placing addr posMin =>
    cache = before ∧ scan addr before 0 0 Int32.maxValue = .full posMin
  | .addrCount, before, cache, .counting addr posMin =>
    cache = List.modify before posMin (fun entry => { entry with addr }) ∧
      scan addr before 0 0 Int32.maxValue = .full posMin
  | .socket, before, t, .testing _ => t = before
  | .socket, (before : Transport), t, .measuring _ => t = before ∧ before.transfertBufferEnabled
  | .socket, (before : Transport), t, .flushing packet => t = before ∧ before.transfertBufferEnabled ∧
      bufferSize ≤ before.transfertBufferSize + packet.bytes.length
  | .socket, (before : Transport), t, .resetting packet w => t = (servercommSendPhysical before w before.buffered).1 ∧
      before.transfertBufferEnabled ∧ bufferSize ≤ before.transfertBufferSize + packet.bytes.length
  | .socket, (before : Transport), t, .copying packet w =>
    t = makeRoom before w packet.bytes ∧ before.transfertBufferEnabled
  | .socket, (before : Transport), t, .advancing packet w => before.transfertBufferEnabled ∧
      ∃ after, memcpy (makeRoom before w packet.bytes).transferBuffer
        (makeRoom before w packet.bytes).transfertBufferSize packet.bytes = some after ∧
        t = { makeRoom before w packet.bytes with transferBuffer := after }
  | .socket, (before : Transport), t, .writing _ => t = before ∧ before.transfertBufferEnabled = false
  | .msgCount, before, n, .leaving request w answer =>
    request = .headerInit ∧ Request.perform w .headerInit before = some (n, answer)
  | .addrCount, before, cache, .leaving request w answer =>
    ∃ addr, request = .checkAddr addr ∧ Request.perform w (.checkAddr addr) before = some (cache, answer)
  | .socket, before, t, .leaving request w answer =>
    ∃ packet, request = .send packet ∧ Request.perform w (.send packet) before = some (t, answer)
  | _, _, _, _ => False

theorem entry_reached (request : Request) (before : Guarded request.lock) :
    Reached request.lock before before request.entry := by
  cases request with
  | headerInit => rfl
  | checkAddr addr => exact ⟨rfl, rfl⟩
  | send packet => rfl

/-- A round of the loop keeps what the whole loop comes to. -/
theorem scanRound_reached {addr : UInt64} {i posMin : Nat} {valMin : Int32} {before : List CachedAddr}
    (rest : scan addr before 0 0 Int32.maxValue = scan addr (List.drop i before) i posMin valMin) :
    Reached .addrCount before before (scanRound addr i posMin valMin before) := by
  unfold scanRound
  cases entry : before[i]? with
  | none =>
    rw [List.drop_eq_nil_of_le (List.getElem?_eq_none_iff.mp entry)] at rest
    exact ⟨rfl, rest⟩
  | some entry' =>
    obtain ⟨inside, rfl⟩ := List.getElem?_eq_some_iff.mp entry
    rw [List.drop_eq_getElem_cons inside, scan] at rest
    by_cases same : before[i].addr = addr
    · simp only [same, if_true] at rest ⊢
      exact ⟨rfl, rest⟩
    · simp only [same, if_false] at rest ⊢
      split at rest
      · next less =>
        rw [if_pos less]
        exact ⟨rfl, rest⟩
      · next more =>
        rw [if_neg more]
        exact ⟨rfl, rest⟩

/-- Each access of a call is one on the way to what the whole call does. -/
theorem access_reached {lock : Lock} {before memory after : Guarded lock} {p next : Caller} {input : Input}
    {change : Guarded lock → Option (Guarded lock × Caller)} (reached : Reached lock before memory p.stage)
    (does : code p input = some (.access lock change)) (changed : change memory = some (after, next)) :
    Reached lock before after next.stage ∧ next.log = p.log := by
  obtain ⟨log, stage⟩ := p
  cases input with
  | call request => cases stage <;> cases does
  | wrote w =>
    cases stage with
    | flushing packet =>
      cases does
      cases changed
      obtain ⟨rfl, enabled, full⟩ := reached
      exact ⟨⟨rfl, enabled, full⟩, rfl⟩
    | writing packet =>
      cases does
      cases changed
      obtain ⟨rfl, disabled⟩ := reached
      exact ⟨⟨packet, rfl, perform_send (send_direct w packet.bytes disabled)⟩, rfl⟩
    | _ => cases does
  | go =>
    cases stage with
    | idle | called | flushing | writing | leaving => cases does
    | loading =>
      cases does
      cases changed
      exact ⟨⟨reached, reached⟩, rfl⟩
    | storing loaded =>
      cases does
      cases changed
      obtain ⟨_, rfl⟩ := reached
      exact ⟨rfl, rfl⟩
    | numbering =>
      cases does
      cases changed
      have counted : memory = (before + 1 : UInt32) := reached
      subst counted
      exact ⟨⟨rfl, rfl⟩, rfl⟩
    | scanning addr i posMin valMin =>
      cases does
      cases changed
      obtain ⟨rfl, rest⟩ := reached
      exact ⟨scanRound_reached rest, rfl⟩
    | hitting addr i =>
      cases does
      cases changed
      obtain ⟨rfl, found⟩ := reached
      exact ⟨⟨addr, rfl, perform_checkAddr (by simp [backtraceCheckAddr, found])⟩, rfl⟩
    | placing addr posMin =>
      cases does
      cases changed
      obtain ⟨rfl, full⟩ := reached
      exact ⟨⟨rfl, full⟩, rfl⟩
    | counting addr posMin =>
      cases does
      cases changed
      obtain ⟨rfl, full⟩ := reached
      exact ⟨⟨addr, rfl, perform_checkAddr (by simp [backtraceCheckAddr, full, modify_both])⟩, rfl⟩
    | testing packet =>
      cases does
      cases changed
      obtain rfl := reached
      refine ⟨?_, rfl⟩
      dsimp only
      split
      · next enabled => exact ⟨rfl, enabled⟩
      · next disabled => exact ⟨rfl, by simpa using disabled⟩
    | measuring packet =>
      cases does
      cases changed
      obtain ⟨rfl, enabled⟩ := reached
      refine ⟨?_, rfl⟩
      dsimp only
      split
      · next full => exact ⟨rfl, enabled, full⟩
      · next room => exact ⟨(if_neg room).symm, enabled⟩
    | resetting packet w =>
      cases does
      cases changed
      obtain ⟨rfl, enabled, full⟩ := reached
      exact ⟨⟨(if_pos full).symm, enabled⟩, rfl⟩
    | copying packet w =>
      cases does
      obtain ⟨rfl, enabled⟩ := reached
      obtain ⟨after, copied, same⟩ := Option.map_eq_some_iff.mp changed
      cases same
      exact ⟨⟨enabled, after, copied, rfl⟩, rfl⟩
    | advancing packet w =>
      cases does
      cases changed
      obtain ⟨enabled, after, copied, rfl⟩ := reached
      exact ⟨⟨packet, rfl, perform_send (by simp [servercommSend_enabled enabled, copied])⟩, rfl⟩

/-- A thread that has the mutex is on its way through the call that it took it for. -/
theorem inside_reached {lock : Lock} {before memory : Guarded lock} {p here : Caller}
    (inside : Inside code lock before p memory here) : Reached lock before memory here.stage ∧ here.log = p.log := by
  induction inside with
  | enter takes =>
    obtain ⟨log, stage⟩ := p
    rename_i input next
    cases input with
    | call | wrote => cases stage <;> cases takes
    | go =>
      cases stage <;> cases takes
      exact ⟨entry_reached _ before, rfl⟩
  | access _ does changed ih =>
    obtain ⟨reached, log⟩ := access_reached ih.1 does changed
    exact ⟨reached, log.trans ih.2⟩
  | alone inside goes ih =>
    rename_i memory here next input
    obtain ⟨log, stage⟩ := here
    cases input with
    | wrote | go => cases stage <;> cases goes
    | call =>
      cases stage <;> cases goes
      cases lock <;> exact ih.1.elim

theorem leaving_performed {request : Request} {w : Write} {answer : Answer} {before memory : Guarded request.lock}
    (reached : Reached request.lock before memory (.leaving request w answer)) :
    request.perform w before = some (memory, answer) := by
  cases request with
  | headerInit => exact reached.2
  | checkAddr addr =>
    obtain ⟨_, same, performed⟩ := reached
    cases same
    exact performed
  | send packet =>
    obtain ⟨_, same, performed⟩ := reached
    cases same
    exact performed

/-! ## Every run -/

/-- The call that an event ends: the one whose mutex is given back. -/
def commitOf (s : CriticalSections.System Thread Guarded Caller) (event : Thread × Input) :
    List (Thread × Request × Write) :=
  match (s.point event.1).stage, event.2 with
  | .leaving request w _, .go => [(event.1, request, w)]
  | _, _ => []

/-- The calls of a run, in the order in which they give back their mutexes. -/
def commits (s : CriticalSections.System Thread Guarded Caller) :
    List (Thread × Input) → List (Thread × Request × Write)
  | [] => []
  | event :: rest => commitOf s event ++ ((step code s event).map fun next => commits next rest).getD []

/-- The threads have the answers that the calls made at once give them. -/
structure Agrees (c : Serial Thread Guarded Caller) (a : Calls Thread) : Prop where
  memory : c.memory = a.memory
  log : ∀ thread, (c.point thread).log = a.log thread

/-- Only at the end of a call is a mutex given back. -/
theorem release_leaving {p next : Caller} {input : Input} {lock : Lock}
    (gives : code p input = some (.release lock next)) : ∃ request w answer, p.stage = .leaving request w answer ∧
      input = .go ∧ lock = request.lock ∧ next = ⟨p.log ++ [(request, answer)], .idle⟩ := by
  obtain ⟨log, stage⟩ := p
  cases input with
  | call | wrote => cases stage <;> cases gives
  | go =>
    cases stage <;> cases gives
    exact ⟨_, _, _, rfl, rfl, rfl, rfl⟩

omit [DecidableEq Thread] in
/-- A thread goes on alone only into a call. -/
theorem alone_quiet {s : CriticalSections.System Thread Guarded Caller} {event : Thread × Input} {next : Caller}
    (goes : code (s.point event.1) event.2 = some (.alone next)) :
    commitOf s event = [] ∧ next.log = (s.point event.1).log := by
  unfold commitOf
  generalize s.point event.1 = p at goes ⊢
  obtain ⟨log, stage⟩ := p
  cases input : event.2 with
  | wrote | go => rw [input] at goes; cases stage <;> cases goes
  | call =>
    rw [input] at goes
    cases stage <;> cases goes
    exact ⟨rfl, rfl⟩

theorem serves_agrees {s : CriticalSections.System Thread Guarded Caller} {event : Thread × Input}
    {c c' : Serial Thread Guarded Caller} {a : Calls Thread} (serves : Serves code Caller.holds s event c c')
    (agrees : Agrees c a) : ∃ a', run callStep a (commitOf s event) = some a' ∧ Agrees c' a' := by
  cases serves with
  | @whole lock next gives inside =>
    obtain ⟨request, w, answer, stage, input, rfl, rfl⟩ := release_leaving gives
    obtain ⟨reached, log⟩ := inside_reached inside
    rw [stage] at reached
    have performed := leaving_performed reached
    rw [agrees.memory] at performed
    refine ⟨⟨update a.memory request.lock (s.memory request.lock),
      update a.log event.1 (a.log event.1 ++ [(request, answer)])⟩, ?_, ?_, ?_⟩
    · simp [commitOf, stage, input, run, callStep, performed]
    · rw [agrees.memory]
    · intro thread
      by_cases same : thread = event.1
      · subst same
        simp [log, agrees.log]
      · simpa [same] using agrees.log thread
  | @alone next goes same =>
    obtain ⟨quiet, log⟩ := alone_quiet goes
    refine ⟨a, by rw [quiet]; rfl, agrees.memory, ?_⟩
    intro thread
    by_cases mine : thread = event.1
    · subst mine
      simp [log, ← same, agrees.log]
    · simpa [mine] using agrees.log thread
  | nothing keeps =>
    refine ⟨a, ?_, agrees⟩
    have quiet : commitOf s event = [] := by
      unfold commitOf
      split
      · next request w answer stage input =>
        refine absurd ?_ (keeps request.lock ⟨(s.point event.1).log ++ [(request, answer)], .idle⟩)
        rw [input, code, stage]
      · rfl
    rw [quiet]
    rfl

/-- Nothing has been called yet. -/
def Calls.start (memory : ∀ lock, Guarded lock) : Calls Thread := ⟨memory, fun _ => []⟩

/-- The threads of the program before their first calls. -/
def threadsAt (memory : ∀ lock, Guarded lock) : CriticalSections.System Thread Guarded Caller :=
  Serial.start ⟨memory, fun _ => ⟨[], .idle⟩⟩

theorem run_agrees {s final : CriticalSections.System Thread Guarded Caller} {events : List (Thread × Input)}
    {c : Serial Thread Guarded Caller} {a : Calls Thread} (follows : Follows code Caller.holds s c) (agrees : Agrees c a)
    (ran : run (step code) s events = some final) :
    ∃ c' a', run callStep a (commits s events) = some a' ∧ Follows code Caller.holds final c' ∧ Agrees c' a' := by
  induction events generalizing s c a with
  | nil =>
    cases ran
    exact ⟨c, a, rfl, follows, agrees⟩
  | cons event rest ih =>
    obtain ⟨next, stepped, later⟩ := run_cons_some.mp ran
    obtain ⟨c', serves, follows'⟩ := step_follows code_disciplined follows stepped
    obtain ⟨a', called, agrees'⟩ := serves_agrees serves agrees
    obtain ⟨c'', a'', called', rest'⟩ := ih follows' agrees' later
    refine ⟨c'', a'', ?_, rest'⟩
    rw [commits, stepped, run_append, called]
    exact called'

/-- What a run comes to. -/
structure Served (s : CriticalSections.System Thread Guarded Caller) (a : Calls Thread) : Prop where
  log : ∀ thread, a.log thread = (s.point thread).log
  memory : ∀ lock, s.owner lock = none → a.memory lock = s.memory lock

theorem start_agrees {memory : ∀ lock, Guarded lock} {events : List (Thread × Input)}
    {s : CriticalSections.System Thread Guarded Caller} (ran : run (step code) (threadsAt memory) events = some s) :
    ∃ c a, run callStep (Calls.start memory) (commits (threadsAt memory) events) = some a ∧
      Follows code Caller.holds s c ∧ Agrees c a :=
  run_agrees (start_follows fun _ => rfl : Follows code Caller.holds (threadsAt memory) ⟨memory, fun _ => ⟨[], .idle⟩⟩)
    (⟨rfl, fun _ => rfl⟩ : Agrees _ (Calls.start memory)) ran

theorem run_served {memory : ∀ lock, Guarded lock} {events : List (Thread × Input)}
    {s : CriticalSections.System Thread Guarded Caller} (ran : run (step code) (threadsAt memory) events = some s) :
    ∃ a, run callStep (Calls.start memory) (commits (threadsAt memory) events) = some a ∧ Served s a := by
  obtain ⟨c, a, called, follows, agrees⟩ := start_agrees ran
  refine ⟨a, called, ?_, ?_⟩
  · intro thread
    rw [← agrees.log thread]
    cases has : (s.point thread).holds with
    | none => rw [follows.outside thread has]
    | some lock => exact (inside_reached (follows.inside thread lock has).2.2).2.symm
  · intro lock isFree
    rw [← agrees.memory, follows.free lock isFree]

/-- However the accesses of any number of threads come in between each other, the threads
    get the answers of whole calls, made one after the other as they give back their
    mutexes; and what a free mutex guards is as these calls leave it. -/
theorem calls_serialized (memory : ∀ lock, Guarded lock) (events : List (Thread × Input))
    (s : CriticalSections.System Thread Guarded Caller) (ran : run (step code) (threadsAt memory) events = some s) :
    ∃ a, run callStep (Calls.start memory) (commits (threadsAt memory) events) = some a ∧
      (∀ thread, a.log thread = (s.point thread).log) ∧
      ∀ lock, s.owner lock = none → a.memory lock = s.memory lock := by
  obtain ⟨a, called, log, free⟩ := run_served ran
  exact ⟨a, called, log, free⟩

/-- A thread takes its number while another one finds its address. -/
def mixed : List (Fin 2 × Input) :=
  [(0, .call .headerInit), (1, .call (.checkAddr 4096)), (0, .go), (0, .go), (1, .go), (1, .go), (0, .go), (1, .go),
    (0, .go), (1, .go), (0, .go)]

/-- One address is in the cache. -/
def oneCached : (lock : Lock) → Guarded lock
  | .msgCount => (0 : UInt32)
  | .socket => atLoad (List.Vector.replicate bufferSize 0) (List.Vector.replicate bufferSize 0)
  | .addrCount => [⟨4096, 1⟩]

theorem calls_serialized_mixed : ∃ s, run (step code) (threadsAt oneCached) mixed = some s ∧
    ∃ a, run callStep (Calls.start oneCached) [(1, .checkAddr 4096, .complete), (0, .headerInit, .complete)] = some a ∧
      (∀ thread, a.log thread = (s.point thread).log) ∧ ∀ lock, s.owner lock = none → a.memory lock = s.memory lock :=
  ⟨_, rfl, calls_serialized oneCached mixed _ rfl⟩

/-! ## Messages -/

/-- The calls that send a message. -/
def sendsOf (calls : List (Thread × Request × Write)) : List WriteFailures.Call :=
  calls.filterMap fun call =>
    match call.2.1 with
    | .send packet => some ⟨packet, call.2.2⟩
    | .headerInit | .checkAddr _ => none

/-- Only the calls that send have to do with the transport. -/
theorem callStep_sends {a next : Calls Thread} {call : Thread × Request × Write} (stepped : callStep a call = some next)
    (accepted : List Packet) : run WriteFailures.step ⟨a.memory .socket, accepted⟩ (sendsOf [call]) =
      some ⟨next.memory .socket, accepted ++ (sendsOf [call]).map WriteFailures.Call.packet⟩ := by
  obtain ⟨thread, request, w⟩ := call
  obtain ⟨memory, answer, performed, rfl⟩ := callStep_some stepped
  cases request with
  | headerInit =>
    have apart : update a.memory .msgCount memory .socket = a.memory .socket := update_of_ne (by decide) ..
    simp [sendsOf, Request.lock, apart]
  | checkAddr addr =>
    have apart : update a.memory .addrCount memory .socket = a.memory .socket := update_of_ne (by decide) ..
    simp [sendsOf, Request.lock, apart]
  | send packet =>
    obtain ⟨⟨t, res⟩, sent, same⟩ := Option.map_eq_some_iff.mp performed
    cases same
    cases send_returns sent
    have stepped' : WriteFailures.step ⟨a.memory .socket, accepted⟩ ⟨packet, w⟩ = some ⟨t, accepted ++ [packet]⟩ :=
      congrArg (Option.map _) sent
    simp [sendsOf, Request.lock, run, stepped']

theorem callRun_sends {a final : Calls Thread} {calls : List (Thread × Request × Write)}
    (ran : run callStep a calls = some final) (accepted : List Packet) :
    run WriteFailures.step ⟨a.memory .socket, accepted⟩ (sendsOf calls) =
      some ⟨final.memory .socket, accepted ++ (sendsOf calls).map WriteFailures.Call.packet⟩ := by
  induction calls generalizing a accepted with
  | nil =>
    cases ran
    simp [sendsOf]
  | cons call rest ih =>
    obtain ⟨next, stepped, later⟩ := run_cons_some.mp ran
    have split : sendsOf (call :: rest) = sendsOf [call] ++ sendsOf rest := List.filterMap_append (l := [call])
    rw [split, run_append, callStep_sends stepped accepted, Option.bind_some, ih later, List.map_append,
      List.append_assoc]

/-- Each thread's calls are answered in the order in which it makes them. -/
theorem callRun_log {a final : Calls Thread} {calls : List (Thread × Request × Write)}
    (ran : run callStep a calls = some final) (thread : Thread) :
    (final.log thread).map Prod.fst =
      (a.log thread).map Prod.fst ++ (calls.filter fun call => call.1 = thread).map fun call => call.2.1 := by
  induction calls generalizing a with
  | nil =>
    cases ran
    simp
  | cons call rest ih =>
    obtain ⟨next, stepped, later⟩ := run_cons_some.mp ran
    obtain ⟨thread', request, w⟩ := call
    obtain ⟨memory, answer, _, rfl⟩ := callStep_some stepped
    rw [ih later]
    by_cases mine : thread' = thread
    · subst mine
      simp
    · simp [mine, Ne.symm mine]

/-- Whatever the threads do at the same time, once nobody sends, what was sent is on the
    wire or in the transfer buffer, message after message and each of them whole, if and
    only if the physical writes complete; and the messages of one thread are in the order
    in which it sent them. -/
theorem sends_kept_iff (memory : ∀ lock, Guarded lock) (start : WriteFailures.Start (memory .socket))
    (events : List (Thread × Input)) (s : CriticalSections.System Thread Guarded Caller)
    (ran : run (step code) (threadsAt memory) events = some s) (isFree : s.owner .socket = none) :
    let calls := commits (threadsAt memory) events
    (WriteFailures.Kept ⟨s.memory .socket, (sendsOf calls).map WriteFailures.Call.packet⟩ ↔
      Meets WriteFailures.step WriteFailures.WriteCompletes ⟨memory .socket, []⟩ (sendsOf calls)) ∧
    ∀ thread, ((s.point thread).log.map Prod.fst) =
      (calls.filter fun call => call.1 = thread).map fun call => call.2.1 := by
  intro calls
  obtain ⟨a, called, log, free⟩ := run_served ran
  constructor
  · have fits : (memory .socket).transfertBufferSize ≤ bufferSize := by simp [start.empty]
    have kept : WriteFailures.Kept ⟨memory .socket, []⟩ :=
      ⟨[], [], rfl, by simp [Transport.wire, start.quiet],
        by simp [WriteFailures.held, Transport.buffered, start.empty]⟩
    obtain ⟨final, sent, _, iff⟩ := WriteFailures.run_spec fits kept (sendsOf calls)
    have same := (callRun_sends called []).symm.trans sent
    rw [List.nil_append, free .socket isFree] at same
    cases same
    exact iff
  · intro thread
    rw [← log thread, callRun_log called]
    simp [Calls.start, calls]

/-- The buffered transport of an initialised library, that has sent nothing yet. -/
def opened : (lock : Lock) → Guarded lock
  | .msgCount => (0 : UInt32)
  | .socket =>
    { atLoad (List.Vector.replicate bufferSize 0) (List.Vector.replicate bufferSize 0) with
      socket := 3, transfertBufferEnabled := true, init := true }
  | .addrCount => backtraceInit 8

/-- Two threads send at the same time; the second one waits for the mutex. -/
def crossing : List (Fin 2 × Input) :=
  [(0, .call (.send ⟨List.replicate 31 1, by decide⟩)), (1, .call (.send ⟨List.replicate 59 2, by decide⟩)),
    (1, .go), (1, .go), (1, .go), (1, .go), (1, .go), (1, .go), (0, .go), (0, .go), (0, .go), (0, .go), (0, .go),
    (0, .go)]

theorem sends_kept_iff_crossing : ∃ s, run (step code) (threadsAt opened) crossing = some s ∧
    WriteFailures.Kept ⟨s.memory .socket, [⟨List.replicate 59 2, by decide⟩, ⟨List.replicate 31 1, by decide⟩]⟩ := by
  obtain ⟨kept, _⟩ := sends_kept_iff opened ⟨rfl, rfl⟩ crossing _ rfl rfl
  refine ⟨_, rfl, kept.mpr ⟨?_, fun second _ => ⟨?_, fun _ _ => trivial⟩⟩⟩
  · simp [WriteFailures.WriteCompletes]
  · simp [WriteFailures.WriteCompletes]

/-! ## The transfer buffer -/

/-- How many steps a thread is from the end of its call at most, with so many entries in the
    cache. -/
def Stage.left (size : Nat) : Stage → Nat
  | .idle | .called _ => 0
  | .leaving .. => 1
  | .numbering | .hitting .. | .counting .. | .advancing .. | .writing _ => 2
  | .storing _ | .placing .. | .copying .. => 3
  | .loading | .resetting .. => 4
  | .flushing _ => 5
  | .measuring _ => 6
  | .testing _ => 7
  | .scanning _ i _ _ => size - i + 4

end Aleakd.AtomicCalls
