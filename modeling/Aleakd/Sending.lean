import Aleakd.Buffering
import Aleakd.Messages
import Aleakd.Runs

/-!
The library of a captured program as a sender: messages of any threads, each under the
lock of the socket, and the parts of `servercomm_init` and `servercomm_dispose`, which take
no lock, between them. As long as no message is submitted while one of the two is under
way, every physical write that completes puts whole messages on the wire, in the order in
which they were submitted.
-/
namespace Aleakd.Sending
open Aleakd.Packed Aleakd.Messages Aleakd.Memory Aleakd.ServerComm Aleakd.Buffering

/-- How far `servercomm_init` or `servercomm_dispose` has come. -/
inductive Phase where
  /-- neither is under way -/
  | idle
  /-- the pipe is open, and the application message is still to be sent -/
  | opened
  /-- it is sent, and what has waited is not -/
  | announced
  /-- that is sent too, and the transfer buffer is still off -/
  | caughtUp
  /-- `servercomm_dispose` has written the transfer buffer, and is to turn it off -/
  | flushed
deriving DecidableEq

/-- The globals of the library, and its messages so far: those that were handed to
    `servercomm_send`, in this order, and those that wait for it to be possible. -/
structure Sender where
  transport : Transport
  phase : Phase
  sent : List LibraryMessage
  waiting : List LibraryMessage

/-- The messages, in the order in which the wire is to carry them. -/
def Sender.messages (s : Sender) : List LibraryMessage := s.sent ++ s.waiting

/-- The application message of `servercomm_init`. -/
def appMessage (header : ServerMsgHeaderV1) : LibraryMessage :=
  ⟨.app { header with msgCode := MsgCode.init.byte }, rfl⟩

/-- A program that has been started; its buffers are zero, as globals are. -/
def Sender.start : Sender :=
  ⟨atLoad (List.Vector.replicate bufferSize 0) (List.Vector.replicate bufferSize 0), .idle, [], []⟩

/-- The part of `servercomm_init` that sends what has waited. -/
def servercommInitPre (t : Transport) (w : Write) : Option Transport :=
  if 0 < t.preInitPos then
    (servercommSend t w (t.preInitBuffer.val.take t.preInitPos)).map fun sent => { sent.1 with preInitPos := 0 }
  else some t

/-- The end of `servercomm_init`. -/
def servercommInitEnable (t : Transport) : Transport := { t with transfertBufferEnabled := true, init := true }

/-- What happens, and how the physical write ends where there is one. -/
inductive Event where
  /-- a thread submits a message to `servercomm_send_safe` -/
  | submit (m : LibraryMessage) (w : Write)
  /-- `servercomm_init` finds the pipe, and `open` gives a file descriptor -/
  | initOpen (fd : Int)
  /-- it sends the application message -/
  | initApp (header : ServerMsgHeaderV1) (w : Write)
  /-- it sends what has waited -/
  | initPre (w : Write)
  /-- it turns the transfer buffer on, and returns -/
  | initEnable
  /-- `servercomm_dispose` writes the transfer buffer -/
  | disposeWrite (w : Write)
  /-- it turns the transfer buffer off, and returns -/
  | disposeClear

def step (s : Sender) : Event → Option Sender
  | .submit m w =>
    (servercommSendSafe s.transport w m.message.encode).map fun sent =>
      if s.transport.socket ≠ -1 then { s with transport := sent.1, sent := s.sent ++ [m] }
      else { s with transport := sent.1, waiting := s.waiting ++ [m] }
  | .initOpen fd =>
    if s.phase = .idle ∧ s.transport.socket = -1 ∧ 0 < fd then
      some { s with transport := (servercommNamePipe s.transport 0 fd).1, phase := .opened }
    else none
  | .initApp header w =>
    if s.phase = .opened then
      (servercommSendSafe s.transport w (appMessage header).message.encode).map fun sent =>
        { s with transport := sent.1, phase := .announced, sent := s.sent ++ [appMessage header] }
    else none
  | .initPre w =>
    if s.phase = .announced then
      (servercommInitPre s.transport w).map fun transport =>
        ⟨transport, .caughtUp, s.sent ++ s.waiting, []⟩
    else none
  | .initEnable =>
    if s.phase = .caughtUp then some { s with transport := servercommInitEnable s.transport, phase := .idle }
    else none
  | .disposeWrite w =>
    if s.phase = .idle then some { s with transport := servercommDisposeWrite s.transport w, phase := .flushed }
    else none
  | .disposeClear =>
    if s.phase = .flushed then some { s with transport := servercommDisposeClear s.transport, phase := .idle }
    else none

/-- The parts of `servercomm_init` make up the whole. -/
theorem init_parts (t : Transport) {fd : Int} (opened : 0 < fd) (app : List UInt8) (appWrite preWrite : Write) :
    (servercommInit t 0 fd app appWrite preWrite).map Prod.fst =
      (servercommSendSafe (servercommNamePipe t 0 fd).1 appWrite app).bind fun sent =>
        (servercommInitPre sent.1 preWrite).map servercommInitEnable := by
  have valid : ¬ fd ≤ 0 := by omega
  have socket : fd ≠ -1 := by omega
  have safe : servercommSendSafe { t with socket := fd } appWrite app =
      servercommSend { t with socket := fd } appWrite app := if_pos socket
  simp only [servercommInit, servercommNamePipe, if_true, if_neg valid, safe, Option.bind_eq_bind, Option.bind_some,
    Option.map_bind]
  refine Option.bind_congr fun sent called => ?_
  have zero : sent.2 = 0 := send_returns called
  rw [Function.comp_apply, servercommInitPre]
  by_cases waits : 0 < sent.1.preInitPos
  · rw [if_pos ⟨zero, waits⟩, if_pos waits]
    cases servercommSend sent.1 preWrite (sent.1.preInitBuffer.val.take sent.1.preInitPos) <;> rfl
  · rw [if_neg (fun both => waits both.2), if_neg waits]
    rfl

/-- No message is submitted while `servercomm_init` or `servercomm_dispose` is under way,
    and every physical write completes. -/
def Orderly (s : Sender) : Event → Prop
  | .submit _ w => s.phase = .idle ∧ w = .complete
  | .initApp _ w | .initPre w | .disposeWrite w => w = .complete
  | .initOpen _ | .initEnable | .disposeClear => True

instance Orderly.decidable (s : Sender) : (e : Event) → Decidable (Orderly s e)
  | .submit _ w => inferInstanceAs (Decidable (s.phase = .idle ∧ w = .complete))
  | .initApp _ w | .initPre w | .disposeWrite w => inferInstanceAs (Decidable (w = .complete))
  | .initOpen _ | .initEnable | .disposeClear => inferInstanceAs (Decidable True)

/-- The bytes of the messages that no write has taken yet. -/
def unsentBytes (s : Sender) : List UInt8 :=
  (if s.transport.transfertBufferEnabled ∧ s.phase ≠ .flushed then s.transport.buffered else []) ++
    s.transport.preInitBuffer.val.take s.transport.preInitPos

/-- The pipe is open, and nothing waits for it. -/
structure Connected (s : Sender) : Prop where
  opened : s.transport.socket ≠ -1
  position : s.transport.preInitPos = 0
  waiting : s.waiting = []

/-- What the library does with a message, and where those are that it has not written. -/
inductive Regime (s : Sender) (unsent : List LibraryMessage) : Prop where
  /-- they wait for the pipe -/
  | waiting (kept : Waiting s.transport (unsent.map fun m => m.message.packet)) (waiting : s.waiting = unsent)
      (phase : s.phase = .idle ∨ s.phase = .flushed)
  /-- the pipe is open, and they are still to be sent -/
  | opening (phase : s.phase = .opened ∨ s.phase = .announced) (opened : s.transport.socket ≠ -1)
      (disabled : s.transport.transfertBufferEnabled = false) (empty : s.transport.transfertBufferSize = 0)
      (content : s.transport.preInitBuffer.val.take s.transport.preInitPos = encodeAll unsent)
      (position : s.transport.preInitPos = (encodeAll unsent).length) (waiting : s.waiting = unsent)
  /-- they have been sent, and the transfer buffer is empty -/
  | caughtUp (phase : s.phase = .caughtUp) (connected : Connected s)
      (disabled : s.transport.transfertBufferEnabled = false) (empty : s.transport.transfertBufferSize = 0)
      (none : unsent = [])
  /-- they are in the transfer buffer -/
  | buffering (phase : s.phase = .idle) (connected : Connected s) (enabled : s.transport.transfertBufferEnabled)
      (buffered : s.transport.buffered = encodeAll unsent)
      (size : s.transport.transfertBufferSize = (encodeAll unsent).length)
      (small : (encodeAll unsent).length < bufferSize)
  /-- they were in it, and have been written -/
  | flushed (phase : s.phase = .flushed) (connected : Connected s) (none : unsent = [])
  /-- each message is written at once -/
  | direct (phase : s.phase = .idle) (connected : Connected s)
      (disabled : s.transport.transfertBufferEnabled = false) (none : unsent = [])

/-- Each write so far took the messages of one of `groups`, and the others are still to be
    written. -/
structure Grouped (s : Sender) (groups : List (List LibraryMessage)) (unsent : List LibraryMessage) : Prop where
  messages : s.messages = groups.flatten ++ unsent
  writes : s.transport.writes = groups.map encodeAll
  short : ∀ group ∈ groups, (encodeAll group).length ≤ bufferSize
  regime : Regime s unsent

theorem encodeAll_flatten (groups : List (List LibraryMessage)) :
    encodeAll groups.flatten = (groups.map encodeAll).flatten := by
  induction groups with
  | nil => rfl
  | cons group rest ih => simp [ih]

theorem Grouped.wire {s : Sender} {groups : List (List LibraryMessage)} {unsent : List LibraryMessage}
    (grouped : Grouped s groups unsent) : s.transport.wire = encodeAll groups.flatten := by
  rw [Transport.wire, grouped.writes, encodeAll_flatten]

theorem Regime.unsent_eq {s : Sender} {unsent : List LibraryMessage} (regime : Regime s unsent) :
    unsentBytes s = encodeAll unsent := by
  cases regime with
  | waiting kept => simp [unsentBytes, kept.disabled, kept.content, encodeAll_eq_concat]
  | opening _ _ disabled _ content => simp [unsentBytes, disabled, content]
  | caughtUp _ connected disabled _ none => simp [unsentBytes, disabled, connected.position, none]
  | buffering phase connected enabled buffered => simp [unsentBytes, phase, enabled, connected.position, buffered]
  | flushed phase connected none => simp [unsentBytes, phase, connected.position, none]
  | direct _ connected disabled none => simp [unsentBytes, disabled, connected.position, none]

/-- What is still to be written fits in a buffer. -/
theorem Regime.small {s : Sender} {unsent : List LibraryMessage} (regime : Regime s unsent) :
    (encodeAll unsent).length ≤ bufferSize := by
  have size := s.transport.preInitBuffer.property
  cases regime with
  | waiting kept =>
    have taken := congrArg List.length kept.content
    rw [List.length_take, ← encodeAll_eq_concat] at taken
    omega
  | opening _ _ _ _ content =>
    have taken := congrArg List.length content
    rw [List.length_take] at taken
    omega
  | buffering _ _ _ _ _ small => exact Nat.le_of_lt small
  | caughtUp _ _ _ _ none | flushed _ _ none | direct _ _ _ none => simp [none]

theorem start_grouped : Grouped Sender.start [] [] where
  messages := rfl
  writes := rfl
  short := by simp
  regime := .waiting (waiting_atLoad _ _) rfl (.inl rfl)

/-! ## The physical writes -/

theorem Connected.send {s next : Sender} (connected : Connected s) {w : Write} {buff : List UInt8} {res : Int}
    (sent : servercommSend s.transport w buff = some (next.transport, res)) (waiting : next.waiting = s.waiting) :
    Connected next where
  opened := by
    rw [(send_sameRegime sent).1]
    exact connected.opened
  position := (send_preInit sent).trans connected.position
  waiting := waiting.trans connected.waiting

/-- One more write, of whole messages. -/
theorem short_concat {groups : List (List LibraryMessage)} (short : ∀ group ∈ groups, (encodeAll group).length ≤ bufferSize)
    {last : List LibraryMessage} (fits : (encodeAll last).length ≤ bufferSize) :
    ∀ group ∈ groups ++ [last], (encodeAll group).length ≤ bufferSize := by
  intro group member
  rcases List.mem_append.mp member with old | new
  · exact short group old
  · rwa [List.mem_singleton.mp new]

theorem encode_small (m : LibraryMessage) : m.message.encode.length < bufferSize := m.message.packet.small

/-! ## A message is submitted -/

/-- It joins those that wait, as long as there is room. -/
theorem submit_waiting {s next : Sender} {groups : List (List LibraryMessage)} {unsent : List LibraryMessage}
    (grouped : Grouped s groups unsent) (kept : Waiting s.transport (unsent.map fun m => m.message.packet))
    (waiting : s.waiting = unsent) (idle : s.phase = .idle) {m : LibraryMessage}
    (stepped : step s (.submit m .complete) = some next) : Grouped next groups (unsent ++ [m]) := by
  have closed : ¬ s.transport.socket ≠ -1 := not_not_intro kept.closed
  simp only [step, if_neg closed, Option.map_eq_some_iff] at stepped
  obtain ⟨⟨t', res⟩, sent, rfl⟩ := stepped
  have fits : (concat (unsent.map fun m => m.message.packet)).length + m.message.packet.bytes.length ≤ bufferSize := by
    rw [← kept.position]
    simp only [servercommSendSafe, if_neg closed, Option.map_eq_some_iff] at sent
    obtain ⟨after, copied, _⟩ := sent
    exact (memcpy_isSome_iff _ _ m.message.encode).mp (by rw [copied]; rfl)
  obtain ⟨t'', sent', kept'⟩ := waiting_send kept m.message.packet fits
  cases sent.symm.trans sent'
  have messages := grouped.messages
  simp only [Sender.messages] at messages
  refine ⟨?_, ?_, grouped.short, .waiting ?_ ?_ (.inl idle)⟩
  · simp only [Sender.messages]
    rw [← List.append_assoc, messages, List.append_assoc]
  · rw [kept'.quiet, ← kept.quiet, grouped.writes]
  · simpa using kept'
  · simp only [waiting]

theorem submit_connected {s next : Sender} (connected : Connected s) {m : LibraryMessage}
    (stepped : step s (.submit m .complete) = some next) :
    ∃ res, servercommSend s.transport .complete m.message.encode = some (next.transport, res) ∧ Connected next ∧
      next.phase = s.phase ∧ next.messages = s.messages ++ [m] := by
  simp only [step, servercommSendSafe, if_pos connected.opened, Option.map_eq_some_iff] at stepped
  obtain ⟨⟨t', res⟩, sent, rfl⟩ := stepped
  exact ⟨res, sent, connected.send sent rfl, rfl, by simp [Sender.messages, connected.waiting]⟩

theorem submit_buffering {s next : Sender} {groups : List (List LibraryMessage)} {unsent : List LibraryMessage}
    (grouped : Grouped s groups unsent) (idle : s.phase = .idle) (connected : Connected s)
    (enabled : s.transport.transfertBufferEnabled) (buffered : s.transport.buffered = encodeAll unsent)
    (size : s.transport.transfertBufferSize = (encodeAll unsent).length)
    (small : (encodeAll unsent).length < bufferSize) {m : LibraryMessage}
    (stepped : step s (.submit m .complete) = some next) :
    ∃ written unsent', Grouped next (groups ++ written) unsent' := by
  have less := encode_small m
  obtain ⟨res, sent, connected', phase, messages⟩ := submit_connected connected stepped
  by_cases room : s.transport.transfertBufferSize + m.message.encode.length < bufferSize
  · obtain ⟨t', sent', ⟨_, still⟩, writes, buffered', size'⟩ := send_joins .complete enabled room
    cases sent.symm.trans sent'
    refine ⟨[], unsent ++ [m], ?_, ?_, ?_, .buffering (phase.trans idle) connected' ?_ ?_ ?_ ?_⟩
    · simp [messages, grouped.messages]
    · rw [writes, grouped.writes, List.append_nil]
    · simpa using grouped.short
    · rwa [still]
    · simp [buffered', buffered]
    · simp [size', size]
    · simpa [size] using room
  · obtain ⟨t', sent', ⟨_, still⟩, writes, buffered', size'⟩ :=
      send_flushes .complete enabled (Nat.not_lt.mp room) less.le
    cases sent.symm.trans sent'
    refine ⟨[unsent], [m], ?_, ?_, short_concat grouped.short small.le,
      .buffering (phase.trans idle) connected' ?_ ?_ ?_ ?_⟩
    · simp [messages, grouped.messages]
    · simp [writes, grouped.writes, buffered]
    · rwa [still]
    · simp [buffered']
    · simp [size']
    · simpa using less

theorem submit_direct {s next : Sender} {groups : List (List LibraryMessage)} {unsent : List LibraryMessage}
    (grouped : Grouped s groups unsent) (idle : s.phase = .idle) (connected : Connected s)
    (disabled : s.transport.transfertBufferEnabled = false) (none : unsent = []) {m : LibraryMessage}
    (stepped : step s (.submit m .complete) = some next) : Grouped next (groups ++ [[m]]) [] := by
  have less := encode_small m
  obtain ⟨res, sent, connected', phase, messages⟩ := submit_connected connected stepped
  rw [send_direct _ _ disabled, Option.some.injEq, Prod.mk.injEq] at sent
  obtain ⟨written, _⟩ := sent
  refine ⟨?_, ?_, short_concat grouped.short (by simpa using less.le),
    .direct (phase.trans idle) connected' ?_ rfl⟩
  · simp [messages, grouped.messages, none]
  · simp [← written, servercommSendPhysical, grouped.writes]
  · rw [← written]
    exact disabled

theorem submit_grouped {s next : Sender} {groups : List (List LibraryMessage)} {unsent : List LibraryMessage}
    (grouped : Grouped s groups unsent) (idle : s.phase = .idle) {m : LibraryMessage}
    (stepped : step s (.submit m .complete) = some next) :
    ∃ written unsent', Grouped next (groups ++ written) unsent' := by
  cases grouped.regime with
  | waiting kept waiting => exact ⟨[], _, by simpa using submit_waiting grouped kept waiting idle stepped⟩
  | buffering _ connected enabled buffered size small =>
    exact submit_buffering grouped idle connected enabled buffered size small stepped
  | direct _ connected disabled none => exact ⟨_, _, submit_direct grouped idle connected disabled none stepped⟩
  | opening phase => simp [idle] at phase
  | caughtUp phase | flushed phase => simp [idle] at phase

/-! ## `servercomm_init` -/

theorem initOpen_grouped {s next : Sender} {groups : List (List LibraryMessage)} {unsent : List LibraryMessage}
    (grouped : Grouped s groups unsent) {fd : Int} (stepped : step s (.initOpen fd) = some next) :
    Grouped next groups unsent := by
  simp only [step, Option.ite_none_right_eq_some, Option.some.injEq] at stepped
  obtain ⟨⟨idle, closed, opened⟩, rfl⟩ := stepped
  have socket : fd ≠ -1 := by omega
  cases grouped.regime with
  | waiting kept waiting =>
    refine ⟨grouped.messages, grouped.writes, grouped.short, .opening (.inl rfl) socket kept.disabled kept.empty ?_ ?_ waiting⟩
    · rw [encodeAll_eq_concat]
      exact kept.content
    · rw [encodeAll_eq_concat]
      exact kept.position
  | opening _ opened' => exact absurd closed opened'
  | caughtUp _ connected | flushed _ connected | direct _ connected | buffering _ connected =>
    exact absurd closed connected.opened

theorem initApp_grouped {s next : Sender} {groups : List (List LibraryMessage)} {unsent : List LibraryMessage}
    (grouped : Grouped s groups unsent) {header : ServerMsgHeaderV1}
    (stepped : step s (.initApp header .complete) = some next) :
    Grouped next (groups ++ [[appMessage header]]) unsent := by
  simp only [step, Option.ite_none_right_eq_some, Option.map_eq_some_iff] at stepped
  obtain ⟨phase, ⟨t', res⟩, sent, rfl⟩ := stepped
  cases grouped.regime with
  | opening _ opened disabled empty content position waiting =>
    have messages := grouped.messages
    simp only [Sender.messages, waiting] at messages
    have handed : s.sent = groups.flatten := List.append_cancel_right messages
    rw [servercommSendSafe, if_pos opened, send_direct _ _ disabled, Option.some.injEq, Prod.mk.injEq] at sent
    obtain ⟨rfl, _⟩ := sent
    refine ⟨?_, ?_, short_concat grouped.short ?_, .opening (.inr rfl) opened disabled empty content position waiting⟩
    · simp [Sender.messages, waiting, handed]
    · simp [servercommSendPhysical, grouped.writes]
    · simpa using (encode_small (appMessage header)).le
  | waiting _ _ idle => simp [phase] at idle
  | caughtUp other | flushed other | direct other | buffering other => simp [phase] at other

theorem initPre_grouped {s next : Sender} {groups : List (List LibraryMessage)} {unsent : List LibraryMessage}
    (grouped : Grouped s groups unsent) (stepped : step s (.initPre .complete) = some next) :
    ∃ written, Grouped next (groups ++ written) [] := by
  simp only [step, Option.ite_none_right_eq_some, Option.map_eq_some_iff] at stepped
  obtain ⟨phase, t', sent, rfl⟩ := stepped
  cases grouped.regime with
  | opening _ opened disabled empty content position waiting =>
    have small := grouped.regime.small
    have messages := grouped.messages
    simp only [Sender.messages] at messages
    rw [servercommInitPre, send_direct _ _ disabled] at sent
    split at sent
    · cases sent
      refine ⟨[unsent], ?_, ?_, short_concat grouped.short small, .caughtUp rfl ⟨opened, rfl, rfl⟩ disabled empty rfl⟩
      · simp [Sender.messages, messages]
      · simp [servercommSendPhysical, grouped.writes, content]
    · next nothing =>
      cases sent
      have zero : s.transport.preInitPos = 0 := by omega
      have none : unsent = [] := by
        cases unsent with
        | nil => rfl
        | cons m rest =>
          have := m.message.size_pos
          rw [zero] at position
          simp at position
          omega
      refine ⟨[], ?_, ?_, ?_, .caughtUp rfl ⟨opened, zero, rfl⟩ disabled empty rfl⟩
      · simp [Sender.messages, messages, none]
      · simp [grouped.writes]
      · simpa using grouped.short
  | waiting _ _ idle => simp [phase] at idle
  | caughtUp other | flushed other | direct other | buffering other => simp [phase] at other

theorem initEnable_grouped {s next : Sender} {groups : List (List LibraryMessage)} {unsent : List LibraryMessage}
    (grouped : Grouped s groups unsent) (stepped : step s .initEnable = some next) : Grouped next groups unsent := by
  simp only [step, Option.ite_none_right_eq_some, Option.some.injEq] at stepped
  obtain ⟨phase, rfl⟩ := stepped
  cases grouped.regime with
  | caughtUp _ connected disabled empty none =>
    refine ⟨grouped.messages, grouped.writes, grouped.short,
      .buffering rfl ⟨connected.opened, connected.position, connected.waiting⟩ rfl ?_ ?_ ?_⟩
    · simp [Transport.buffered, servercommInitEnable, empty, none]
    · simp [servercommInitEnable, empty, none]
    · simp [none, bufferSize]
  | waiting _ _ idle => simp [phase] at idle
  | opening other => simp [phase] at other
  | flushed other | direct other | buffering other => simp [phase] at other

/-! ## `servercomm_dispose` -/

theorem disposeWrite_grouped {s next : Sender} {groups : List (List LibraryMessage)} {unsent : List LibraryMessage}
    (grouped : Grouped s groups unsent) (stepped : step s (.disposeWrite .complete) = some next) :
    ∃ written unsent', Grouped next (groups ++ written) unsent' := by
  simp only [step, Option.ite_none_right_eq_some, Option.some.injEq] at stepped
  obtain ⟨phase, rfl⟩ := stepped
  have messages : s.sent ++ s.waiting = groups.flatten ++ unsent := grouped.messages
  cases grouped.regime with
  | waiting kept waiting =>
    have same : servercommDisposeWrite s.transport .complete = s.transport := by
      simp [servercommDisposeWrite, kept.closed]
    rw [same]
    refine ⟨[], unsent, ?_, ?_, ?_, .waiting kept waiting (.inr rfl)⟩
    · simpa [Sender.messages] using messages
    · simpa using grouped.writes
    · simpa using grouped.short
  | buffering _ connected enabled buffered size small =>
    have write : servercommDisposeWrite s.transport .complete =
        (servercommSendPhysical s.transport .complete s.transport.buffered).1 := if_pos ⟨connected.opened, enabled⟩
    rw [write]
    refine ⟨[unsent], [], ?_, ?_, short_concat grouped.short small.le,
      .flushed rfl ⟨connected.opened, connected.position, connected.waiting⟩ rfl⟩
    · simpa [Sender.messages] using messages
    · simp [servercommSendPhysical, buffered, grouped.writes]
  | direct _ connected disabled none =>
    have same : servercommDisposeWrite s.transport .complete = s.transport := by
      simp [servercommDisposeWrite, disabled]
    rw [same]
    refine ⟨[], [], ?_, ?_, ?_, .flushed rfl ⟨connected.opened, connected.position, connected.waiting⟩ rfl⟩
    · simpa [Sender.messages, none] using messages
    · simpa using grouped.writes
    · simpa using grouped.short
  | opening other => simp [phase] at other
  | caughtUp other | flushed other => simp [phase] at other

theorem disposeClear_grouped {s next : Sender} {groups : List (List LibraryMessage)} {unsent : List LibraryMessage}
    (grouped : Grouped s groups unsent) (stepped : step s .disposeClear = some next) : Grouped next groups unsent := by
  simp only [step, Option.ite_none_right_eq_some, Option.some.injEq] at stepped
  obtain ⟨phase, rfl⟩ := stepped
  cases grouped.regime with
  | waiting kept waiting =>
    have same : servercommDisposeClear s.transport = s.transport := by simp [servercommDisposeClear, kept.closed]
    rw [same]
    exact ⟨grouped.messages, grouped.writes, grouped.short, .waiting kept waiting (.inl rfl)⟩
  | flushed _ connected none =>
    have clear : servercommDisposeClear s.transport =
        { s.transport with transfertBufferEnabled := false, init := false } := if_pos connected.opened
    rw [clear]
    exact ⟨grouped.messages, grouped.writes, grouped.short,
      .direct rfl ⟨connected.opened, connected.position, connected.waiting⟩ rfl none⟩
  | opening other => simp [phase] at other
  | caughtUp other | direct other | buffering other => simp [phase] at other

/-- Writes are only ever added. -/
theorem step_grouped {s next : Sender} {groups : List (List LibraryMessage)} {unsent : List LibraryMessage}
    (grouped : Grouped s groups unsent) {e : Event} (orderly : Orderly s e) (stepped : step s e = some next) :
    ∃ written unsent', Grouped next (groups ++ written) unsent' := by
  cases e with
  | submit m w =>
    obtain ⟨idle, rfl⟩ := orderly
    exact submit_grouped grouped idle stepped
  | initOpen fd => exact ⟨[], unsent, by simpa using initOpen_grouped grouped stepped⟩
  | initApp header w =>
    obtain rfl : w = .complete := orderly
    exact ⟨_, unsent, initApp_grouped grouped stepped⟩
  | initPre w =>
    obtain rfl : w = .complete := orderly
    obtain ⟨written, grouped'⟩ := initPre_grouped grouped stepped
    exact ⟨written, [], grouped'⟩
  | initEnable => exact ⟨[], unsent, by simpa using initEnable_grouped grouped stepped⟩
  | disposeWrite w =>
    obtain rfl : w = .complete := orderly
    exact disposeWrite_grouped grouped stepped
  | disposeClear => exact ⟨[], unsent, by simpa using disposeClear_grouped grouped stepped⟩

end Aleakd.Sending
