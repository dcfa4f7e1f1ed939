import Aleakd.Devices

/-!
The TCP transport: any number of programs connect, write and go, and the server serves one
of them at a time. Its slots run one after the other in the event loop of its thread; the
buffer of `doReadMsg` is there for one run of the slot that reads.
-/
namespace Aleakd.Sockets
open Aleakd.Messages Aleakd.Operations Aleakd.Receiver Aleakd.Framing Aleakd.Reassembly Aleakd.ServerComm
open Aleakd.Runs Aleakd.Sending Aleakd.Devices

/-- A client that the server serves, and how many of its bytes the server has read. -/
structure Connection where
  program : Nat
  taken : Nat

structure System where
  senders : Nat → Sender
  /-- `m_pTcpClientSocket` -/
  client : Option Connection
  /-- the buffer of `doReadMsg`, while `onSocketReadyToRead` runs -/
  pBuffer : Option (List UInt8)
  calls : List Callback
  /-- the clients before, as they were when their connections were closed -/
  closed : List Connection
  refused : List Nat

def System.initial : System := ⟨fun _ => Sender.start, none, none, [], [], []⟩

/-- The clients that the server has served, one after the other. -/
def System.served (s : System) : List Connection := s.closed ++ s.client.toList

/-- The programs that have connected. -/
def System.connected (s : System) : List Nat := s.served.map Connection.program ++ s.refused

/-- The bytes of a client that the server has not read. -/
def System.available (s : System) (c : Connection) : List UInt8 :=
  (s.senders c.program).transport.wire.drop c.taken

inductive Event where
  | program (i : Nat) (e : Sending.Event)
  /-- `nextPendingConnection` gives the socket of a program, which connects once -/
  | newConnection (i : Nat)
  | readyRead
  /-- the socket gives `k` bytes -/
  | read (k : Nat)
  /-- the socket gives 0, as no more bytes have arrived -/
  | drained
  | disconnected

def step (s : System) : Event → Option System
  | .program i e =>
    (Sending.step (s.senders i) e).map fun sender => { s with senders := Function.update s.senders i sender }
  | .newConnection i =>
    if s.pBuffer = none ∧ i ∉ s.connected then
      match s.client with
      | none => some { s with client := some ⟨i, 0⟩ }
      | some _ => some { s with refused := s.refused ++ [i] }
    else none
  | .readyRead => if s.client.isSome ∧ s.pBuffer = none then some { s with pBuffer := some [] } else none
  | .read k =>
    match s.client, s.pBuffer with
    | some c, some pBuffer =>
      if 0 < k ∧ k ≤ 4096 ∧ k ≤ (s.available c).length then
        -- `doReadMsg` gives false in the end, and the slot is over with it
        (readRound pBuffer ((s.available c).take k)).map fun (calls, kept) =>
          { s with client := some { c with taken := c.taken + k }, pBuffer := kept, calls := s.calls ++ calls }
      else none
    | _, _ => none
  | .drained => s.pBuffer.map fun _ => { s with pBuffer := none }
  | .disconnected =>
    if s.pBuffer = none then some { s with client := none, closed := s.closed ++ s.client.toList } else none

/-- The messages of a client that the handler is called for. -/
def System.told (s : System) (c : Connection) : List LibraryMessage :=
  complete (s.senders c.program).messages c.taken

/-- The programs are orderly, and a read brings 932 bytes, or ends with a message, and so
    does what has arrived. -/
def Keeps (s : System) : Event → Prop
  | .program i e => Orderly (s.senders i) e
  | .read k => ∀ c ∈ s.client, 932 ≤ k ∨ settled (s.senders c.program).messages (c.taken + k) = c.taken + k
  | .drained => s.pBuffer = some []
  | .newConnection _ | .readyRead | .disconnected => True

instance (s : System) : (e : Event) → Decidable (Keeps s e)
  | .program i e => inferInstanceAs (Decidable (Orderly (s.senders i) e))
  | .read k => inferInstanceAs (Decidable (∀ c ∈ s.client,
      932 ≤ k ∨ settled (s.senders c.program).messages (c.taken + k) = c.taken + k))
  | .drained => inferInstanceAs (Decidable (s.pBuffer = some []))
  | .newConnection _ | .readyRead | .disconnected => inferInstanceAs (Decidable True)

/-! ## What holds in every run -/

/-- What has been read of a client, and what is left of it in the buffer. -/
structure Served (senders : Nat → Sender) (c : Connection) (left : List UInt8) : Prop where
  inside : c.taken ≤ (senders c.program).transport.wire.length
  left : pending (senders c.program).messages c.taken = left

structure Inv (s : System) : Prop where
  grouped : ∀ i, ∃ groups unsent, Grouped (s.senders i) groups unsent
  closed : ∀ c ∈ s.closed, Served s.senders c []
  client : ∀ c ∈ s.client, Served s.senders c (s.pBuffer.getD [])
  calls : s.calls = s.served.flatMap fun c => handlerCalls (s.told c)
  apart : s.connected.Nodup

theorem initial_inv : Inv System.initial where
  grouped _ := ⟨[], [], start_grouped⟩
  closed := by simp [System.initial]
  client := by simp [System.initial]
  calls := rfl
  apart := by simp [System.initial, System.connected, System.served]

theorem mem_served {s : System} {c : Connection} : c ∈ s.served ↔ c ∈ s.closed ∨ c ∈ s.client := by
  simp [System.served]

theorem Inv.inside {s : System} (inv : Inv s) {c : Connection} (served : c ∈ s.served) :
    c.taken ≤ (s.senders c.program).transport.wire.length := by
  rcases mem_served.mp served with closed | client
  · exact (inv.closed c closed).inside
  · exact (inv.client c client).inside

/-- A program goes on; what the server has read of it stays. -/
theorem program_inv {s : System} (inv : Inv s) {i : Nat} {e : Sending.Event} (orderly : Orderly (s.senders i) e)
    {sender : Sender} (stepped : Sending.step (s.senders i) e = some sender) :
    Inv { s with senders := Function.update s.senders i sender } := by
  obtain ⟨groups, unsent, grouped⟩ := inv.grouped i
  have served {c : Connection} {left : List UInt8} (served : Served s.senders c left) :
      Served (Function.update s.senders i sender) c left := by
    by_cases mine : c.program = i
    · obtain ⟨program, taken⟩ := c
      subst mine
      obtain ⟨_, inside, _, same⟩ := step_wire grouped orderly stepped served.inside
      exact ⟨by simpa using inside, by simpa using same.trans served.left⟩
    · exact ⟨by simpa [mine] using served.inside, by simpa [mine] using served.left⟩
  refine ⟨?_, fun c member => served (inv.closed c member), fun c member => served (inv.client c member), ?_, inv.apart⟩
  · intro other
    by_cases mine : other = i
    · subst mine
      have next := (step_wire grouped orderly stepped (Nat.zero_le _)).1
      simpa using next
    · simpa [mine] using inv.grouped other
  · rw [inv.calls]
    refine List.flatMap_congr fun c member => ?_
    have inside := inv.inside member
    show _ = handlerCalls (complete (Function.update s.senders i sender c.program).messages c.taken)
    by_cases mine : c.program = i
    · obtain ⟨program, taken⟩ := c
      subst mine
      obtain ⟨_, _, same, _⟩ := step_wire grouped orderly stepped inside
      simp [System.told, same]
    · simp [System.told, mine]

/-- A program connects; it is served, or refused while another one is. -/
theorem newConnection_inv {s next : System} (inv : Inv s) {i : Nat} (stepped : step s (.newConnection i) = some next) :
    Inv next := by
  simp only [step] at stepped
  split at stepped
  · next possible =>
    obtain ⟨idle, new⟩ := possible
    have apart := inv.apart
    cases client : s.client with
    | none =>
      rw [client] at stepped
      cases stepped
      simp only [System.connected, System.served, client, Option.toList_none, List.append_nil] at new apart
      refine ⟨inv.grouped, inv.closed, ?_, ?_, ?_⟩
      · rintro c ⟨⟩
        exact ⟨Nat.zero_le _, by simp [idle]⟩
      · rw [inv.calls]
        simp [System.served, System.told, client, handlerCalls]
      · simp only [System.connected, System.served, Option.toList_some, List.map_append, List.map_cons, List.map_nil,
          List.append_assoc, List.singleton_append]
        exact List.nodup_middle.mpr (List.nodup_cons.mpr ⟨new, apart⟩)
    | some c =>
      rw [client] at stepped
      cases stepped
      refine ⟨inv.grouped, inv.closed, by simpa [client] using inv.client,
        by simpa [System.served, System.told, client] using inv.calls, ?_⟩
      simp only [System.connected, System.served, client] at new apart ⊢
      rw [← List.append_assoc]
      exact List.nodup_append.mpr ⟨apart, List.nodup_singleton i, fun j member j' last => by
        rw [List.mem_singleton.mp last]
        rintro rfl
        exact new member⟩
  · cases stepped

/-- The server reads from its client, and the handler is called for what that completes. -/
theorem read_inv {s next : System} (inv : Inv s) {k : Nat} (keeps : Keeps s (.read k))
    (stepped : step s (.read k) = some next) : Inv next := by
  simp only [step] at stepped
  split at stepped
  · next c pBuffer client buffer =>
    split at stepped
    · next possible =>
      obtain ⟨positive, atMost, there⟩ := possible
      obtain ⟨groups, unsent, grouped⟩ := inv.grouped c.program
      obtain ⟨inside, left⟩ := inv.client c client
      rw [buffer, Option.getD_some] at left
      obtain ⟨round, reach⟩ := wire_read grouped inside positive atMost there (keeps c client)
      rw [left] at round
      rw [System.available, round] at stepped
      cases stepped
      refine ⟨inv.grouped, inv.closed, ?_, ?_, ?_⟩
      · rintro c' ⟨⟩
        exact ⟨reach, rfl⟩
      · rw [inv.calls]
        simp only [System.served, client, Option.toList_some, List.flatMap_append, List.flatMap_singleton,
          List.append_assoc, System.told, complete_more]
      · have apart := inv.apart
        simpa [System.connected, System.served, client] using apart
    · cases stepped
  · cases stepped

theorem step_inv {s next : System} (inv : Inv s) {e : Event} (keeps : Keeps s e) (stepped : step s e = some next) :
    Inv next := by
  cases e with
  | program i e =>
    obtain ⟨sender, goesOn, rfl⟩ := Option.map_eq_some_iff.mp stepped
    exact program_inv inv keeps goesOn
  | newConnection i => exact newConnection_inv inv stepped
  | read k => exact read_inv inv keeps stepped
  | readyRead =>
    simp only [step] at stepped
    split at stepped
    · next possible =>
      cases stepped
      have client := inv.client
      rw [possible.2] at client
      exact ⟨inv.grouped, inv.closed, client, inv.calls, inv.apart⟩
    · cases stepped
  | drained =>
    have whole : s.pBuffer = some [] := keeps
    have client := inv.client
    rw [whole] at client
    rw [step, whole] at stepped
    cases stepped
    exact ⟨inv.grouped, inv.closed, client, inv.calls, inv.apart⟩
  | disconnected =>
    simp only [step] at stepped
    split at stepped
    · next idle =>
      cases stepped
      have client := inv.client
      rw [idle] at client
      refine ⟨inv.grouped, ?_, by simp, ?_, ?_⟩
      · intro c member
        rcases List.mem_append.mp member with old | last
        · exact inv.closed c old
        · exact client c (by simpa using last)
      · rw [inv.calls]
        simp [System.served, System.told]
      · have apart := inv.apart
        simpa [System.connected, System.served] using apart
    · cases stepped

theorem run_inv {events : List Event} {s : System} (ran : run step System.initial events = some s)
    (meets : Meets step Keeps System.initial events) : Inv s :=
  run_invariant (fun _ _ _ inv keeps stepped => step_inv inv keeps stepped) initial_inv meets ran

/-- Whatever any number of programs do at the same time, the handler is called for the
    messages of one client after the other, as they were served, each from its first
    message on; nothing of a program that was refused gets there. Between two slots the
    messages of a client that it was not called for are those whose bytes were not read. -/
theorem clients_apart {events : List Event} {s : System} (ran : run step System.initial events = some s)
    (meets : Meets step Keeps System.initial events) :
    s.calls = s.served.flatMap (fun c => handlerCalls (s.told c)) ∧
    (s.served.map Connection.program ++ s.refused).Nodup ∧
    ∀ c ∈ s.served, ∃ later left, (s.senders c.program).messages = s.told c ++ later ∧
      encodeAll later = left ++ s.available c ++ unsentBytes (s.senders c.program) ∧
      (s.pBuffer = none → left = []) := by
  have inv := run_inv ran meets
  refine ⟨inv.calls, inv.apart, ?_⟩
  intro c served
  obtain ⟨groups, unsent, grouped⟩ := inv.grouped c.program
  refine ⟨waiting (s.senders c.program).messages c.taken, pending (s.senders c.program).messages c.taken,
    (complete_append_waiting _ _).symm, waiting_bytes grouped (inv.inside served), ?_⟩
  intro idle
  rcases mem_served.mp served with closed | client
  · exact (inv.closed c closed).left
  · have left := (inv.client c client).left
    rwa [idle] at left

/-- A program sends its application message, as soon as it has a socket. -/
def announces (i : Nat) (header : ServerMsgHeaderV1) : List Event :=
  [.program i (.initOpen 3), .program i (.initApp header .complete)]

/-- A second program connects while the first one is served, and a third one afterwards. -/
def three : List Event :=
  announces 0 ⟨5, 21, 7, 1, 0⟩ ++ [.newConnection 0] ++ announces 1 ⟨5, 22, 8, 1, 0⟩ ++
    [.readyRead, .read 31, .drained, .newConnection 1, .disconnected] ++ announces 2 ⟨5, 23, 9, 1, 0⟩ ++
    [.newConnection 2, .readyRead, .read 31, .drained]

theorem clients_apart_three : ∃ s, run step System.initial three = some s ∧ s.refused = [1] ∧
    s.calls = s.served.flatMap fun c => handlerCalls (s.told c) := by
  obtain ⟨s, ran, refused⟩ : ∃ s, run step System.initial three = some s ∧ decide (s.refused = [1]) = true :=
    (Option.any_eq_true _ _).mp (by decide +kernel)
  exact ⟨s, ran, of_decide_eq_true refused, (clients_apart ran (by decide +kernel)).1⟩

end Aleakd.Sockets
