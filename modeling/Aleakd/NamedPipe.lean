import Aleakd.Devices
import Aleakd.Sending

/-!
The named pipe, from the library of one program after the other to the server, which
reads while they write. A program may end at any time; the server then reads what is
left and opens the pipe for the next one.
-/
namespace Aleakd.NamedPipe
open Aleakd.Messages Aleakd.Operations Aleakd.Receiver Aleakd.Framing Aleakd.Reassembly Aleakd.ServerComm
open Aleakd.Runs Aleakd.Sending Aleakd.Devices

structure System where
  /-- the program that writes to the pipe -/
  sender : Sender
  exited : Bool
  /-- how many of its bytes the server has read -/
  taken : Nat
  /-- the buffer of the call of `doReadMsg` -/
  pBuffer : List UInt8
  calls : List Callback
  /-- the programs before it, as they ended -/
  ended : List Sender

def System.initial : System := ⟨Sender.start, false, 0, [], [], []⟩

/-- The bytes in the pipe. -/
def System.available (s : System) : List UInt8 := s.sender.transport.wire.drop s.taken

inductive Event where
  | program (e : Sending.Event)
  | exit
  /-- `m_pNamedPipeFile` gives `k` bytes -/
  | read (k : Nat)
  /-- it gives 0, as nobody is left to write -/
  | endOfFile

def step (s : System) : Event → Option System
  | .program e => if s.exited then none else (Sending.step s.sender e).map fun sender => { s with sender }
  | .exit => if s.exited then none else some { s with exited := true }
  | .read k =>
    if 0 < k ∧ k ≤ 4096 ∧ k ≤ s.available.length then
      -- where the call ends, `run` opens the pipe again and calls `doReadMsg` anew
      (readRound s.pBuffer (s.available.take k)).map fun (calls, kept) =>
        { s with taken := s.taken + k, pBuffer := kept.getD [], calls := s.calls ++ calls }
    else none
  | .endOfFile =>
    if s.exited ∧ s.available = [] then
      some { s with sender := Sender.start, exited := false, taken := 0, pBuffer := [], ended := s.ended ++ [s.sender] }
    else none

/-- The program is orderly, and a read brings 932 bytes, or all there is, with no backtrace
    at the end of it: the server then needs no more bytes for any message. -/
def Keeps (s : System) : Event → Prop
  | .program e => Orderly s.sender e
  | .read k =>
    932 ≤ k ∨
      k = s.available.length ∧ settled s.sender.messages s.sender.transport.wire.length = s.sender.transport.wire.length
  | .exit | .endOfFile => True

instance (s : System) : (e : Event) → Decidable (Keeps s e)
  | .program e => inferInstanceAs (Decidable (Orderly s.sender e))
  | .read k => inferInstanceAs (Decidable (932 ≤ k ∨ k = s.available.length ∧
      settled s.sender.messages s.sender.transport.wire.length = s.sender.transport.wire.length))
  | .exit | .endOfFile => inferInstanceAs (Decidable True)

/-- What the server is told about a program by its end. -/
def reported (sender : Sender) : List Callback :=
  handlerCalls (complete sender.messages sender.transport.wire.length)

structure Inv (s : System) : Prop where
  grouped : ∃ groups unsent, Grouped s.sender groups unsent
  inside : s.taken ≤ s.sender.transport.wire.length
  pBuffer : s.pBuffer = pending s.sender.messages s.taken
  calls : s.calls = s.ended.flatMap reported ++ handlerCalls (complete s.sender.messages s.taken)
  ended : ∀ sender ∈ s.ended, ∃ groups unsent, Grouped sender groups unsent

theorem initial_inv : Inv System.initial where
  grouped := ⟨[], [], start_grouped⟩
  inside := Nat.zero_le _
  pBuffer := rfl
  calls := rfl
  ended := by simp [System.initial]

/-! ## Each event -/

theorem program_inv {s next : System} (inv : Inv s) {e : Sending.Event} (orderly : Orderly s.sender e)
    (stepped : step s (.program e) = some next) : Inv next := by
  simp only [step] at stepped
  split at stepped
  · cases stepped
  · simp only [Option.map_eq_some_iff] at stepped
    obtain ⟨sender, stepped, rfl⟩ := stepped
    obtain ⟨groups, unsent, grouped⟩ := inv.grouped
    obtain ⟨grouped', inside, same, same'⟩ := step_wire grouped orderly stepped inv.inside
    refine ⟨grouped', inside, ?_, ?_, inv.ended⟩
    · exact inv.pBuffer.trans same'.symm
    · rw [inv.calls, same]

/-- The server takes a read that keeps what it finds, and hands over the messages that it
    completes. -/
theorem read_inv {s : System} (inv : Inv s) {k : Nat} (some : 0 < k) (atMost : k ≤ 4096)
    (there : k ≤ s.available.length) (keeps : Keeps s (.read k)) :
    ∃ next, step s (.read k) = .some next ∧ Inv next := by
  obtain ⟨groups, unsent, grouped⟩ := inv.grouped
  have whole : 932 ≤ k ∨ settled s.sender.messages (s.taken + k) = s.taken + k := by
    refine keeps.imp_right ?_
    rintro ⟨all, whole⟩
    have finish : s.taken + k = s.sender.transport.wire.length := by
      have := inv.inside
      rw [System.available, List.length_drop] at all
      omega
    rw [finish, whole]
  obtain ⟨round, reach⟩ := wire_read grouped inv.inside some atMost there whole
  rw [← inv.pBuffer] at round
  refine ⟨{ s with
    taken := s.taken + k
    pBuffer := pending s.sender.messages (s.taken + k)
    calls := s.calls ++ handlerCalls (complete (waiting s.sender.messages s.taken)
      (s.taken + k - settled s.sender.messages s.taken)) }, ?_, ⟨groups, unsent, grouped⟩, reach, rfl, ?_, inv.ended⟩
  · rw [step, if_pos ⟨some, atMost, there⟩, System.available, round]
    rfl
  · rw [inv.calls, List.append_assoc, complete_more]

theorem endOfFile_inv {s next : System} (inv : Inv s) (stepped : step s .endOfFile = some next) : Inv next := by
  simp only [step] at stepped
  split at stepped
  · next finished =>
    cases stepped
    have all : s.taken = s.sender.transport.wire.length := by
      have := inv.inside
      have none := List.drop_eq_nil_iff.mp finished.2
      omega
    refine ⟨⟨[], [], start_grouped⟩, Nat.zero_le _, rfl, ?_, ?_⟩
    · rw [inv.calls, all]
      simp [Sender.start, handlerCalls, reported]
    · intro sender member
      rcases List.mem_append.mp member with old | new
      · exact inv.ended sender old
      · rw [List.mem_singleton.mp new]
        exact inv.grouped
  · cases stepped

theorem step_inv {s next : System} (inv : Inv s) {e : Event} (keeps : Keeps s e) (stepped : step s e = some next) :
    Inv next := by
  cases e with
  | program e => exact program_inv inv keeps stepped
  | exit =>
    simp only [step] at stepped
    split at stepped
    · cases stepped
    · cases stepped
      exact ⟨inv.grouped, inv.inside, inv.pBuffer, inv.calls, inv.ended⟩
  | read k =>
    have possible : 0 < k ∧ k ≤ 4096 ∧ k ≤ s.available.length := by
      by_contra impossible
      simp [step, impossible] at stepped
    obtain ⟨next', stepped', inv'⟩ := read_inv inv possible.1 possible.2.1 possible.2.2 keeps
    cases stepped.symm.trans stepped'
    exact inv'
  | endOfFile => exact endOfFile_inv inv stepped

theorem run_inv {events : List Event} {s : System} (ran : run step System.initial events = some s)
    (meets : Meets step Keeps System.initial events) : Inv s :=
  run_invariant (fun _ _ _ inv keeps stepped => step_inv inv keeps stepped) initial_inv meets ran

/-- Nothing is lost and nothing told twice: at every moment the messages of the program are
    those that the server was told about, in order, and those of which every byte is in the
    server's buffer, in the pipe, or in a buffer of the library. -/
theorem conserved {events : List Event} {s : System} (ran : run step System.initial events = some s)
    (meets : Meets step Keeps System.initial events) :
    ∃ handled onTheWay, s.sender.messages = handled ++ onTheWay ∧
      s.calls = s.ended.flatMap reported ++ handlerCalls handled ∧
      encodeAll onTheWay = s.pBuffer ++ s.available ++ unsentBytes s.sender := by
  have inv := run_inv ran meets
  obtain ⟨groups, unsent, grouped⟩ := inv.grouped
  refine ⟨complete s.sender.messages s.taken, waiting s.sender.messages s.taken,
    (complete_append_waiting _ _).symm, inv.calls, ?_⟩
  rw [inv.pBuffer]
  exact waiting_bytes grouped inv.inside

/-- A program that allocates before the pipe is open and frees afterwards, and ends without
    its last message being read. -/
def allocatesAndFrees : List Event :=
  [.program (.submit ⟨.memory ⟨5, 20, 7, 1, 11⟩ ⟨64, 4096, 1, 0⟩, by decide⟩ .complete), .program (.initOpen 3),
    .program (.initApp ⟨5, 21, 7, 2, 0⟩ .complete), .read 31, .program (.initPre .complete), .program .initEnable,
    .program (.submit ⟨.memory ⟨5, 22, 7, 3, 12⟩ ⟨0, 0, 0, 4096⟩, by decide⟩ .complete), .read 59,
    .program (.disposeWrite .complete), .program .disposeClear, .exit]

theorem conserved_exited : ∃ s, run step System.initial allocatesAndFrees = some s ∧
    ∃ handled onTheWay, s.sender.messages = handled ++ onTheWay ∧
      s.calls = s.ended.flatMap reported ++ handlerCalls handled ∧
      encodeAll onTheWay = s.pBuffer ++ s.available ++ unsentBytes s.sender := by
  obtain ⟨s, ran⟩ : ∃ s, run step System.initial allocatesAndFrees = some s :=
    Option.isSome_iff_exists.mp (by decide +kernel)
  exact ⟨s, ran, conserved ran (by decide +kernel)⟩

/-- Whenever a program ends, the server is told about the messages that it has written, but
    for a last backtrace, and about nothing else: only what was in a buffer of the library
    is lost, and nothing of it gets into what is told about another program. -/
theorem programs_reported {events : List Event} {s : System} (ran : run step System.initial events = some s)
    (meets : Meets step Keeps System.initial events) :
    (s.ended.flatMap reported <+: s.calls) ∧
    ∀ sender ∈ s.ended, ∃ written lost, sender.messages = written ++ lost ∧
      encodeAll lost = unsentBytes sender ∧
      (reported sender = handlerCalls written ∨
        EndsInBacktrace written ∧ reported sender = handlerCalls written.dropLast) := by
  have inv := run_inv ran meets
  refine ⟨by rw [inv.calls]; exact List.prefix_append _ _, ?_⟩
  intro sender member
  obtain ⟨groups, unsent, grouped⟩ := inv.ended sender member
  refine ⟨groups.flatten, unsent, grouped.messages, grouped.regime.unsent_eq.symm, ?_⟩
  rw [reported, grouped.wire, grouped.messages, complete_append (le_refl _)]
  rcases complete_whole groups.flatten with all | ⟨ends, butLast⟩
  · exact .inl (by rw [all])
  · exact .inr ⟨ends, by rw [butLast]⟩

/-- The program ends before its second message is written. -/
def killed : List Event := allocatesAndFrees.take 8 ++ [.exit, .endOfFile]

theorem programs_reported_killed : ∃ s, run step System.initial killed = some s ∧
    (s.ended.flatMap reported <+: s.calls) ∧
    ∀ sender ∈ s.ended, ∃ written lost, sender.messages = written ++ lost ∧
      encodeAll lost = unsentBytes sender ∧
      (reported sender = handlerCalls written ∨
        EndsInBacktrace written ∧ reported sender = handlerCalls written.dropLast) := by
  obtain ⟨s, ran⟩ : ∃ s, run step System.initial killed = some s := Option.isSome_iff_exists.mp (by decide +kernel)
  exact ⟨s, ran, programs_reported ran (by decide +kernel)⟩

end Aleakd.NamedPipe
