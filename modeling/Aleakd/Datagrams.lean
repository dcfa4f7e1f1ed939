import Aleakd.Devices
import Aleakd.Sending

/-!
The UDP transport: every physical write is a datagram, which the network may lose, hand
over twice or out of order, and which the server reads through a buffer of its own.
-/
namespace Aleakd.Datagrams
open Aleakd.Messages Aleakd.Operations Aleakd.Receiver Aleakd.Framing Aleakd.Reassembly Aleakd.ServerComm
open Aleakd.Runs Aleakd.Sending Aleakd.Devices

theorem nothing_short : ([] : List UInt8).length ≤ 4096 := Nat.zero_le _

/-- What the reads of a `QBuffer` give. -/
def bufferReads (datagram : List UInt8) : List Read :=
  if datagram = [] then [.data [] nothing_short]
  else .data (datagram.take 4096) (List.length_take_le _ _) :: bufferReads (datagram.drop 4096)
termination_by datagram.length
decreasing_by
  rw [List.length_drop]
  have := List.length_pos_of_ne_nil ‹¬ datagram = []›
  omega

/-- `onPendingDatagramToRead`, with the datagrams that are pending. -/
def onPendingDatagramToRead : List (List UInt8) → Option (List Callback)
  | [] => some []
  | datagram :: pending =>
    if 0 < datagram.length then do
      let (calls, _) ← doReadMsg (bufferReads datagram) []
      let later ← onPendingDatagramToRead pending
      return calls ++ later
    else onPendingDatagramToRead pending

/-- The messages of a datagram that the server is told about. -/
def delivered (group : List LibraryMessage) : List Callback :=
  handlerCalls (complete group (encodeAll group).length)

/-! ## One datagram -/

theorem bufferReads_short {datagram : List UInt8} (some : datagram ≠ []) (short : datagram.length ≤ 4096) :
    bufferReads datagram = [.data datagram short, .data [] nothing_short] := by
  rw [bufferReads, if_neg some]
  simp [List.take_of_length_le short, List.drop_of_length_le short, bufferReads]

/-- What the server is told about a datagram of one write, whatever comes of the rest. -/
theorem datagram_delivered {group : List LibraryMessage} (some : encodeAll group ≠ [])
    (short : (encodeAll group).length ≤ 4096) {calls : List Callback} {left : List Read}
    (called : doReadMsg (bufferReads (encodeAll group)) [] = .some (calls, left)) : calls = delivered group := by
  have handled := doProcessDataRead_encodeAll group
  have few := settled_le_self group (encodeAll group).length
  rw [if_pos (by omega)] at handled
  rw [bufferReads_short some short, doReadMsg_round some, readRound, List.nil_append,
    if_pos (by rw [readBufferSize]; omega), handled] at called
  by_cases positive : (0 : Int) < settled group (encodeAll group).length
  · simp only [Option.bind_eq_bind, Option.bind_some, if_pos positive, Int.toNat_natCast] at called
    cases moved : shift (encodeAll group) (settled group (encodeAll group).length) with
    | none => simp [moved] at called
    | some remaining =>
      simp only [moved, Option.bind_some, Option.pure_def, doReadMsg, if_pos, Option.map_some, Option.some.injEq,
        Prod.mk.injEq, List.append_nil] at called
      exact called.1.symm
  · simp only [Option.bind_eq_bind, Option.bind_some, if_neg positive, Option.pure_def, Option.some.injEq,
      Prod.mk.injEq] at called
    exact called.1.symm

/-- The copies of such a datagram stay apart where it has 932 bytes, or no backtrace is last. -/
theorem datagram_possible {group : List LibraryMessage} (some : encodeAll group ≠ [])
    (short : (encodeAll group).length ≤ 4096) (tidy : 932 ≤ (encodeAll group).length ∨ ¬ EndsInBacktrace group) :
    doReadMsg (bufferReads (encodeAll group)) [] = .some (delivered group, []) := by
  have positive := List.length_pos_of_ne_nil some
  have kept : settled group 0 < settled group (encodeAll group).length ∧
      (encodeAll group).length - settled group (encodeAll group).length ≤
        settled group (encodeAll group).length - settled group 0 := by
    rcases tidy with long | last
    · exact long_read group (le_refl _) (by omega)
    · exact last_read last positive
  have round := @readRound_keeps group 0 (encodeAll group) [] short (by simp) (by simp) (by simpa using kept.1)
    (by simpa using kept.2)
  rw [pending_zero] at round
  rw [bufferReads_short some short, doReadMsg_round some, round]
  have first : waiting group 0 = group := by
    have whole := complete_append_waiting group 0
    rwa [complete_zero, List.nil_append] at whole
  have none : settled group 0 = 0 := by simp [settled]
  simp [doReadMsg, delivered, first, none]

/-! ## Over the network -/

structure System where
  sender : Sender
  /-- which datagrams the server has been given, in this order -/
  received : List Nat
  calls : List Callback

def System.initial : System := ⟨Sender.start, [], []⟩

inductive Event where
  | program (e : Sending.Event)
  /-- the server reads what is pending, any of the datagrams that have been sent -/
  | readyRead (datagrams : List Nat)

def step (s : System) : Event → Option System
  | .program e => (Sending.step s.sender e).map fun sender => { s with sender }
  | .readyRead datagrams => do
    let pending ← datagrams.mapM fun i => s.sender.transport.writes[i]?
    let calls ← onPendingDatagramToRead pending
    return { s with received := s.received ++ datagrams, calls := s.calls ++ calls }

/-- The program is orderly. -/
def Keeps (s : System) : Event → Prop
  | .program e => Orderly s.sender e
  | .readyRead _ => True

instance (s : System) : (e : Event) → Decidable (Keeps s e)
  | .program e => inferInstanceAs (Decidable (Orderly s.sender e))
  | .readyRead _ => inferInstanceAs (Decidable True)

/-- The messages of a datagram. -/
def groupAt (groups : List (List LibraryMessage)) (i : Nat) : List LibraryMessage := (groups[i]?).getD []

structure Inv (s : System) (groups : List (List LibraryMessage)) (unsent : List LibraryMessage) : Prop where
  grouped : Grouped s.sender groups unsent
  received : ∀ i ∈ s.received, i < groups.length
  calls : s.calls = s.received.flatMap fun i => delivered (groupAt groups i)

theorem pending_delivered {groups : List (List LibraryMessage)}
    (short : ∀ group ∈ groups, (encodeAll group).length ≤ 4096) {datagrams : List Nat} {pending : List (List UInt8)}
    (sent : (datagrams.mapM fun i => (groups.map encodeAll)[i]?) = some pending) {calls : List Callback}
    (called : onPendingDatagramToRead pending = some calls) :
    (∀ i ∈ datagrams, i < groups.length) ∧ calls = datagrams.flatMap fun i => delivered (groupAt groups i) := by
  induction datagrams generalizing pending calls with
  | nil =>
    cases sent
    cases called
    exact ⟨by simp, rfl⟩
  | cons i datagrams ih =>
    simp only [List.mapM_cons, Option.bind_eq_bind, Option.bind_eq_some_iff, List.getElem?_map,
      Option.map_eq_some_iff, Option.pure_def, Option.some.injEq] at sent
    obtain ⟨datagram, ⟨group, here, rfl⟩, pending, sent, rfl⟩ := sent
    obtain ⟨inside, member⟩ := List.getElem?_eq_some_iff.mp here
    have all : ∀ later, onPendingDatagramToRead pending = some later →
        (∀ j ∈ i :: datagrams, j < groups.length) ∧
          later = datagrams.flatMap fun i => delivered (groupAt groups i) := by
      intro later called
      obtain ⟨places, told⟩ := ih (by simpa using sent) called
      exact ⟨by simpa [inside] using places, told⟩
    have group_eq : groupAt groups i = group := by rw [groupAt, here, Option.getD_some]
    rw [onPendingDatagramToRead] at called
    split at called
    · next positive =>
      simp only [Option.bind_eq_bind, Option.bind_eq_some_iff, Option.pure_def, Option.some.injEq] at called
      obtain ⟨⟨calls', left⟩, called', later, more, rfl⟩ := called
      obtain ⟨places, told⟩ := all later more
      refine ⟨places, ?_⟩
      rw [List.flatMap_cons, group_eq, told, datagram_delivered (List.ne_nil_of_length_pos positive)
        (short group (member ▸ List.getElem_mem inside)) called']
    · next empty =>
      obtain ⟨places, told⟩ := all calls called
      have none : group = [] := by
        cases group with
        | nil => rfl
        | cons m rest =>
          have := m.message.size_pos
          simp at empty
          omega
      refine ⟨places, ?_⟩
      rw [List.flatMap_cons, group_eq, told, none]
      rfl

theorem step_inv {s next : System} {groups : List (List LibraryMessage)} {unsent : List LibraryMessage}
    (inv : Inv s groups unsent) {e : Event} (keeps : Keeps s e) (stepped : step s e = some next) :
    ∃ written unsent', Inv next (groups ++ written) unsent' := by
  cases e with
  | program e =>
    simp only [step, Option.map_eq_some_iff] at stepped
    obtain ⟨sender, stepped, rfl⟩ := stepped
    obtain ⟨written, unsent', grouped⟩ := step_grouped inv.grouped keeps stepped
    refine ⟨written, unsent', grouped, ?_, ?_⟩
    · intro i member
      have := inv.received i member
      rw [List.length_append]
      omega
    · rw [inv.calls]
      refine List.flatMap_congr fun i member => ?_
      rw [groupAt, groupAt, List.getElem?_append_left (inv.received i member)]
  | readyRead datagrams =>
    simp only [step, Option.bind_eq_bind, Option.bind_eq_some_iff, Option.pure_def, Option.some.injEq] at stepped
    obtain ⟨pending, sent, calls, called, rfl⟩ := stepped
    rw [inv.grouped.writes] at sent
    obtain ⟨places, told⟩ := pending_delivered inv.grouped.short sent called
    refine ⟨[], unsent, by simpa using inv.grouped, ?_, ?_⟩
    · intro i member
      rw [List.append_nil]
      rcases List.mem_append.mp member with old | new
      · exact inv.received i old
      · exact places i new
    · rw [List.append_nil, List.flatMap_append, inv.calls, told]

/-- The server can take every datagram that has 932 bytes, or no backtrace at its end. -/
theorem readyRead_possible {s : System} {groups : List (List LibraryMessage)} {unsent : List LibraryMessage}
    (inv : Inv s groups unsent) {i : Nat} (sent : i < groups.length)
    (tidy : 932 ≤ (encodeAll (groupAt groups i)).length ∨ ¬ EndsInBacktrace (groupAt groups i)) :
    ∃ next, step s (.readyRead [i]) = some next := by
  have here : groups[i]? = some groups[i] := List.getElem?_eq_getElem sent
  have group_eq : groupAt groups i = groups[i] := by rw [groupAt, here, Option.getD_some]
  have pending : s.sender.transport.writes[i]? = some (encodeAll groups[i]) := by
    rw [inv.grouped.writes, List.getElem?_map, here, Option.map_some]
  rw [group_eq] at tidy
  by_cases none : encodeAll groups[i] = []
  · simp [step, pending, none, onPendingDatagramToRead]
  · have possible := datagram_possible none (inv.grouped.short _ (List.getElem_mem sent)) tidy
    simp [step, pending, onPendingDatagramToRead, possible, List.length_pos_iff.mpr none]

/-- Each datagram stands for itself: whatever the network loses, repeats or reorders, the
    server is told about the messages of those that it gets, as often and in the order in
    which it gets them, but for a backtrace at the end of one; and it can go on with any of
    them that has 932 bytes, or no backtrace at its end. -/
theorem datagrams_apart {events : List Event} {s : System} (ran : run step System.initial events = some s)
    (meets : Meets step Keeps System.initial events) :
    ∃ groups unsent, s.sender.messages = groups.flatten ++ unsent ∧
      s.sender.transport.writes = groups.map encodeAll ∧
      s.calls = s.received.flatMap (fun i => delivered (groupAt groups i)) ∧
      (∀ group ∈ groups, delivered group = handlerCalls group ∨
        EndsInBacktrace group ∧ delivered group = handlerCalls group.dropLast) ∧
      ∀ i < groups.length, (932 ≤ (encodeAll (groupAt groups i)).length ∨ ¬ EndsInBacktrace (groupAt groups i)) →
        ∃ next, step s (.readyRead [i]) = some next := by
  have start : ∃ groups unsent, Inv System.initial groups unsent := ⟨[], [], start_grouped, by simp [System.initial], rfl⟩
  have stays : ∀ s e next, (∃ groups unsent, Inv s groups unsent) → Keeps s e → step s e = some next →
      ∃ groups unsent, Inv next groups unsent := by
    rintro s e next ⟨groups, unsent, inv⟩ keeps stepped
    obtain ⟨written, unsent', inv'⟩ := step_inv inv keeps stepped
    exact ⟨groups ++ written, unsent', inv'⟩
  obtain ⟨groups, unsent, inv⟩ := run_invariant stays start meets ran
  refine ⟨groups, unsent, inv.grouped.messages, inv.grouped.writes, inv.calls, ?_,
    fun i sent tidy => readyRead_possible inv sent tidy⟩
  intro group _
  rw [delivered]
  rcases complete_whole group with all | ⟨ends, butLast⟩
  · exact .inl (by rw [all])
  · exact .inr ⟨ends, by rw [butLast]⟩

/-- The datagram of a free overtakes the one of the application, and comes twice. -/
def overtaken : List Event :=
  [.program (.initOpen 3), .program (.initApp ⟨5, 21, 7, 1, 0⟩ .complete), .program (.initPre .complete),
    .program .initEnable, .program (.submit ⟨.memory ⟨5, 22, 7, 2, 12⟩ ⟨0, 0, 0, 4096⟩, by decide⟩ .complete),
    .program (.disposeWrite .complete), .readyRead [1], .program .disposeClear, .readyRead [0, 1]]

theorem datagrams_apart_overtaken : ∃ s, run step System.initial overtaken = some s ∧
    ∃ groups unsent, s.sender.messages = groups.flatten ++ unsent ∧
      s.sender.transport.writes = groups.map encodeAll ∧
      s.calls = s.received.flatMap fun i => delivered (groupAt groups i) := by
  obtain ⟨s, ran⟩ : ∃ s, run step System.initial overtaken = some s := Option.isSome_iff_exists.mp (by decide +kernel)
  obtain ⟨groups, unsent, messages, writes, calls, _⟩ := datagrams_apart ran (by decide +kernel)
  exact ⟨s, ran, groups, unsent, messages, writes, calls⟩

end Aleakd.Datagrams
