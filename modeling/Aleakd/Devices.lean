import Aleakd.Reassembly
import Aleakd.Sending

/-!
One round of `doReadMsg`, on a stream of messages that may still grow: a read that
completes a message hands it over, and the call keeps what it has of the next one. The
stream is what the library of a program has written.
-/
namespace Aleakd.Devices
open Aleakd.Messages Aleakd.Operations Aleakd.Receiver Aleakd.Framing Aleakd.Reassembly Aleakd.ServerComm
open Aleakd.Sending

/-- A round of `doReadMsg`, from what the buffer holds and what the read gives: the handler
    calls, and what the buffer holds for the next round unless the call ends here. -/
def readRound (pBuffer bytes : List UInt8) : Option (List Callback × Option (List UInt8)) :=
  if (pBuffer ++ bytes).length ≤ readBufferSize then do
    let (calls, processed) ← doProcessDataRead (pBuffer ++ bytes)
    if 0 < processed then
      let remaining ← shift (pBuffer ++ bytes) processed.toNat
      return (calls, some remaining)
    else
      return (calls, none)
  else none

theorem doReadMsg_round {bytes : List UInt8} {atMost : bytes.length ≤ 4096} (some : bytes ≠ []) (reads : List Read)
    (pBuffer : List UInt8) :
    doReadMsg (.data bytes atMost :: reads) pBuffer =
      (readRound pBuffer bytes).bind fun (calls, kept) =>
        match kept with
        | .some remaining => (doReadMsg reads remaining).map fun (later, left) => (calls ++ later, left)
        | .none => .some (calls, reads) := by
  rw [doReadMsg, if_neg some, readRound]
  by_cases room : (pBuffer ++ bytes).length ≤ readBufferSize
  · rw [if_pos room, if_pos room]
    cases doProcessDataRead (pBuffer ++ bytes) with
    | none => rfl
    | some handled =>
      obtain ⟨calls, processed⟩ := handled
      by_cases positive : 0 < processed
      · simp only [Option.bind_eq_bind, Option.bind_some, if_pos positive]
        cases shift (pBuffer ++ bytes) processed.toNat with
        | none => rfl
        | some remaining =>
          simp only [Option.bind_some, Option.pure_def]
          cases doReadMsg reads remaining <;> rfl
      · simp [positive]
  · rw [if_neg room, if_neg room]
    rfl

/-! ## A stream that grows -/

@[simp] theorem complete_zero (messages : List LibraryMessage) : complete messages 0 = [] := by
  cases messages with
  | nil => rfl
  | cons m rest =>
    have := m.message.size_pos
    have := Message.size_le_needed m.message
    rw [complete, if_neg (by omega)]

/-- What is complete by now does not depend on what comes later. -/
theorem complete_append {messages : List LibraryMessage} {n : Nat} (inside : n ≤ (encodeAll messages).length)
    (more : List LibraryMessage) : complete (messages ++ more) n = complete messages n := by
  induction messages generalizing n with
  | nil =>
    have zero : n = 0 := by simpa using inside
    rw [zero, complete_zero, complete_zero]
  | cons m rest ih =>
    by_cases enough : Message.needed m.message ≤ n
    · have tail : n - m.message.size ≤ (encodeAll rest).length := by
        simp only [encodeAll_cons, List.length_append, Message.encode_length] at inside
        omega
      rw [List.cons_append, complete, if_pos enough, complete, if_pos enough, ih tail]
    · rw [List.cons_append, complete, if_neg enough, complete, if_neg enough]

theorem settled_append {messages : List LibraryMessage} {n : Nat} (inside : n ≤ (encodeAll messages).length)
    (more : List LibraryMessage) : settled (messages ++ more) n = settled messages n := by
  rw [settled, settled, complete_append inside]

/-- The bytes of the stream that are pending are those behind the last complete message. -/
theorem pending_eq (messages : List LibraryMessage) (n : Nat) :
    pending messages n = ((encodeAll messages).take n).drop (settled messages n) := by
  rw [List.drop_take, drop_settled, pending]

theorem pending_append {messages : List LibraryMessage} {n : Nat} (inside : n ≤ (encodeAll messages).length)
    (more : List LibraryMessage) : pending (messages ++ more) n = pending messages n := by
  rw [pending_eq, pending_eq, settled_append inside, encodeAll_append, List.take_append_of_le_length inside]

@[simp] theorem pending_zero (messages : List LibraryMessage) : pending messages 0 = [] := by simp [pending]

/-- Nothing is missing: what is complete, what is pending and what has not been read make up
    the stream. -/
theorem stream_split (messages : List LibraryMessage) (n : Nat) :
    encodeAll (complete messages n) ++ (pending messages n ++ (encodeAll messages).drop n) = encodeAll messages := by
  have order := settled_le_self messages n
  have whole := congrArg encodeAll (complete_append_waiting messages n)
  have rest : (encodeAll messages).drop n = (encodeAll (waiting messages n)).drop (n - settled messages n) := by
    rw [← drop_settled, List.drop_drop]
    congr 1
    omega
  rw [encodeAll_append] at whole
  rw [rest, pending, List.take_append_drop, whole]

/-- A last backtrace is the only one that is not complete at the end. -/
theorem complete_whole (messages : List LibraryMessage) :
    complete messages (encodeAll messages).length = messages ∨
      EndsInBacktrace messages ∧ complete messages (encodeAll messages).length = messages.dropLast := by
  by_cases ends : EndsInBacktrace messages
  · refine .inr ⟨ends, ?_⟩
    obtain ⟨last, isLast, header, data, isBacktrace⟩ := ends
    obtain ⟨first, rfl⟩ := List.getLast?_eq_some_iff.mp (Option.mem_def.mp isLast)
    rw [List.dropLast_concat]
    induction first with
    | nil => simp [complete, isBacktrace, Message.needed, Message.size]
    | cons m rest ih =>
      have bound := Message.needed_le m.message
      have size : last.message.size = 436 := by rw [isBacktrace]; rfl
      have total : (encodeAll (m :: (rest ++ [last]))).length =
          m.message.size + (encodeAll (rest ++ [last])).length := by simp
      have enough : Message.needed m.message ≤ (encodeAll (m :: (rest ++ [last]))).length := by
        rw [total]
        simp only [encodeAll_append, List.length_append, encodeAll_cons, encodeAll_nil, List.length_nil,
          Message.encode_length, size]
        omega
      rw [List.cons_append, complete, if_pos enough, total, Nat.add_sub_cancel_left, ih (by simp)]
  · exact .inl ((complete_all_iff messages).mpr ends)

/-- What a stream makes complete, and then a further part of it. -/
theorem complete_more (messages : List LibraryMessage) (p k : Nat) :
    handlerCalls (complete messages p) ++ handlerCalls (complete (waiting messages p) (p + k - settled messages p)) =
      handlerCalls (complete messages (p + k)) := by
  rw [complete_add messages (Nat.le_add_right p k), handlerCalls, handlerCalls, handlerCalls, List.map_append]

/-! ## Reads that keep everything -/

/-- A round of which a message comes, and which does not have to move more than it has
    handed over. -/
theorem readRound_keeps {messages : List LibraryMessage} {p : Nat} {bytes later : List UInt8}
    (atMost : bytes.length ≤ 4096) (cut : bytes ++ later = (encodeAll messages).drop p)
    (inside : p + bytes.length ≤ (encodeAll messages).length)
    (progress : settled messages p < settled messages (p + bytes.length))
    (apart : p + bytes.length - settled messages (p + bytes.length) ≤
      settled messages (p + bytes.length) - settled messages p) :
    readRound (pending messages p) bytes =
      some (handlerCalls (complete (waiting messages p) (p + bytes.length - settled messages p)),
        some (pending messages (p + bytes.length))) := by
  obtain ⟨length, room, handled⟩ := read_handled atMost cut inside
  have positive : (0 : Int) < (settled messages (p + bytes.length) - settled messages p : Nat) := by omega
  have shifted : shift (pending messages p ++ bytes) (settled messages (p + bytes.length) - settled messages p) =
      some (pending messages (p + bytes.length)) := by
    rw [shift, length, if_pos (by omega), pending_next cut]
  simp only [readRound, if_pos room, handled, Option.bind_eq_bind, Option.bind_some, if_pos positive,
    Int.toNat_natCast, shifted, Option.pure_def]

/-- A read of so many bytes always does. -/
theorem long_read (messages : List LibraryMessage) {p q : Nat} (inside : q ≤ (encodeAll messages).length)
    (long : p + 932 ≤ q) :
    settled messages p < settled messages q ∧ q - settled messages q ≤ settled messages q - settled messages p := by
  have short := pending_short messages inside
  have order := settled_le_self messages p
  omega

/-- So does one that takes the rest, where no backtrace is last. -/
theorem last_read {messages : List LibraryMessage} (last : ¬ EndsInBacktrace messages) {p : Nat}
    (some : p < (encodeAll messages).length) :
    settled messages p < settled messages (encodeAll messages).length ∧
      (encodeAll messages).length - settled messages (encodeAll messages).length ≤
        settled messages (encodeAll messages).length - settled messages p := by
  have all : settled messages (encodeAll messages).length = (encodeAll messages).length := by
    rw [settled, (complete_all_iff messages).mpr last]
  have order := settled_le_self messages p
  omega

/-- So does one that ends with a message. -/
theorem whole_read (messages : List LibraryMessage) {p q : Nat} (some : p < q) (whole : settled messages q = q) :
    settled messages p < settled messages q ∧ q - settled messages q ≤ settled messages q - settled messages p := by
  have order := settled_le_self messages p
  omega

/-! ## A program that writes -/

/-- What was read before the program went on is as it was. -/
theorem step_wire {sender next : Sender} {groups : List (List LibraryMessage)} {unsent : List LibraryMessage}
    (grouped : Grouped sender groups unsent) {e : Sending.Event} (orderly : Orderly sender e)
    (stepped : Sending.step sender e = some next) {n : Nat} (inside : n ≤ sender.transport.wire.length) :
    (∃ groups unsent, Grouped next groups unsent) ∧ n ≤ next.transport.wire.length ∧
      complete next.messages n = complete sender.messages n ∧ pending next.messages n = pending sender.messages n := by
  obtain ⟨written, unsent', grouped'⟩ := step_grouped grouped orderly stepped
  -- both begin with what was on the wire before the event
  have after : next.messages = groups.flatten ++ (written.flatten ++ unsent') := by
    rw [grouped'.messages, List.flatten_append, List.append_assoc]
  rw [grouped.wire] at inside
  refine ⟨⟨_, _, grouped'⟩, ?_, ?_, ?_⟩
  · rw [grouped'.wire, List.flatten_append, encodeAll_append, List.length_append]
    exact le_trans inside (Nat.le_add_right _ _)
  · rw [grouped.messages, after, complete_append inside, complete_append inside]
  · rw [grouped.messages, after, pending_append inside, pending_append inside]

theorem Grouped.stream {sender : Sender} {groups : List (List LibraryMessage)} {unsent : List LibraryMessage}
    (grouped : Grouped sender groups unsent) :
    encodeAll sender.messages = sender.transport.wire ++ encodeAll unsent := by
  rw [grouped.messages, encodeAll_append, grouped.wire]

/-- The messages that are not complete are in what was read last, on the wire, or in a
    buffer of the library. -/
theorem waiting_bytes {sender : Sender} {groups : List (List LibraryMessage)} {unsent : List LibraryMessage}
    (grouped : Grouped sender groups unsent) {taken : Nat} (inside : taken ≤ sender.transport.wire.length) :
    encodeAll (waiting sender.messages taken) =
      pending sender.messages taken ++ sender.transport.wire.drop taken ++ unsentBytes sender := by
  have split := stream_split sender.messages taken
  have whole := congrArg encodeAll (complete_append_waiting sender.messages taken)
  rw [encodeAll_append] at whole
  have rest : (encodeAll sender.messages).drop taken = sender.transport.wire.drop taken ++ encodeAll unsent := by
    rw [Grouped.stream grouped, List.drop_append_of_le_length inside]
  rw [grouped.regime.unsent_eq, List.append_assoc, ← rest]
  exact List.append_cancel_left (whole.trans split.symm)

/-- A read of 932 bytes, or one that ends with a message, hands over what it completes. -/
theorem wire_read {sender : Sender} {groups : List (List LibraryMessage)} {unsent : List LibraryMessage}
    (grouped : Grouped sender groups unsent) {taken k : Nat} (inside : taken ≤ sender.transport.wire.length)
    (some : 0 < k) (atMost : k ≤ 4096) (there : k ≤ (sender.transport.wire.drop taken).length)
    (keeps : 932 ≤ k ∨ settled sender.messages (taken + k) = taken + k) :
    readRound (pending sender.messages taken) ((sender.transport.wire.drop taken).take k) =
        .some (handlerCalls (complete (waiting sender.messages taken) (taken + k - settled sender.messages taken)),
          .some (pending sender.messages (taken + k))) ∧
      taken + k ≤ sender.transport.wire.length := by
  have length : ((sender.transport.wire.drop taken).take k).length = k := List.length_take_of_le there
  have reach : taken + k ≤ sender.transport.wire.length := by
    rw [List.length_drop] at there
    omega
  have total : sender.transport.wire.length ≤ (encodeAll sender.messages).length := by
    rw [Grouped.stream grouped, List.length_append]
    exact Nat.le_add_right _ _
  have cut : (sender.transport.wire.drop taken).take k ++
      ((sender.transport.wire.drop taken).drop k ++ encodeAll unsent) = (encodeAll sender.messages).drop taken := by
    rw [← List.append_assoc, List.take_append_drop, Grouped.stream grouped, List.drop_append_of_le_length inside]
  obtain ⟨progress, apart⟩ : settled sender.messages taken < settled sender.messages (taken + k) ∧
      taken + k - settled sender.messages (taken + k) ≤
        settled sender.messages (taken + k) - settled sender.messages taken := by
    rcases keeps with long | whole
    · exact long_read sender.messages (by omega) (by omega)
    · exact whole_read sender.messages (by omega) whole
  have round := readRound_keeps (by rwa [length]) cut (by rw [length]; omega) (by rwa [length]) (by rwa [length])
  rw [length] at round
  exact ⟨round, reach⟩

end Aleakd.Devices
