import Aleakd.ServerComm

/-!
What `servercomm_send` keeps of the messages it returned 0 for when physical
writes fail. The result of the write is dropped and the transfer buffer is
emptied all the same, so the bytes of a write that does not complete are gone.
-/
namespace Aleakd.WriteFailures
open Aleakd.Memory Aleakd.ServerComm Aleakd.Runs

/-- One call of `servercomm_send`, with the outcome of the physical write it
    makes, if it makes one. -/
structure Call where
  packet : Packet
  write : Write

/-- The transport, and the messages for which `servercomm_send` has returned 0. -/
structure Sending where
  transport : Transport
  accepted : List Packet

def step (s : Sending) (c : Call) : Option Sending :=
  (servercommSend s.transport c.write c.packet.bytes).map fun (transport, res) =>
    { transport, accepted := if res = 0 then s.accepted ++ [c.packet] else s.accepted }

/-- The bytes that are still to be written: those of the transfer buffer while it
    is enabled. -/
def held (t : Transport) : List UInt8 := if t.transfertBufferEnabled then t.buffered else []

/-- Every accepted message is entirely on the wire or entirely held, in order. -/
def Kept (s : Sending) : Prop :=
  ∃ onWire inBuffer, s.accepted = onWire ++ inBuffer ∧ s.transport.wire = concat onWire ∧
    held s.transport = concat inBuffer

/-- A transport that has sent nothing yet, buffered or unbuffered. -/
structure Start (t : Transport) : Prop where
  quiet : t.writes = []
  empty : t.transfertBufferSize = 0

/-- The physical write that the call makes, if it makes one, completes: of the
    transfer buffer where the message has no room in it, of the message where
    the transfer buffer is off. -/
def WriteCompletes (s : Sending) (c : Call) : Prop :=
  if s.transport.transfertBufferEnabled then
    bufferSize ≤ s.transport.transfertBufferSize + c.packet.bytes.length →
      c.write.written s.transport.transfertBufferSize = s.transport.transfertBufferSize
  else c.write.written c.packet.bytes.length = c.packet.bytes.length

/-- Bytes of accepted messages are missing. -/
def Short (s : Sending) : Prop :=
  s.transport.wire.length + (held s.transport).length < (concat s.accepted).length

instance (s : Sending) : Decidable (Short s) :=
  inferInstanceAs (Decidable (s.transport.wire.length + (held s.transport).length < (concat s.accepted).length))

theorem kept_not_short {s : Sending} (kept : Kept s) : ¬ Short s := by
  obtain ⟨onWire, inBuffer, accepted, wire, buffer⟩ := kept
  simp [Short, accepted, wire, buffer]

/-- What a call can do to the bytes on the wire and the bytes held; `k` is how many
    bytes its physical write puts on the wire. -/
inductive Effect (s : Sending) (c : Call) (next : Sending) : Prop where
  | joined (wire : next.transport.wire = s.transport.wire)
      (holds : held next.transport = held s.transport ++ c.packet.bytes) (completes : WriteCompletes s c)
  | flushed (k : Nat) (atMost : k ≤ (held s.transport).length)
      (wire : next.transport.wire = s.transport.wire ++ (held s.transport).take k)
      (holds : held next.transport = c.packet.bytes) (completes : WriteCompletes s c ↔ k = (held s.transport).length)
  | direct (k : Nat) (atMost : k ≤ c.packet.bytes.length) (nothing : held s.transport = [])
      (wire : next.transport.wire = s.transport.wire ++ c.packet.bytes.take k)
      (holds : held next.transport = []) (completes : WriteCompletes s c ↔ k = c.packet.bytes.length)

/-- Every call returns 0, so it accepts its message, whatever its write did. -/
theorem step_effect {s : Sending} (fits : s.transport.transfertBufferSize ≤ bufferSize) (c : Call) :
    ∃ next, step s c = some next ∧ next.transport.transfertBufferSize ≤ bufferSize ∧
      next.accepted = s.accepted ++ [c.packet] ∧ Effect s c next := by
  obtain ⟨t, accepted⟩ := s
  obtain ⟨p, w⟩ := c
  have small := p.small
  by_cases enabled : t.transfertBufferEnabled = true
  · have holds : held t = t.buffered := by simp [held, enabled]
    have size : t.buffered.length = t.transfertBufferSize := buffered_length fits
    by_cases room : t.transfertBufferSize + p.bytes.length < bufferSize
    · obtain ⟨t', sent, ⟨_, enabled'⟩, writes, buffered, size'⟩ := send_joins w enabled room
      refine ⟨⟨t', accepted ++ [p]⟩, by simp [step, sent], ?_, rfl, .joined ?_ ?_ ?_⟩
      · simp only [size']
        omega
      · simp only [Transport.wire, writes]
      · simp [held, enabled', enabled, buffered]
      · have no : ¬ bufferSize ≤ t.transfertBufferSize + p.bytes.length := Nat.not_le.mpr room
        simp [WriteCompletes, enabled, no]
    · have full : bufferSize ≤ t.transfertBufferSize + p.bytes.length := Nat.not_lt.mp room
      obtain ⟨t', sent, ⟨_, enabled'⟩, writes, buffered, size'⟩ := send_flushes w enabled full (Nat.le_of_lt small)
      refine ⟨⟨t', accepted ++ [p]⟩, by simp [step, sent], ?_, rfl, .flushed (w.written t.transfertBufferSize) ?_ ?_ ?_ ?_⟩
      · simp only [size']
        omega
      · simpa only [holds, size] using w.written_le t.transfertBufferSize
      · simp [Transport.wire, writes, holds, size]
      · simp [held, enabled', enabled, buffered]
      · simp [WriteCompletes, enabled, full, holds, size]
  · have disabled : t.transfertBufferEnabled = false := by simpa using enabled
    refine ⟨⟨(servercommSendPhysical t w p.bytes).1, accepted ++ [p]⟩, by simp [step, send_direct, disabled],
      fits, rfl, .direct (w.written p.bytes.length) (w.written_le _) ?_ ?_ ?_ ?_⟩
    · simp [held, disabled]
    · simp [Transport.wire, servercommSendPhysical]
    · simp [held, servercommSendPhysical, disabled]
    · simp [WriteCompletes, disabled]

theorem effect_kept {s next : Sending} {c : Call} (effect : Effect s c next)
    (accepts : next.accepted = s.accepted ++ [c.packet]) (kept : Kept s) (completes : WriteCompletes s c) :
    Kept next := by
  obtain ⟨onWire, inBuffer, split, wire, buffer⟩ := kept
  cases effect with
  | joined wire' holds _ =>
    exact ⟨onWire, inBuffer ++ [c.packet], by simp [accepts, split], by rw [wire', wire], by simp [holds, buffer]⟩
  | flushed k _ wire' holds iff =>
    refine ⟨onWire ++ inBuffer, [c.packet], by simp [accepts, split], ?_, by simp [holds]⟩
    rw [wire', iff.mp completes, List.take_length, wire, buffer, concat_append]
  | direct k _ nothing wire' holds iff =>
    refine ⟨onWire ++ inBuffer ++ [c.packet], [], by simp [accepts, split], ?_, by simp [holds]⟩
    rw [wire', iff.mp completes, List.take_length, wire]
    simp [← buffer, nothing]

/-- A write that does not complete loses bytes for good. -/
theorem effect_short {s next : Sending} {c : Call} (effect : Effect s c next)
    (accepts : next.accepted = s.accepted ++ [c.packet]) (kept : Kept s) (incomplete : ¬ WriteCompletes s c) :
    Short next := by
  obtain ⟨onWire, inBuffer, split, wire, buffer⟩ := kept
  have total : (concat s.accepted).length = s.transport.wire.length + (held s.transport).length := by
    simp [split, wire, buffer]
  cases effect with
  | joined _ _ completes => exact absurd completes incomplete
  | flushed k atMost wire' holds iff =>
    have lost : k ≠ (held s.transport).length := fun all => incomplete (iff.mpr all)
    simp only [Short, accepts, wire', holds, concat_append, concat_cons, concat_nil, List.append_nil,
      List.length_append, List.length_take, total]
    omega
  | direct k atMost nothing wire' holds iff =>
    have lost : k ≠ c.packet.bytes.length := fun all => incomplete (iff.mpr all)
    simp only [Short, accepts, wire', holds, concat_append, concat_cons, concat_nil, List.append_nil,
      List.length_append, List.length_take, List.length_nil, total]
    omega

/-- Missing bytes stay missing. -/
theorem effect_keeps_short {s next : Sending} {c : Call} (effect : Effect s c next)
    (accepts : next.accepted = s.accepted ++ [c.packet]) (short : Short s) : Short next := by
  have total : (concat next.accepted).length = (concat s.accepted).length + c.packet.bytes.length := by
    simp [accepts]
  unfold Short at short ⊢
  rw [total]
  cases effect with
  | joined wire' holds _ =>
    simp only [wire', holds, List.length_append]
    omega
  | flushed k atMost wire' holds _ =>
    simp only [wire', holds, List.length_append, List.length_take]
    omega
  | direct k atMost nothing wire' holds _ =>
    simp only [wire', holds, List.length_append, List.length_take, List.length_nil]
    omega

/-! ## Runs -/

theorem run_short {s : Sending} (fits : s.transport.transfertBufferSize ≤ bufferSize) (short : Short s)
    (calls : List Call) : ∃ final, run step s calls = some final ∧
      final.accepted = s.accepted ++ calls.map Call.packet ∧ Short final := by
  induction calls generalizing s with
  | nil => exact ⟨s, rfl, by simp, short⟩
  | cons c rest ih =>
    obtain ⟨next, stepped, fits', accepts, effect⟩ := step_effect fits c
    obtain ⟨final, ran, accepted, short'⟩ := ih fits' (effect_keeps_short effect accepts short)
    exact ⟨final, run_cons_some.mpr ⟨next, stepped, ran⟩, by simp [accepted, accepts], short'⟩

/-- From a state that keeps its messages, a run goes on to keep them exactly when
    every physical write of it completes. -/
theorem run_spec {s : Sending} (fits : s.transport.transfertBufferSize ≤ bufferSize) (kept : Kept s)
    (calls : List Call) :
    ∃ final, run step s calls = some final ∧ final.accepted = s.accepted ++ calls.map Call.packet ∧
      (Kept final ↔ Meets step WriteCompletes s calls) := by
  induction calls generalizing s with
  | nil => exact ⟨s, rfl, by simp, iff_of_true kept trivial⟩
  | cons c rest ih =>
    obtain ⟨next, stepped, fits', accepts, effect⟩ := step_effect fits c
    have only : ∀ other ∈ step s c, other = next := fun other member => by
      rw [stepped] at member
      exact (Option.some.inj member).symm
    by_cases completes : WriteCompletes s c
    · obtain ⟨final, ran, accepted, iff⟩ := ih fits' (effect_kept effect accepts kept completes)
      refine ⟨final, run_cons_some.mpr ⟨next, stepped, ran⟩, by simp [accepted, accepts], iff.trans ?_⟩
      constructor
      · intro later
        exact ⟨completes, fun other member => by rw [only other member]; exact later⟩
      · intro meets
        exact meets.2 next stepped
    · obtain ⟨final, ran, accepted, short⟩ := run_short fits' (effect_short effect accepts kept completes) rest
      refine ⟨final, run_cons_some.mpr ⟨next, stepped, ran⟩, by simp [accepted, accepts], ?_⟩
      exact iff_of_false (fun later => kept_not_short later short) (fun meets => completes meets.1)

/-- Messages for which `servercomm_send` returned 0 are on the wire or held, in
    order, exactly when every physical write completes. -/
theorem accepted_kept_iff (t : Transport) (start : Start t) (calls : List Call) :
    ∃ final, run step ⟨t, []⟩ calls = some final ∧ final.accepted = calls.map Call.packet ∧
      (Kept final ↔ Meets step WriteCompletes ⟨t, []⟩ calls) := by
  have fits : t.transfertBufferSize ≤ bufferSize := by simp [start.empty]
  have kept : Kept ⟨t, []⟩ :=
    ⟨[], [], rfl, by simp [Transport.wire, start.quiet], by simp [held, Transport.buffered, start.empty]⟩
  simpa using run_spec (s := ⟨t, []⟩) fits kept calls

/-- Two messages join the transfer buffer, and no write is made. -/
theorem accepted_kept_iff_two_joined :
    ∃ final, run step ⟨{ atLoad (List.Vector.replicate bufferSize 0) (List.Vector.replicate bufferSize 0) with
        socket := 3, transfertBufferEnabled := true }, []⟩
        [⟨⟨List.replicate 31 1, by decide⟩, .complete⟩, ⟨⟨List.replicate 59 2, by decide⟩, .complete⟩] = some final ∧
      Kept final := by
  obtain ⟨final, ran, _, iff⟩ := accepted_kept_iff
    { atLoad (List.Vector.replicate bufferSize 0) (List.Vector.replicate bufferSize 0) with
      socket := 3, transfertBufferEnabled := true } ⟨rfl, rfl⟩
    [⟨⟨List.replicate 31 1, by decide⟩, .complete⟩, ⟨⟨List.replicate 59 2, by decide⟩, .complete⟩]
  refine ⟨final, ran, iff.mpr ⟨?_, fun second _ => ⟨?_, fun _ _ => trivial⟩⟩⟩
  · simp [WriteCompletes]
  · simp [WriteCompletes]

/-- The pipe is open, and the application message is still to be sent. -/
def justOpened : Transport :=
  { atLoad (List.Vector.replicate bufferSize 0) (List.Vector.replicate bufferSize 0) with socket := 3 }

/-- An unbuffered message whose write fails is accepted and lost. -/
theorem accepted_lost_on_error :
    ¬ ∀ (t : Transport) (calls : List Call) (final : Sending), t.socket ≠ -1 → Start t →
      run step ⟨t, []⟩ calls = some final → Kept final := by
  intro claim
  have kept := claim justOpened [⟨⟨List.replicate 31 1, by decide⟩, .error⟩] _ (by decide) ⟨rfl, rfl⟩ rfl
  exact kept_not_short kept (by decide)

end Aleakd.WriteFailures
