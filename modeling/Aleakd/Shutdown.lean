import Aleakd.WriteFailures

/-!
`servercomm_dispose` while other threads keep sending. A send holds
`g_lockSocket` and is one step; `servercomm_dispose` does not take that lock, so
sends may come between its write of the transfer buffer and the moment it turns
the transfer buffer off. Physical writes complete here.
-/
namespace Aleakd.Shutdown
open Aleakd.Memory Aleakd.ServerComm Aleakd.Runs
open Aleakd.WriteFailures (Sending Kept held Effect WriteCompletes step_effect effect_kept)

/-- How far `servercomm_dispose` has come. -/
inductive Phase where
  | running
  | written
  | cleared
deriving DecidableEq

/-- The transport with the messages that `servercomm_send` has returned for, and
    the progress of the one `servercomm_dispose`. -/
structure Closing extends Sending where
  phase : Phase

inductive Event where
  | send (packet : Packet)
  | disposeWrite
  | disposeClear

def step (s : Closing) : Event → Option Closing
  | .send packet =>
    (WriteFailures.step s.toSending ⟨packet, .complete⟩).map fun sending => { toSending := sending, phase := s.phase }
  | .disposeWrite =>
    if s.phase = .running then
      some ⟨{ s.toSending with transport := servercommDisposeWrite s.transport .complete }, .written⟩
    else none
  | .disposeClear =>
    if s.phase = .written then
      some ⟨{ s.toSending with transport := servercommDisposeClear s.transport }, .cleared⟩
    else none

/-- After a successful init: what was accepted is on the wire or in the transfer
    buffer, at any fill level, and `servercomm_dispose` has not begun. -/
structure Start (s : Closing) : Prop where
  opened : s.transport.socket ≠ -1
  enabled : s.transport.transfertBufferEnabled
  fits : s.transport.transfertBufferSize ≤ bufferSize
  kept : Kept s.toSending
  running : s.phase = .running

/-- No message is sent between the two steps of `servercomm_dispose`. -/
def OutsideGap (s : Closing) : Event → Prop
  | .send _ => s.phase ≠ .written
  | _ => True

instance OutsideGap.decidable : (s : Closing) → (e : Event) → Decidable (OutsideGap s e)
  | s, .send _ => inferInstanceAs (Decidable (s.phase ≠ .written))
  | _, .disposeWrite => inferInstanceAs (Decidable True)
  | _, .disposeClear => inferInstanceAs (Decidable True)

/-- What holds as long as no message is sent between the two steps of
    `servercomm_dispose`: nothing is lost before it, and once it has written,
    all that was accepted is on the wire. -/
structure Orderly (s : Closing) : Prop where
  opened : s.transport.socket ≠ -1
  fits : s.transport.transfertBufferSize ≤ bufferSize
  before : s.phase = .running → s.transport.transfertBufferEnabled ∧ Kept s.toSending
  after : s.phase ≠ .running → s.transport.wire = concat s.accepted
  off : s.phase = .cleared → s.transport.transfertBufferEnabled = false

theorem start_orderly {s : Closing} (start : Start s) : Orderly s where
  opened := start.opened
  fits := start.fits
  before _ := ⟨start.enabled, start.kept⟩
  after ended := absurd start.running ended
  off cleared := by simp [start.running] at cleared

/-- A send leaves the sending regime as it is, and takes its message. -/
theorem send_regime {s next : Sending} {p : Packet} (fits : s.transport.transfertBufferSize ≤ bufferSize)
    (sent : WriteFailures.step s ⟨p, .complete⟩ = some next) :
    SameRegime s.transport next.transport ∧ next.transport.transfertBufferSize ≤ bufferSize ∧
      next.accepted = s.accepted ++ [p] ∧ Effect s ⟨p, .complete⟩ next := by
  obtain ⟨other, sent', fits', accepts, effect⟩ := step_effect fits ⟨p, .complete⟩
  rw [sent'] at sent
  cases sent
  refine ⟨?_, fits', accepts, effect⟩
  simp only [WriteFailures.step, Option.map_eq_some_iff] at sent'
  obtain ⟨⟨t, res⟩, called, rfl⟩ := sent'
  exact send_sameRegime called

theorem complete_completes (s : Sending) (p : Packet) : WriteCompletes s ⟨p, .complete⟩ := by
  simp [WriteCompletes]

theorem send_orderly {s next : Closing} {p : Packet} (orderly : Orderly s) (outside : s.phase ≠ .written)
    (sent : step s (.send p) = some next) : Orderly next := by
  simp only [step, Option.map_eq_some_iff] at sent
  obtain ⟨sending, sent, rfl⟩ := sent
  obtain ⟨⟨socket, enabled⟩, fits, accepts, effect⟩ := send_regime orderly.fits sent
  refine ⟨by rw [socket]; exact orderly.opened, fits, ?_, ?_, ?_⟩
  · intro running
    obtain ⟨on, kept⟩ := orderly.before running
    exact ⟨by rw [enabled]; exact on, effect_kept effect accepts kept (complete_completes s.toSending p)⟩
  · intro ended
    have cleared : s.phase = .cleared := by
      cases phase : s.phase with
      | running => exact absurd phase ended
      | written => exact absurd phase outside
      | cleared => rfl
    have disabled := orderly.off cleared
    have direct : servercommSend s.transport .complete p.bytes =
        some ((servercommSendPhysical s.transport .complete p.bytes).1, 0) := send_direct .complete p.bytes disabled
    simp only [WriteFailures.step, direct, Option.map_some, Option.some.injEq] at sent
    subst sent
    simp [orderly.after ended]
  · intro cleared
    rw [enabled]
    exact orderly.off cleared

theorem disposeWrite_orderly {s next : Closing} (orderly : Orderly s)
    (disposed : step s .disposeWrite = some next) : Orderly next := by
  simp only [step, Option.ite_none_right_eq_some, Option.some.injEq] at disposed
  rcases disposed with ⟨running, rfl⟩
  obtain ⟨enabled, onWire, inBuffer, accepted, wire, holds⟩ := orderly.before running
  have write : servercommDisposeWrite s.transport .complete =
      (servercommSendPhysical s.transport .complete s.transport.buffered).1 := by
    simp [servercommDisposeWrite, orderly.opened, enabled]
  have buffered : s.transport.buffered = concat inBuffer := by simpa [held, enabled] using holds
  refine ⟨by simpa [write, servercommSendPhysical] using orderly.opened,
    by simpa [write, servercommSendPhysical] using orderly.fits, by simp, fun _ => ?_, by simp⟩
  rw [write, wire_sendPhysical, Write.written_complete, List.take_length, wire, buffered, accepted, concat_append]

theorem disposeClear_orderly {s next : Closing} (orderly : Orderly s)
    (disposed : step s .disposeClear = some next) : Orderly next := by
  simp only [step, Option.ite_none_right_eq_some, Option.some.injEq] at disposed
  obtain ⟨written, rfl⟩ := disposed
  have clear : servercommDisposeClear s.transport =
      { s.transport with transfertBufferEnabled := false, init := false } := by
    simp [servercommDisposeClear, orderly.opened]
  refine ⟨by simpa [clear] using orderly.opened, by simpa [clear] using orderly.fits, by simp, fun _ => ?_,
    fun _ => by simp [clear]⟩
  simpa [clear, Transport.wire] using orderly.after (by simp [written])

theorem step_orderly {s next : Closing} {e : Event} (orderly : Orderly s) (outside : OutsideGap s e)
    (stepped : step s e = some next) : Orderly next := by
  cases e with
  | send p => exact send_orderly orderly outside stepped
  | disposeWrite => exact disposeWrite_orderly orderly stepped
  | disposeClear => exact disposeClear_orderly orderly stepped

/-- The transport right after init, with nothing sent yet. -/
def opened : Closing :=
  { transport := { atLoad (List.Vector.replicate bufferSize 0) (List.Vector.replicate bufferSize 0) with
      socket := 3, init := true, transfertBufferEnabled := true }
    accepted := []
    phase := .running }

end Aleakd.Shutdown
