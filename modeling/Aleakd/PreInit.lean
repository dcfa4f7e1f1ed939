import Aleakd.Messages

/-!
The messages from before there is a connection. While `g_socket` is -1 they are put one
behind the other into the pre-init buffer, and nothing looks at how much of it is left.
This can last for good: `servercomm_init` is called once, and may fail.
-/
namespace Aleakd.PreInit
open Aleakd.Memory Aleakd.ServerComm Aleakd.Messages Aleakd.Runs

/-- What happens while `g_socket` is -1. -/
inductive Event where
  | sendSafe (packet : Packet) (w : Write)
  /-- the file is not there, or it cannot be opened -/
  | init (access fd : Int) (app : Packet) (appWrite preWrite : Write) (failed : access ≠ 0 ∨ fd = -1)
  | dispose (w : Write)

def step (t : Transport) : Event → Option Transport
  | .sendSafe packet w => (servercommSendSafe t w packet.bytes).map Prod.fst
  | .init access fd app appWrite preWrite _ => (servercommInit t access fd app.bytes appWrite preWrite).map Prod.fst
  | .dispose w => some (servercommDispose t w)

/-- The message that an event submits. -/
def Event.packet : Event → Option Packet
  | .sendSafe packet _ => some packet
  | .init .. | .dispose _ => none

/-- The messages submitted, in order. -/
def submitted (events : List Event) : List Packet := events.filterMap Event.packet

theorem submitted_append (earlier later : List Event) : submitted (earlier ++ later) = submitted earlier ++ submitted later :=
  List.filterMap_append

/-- The pre-init buffer begins with these messages, whole and one behind the other. -/
structure Kept (t : Transport) (packets : List Packet) : Prop where
  socket : t.socket = -1
  pos : t.preInitPos = (concat packets).length
  front : t.preInitBuffer.val.take t.preInitPos = concat packets

/-- What is kept fits in the buffer. -/
theorem Kept.fits {t : Transport} {packets : List Packet} (kept : Kept t packets) :
    (concat packets).length ≤ bufferSize := by
  have front := congrArg List.length kept.front
  rw [List.length_take, t.preInitBuffer.property] at front
  omega

/-! ## One event -/

theorem sendSafe_kept {t : Transport} {packets : List Packet} (kept : Kept t packets) (packet : Packet) (w : Write)
    (room : (concat (packets ++ [packet])).length ≤ bufferSize) :
    ∃ t', step t (.sendSafe packet w) = some t' ∧ Kept t' (packets ++ [packet]) := by
  have length : (concat (packets ++ [packet])).length = (concat packets).length + packet.bytes.length := by simp
  have pos := kept.pos
  have inside : t.preInitPos + packet.bytes.length ≤ bufferSize := by omega
  obtain ⟨after, copied⟩ := memcpy_fits t.preInitBuffer inside
  have unconnected : ¬ t.socket ≠ -1 := fun connected => connected kept.socket
  refine ⟨{ t with preInitBuffer := after, preInitPos := t.preInitPos + packet.bytes.length }, ?_, kept.socket, ?_, ?_⟩
  · simp only [step, servercommSendSafe, if_neg unconnected, copied, Option.map_some]
  · rw [length, pos]
  · have front := memcpy_take copied
    rw [kept.front] at front
    simpa using front

/-- `servercomm_init` has failed: the buffer stays as it is, and so does the socket. -/
theorem init_kept {t : Transport} {packets : List Packet} (kept : Kept t packets) (access fd : Int) (app : Packet)
    (appWrite preWrite : Write) (failed : access ≠ 0 ∨ fd = -1) :
    ∃ t', step t (.init access fd app appWrite preWrite failed) = some t' ∧ Kept t' packets := by
  refine ⟨{ t with transfertBufferEnabled := true, init := true }, ?_, kept.socket, kept.pos, kept.front⟩
  have unopened : ∃ res, servercommNamePipe t access fd = (t, res) ∧ res ≠ 0 := by
    unfold servercommNamePipe
    split
    · next found =>
      have closed : fd = -1 := failed.resolve_left fun missing => missing found
      have same : { t with socket := fd } = t := by rw [closed, ← kept.socket]
      exact ⟨-1, by rw [same, closed]; rfl, by decide⟩
    · next missing => exact ⟨access, rfl, missing⟩
  obtain ⟨res, opened, error⟩ := unopened
  have unsent : ¬ (res = 0 ∧ 0 < t.preInitPos) := fun sends => error sends.1
  simp only [step, servercommInit, opened, if_neg error, Option.bind_eq_bind, Option.bind_some, if_neg unsent]
  rfl

theorem dispose_kept {t : Transport} {packets : List Packet} (kept : Kept t packets) (w : Write) :
    ∃ t', step t (.dispose w) = some t' ∧ Kept t' packets := by
  have unconnected : ¬ t.socket ≠ -1 := fun connected => connected kept.socket
  have nothing : servercommDispose t w = t := by
    simp only [servercommDispose, servercommDisposeWrite, servercommDisposeClear, unconnected, false_and, if_false]
  exact ⟨t, by rw [step, nothing], kept⟩

/-- As long as there is room, each event keeps what was submitted. -/
theorem step_kept {t : Transport} {packets : List Packet} (kept : Kept t packets) (event : Event)
    (room : (concat (packets ++ submitted [event])).length ≤ bufferSize) :
    ∃ t', step t event = some t' ∧ Kept t' (packets ++ submitted [event]) := by
  cases event with
  | sendSafe packet w => exact sendSafe_kept kept packet w room
  | init access fd app appWrite preWrite failed =>
    have same : packets ++ submitted [.init access fd app appWrite preWrite failed] = packets := List.append_nil packets
    rw [same]
    exact init_kept kept access fd app appWrite preWrite failed
  | dispose w =>
    have same : packets ++ submitted [.dispose w] = packets := List.append_nil packets
    rw [same]
    exact dispose_kept kept w

/-! ## Runs -/

/-- Every `memcpy` so far has stayed inside the pre-init buffer, and the messages are in it. -/
def BoundedAndOrdered (transferBuffer preInitBuffer : List.Vector UInt8 bufferSize) (events : List Event) : Prop :=
  ∃ t, run step (atLoad transferBuffer preInitBuffer) events = some t ∧ Kept t (submitted events)

theorem boundedAndOrdered_of_room (transferBuffer preInitBuffer : List.Vector UInt8 bufferSize) (events : List Event)
    (room : (concat (submitted events)).length ≤ bufferSize) :
    BoundedAndOrdered transferBuffer preInitBuffer events := by
  induction events using List.reverseRecOn with
  | nil => exact ⟨_, rfl, rfl, rfl, rfl⟩
  | append_singleton events event ih =>
    rw [submitted_append] at room
    have before : (concat (submitted events)).length ≤ bufferSize := by
      rw [concat_append, List.length_append] at room
      omega
    obtain ⟨t, ran, kept⟩ := ih before
    obtain ⟨t', stepped, kept'⟩ := step_kept kept event room
    refine ⟨t', ?_, ?_⟩
    · rw [run_concat, ran, Option.bind_some, stepped]
    · rw [submitted_append]
      exact kept'

/-- The pre-init buffer is bounded and ordered all the way exactly when the messages that
    are submitted to it fit in its 4096 bytes. -/
theorem bounded_and_ordered_iff (transferBuffer preInitBuffer : List.Vector UInt8 bufferSize) (events : List Event) :
    (∀ earlier, earlier <+: events → BoundedAndOrdered transferBuffer preInitBuffer earlier) ↔
      (concat (submitted events)).length ≤ bufferSize := by
  constructor
  · intro always
    obtain ⟨t, _, kept⟩ := always events (List.prefix_refl events)
    exact kept.fits
  · rintro room earlier ⟨later, rfl⟩
    apply boundedAndOrdered_of_room
    rw [submitted_append, concat_append, List.length_append] at room
    omega

/-- The file of the pipe is not there, and the program goes on with 70 allocations. -/
def noServer : List Event :=
  .init (-1) (-1) (Message.app ⟨1, 2, 3, 1, 1⟩).packet .complete .complete (.inl (by decide)) ::
    List.replicate 70 (.sendSafe (Message.memory ⟨1, 2, 3, 2, 11⟩ ⟨100, 4096, 1, 0⟩).packet .complete)

/-- The messages of 70 allocations have 4130 bytes. -/
theorem no_server_overruns : ¬ ∀ transferBuffer preInitBuffer events, ∀ earlier, earlier <+: events →
    BoundedAndOrdered transferBuffer preInitBuffer earlier := by
  intro claim
  have buffer : List.Vector UInt8 bufferSize := List.Vector.replicate bufferSize 0
  obtain ⟨t, _, kept⟩ := claim buffer buffer noServer noServer (List.prefix_refl noServer)
  have overrun : ¬ (concat (submitted noServer)).length ≤ bufferSize := by decide +kernel
  exact overrun kept.fits

end Aleakd.PreInit
