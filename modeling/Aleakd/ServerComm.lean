import Aleakd.Memory
import Aleakd.Runs

/-!
The transport of the preloaded library, `lib/server-comm.c`: what is sent before
the named pipe is open waits in the pre-init buffer, what is sent between
`servercomm_init` and `servercomm_dispose` goes through the transfer buffer, and
everything else is written at once. The globals `g_socket`, `g_bInit`,
`g_pTransferBuffer`, … are the fields of `Transport`, without their prefixes.
-/
namespace Aleakd.ServerComm
open Aleakd.Memory

/-- `BUFFER_SIZE`, of both the transfer buffer and the pre-init buffer. -/
def bufferSize : Nat := 4096

/-- The sizes of the five packed messages of `shared/server-msg.h`: application,
    memory, thread, backtrace and symbol infos. -/
def messageSizes : List Nat := [31, 59, 63, 436, 407]

/-- The bytes of one message as the library hands it to the transport. -/
structure Packet where
  bytes : List UInt8
  sized : bytes.length ∈ messageSizes

/-- The bytes of a sequence of messages. -/
def concat (packets : List Packet) : List UInt8 := (packets.map Packet.bytes).flatten

/-- The globals of `server-comm.c`, and what each physical write so far has put
    on the wire. -/
structure Transport where
  socket : Int
  init : Bool
  transfertBufferEnabled : Bool
  transferBuffer : List.Vector UInt8 bufferSize
  transfertBufferSize : Nat
  preInitBuffer : List.Vector UInt8 bufferSize
  preInitPos : Nat
  writes : List (List UInt8)

/-- The bytes on the wire. -/
def Transport.wire (t : Transport) : List UInt8 := t.writes.flatten

/-- The bytes that wait in the transfer buffer. -/
def Transport.buffered (t : Transport) : List UInt8 := t.transferBuffer.val.take t.transfertBufferSize

/-- The globals before any call, with buffers of arbitrary content. -/
def atLoad (transferBuffer preInitBuffer : List.Vector UInt8 bufferSize) : Transport :=
  { socket := -1, init := false, transfertBufferEnabled := false, transferBuffer, transfertBufferSize := 0,
    preInitBuffer, preInitPos := 0, writes := [] }

/-- How a physical `write` ends: in full, after at most `count` bytes, or with -1. -/
inductive Write where
  | complete
  | short (count : Nat)
  | error
deriving DecidableEq

/-- How many of `size` bytes reach the wire. -/
def Write.written : Write → Nat → Nat
  | .complete, size => size
  | .short count, size => min count size
  | .error, _ => 0

/-- What `write` returns for `size` bytes. -/
def Write.result : Write → Nat → Int
  | .error, _ => -1
  | w, size => w.written size

def servercommSendPhysical (t : Transport) (w : Write) (buff : List UInt8) : Transport × Int :=
  ({ t with writes := t.writes ++ [buff.take (w.written buff.length)] }, w.result buff.length)

/-- `servercomm_send`, with the globals after it and its result; `none` when the
    `memcpy` overruns the transfer buffer. The result of the physical write is
    not looked at, and 0 is returned whatever happens. -/
def servercommSend (t : Transport) (w : Write) (buff : List UInt8) : Option (Transport × Int) :=
  if t.transfertBufferEnabled then
    let t :=
      if bufferSize ≤ t.transfertBufferSize + buff.length then
        { (servercommSendPhysical t w t.buffered).1 with transfertBufferSize := 0 }
      else t
    (memcpy t.transferBuffer t.transfertBufferSize buff).map fun after =>
      ({ t with transferBuffer := after, transfertBufferSize := t.transfertBufferSize + buff.length }, 0)
  else some ((servercommSendPhysical t w buff).1, 0)

/-- `servercomm_send_safe`; what it prints while `g_bInit` is 0 is left out. -/
def servercommSendSafe (t : Transport) (w : Write) (buff : List UInt8) : Option (Transport × Int) :=
  if t.socket ≠ -1 then servercommSend t w buff
  else
    (memcpy t.preInitBuffer t.preInitPos buff).map fun after =>
      ({ t with preInitBuffer := after, preInitPos := t.preInitPos + buff.length }, 0)

/-- `servercomm_name_pipe`, the transport that `config.h` selects, given what
    `access` and `open` return. -/
def servercommNamePipe (t : Transport) (access fd : Int) : Transport × Int :=
  if access = 0 then ({ t with socket := fd }, if fd ≤ 0 then -1 else 0) else (t, access)

/-- `servercomm_init`, given what `access` and `open` return, the application
    message it builds and how its two physical writes end. -/
def servercommInit (t : Transport) (access fd : Int) (app : List UInt8) (appWrite preWrite : Write) :
    Option (Transport × Int) := do
  let (t, res) := servercommNamePipe t access fd
  let (t, res) ← if res = 0 then servercommSendSafe t appWrite app else some (t, res)
  let (t, res) ←
    if res = 0 ∧ 0 < t.preInitPos then
      (servercommSend t preWrite (t.preInitBuffer.val.take t.preInitPos)).map fun sent =>
        ({ sent.1 with preInitPos := 0 }, sent.2)
    else some (t, res)
  return ({ t with transfertBufferEnabled := true, init := true }, res)

/-- The first half of `servercomm_dispose`: it writes the transfer buffer. -/
def servercommDisposeWrite (t : Transport) (w : Write) : Transport :=
  if t.socket ≠ -1 ∧ t.transfertBufferEnabled then (servercommSendPhysical t w t.buffered).1 else t

/-- The second half: it turns the transfer buffer off. -/
def servercommDisposeClear (t : Transport) : Transport :=
  if t.socket ≠ -1 then { t with transfertBufferEnabled := false, init := false } else t

def servercommDispose (t : Transport) (w : Write) : Transport :=
  servercommDisposeClear (servercommDisposeWrite t w)

/-! ## What each call does -/

theorem Packet.small (p : Packet) : p.bytes.length < bufferSize := by
  have sized := p.sized
  simp only [messageSizes, List.mem_cons, List.not_mem_nil, or_false] at sized
  unfold bufferSize
  omega

theorem Packet.positive (p : Packet) : 0 < p.bytes.length := by
  have sized := p.sized
  simp only [messageSizes, List.mem_cons, List.not_mem_nil, or_false] at sized
  omega

@[simp] theorem concat_nil : concat [] = [] := rfl

@[simp] theorem concat_cons (p : Packet) (rest : List Packet) : concat (p :: rest) = p.bytes ++ concat rest := rfl

@[simp] theorem concat_append (first second : List Packet) : concat (first ++ second) = concat first ++ concat second := by
  simp [concat]

theorem concat_flatten (groups : List (List Packet)) : concat groups.flatten = (groups.map concat).flatten := by
  induction groups with
  | nil => rfl
  | cons g rest ih => simp [ih]

theorem concat_positive {packets : List Packet} (some : packets ≠ []) : 0 < (concat packets).length := by
  cases packets with
  | nil => exact absurd rfl some
  | cons p rest =>
    have := p.positive
    simp only [concat_cons, List.length_append]
    omega

@[simp] theorem Write.written_complete (size : Nat) : Write.complete.written size = size := rfl

theorem Write.written_le (w : Write) (size : Nat) : w.written size ≤ size := by
  cases w with
  | complete => exact Nat.le_refl size
  | short count => exact Nat.min_le_right count size
  | error => exact Nat.zero_le size

theorem buffered_length {t : Transport} (fits : t.transfertBufferSize ≤ bufferSize) :
    t.buffered.length = t.transfertBufferSize := by
  have size := t.transferBuffer.property
  simp only [Transport.buffered, List.length_take]
  omega

@[simp] theorem wire_sendPhysical (t : Transport) (w : Write) (buff : List UInt8) :
    (servercommSendPhysical t w buff).1.wire = t.wire ++ buff.take (w.written buff.length) := by
  simp [Transport.wire, servercommSendPhysical]

/-- Two states of the transport in the same sending regime. -/
def SameRegime (t t' : Transport) : Prop :=
  t'.socket = t.socket ∧ t'.transfertBufferEnabled = t.transfertBufferEnabled

theorem send_sameRegime {t t' : Transport} {w : Write} {buff : List UInt8} {res : Int}
    (sent : servercommSend t w buff = some (t',res)) : SameRegime t t' := by
  by_cases enabled : t.transfertBufferEnabled = true
  · simp only [servercommSend, enabled, if_true, Option.map_eq_some_iff] at sent
    obtain ⟨after, _, same⟩ := sent
    cases same
    split <;> exact ⟨rfl, by simp [servercommSendPhysical, enabled]⟩
  · simp only [servercommSend, enabled] at sent
    cases sent
    exact ⟨rfl, rfl⟩

/-- `servercomm_send` returns 0, whatever comes of its write. -/
theorem send_returns {t t' : Transport} {w : Write} {buff : List UInt8} {res : Int}
    (sent : servercommSend t w buff = some (t', res)) : res = 0 := by
  simp only [servercommSend] at sent
  split at sent
  · obtain ⟨_, _, same⟩ := Option.map_eq_some_iff.mp sent
    cases same
    rfl
  · cases sent
    rfl

/-- It leaves the pre-init buffer alone. -/
theorem send_preInit {t t' : Transport} {w : Write} {buff : List UInt8} {res : Int}
    (sent : servercommSend t w buff = some (t', res)) : t'.preInitPos = t.preInitPos := by
  simp only [servercommSend] at sent
  split at sent
  · obtain ⟨_, _, same⟩ := Option.map_eq_some_iff.mp sent
    cases same
    split <;> rfl
  · cases sent
    rfl

/-- While there is room, a message only joins the transfer buffer. -/
theorem send_joins {t : Transport} {buff : List UInt8} (w : Write) (enabled : t.transfertBufferEnabled)
    (room : t.transfertBufferSize + buff.length < bufferSize) :
    ∃ t', servercommSend t w buff = some (t',0) ∧ SameRegime t t' ∧ t'.writes = t.writes ∧
      t'.buffered = t.buffered ++ buff ∧ t'.transfertBufferSize = t.transfertBufferSize + buff.length := by
  obtain ⟨after, copied⟩ := memcpy_fits t.transferBuffer (Nat.le_of_lt room)
  refine ⟨{ t with transferBuffer := after, transfertBufferSize := t.transfertBufferSize + buff.length }, ?_,
    ⟨rfl, rfl⟩, rfl, memcpy_take copied, rfl⟩
  simp [servercommSend, enabled, Nat.not_le.mpr room, copied]

/-- Without room, the transfer buffer is written and the message is all it then holds. -/
theorem send_flushes {t : Transport} {buff : List UInt8} (w : Write) (enabled : t.transfertBufferEnabled)
    (full : bufferSize ≤ t.transfertBufferSize + buff.length) (fits : buff.length ≤ bufferSize) :
    ∃ t', servercommSend t w buff = some (t',0) ∧ SameRegime t t' ∧
      t'.writes = t.writes ++ [t.buffered.take (w.written t.buffered.length)] ∧
      t'.buffered = buff ∧ t'.transfertBufferSize = buff.length := by
  have room : 0 + buff.length ≤ bufferSize := by omega
  obtain ⟨after, copied⟩ := memcpy_fits t.transferBuffer room
  refine ⟨{ (servercommSendPhysical t w t.buffered).1 with
    transferBuffer := after, transfertBufferSize := buff.length }, ?_, ⟨rfl, rfl⟩, rfl, ?_, rfl⟩
  · simp [servercommSend, enabled, full, servercommSendPhysical, copied]
  · simpa [Transport.buffered] using memcpy_take copied

/-- With the transfer buffer off, a message is written at once. -/
theorem send_direct {t : Transport} (w : Write) (buff : List UInt8) (disabled : t.transfertBufferEnabled = false) :
    servercommSend t w buff = some ((servercommSendPhysical t w buff).1, 0) := by
  simp [servercommSend, disabled]

end Aleakd.ServerComm
