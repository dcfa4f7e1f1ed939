import Aleakd.ServerComm

/-!
The buffered transport is transparent: over a whole session (messages before the
pipe is open, `servercomm_init`, messages, `servercomm_dispose`, messages) with
physical writes that complete, the wire carries exactly what was submitted, in
order, and every flush of the transfer buffer writes whole messages.
-/
namespace Aleakd.Buffering
open Aleakd.Memory Aleakd.ServerComm

/-- Messages submitted to `servercomm_send_safe` one after the other. -/
def sendAll (t : Transport) (packets : List Packet) : Option Transport :=
  packets.foldlM (fun t p => (servercommSendSafe t .complete p.bytes).map Prod.fst) t

/-- A session of one caller, with the file descriptor that `open` returns. It has
    no result when a `memcpy` would overrun the pre-init or the transfer buffer. -/
def session (t : Transport) (fd : Int) (app : Packet) (pre mid post : List Packet) : Option Transport := do
  let t ← sendAll t pre
  let (t, _) ← servercommInit t 0 fd app.bytes .complete .complete
  let t ← sendAll t mid
  sendAll (servercommDispose t .complete) post

theorem sendAll_cons {t next final : Transport} {p : Packet} {rest : List Packet} {res : Int}
    (sent : servercommSendSafe t .complete p.bytes = some (next,res)) (later : sendAll next rest = some final) :
    sendAll t (p :: rest) = some final := by
  simp only [sendAll, List.foldlM_cons, sent]
  exact later

/-! ## Before the pipe is open -/

/-- `packets` wait in the pre-init buffer, and nothing else has happened. -/
structure Waiting (t : Transport) (packets : List Packet) : Prop where
  closed : t.socket = -1
  disabled : t.transfertBufferEnabled = false
  quiet : t.writes = []
  empty : t.transfertBufferSize = 0
  content : t.preInitBuffer.val.take t.preInitPos = concat packets
  position : t.preInitPos = (concat packets).length

theorem waiting_atLoad (b c : List.Vector UInt8 bufferSize) : Waiting (atLoad b c) [] :=
  ⟨rfl, rfl, rfl, rfl, by simp [atLoad], rfl⟩

theorem waiting_send {t : Transport} {packets : List Packet} (waiting : Waiting t packets) (p : Packet)
    (fits : (concat packets).length + p.bytes.length ≤ bufferSize) :
    ∃ t', servercommSendSafe t .complete p.bytes = some (t',0) ∧ Waiting t' (packets ++ [p]) := by
  have room : t.preInitPos + p.bytes.length ≤ bufferSize := by rw [waiting.position]; exact fits
  obtain ⟨after, copied⟩ := memcpy_fits t.preInitBuffer room
  refine ⟨{ t with preInitBuffer := after, preInitPos := t.preInitPos + p.bytes.length }, ?_, ?_⟩
  · simp [servercommSendSafe, waiting.closed, copied]
  · refine ⟨waiting.closed, waiting.disabled, waiting.quiet, waiting.empty, ?_, ?_⟩
    · simpa [waiting.content] using memcpy_take copied
    · simp [waiting.position]

theorem waiting_sendAll {t : Transport} {packets : List Packet} (waiting : Waiting t packets) (pre : List Packet)
    (fits : (concat (packets ++ pre)).length ≤ bufferSize) :
    ∃ t', sendAll t pre = some t' ∧ Waiting t' (packets ++ pre) := by
  induction pre generalizing t packets with
  | nil => exact ⟨t, rfl, by simpa using waiting⟩
  | cons p rest ih =>
    have first : (concat packets).length + p.bytes.length ≤ bufferSize := by
      simp only [concat_append, concat_cons, List.length_append] at fits
      omega
    obtain ⟨next, sent, waiting'⟩ := waiting_send waiting p first
    obtain ⟨final, later, waiting''⟩ := ih waiting' (by simpa using fits)
    exact ⟨final, sendAll_cons sent later, by simpa using waiting''⟩

/-! ## Between init and dispose -/

/-- Since the writes `before`, the transfer buffer was flushed with each of
    `groups`, and it now holds `pending`. -/
structure Coalescing (t : Transport) (before : List (List UInt8)) (groups : List (List Packet))
    (pending : List Packet) : Prop where
  opened : t.socket ≠ -1
  enabled : t.transfertBufferEnabled
  writes : t.writes = before ++ groups.map concat
  buffered : t.buffered = concat pending
  size : t.transfertBufferSize = (concat pending).length
  small : (concat pending).length < bufferSize
  flushes : ∀ g ∈ groups, (concat g).length < bufferSize

/-- One message joins the pending ones, after these were flushed where there is
    no room for it. -/
theorem coalescing_send {t : Transport} {before : List (List UInt8)} {groups : List (List Packet)}
    {pending : List Packet} (state : Coalescing t before groups pending) (p : Packet) :
    ∃ t' groups' pending', servercommSendSafe t .complete p.bytes = some (t',0) ∧
      Coalescing t' before groups' pending' ∧ groups'.flatten ++ pending' = groups.flatten ++ pending ++ [p] := by
  have safe : servercommSendSafe t .complete p.bytes = servercommSend t .complete p.bytes := by
    simp [servercommSendSafe, state.opened]
  rw [safe]
  by_cases room : t.transfertBufferSize + p.bytes.length < bufferSize
  · obtain ⟨t', sent, ⟨socket, enabled⟩, writes, buffered, size⟩ := send_joins .complete state.enabled room
    have sizes : (concat (pending ++ [p])).length = t.transfertBufferSize + p.bytes.length := by
      simp [state.size]
    refine ⟨t', groups, pending ++ [p], sent, ?_, by simp⟩
    exact ⟨by rw [socket]; exact state.opened, by rw [enabled]; exact state.enabled, by rw [writes, state.writes],
      by rw [buffered, state.buffered]; simp, by rw [size, sizes], by rw [sizes]; exact room, state.flushes⟩
  · obtain ⟨t', sent, ⟨socket, enabled⟩, writes, buffered, size⟩ :=
      send_flushes .complete state.enabled (Nat.not_lt.mp room) (Nat.le_of_lt p.small)
    refine ⟨t', groups ++ [pending], [p], sent, ?_, by simp⟩
    refine ⟨by rw [socket]; exact state.opened, by rw [enabled]; exact state.enabled, ?_, by rw [buffered]; simp,
      by rw [size]; simp, by simpa using p.small, ?_⟩
    · rw [writes, state.writes, state.buffered]
      simp
    · intro g member
      rcases List.mem_append.mp member with old | new
      · exact state.flushes g old
      · rw [List.mem_singleton.mp new]
        exact state.small

theorem coalescing_sendAll {t : Transport} {before : List (List UInt8)} {groups : List (List Packet)}
    {pending : List Packet} (state : Coalescing t before groups pending) (mid : List Packet) :
    ∃ t' groups' pending', sendAll t mid = some t' ∧ Coalescing t' before groups' pending' ∧
      groups'.flatten ++ pending' = groups.flatten ++ pending ++ mid := by
  induction mid generalizing t groups pending with
  | nil => exact ⟨t, groups, pending, rfl, state, by simp⟩
  | cons p rest ih =>
    obtain ⟨next, groups', pending', sent, state', order⟩ := coalescing_send state p
    obtain ⟨final, groups'', pending'', later, state'', order'⟩ := ih state'
    exact ⟨final, groups'', pending'', sendAll_cons sent later, state'', by rw [order', order]; simp⟩

/-! ## The three regimes one after the other -/

/-- A successful `servercomm_init` writes the application message, then all that
    waited, and leaves an empty transfer buffer. -/
theorem init_opens {t : Transport} {pre : List Packet} (waiting : Waiting t pre) {fd : Int} (opened : 0 < fd)
    (app : Packet) :
    ∃ t', servercommInit t 0 fd app.bytes .complete .complete = some (t',0) ∧
      Coalescing t' ([app.bytes] ++ if pre = [] then [] else [concat pre]) [] [] := by
  have valid : ¬ fd ≤ 0 := by omega
  have socket : fd ≠ -1 := by omega
  by_cases nothing : pre = []
  · have zero : t.preInitPos = 0 := by simp [waiting.position, nothing]
    refine ⟨{ t with
      socket := fd, init := true, transfertBufferEnabled := true, preInitPos := 0, writes := [app.bytes] }, ?_, ?_⟩
    · simp [servercommInit, servercommNamePipe, valid, servercommSendSafe, socket, send_direct, waiting.disabled,
        servercommSendPhysical, zero, waiting.quiet]
    · exact ⟨socket, rfl, by simp [nothing], by simp [Transport.buffered, waiting.empty], by simp [waiting.empty],
        by simp [bufferSize], by simp⟩
  · have positive : 0 < t.preInitPos := by
      rw [waiting.position]
      exact concat_positive nothing
    refine ⟨{ t with
      socket := fd, init := true, transfertBufferEnabled := true, preInitPos := 0,
      writes := [app.bytes, concat pre] }, ?_, ?_⟩
    · simp [servercommInit, servercommNamePipe, valid, servercommSendSafe, socket, send_direct, waiting.disabled,
        servercommSendPhysical, positive, waiting.quiet, waiting.content]
    · exact ⟨socket, rfl, by simp [nothing], by simp [Transport.buffered, waiting.empty], by simp [waiting.empty],
        by simp [bufferSize], by simp⟩

/-- After `servercomm_dispose`, each message is a write of its own. -/
theorem direct_sendAll {t : Transport} (opened : t.socket ≠ -1) (disabled : t.transfertBufferEnabled = false)
    (post : List Packet) :
    ∃ t', sendAll t post = some t' ∧ t'.writes = t.writes ++ post.map Packet.bytes := by
  induction post generalizing t with
  | nil => exact ⟨t, rfl, by simp⟩
  | cons p rest ih =>
    have sent : servercommSendSafe t .complete p.bytes =
        some ((servercommSendPhysical t .complete p.bytes).1, 0) := by
      simp [servercommSendSafe, opened, send_direct, disabled]
    obtain ⟨final, later, writes⟩ := ih (t := (servercommSendPhysical t .complete p.bytes).1) opened disabled
    exact ⟨final, sendAll_cons sent later, by simp [writes, servercommSendPhysical]⟩

/-- The wire carries the application message, then the messages from before it,
    then all later ones, each once and in order. No `memcpy` of the session
    overruns its buffer, and every flush between init and dispose writes the
    whole messages of one of `groups`, at most 4095 bytes. -/
theorem session_transparent (transferBuffer preInitBuffer : List.Vector UInt8 bufferSize) (fd : Int)
    (opened : 0 < fd) (app : Packet) (pre mid post : List Packet) (fits : (concat pre).length ≤ bufferSize) :
    ∃ (final : Transport) (groups : List (List Packet)), session (atLoad transferBuffer preInitBuffer) fd app pre mid
        post = some final ∧
      final.wire = app.bytes ++ concat pre ++ concat mid ++ concat post ∧
      final.writes = ([app.bytes] ++ if pre = [] then [] else [concat pre]) ++ groups.map concat ++
        post.map Packet.bytes ∧
      groups.flatten = mid ∧ ∀ g ∈ groups, (concat g).length ≤ bufferSize - 1 := by
  obtain ⟨t1, sentPre, waiting⟩ := waiting_sendAll (waiting_atLoad transferBuffer preInitBuffer) pre (by simpa using fits)
  obtain ⟨t2, inited, state⟩ := init_opens waiting opened app
  obtain ⟨t3, groups, pending, sentMid, state', order⟩ := coalescing_sendAll state mid
  simp only [List.nil_append] at inited state order
  have closing : (servercommDispose t3 .complete).writes = t3.writes ++ [concat pending] := by
    simp [servercommDispose, servercommDisposeWrite, servercommDisposeClear, state'.opened, state'.enabled,
      servercommSendPhysical, state'.buffered]
  obtain ⟨t4, sentPost, writes⟩ := direct_sendAll (t := servercommDispose t3 .complete)
    (by simp [servercommDispose, servercommDisposeWrite, servercommDisposeClear, state'.opened, state'.enabled,
      servercommSendPhysical])
    (by simp [servercommDispose, servercommDisposeWrite, servercommDisposeClear, state'.opened, state'.enabled,
      servercommSendPhysical]) post
  have allWrites : t4.writes = ([app.bytes] ++ if pre = [] then [] else [concat pre]) ++
      (groups ++ [pending]).map concat ++ post.map Packet.bytes := by
    rw [writes, closing, state'.writes]
    simp
  have middle : ((groups ++ [pending]).map concat).flatten = concat mid := by
    rw [← concat_flatten]
    simpa using congrArg concat order
  refine ⟨t4, groups ++ [pending], ?_, ?_, allWrites, by simpa using order, ?_⟩
  · simp [session, sentPre, inited, sentMid, sentPost]
  · rw [Transport.wire, allWrites, List.flatten_append, List.flatten_append, middle]
    by_cases nothing : pre = [] <;> simp [nothing, concat]
  · intro g member
    have : (concat g).length < bufferSize := by
      rcases List.mem_append.mp member with old | new
      · exact state'.flushes g old
      · rw [List.mem_singleton.mp new]
        exact state'.small
    omega

theorem session_transparent_memory_between_threads :
    ∃ (final : Transport) (groups : List (List Packet)),
      session (atLoad (List.Vector.replicate bufferSize 0) (List.Vector.replicate bufferSize 0)) 3
        ⟨List.replicate 31 1, by decide⟩ [⟨List.replicate 59 2, by decide⟩] [⟨List.replicate 63 3, by decide⟩]
        [⟨List.replicate 59 4, by decide⟩] = some final ∧
      final.wire = List.replicate 31 1 ++ List.replicate 59 2 ++ List.replicate 63 3 ++ List.replicate 59 4 ∧
      groups.flatten = [⟨List.replicate 63 3, by decide⟩] := by
  obtain ⟨final, groups, ended, wire, _, order, _⟩ := session_transparent (List.Vector.replicate bufferSize 0)
    (List.Vector.replicate bufferSize 0) 3 (by decide) ⟨List.replicate 31 1, by decide⟩
    [⟨List.replicate 59 2, by decide⟩] [⟨List.replicate 63 3, by decide⟩] [⟨List.replicate 59 4, by decide⟩]
    (by decide)
  exact ⟨final, groups, ended, by simpa using wire, order⟩

end Aleakd.Buffering
