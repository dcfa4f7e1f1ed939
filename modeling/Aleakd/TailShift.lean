import Aleakd.ReadBounds

/-!
The `memcpy` that moves the unprocessed tail to the start of the buffer of `doReadMsg`.
Its source begins behind the processed bytes, so the regions are apart when the tail is
not longer than these. On a stream of messages that is a matter of where the reads end.
-/
namespace Aleakd.TailShift
open Aleakd.Messages Aleakd.Operations Aleakd.Receiver Aleakd.Framing Aleakd.Reassembly Aleakd.Memory
open Aleakd.ReadBounds

/-- The sizes of a `memcpy` in `doReadMsg`. -/
structure TailMove where
  sizeProcessed : Nat
  sizeRemaining : Nat

/-- The read makes `doReadMsg` move a tail: something is processed, and something is left. -/
inductive Moves (s : ReadBuffer) : Read → TailMove → Prop where
  | data {bytes : List UInt8} {atMost : bytes.length ≤ 4096} {filled : List.Vector UInt8 readBufferSize}
      {processed : Int} (some : bytes ≠ []) (read : memcpy s.content s.bufferReadSize bytes = .some filled)
      (handled : (doProcessDataReadCopies filled.val (s.bufferReadSize + bytes.length)).2 = processed)
      (positive : 0 < processed) (left : 0 < s.bufferReadSize + bytes.length - processed.toNat) :
      Moves s (.data bytes atMost) ⟨processed.toNat, s.bufferReadSize + bytes.length - processed.toNat⟩

/-- From a state on, no `memcpy` of the call is given overlapping regions. -/
def ApartFrom (s : ReadBuffer) (reads : List Read) : Prop :=
  ∀ earlier read later, reads = earlier ++ read :: later → ∀ s', Rounds s earlier s' →
    ∀ move, Moves s' read move → move.sizeRemaining ≤ move.sizeProcessed

/-- In the whole call, whatever the local buffer holds at first. -/
def MovesApart (reads : List Read) : Prop := ∀ content, ApartFrom ⟨content, 0⟩ reads

/-- Each read after the first `p` bytes of a stream that completes a message ends no further
    behind the last complete one than the messages are long that it completes; a read that
    completes none is the last of the call. -/
def EndsInReach (messages : List LibraryMessage) : Nat → List Read → Prop
  | _, [] => True
  | p, .error :: reads => EndsInReach messages p reads
  | p, .data bytes _ :: reads =>
    let q := p + bytes.length
    let completed := complete (waiting messages p) (q - settled messages p)
    completed = [] ∨ q - settled messages q ≤ (encodeAll completed).length ∧ EndsInReach messages q reads

instance EndsInReach.decidable (messages : List LibraryMessage) : (p : Nat) → (reads : List Read) →
    Decidable (EndsInReach messages p reads)
  | _, [] => inferInstanceAs (Decidable True)
  | p, .error :: reads => EndsInReach.decidable messages p reads
  | p, .data bytes _ :: reads =>
    have := EndsInReach.decidable messages (p + bytes.length) reads
    inferInstanceAs (Decidable
      (complete (waiting messages p) (p + bytes.length - settled messages p) = [] ∨
        p + bytes.length - settled messages (p + bytes.length) ≤
            (encodeAll (complete (waiting messages p) (p + bytes.length - settled messages p))).length ∧
          EndsInReach messages (p + bytes.length) reads))

/-! ## One read -/

theorem apartFrom_nil (s : ReadBuffer) : ApartFrom s [] := by
  intro earlier read later same
  cases earlier <;> cases same

theorem apartFrom_cons (s : ReadBuffer) (read : Read) (reads : List Read) :
    ApartFrom s (read :: reads) ↔
      (∀ move, Moves s read move → move.sizeRemaining ≤ move.sizeProcessed) ∧
        ∀ next, Step s read next → ApartFrom next reads := by
  constructor
  · intro apart
    refine ⟨apart [] read reads rfl s (.nil s), ?_⟩
    rintro next step earlier read' later rfl s' rounds
    exact apart (read :: earlier) read' later rfl s' (.cons step rounds)
  · rintro ⟨here, onward⟩ earlier read' later same s' rounds
    cases rounds with
    | nil =>
      cases same
      exact here
    | cons step rounds =>
      cases same
      exact onward _ step _ read' later rfl s' rounds

theorem apartFrom_error (s : ReadBuffer) (reads : List Read) :
    ApartFrom s (.error :: reads) ↔ ApartFrom s reads := by
  rw [apartFrom_cons]
  constructor
  · rintro ⟨_, onward⟩
    exact onward s (.error s)
  · intro apart
    refine ⟨fun move moves => ?_, fun next step => ?_⟩
    · cases moves
    · cases step
      exact apart

/-! ## Reads of a stream -/

/-- The buffer holds what is pending after the first `p` bytes of the stream. -/
structure Holds (messages : List LibraryMessage) (p : Nat) (s : ReadBuffer) : Prop where
  inside : p ≤ (encodeAll messages).length
  held : s.held = pending messages p
  size : s.bufferReadSize = p - settled messages p

theorem Holds.small {messages : List LibraryMessage} {p : Nat} {s : ReadBuffer} (holds : Holds messages p s) :
    s.bufferReadSize ≤ 466 := by
  have short := pending_short messages holds.inside
  have size := holds.size
  omega

theorem completed_length (messages : List LibraryMessage) {p q : Nat} (order : p ≤ q) :
    (encodeAll (complete (waiting messages p) (q - settled messages p))).length =
      settled messages q - settled messages p := by
  have count := settled_add messages order
  show settled (waiting messages p) (q - settled messages p) = _
  omega

theorem completed_nil_iff (messages : List LibraryMessage) {p q : Nat} (order : p ≤ q) :
    complete (waiting messages p) (q - settled messages p) = [] ↔ settled messages q = settled messages p := by
  have count := settled_add messages order
  constructor
  · intro none
    have nothing : settled (waiting messages p) (q - settled messages p) = 0 := by rw [settled, none]; rfl
    omega
  · intro same
    have length := completed_length messages order
    rw [same, Nat.sub_self] at length
    cases completed : complete (waiting messages p) (q - settled messages p) with
    | nil => rfl
    | cons m rest =>
      have positive := m.message.size_pos
      rw [completed, encodeAll_cons, List.length_append, Message.encode_length] at length
      omega

section Read
variable {messages : List LibraryMessage} {p : Nat} {s : ReadBuffer} {bytes later : List UInt8}
  {atMost : bytes.length ≤ 4096}

/-- What is processed of a read is what it completes. -/
theorem read_processed (holds : Holds messages p s) (atMost : bytes.length ≤ 4096)
    (cut : bytes ++ later = (encodeAll messages).drop p) :
    p + bytes.length ≤ (encodeAll messages).length ∧
      ∃ filled, memcpy s.content s.bufferReadSize bytes = some filled ∧
        (doProcessDataReadCopies filled.val (s.bufferReadSize + bytes.length)).2 =
          ((settled messages (p + bytes.length) - settled messages p : Nat) : Int) := by
  have start := holds.inside
  have inside : p + bytes.length ≤ (encodeAll messages).length := by
    have length := congrArg List.length cut
    rw [List.length_append, List.length_drop] at length
    omega
  obtain ⟨filled, read, _⟩ := read_inside s holds.small atMost
  obtain ⟨_, _, handled⟩ := read_handled atMost cut inside
  rw [← holds.held] at handled
  exact ⟨inside, filled, read, doProcessDataReadCopies_result holds.small atMost read handled⟩

/-- The sizes of the `memcpy`, if there is one. -/
theorem moves_sizes (holds : Holds messages p s) (cut : bytes ++ later = (encodeAll messages).drop p)
    {move : TailMove} (moves : Moves s (.data bytes atMost) move) :
    settled messages p < settled messages (p + bytes.length) ∧
      move = ⟨settled messages (p + bytes.length) - settled messages p,
        p + bytes.length - settled messages (p + bytes.length)⟩ := by
  obtain ⟨_, filled, read, handled⟩ := read_processed holds atMost cut
  have order := settled_le_self messages p
  have count := settled_add messages (Nat.le_add_right p bytes.length)
  have size := holds.size
  cases moves with
  | data some read' handled' positive left =>
    rw [read] at read'
    cases read'
    rw [handled] at handled'
    subst handled'
    rw [Int.toNat_natCast]
    refine ⟨by omega, ?_⟩
    congr 1
    omega

/-- A tail is moved when messages are complete and bytes are left behind them. -/
theorem moves_of_left (holds : Holds messages p s) (atMost : bytes.length ≤ 4096)
    (cut : bytes ++ later = (encodeAll messages).drop p)
    (progress : settled messages p < settled messages (p + bytes.length))
    (left : settled messages (p + bytes.length) < p + bytes.length) :
    ∃ move, Moves s (.data bytes atMost) move := by
  obtain ⟨_, filled, read, handled⟩ := read_processed holds atMost cut
  have order := settled_le_self messages p
  have size := holds.size
  have some_ : bytes ≠ [] := by
    rintro rfl
    exact Nat.lt_irrefl _ progress
  exact ⟨_, .data some_ read handled (by omega) (by rw [Int.toNat_natCast]; omega)⟩

/-- A round that goes on has completed messages; where the regions are apart it leaves what
    is pending then. -/
theorem step_holds (holds : Holds messages p s) (cut : bytes ++ later = (encodeAll messages).drop p)
    {next : ReadBuffer} (step : Step s (.data bytes atMost) next) :
    settled messages p < settled messages (p + bytes.length) ∧
      (p + bytes.length - settled messages (p + bytes.length) ≤
          settled messages (p + bytes.length) - settled messages p →
        Holds messages (p + bytes.length) next) := by
  obtain ⟨inside, filled, read, handled⟩ := read_processed holds atMost cut
  have order := settled_le_self messages p
  have size := holds.size
  cases step with
  | data some read' handled' positive moved =>
    rw [read] at read'
    cases read'
    rw [handled] at handled'
    subst handled'
    rw [Int.toNat_natCast] at moved ⊢
    refine ⟨by omega, fun apart => ⟨inside, ?_, ?_⟩⟩
    · rw [held_moved holds.small read (moved (by omega)), holds.held, pending_next cut]
    · show s.bufferReadSize + bytes.length - _ = _
      omega

/-- There is such a round wherever messages are complete. -/
theorem exists_step (holds : Holds messages p s) (atMost : bytes.length ≤ 4096)
    (cut : bytes ++ later = (encodeAll messages).drop p)
    (progress : settled messages p < settled messages (p + bytes.length)) :
    ∃ next, Step s (.data bytes atMost) next := by
  obtain ⟨_, filled, read, handled⟩ := read_processed holds atMost cut
  have some_ : bytes ≠ [] := by
    rintro rfl
    exact Nat.lt_irrefl _ progress
  obtain ⟨after, moved⟩ := exists_moved filled (settled messages (p + bytes.length) - settled messages p)
    (s.bufferReadSize + bytes.length - (settled messages (p + bytes.length) - settled messages p))
  exact ⟨_, .data some_ read handled (by omega) moved⟩

end Read

/-! ## The whole call -/

theorem apartFrom_iff {messages : List LibraryMessage} {reads : List Read} {p : Nat} {s : ReadBuffer}
    (holds : Holds messages p s) (stream : delivered reads <+: (encodeAll messages).drop p) :
    ApartFrom s reads ↔ EndsInReach messages p reads := by
  induction reads generalizing p s with
  | nil => exact iff_of_true (apartFrom_nil s) trivial
  | cons read reads ih =>
    cases read with
    | error =>
      rw [apartFrom_error]
      exact ih holds stream
    | data bytes atMost =>
      obtain ⟨rest, whole⟩ := stream
      have cut : bytes ++ (delivered reads ++ rest) = (encodeAll messages).drop p := by
        rw [← List.append_assoc]
        exact whole
      have onward : delivered reads <+: (encodeAll messages).drop (p + bytes.length) := by
        rw [← List.drop_drop, ← cut, List.drop_left]
        exact List.prefix_append _ _
      have order := Nat.le_add_right p bytes.length
      have more := settled_add messages order
      rw [apartFrom_cons, EndsInReach, completed_nil_iff messages order, completed_length messages order]
      constructor
      · rintro ⟨apart, later⟩
        by_cases stalled : settled messages (p + bytes.length) = settled messages p
        · exact .inl stalled
        · have progress : settled messages p < settled messages (p + bytes.length) := by omega
          have reach : p + bytes.length - settled messages (p + bytes.length) ≤
              settled messages (p + bytes.length) - settled messages p := by
            by_cases left : settled messages (p + bytes.length) < p + bytes.length
            · obtain ⟨move, moves⟩ := moves_of_left holds atMost cut progress left
              have inside := apart move moves
              rw [(moves_sizes holds cut moves).2] at inside
              exact inside
            · omega
          obtain ⟨next, step⟩ := exists_step holds atMost cut progress
          exact .inr ⟨reach, (ih ((step_holds holds cut step).2 reach) onward).mp (later next step)⟩
      · intro reach
        refine ⟨fun move moves => ?_, fun next step => ?_⟩
        · obtain ⟨progress, rfl⟩ := moves_sizes holds cut moves
          rcases reach with stalled | ⟨within, _⟩
          · omega
          · exact within
        · obtain ⟨progress, after⟩ := step_holds holds cut step
          rcases reach with stalled | ⟨within, rest⟩
          · omega
          · exact (ih (after within) onward).mpr rest

theorem start_holds (messages : List LibraryMessage) (content : List.Vector UInt8 readBufferSize) :
    Holds messages 0 ⟨content, 0⟩ where
  inside := Nat.zero_le _
  held := by rw [pending, Nat.zero_sub, List.take_zero]; rfl
  size := (Nat.zero_sub _).symm

/-- On a stream of messages, every `memcpy` of a call is given regions that do not overlap
    exactly when each read that completes messages ends no further behind them than they
    are long. -/
theorem moves_apart_iff {messages : List LibraryMessage} {reads : List Read}
    (stream : delivered reads <+: encodeAll messages) : MovesApart reads ↔ EndsInReach messages 0 reads := by
  constructor
  · intro apart
    exact (apartFrom_iff (start_holds messages (List.Vector.replicate readBufferSize 0)) stream).mp (apart _)
  · intro reach content
    exact (apartFrom_iff (start_holds messages content) stream).mpr reach

/-- Nine bytes of a message behind one of 31 bytes. -/
theorem moves_apart_cut : MovesApart [.data ((encodeAll firstMessages).take 40) firstMessages_take] :=
  (moves_apart_iff (show _ <+: encodeAll firstMessages by decide +kernel)).mpr (by decide +kernel)

/-- The application message, then a backtrace that the server still waits for the end of. -/
def waitsBehindApp : List LibraryMessage :=
  [⟨.app ⟨4, 5, 6, 1, 1⟩, by decide⟩, ⟨.backtrace ⟨4, 5, 6, 3, 41⟩ ⟨2, 1, List.Vector.replicate 50 7⟩, by decide⟩]

theorem waitsBehindApp_length : (encodeAll waitsBehindApp).length ≤ 4096 := by decide +kernel

/-- Of the 467 bytes 31 are processed, and 436 are moved over them. -/
theorem tail_overlaps : ¬ ∀ (messages : List LibraryMessage) (reads : List Read),
    delivered reads <+: encodeAll messages → MovesApart reads := by
  intro claim
  have stream : delivered [.data (encodeAll waitsBehindApp) waitsBehindApp_length] <+: encodeAll waitsBehindApp := by
    decide +kernel
  have apart := claim waitsBehindApp _ stream (List.Vector.replicate readBufferSize 0)
  have reach := (apartFrom_iff (start_holds waitsBehindApp _) stream).mp apart
  revert reach
  decide +kernel

end Aleakd.TailShift
