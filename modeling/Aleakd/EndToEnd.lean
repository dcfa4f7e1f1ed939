import Aleakd.BlockLists
import Aleakd.Runs
import Aleakd.Wrapper

/-!
From the calls of `malloc`, `realloc` and `free`, by any number of threads, to what the
server takes for live. A call has two steps: `malloc` and `realloc` read the number of the
allocation and call the real function, and send their message afterwards; `free` sends its
message first. Between the two steps of a `realloc`, the address that it has released may be
used again. Other threads and other messages count the counters up all the time, so that
each step finds them as they are then.
-/
namespace Aleakd.EndToEnd
open Aleakd.Messages Aleakd.Operations Aleakd.OperationList Aleakd.Wrapper Aleakd.ApplicationWindow Aleakd.Runs
open Aleakd.HighWater Aleakd.BlockLists Aleakd.ServerLedger

/-- A live block of the real allocator: the bytes asked for, and by which thread. -/
structure RealBlock where
  size : UInt64
  thread : UInt64
deriving DecidableEq

/-- What an allocation function does once the real one has returned a block. -/
def allocationMessage (code : MsgCode) (allocNum : UInt32) (p size ptr : UInt64) (c : Counters) (moment : Moment) :
    MemoryMessage :=
  let (_, header, data) := servercommMsgMemoryInitV1 c moment
  ({ header with msgCode := code.byte }, { data with allocNum, allocPtr := p, allocSize := size, freePtr := ptr })

/-- Where nothing comes in between, it is the message of the whole function. -/
theorem allocation_message (code : MsgCode) (p size ptr : UInt64) (c : Counters) (moment : Moment) :
    let counted := aleakdDataIncrAllocNumber c
    (allocation code true p size ptr c moment).2 =
      some (allocationMessage code (aleakdDataGetAllocNumber counted) p size ptr counted moment) := rfl

/-- A call between its two steps. -/
inductive Call where
  /-- `real_malloc` has returned `p` -/
  | malloc (allocNum : UInt32) (size p : UInt64)
  /-- `real_realloc` has released `ptr` and returned `p` -/
  | realloc (allocNum : UInt32) (ptr size p : UInt64)
  /-- the message is out, and `real_free` is still to be called -/
  | free (ptr : UInt64)
deriving DecidableEq

structure Started where
  thread : UInt64
  call : Call
deriving DecidableEq

/-- The address of the block that the call has not yet returned or is giving up. -/
def Call.pointer : Call → UInt64
  | .malloc _ _ p | .realloc _ _ _ p => p
  | .free ptr => ptr

/-- The call holds the block at an address. -/
def holds (pointer : UInt64) (started : Started) : Bool := started.call.pointer = pointer

/-- The call has released a block at the address, which no message says yet. -/
def releases (pointer : UInt64) (started : Started) : Bool :=
  match started.call with
  | .realloc _ ptr _ _ => ptr = pointer
  | .malloc .. | .free _ => false

structure System where
  live : Finmap fun _ : UInt64 => RealBlock
  calls : List Started
  stream : List MemoryMessage

def System.initial : System := ⟨∅, [], []⟩

/-- A live block whose allocating call has returned, and that no call is freeing. -/
def Usable (s : System) (pointer : UInt64) : Prop :=
  pointer ∈ s.live ∧ ∀ started ∈ s.calls, holds pointer started = false

instance Usable.decidable (s : System) (pointer : UInt64) : Decidable (Usable s pointer) :=
  inferInstanceAs (Decidable (pointer ∈ s.live ∧ ∀ started ∈ s.calls, holds pointer started = false))

/-- The thread is in no call. -/
def Idle (s : System) (thread : UInt64) : Prop := ∀ started ∈ s.calls, started.thread ≠ thread

instance Idle.decidable (s : System) (thread : UInt64) : Decidable (Idle s thread) :=
  inferInstanceAs (Decidable (∀ started ∈ s.calls, started.thread ≠ thread))

/-- Each with the counters as it finds them; an allocation has been counted before its real
    function is called. -/
inductive Event where
  | realMalloc (c : Counters) (thread size p : UInt64)
  | realRealloc (c : Counters) (thread ptr size p : UInt64)
  | sendMalloc (c : Counters) (thread : UInt64) (allocNum : UInt32) (size p timeSec timeUsec : UInt64)
  | sendRealloc (c : Counters) (thread : UInt64) (allocNum : UInt32) (ptr size p timeSec timeUsec : UInt64)
  | sendFree (c : Counters) (thread ptr timeSec timeUsec : UInt64)
  | realFree (thread ptr : UInt64)

def step (s : System) : Event → Option System
  | .realMalloc c thread size p =>
    if Idle s thread ∧ p ≠ 0 ∧ p ∉ s.live then
      some { s with
        live := Finmap.insert p ⟨size, thread⟩ s.live
        calls := ⟨thread, .malloc (aleakdDataGetAllocNumber c) size p⟩ :: s.calls }
    else none
  | .realRealloc c thread ptr size p =>
    if Idle s thread ∧ ptr ≠ 0 ∧ size ≠ 0 ∧ Usable s ptr ∧ p ≠ 0 ∧ p ∉ Finmap.erase ptr s.live then
      some { s with
        live := Finmap.insert p ⟨size, thread⟩ (Finmap.erase ptr s.live)
        calls := ⟨thread, .realloc (aleakdDataGetAllocNumber c) ptr size p⟩ :: s.calls }
    else none
  | .sendMalloc c thread allocNum size p timeSec timeUsec =>
    if ⟨thread, .malloc allocNum size p⟩ ∈ s.calls then
      some { s with
        calls := s.calls.erase ⟨thread, .malloc allocNum size p⟩
        stream := s.stream ++ [allocationMessage .malloc allocNum p size 0 c ⟨timeSec, timeUsec, thread⟩] }
    else none
  | .sendRealloc c thread allocNum ptr size p timeSec timeUsec =>
    if ⟨thread, .realloc allocNum ptr size p⟩ ∈ s.calls then
      some { s with
        calls := s.calls.erase ⟨thread, .realloc allocNum ptr size p⟩
        stream := s.stream ++ [allocationMessage .realloc allocNum p size ptr c ⟨timeSec, timeUsec, thread⟩] }
    else none
  | .sendFree c thread ptr timeSec timeUsec =>
    if Idle s thread ∧ ptr ≠ 0 ∧ Usable s ptr then
      some { s with
        calls := ⟨thread, .free ptr⟩ :: s.calls
        stream := s.stream ++ (Wrapper.free ptr c ⟨timeSec, timeUsec, thread⟩).2.toList }
    else none
  | .realFree thread ptr =>
    if ⟨thread, .free ptr⟩ ∈ s.calls then
      some { s with
        live := Finmap.erase ptr s.live
        calls := s.calls.erase ⟨thread, .free ptr⟩ }
    else none

/-- When a `realloc` reports what it has released, no other block is in use at that
    address by then. -/
def Unambiguous (s : System) : Event → Prop
  | .sendRealloc _ _ _ ptr _ _ _ _ => ¬ Usable s ptr
  | _ => True

instance Unambiguous.decidable (s : System) (event : Event) : Decidable (Unambiguous s event) := by
  unfold Unambiguous
  cases event <;> infer_instance

/-- Address, size and thread of the blocks that are live in the real allocator. -/
def realBlocks (live : Finmap fun _ : UInt64 => RealBlock) : Multiset (UInt64 × UInt64 × UInt64) :=
  (Ledger.blocks live).map fun held => (held.1, held.2.size, held.2.thread)

/-! ## One address -/

/-- The messages about an address: the blocks that were released there without a
    message so far, and then the one that is in use, if any. -/
structure AtAddress (pointer : UInt64) (block : Option RealBlock) (held released : Nat)
    (reported : List (UInt64 × UInt64 × UInt64)) : Prop where
  alone : held ≤ 1
  live : held ≠ 0 → block.isSome
  reported : ∃ olds, olds.length = released ∧ reported = olds ++
    if held = 0 then (block.map fun block => (pointer, block.size, block.thread)).toList else []

section
variable {pointer : UInt64} {block : RealBlock} {blocks : Option RealBlock} {held released : Nat}
  {reported : List (UInt64 × UInt64 × UInt64)}

/-- A real function returns a block. -/
theorem AtAddress.taken (here : AtAddress pointer none held released reported) (block : RealBlock) :
    AtAddress pointer (some block) (held + 1) released reported := by
  obtain ⟨alone, live, olds, length, split⟩ := here
  have idle : held = 0 := by
    by_contra some
    cases live some
  subst idle
  exact ⟨Nat.le_refl 1, fun _ => rfl, olds, length, split⟩

/-- Its message is appended. -/
theorem AtAddress.announced (here : AtAddress pointer (some block) (held + 1) released reported) :
    AtAddress pointer (some block) held released (reported ++ [(pointer, block.size, block.thread)]) := by
  obtain ⟨alone, live, olds, length, split⟩ := here
  have idle : held = 0 := by omega
  subst idle
  refine ⟨Nat.zero_le 1, fun some => absurd rfl some, olds, length, ?_⟩
  rw [split]
  simp

/-- The message of its free is appended. -/
theorem AtAddress.givenUp (here : AtAddress pointer (some block) 0 released reported) :
    AtAddress pointer (some block) 1 released reported.dropLast := by
  obtain ⟨alone, live, olds, length, split⟩ := here
  refine ⟨Nat.le_refl 1, fun _ => rfl, olds, length, ?_⟩
  rw [split]
  simp

/-- `real_free` releases it. -/
theorem AtAddress.freed (here : AtAddress pointer (some block) (held + 1) released reported) :
    AtAddress pointer none held released reported := by
  obtain ⟨alone, live, olds, length, split⟩ := here
  have idle : held = 0 := by omega
  subst idle
  exact ⟨Nat.zero_le 1, fun some => absurd rfl some, olds, length, split⟩

/-- `real_realloc` releases it, and no message says so yet. -/
theorem AtAddress.moved (here : AtAddress pointer (some block) 0 released reported) :
    AtAddress pointer none 0 (released + 1) reported := by
  obtain ⟨alone, live, olds, length, split⟩ := here
  refine ⟨Nat.zero_le 1, fun some => absurd rfl some, reported, ?_, (List.append_nil _).symm⟩
  rw [split, List.length_append, length]
  rfl

/-- The message about one that was released takes off one that was, where no other
    block is in use here. -/
theorem AtAddress.settled (here : AtAddress pointer blocks held (released + 1) reported)
    (unused : ¬ (blocks.isSome ∧ held = 0)) : AtAddress pointer blocks held released reported.dropLast := by
  obtain ⟨alone, live, olds, length, split⟩ := here
  have nothing : (if held = 0 then (blocks.map fun block => (pointer, block.size, block.thread)).toList else []) = [] := by
    split
    · next idle =>
      cases blocks with
      | none => rfl
      | some block => exact absurd ⟨rfl, idle⟩ unused
    · rfl
  refine ⟨alone, live, olds.dropLast, by rw [List.length_dropLast, length]; rfl, ?_⟩
  rw [split, nothing, List.append_nil, List.append_nil]

end

/-! ## What holds in every run -/

/-- What the messages leave unfreed. -/
def tally (messages : List MemoryMessage) : Tally :=
  (messages.map fun message => Callback.memoryOperation (received message)).foldl Tally.handle Tally.zero

/-- A call that has not returned knows its block. -/
def Fits (live : Finmap fun _ : UInt64 => RealBlock) (started : Started) : Prop :=
  match started.call with
  | .malloc _ size p | .realloc _ _ size p => Finmap.lookup p live = some ⟨size, started.thread⟩
  | .free ptr => ptr ∈ live

structure Inv (s : System) : Prop where
  nonzero : 0 ∉ s.live
  fits : ∀ started ∈ s.calls, Fits s.live started
  coded : ∀ message ∈ s.stream, MemoryOperation.hasAllocOperation (received message)
  address : ∀ pointer, pointer ≠ 0 → AtAddress pointer (Finmap.lookup pointer s.live) (s.calls.countP (holds pointer))
    (s.calls.countP (releases pointer)) (blocksAt pointer (tally s.stream).unfreed)

theorem initial_inv : Inv System.initial where
  nonzero := Finmap.notMem_empty
  fits := by
    intro started member
    cases member
  coded := by
    intro message member
    cases member
  address := by
    intro pointer _
    exact ⟨Nat.zero_le 1, fun some => absurd rfl some, [], rfl, rfl⟩

theorem fits_mem {live : Finmap fun _ : UInt64 => RealBlock} {started : Started} (fits : Fits live started) :
    started.call.pointer ∈ live := by
  obtain ⟨thread, call⟩ := started
  cases call with
  | malloc allocNum size p => exact Finmap.mem_of_lookup_eq_some fits
  | realloc allocNum ptr size p => exact Finmap.mem_of_lookup_eq_some fits
  | free ptr => exact fits

/-- Only the block of the call matters to it. -/
theorem fits_frame {live live' : Finmap fun _ : UInt64 => RealBlock} {started : Started} (fits : Fits live started)
    (same : Finmap.lookup started.call.pointer live' = Finmap.lookup started.call.pointer live) :
    Fits live' started := by
  obtain ⟨thread, call⟩ := started
  cases call with
  | malloc allocNum size p => exact same.trans fits
  | realloc allocNum ptr size p => exact same.trans fits
  | free ptr =>
    have member : ptr ∈ live := fits
    show ptr ∈ live'
    rw [Finmap.mem_iff] at member ⊢
    obtain ⟨block, found⟩ := member
    exact ⟨block, same.trans found⟩

theorem tally_append (messages : List MemoryMessage) (message : MemoryMessage) :
    tally (messages ++ [message]) = (tally messages).addMemoryOperation (received message) := by
  simp [tally, Tally.handle]

/-- Taking a call off the list. -/
theorem countP_erase {calls : List Started} {started : Started} (member : started ∈ calls) (test : Started → Bool) :
    calls.countP test = (calls.erase started).countP test + if test started then 1 else 0 := by
  rw [(List.perm_cons_erase member).countP_eq test, List.countP_cons]

theorem usable_iff {s : System} {pointer : UInt64} :
    Usable s pointer ↔ (Finmap.lookup pointer s.live).isSome ∧ s.calls.countP (holds pointer) = 0 := by
  simp [Usable, List.countP_eq_zero, Finmap.lookup_isSome]

/-! ## The first steps of `malloc` and `realloc`, and the second one of `free` -/

theorem realMalloc_inv {s : System} (inv : Inv s) (thread : UInt64) (allocNum : UInt32) (size : UInt64) {p : UInt64}
    (given : p ≠ 0) (unused : p ∉ s.live) :
    Inv { s with
      live := Finmap.insert p ⟨size, thread⟩ s.live
      calls := ⟨thread, .malloc allocNum size p⟩ :: s.calls } := by
  obtain ⟨nonzero, fits, coded, address⟩ := inv
  have frame : ∀ other, other ≠ p → Finmap.lookup other (Finmap.insert p ⟨size, thread⟩ s.live) =
      Finmap.lookup other s.live := fun other apart => Finmap.lookup_insert_of_ne _ apart
  constructor
  case nonzero => simpa [Finmap.mem_insert, Ne.symm given] using nonzero
  case fits =>
    intro started member
    rcases List.mem_cons.mp member with rfl | member
    · exact Finmap.lookup_insert _
    · refine fits_frame (fits started member) (frame _ ?_)
      intro same
      exact unused (same ▸ fits_mem (fits started member))
  case coded => exact coded
  case address =>
    intro pointer nonnull
    have before := address pointer nonnull
    rw [List.countP_cons, List.countP_cons]
    by_cases here : pointer = p
    · subst here
      rw [Finmap.lookup_eq_none.mpr unused] at before
      rw [Finmap.lookup_insert]
      have after := before.taken ⟨size, thread⟩
      simpa [holds, releases, Call.pointer] using after
    · rw [frame pointer here]
      simpa [holds, releases, Call.pointer, Ne.symm here] using before

theorem realFree_inv {s : System} (inv : Inv s) {thread ptr : UInt64} (member : ⟨thread, .free ptr⟩ ∈ s.calls) :
    Inv { s with
      live := Finmap.erase ptr s.live
      calls := s.calls.erase ⟨thread, .free ptr⟩ } := by
  obtain ⟨nonzero, fits, coded, address⟩ := inv
  have present : ptr ∈ s.live := fits _ member
  have nonnull : ptr ≠ 0 := fun zero => nonzero (zero ▸ present)
  have others : ∀ started ∈ s.calls.erase ⟨thread, .free ptr⟩, started.call.pointer ≠ ptr := by
    have alone := (address ptr nonnull).alone
    rw [countP_erase member] at alone
    have none : (s.calls.erase ⟨thread, .free ptr⟩).countP (holds ptr) = 0 := by
      have one : holds ptr ⟨thread, .free ptr⟩ = true := decide_eq_true rfl
      rw [one, if_pos rfl] at alone
      omega
    intro started other same
    exact List.countP_eq_zero.mp none started other (decide_eq_true same)
  constructor
  case nonzero => simpa [Finmap.mem_erase] using fun _ => nonzero
  case fits =>
    intro started other
    exact fits_frame (fits started (List.mem_of_mem_erase other)) (Finmap.lookup_erase_ne (others started other))
  case coded => exact coded
  case address =>
    intro pointer nonnull
    have before := address pointer nonnull
    rw [countP_erase member, countP_erase member (releases pointer)] at before
    by_cases here : pointer = ptr
    · subst here
      obtain ⟨block, found⟩ := Finmap.mem_iff.mp present
      rw [found] at before
      rw [Finmap.lookup_erase]
      apply AtAddress.freed
      simpa [holds, releases, Call.pointer] using before
    · rw [Finmap.lookup_erase_ne here]
      simpa [holds, releases, Call.pointer, Ne.symm here] using before

theorem realRealloc_inv {s : System} (inv : Inv s) (thread : UInt64) (allocNum : UInt32) {ptr : UInt64} (size : UInt64)
    {p : UInt64} (usable : Usable s ptr) (given : p ≠ 0) (unused : p ∉ Finmap.erase ptr s.live) :
    Inv { s with
      live := Finmap.insert p ⟨size, thread⟩ (Finmap.erase ptr s.live)
      calls := ⟨thread, .realloc allocNum ptr size p⟩ :: s.calls } := by
  obtain ⟨nonzero, fits, coded, address⟩ := inv
  obtain ⟨present, idle⟩ := usable
  have frame : ∀ other, other ≠ p → other ≠ ptr →
      Finmap.lookup other (Finmap.insert p ⟨size, thread⟩ (Finmap.erase ptr s.live)) =
        Finmap.lookup other s.live := by
    intro other apart apart'
    rw [Finmap.lookup_insert_of_ne _ apart, Finmap.lookup_erase_ne apart']
  have fresh : p ≠ ptr → p ∉ s.live := fun apart member => unused (Finmap.mem_erase.mpr ⟨apart, member⟩)
  constructor
  case nonzero => simpa [Finmap.mem_insert, Finmap.mem_erase, Ne.symm given] using fun _ => nonzero
  case fits =>
    intro started member
    rcases List.mem_cons.mp member with rfl | member
    · exact Finmap.lookup_insert _
    · have elsewhere : started.call.pointer ≠ ptr := of_decide_eq_false (idle started member)
      refine fits_frame (fits started member) (frame _ ?_ elsewhere)
      intro same
      exact fresh (fun equal => elsewhere (same.trans equal)) (same ▸ fits_mem (fits started member))
  case coded => exact coded
  case address =>
    intro pointer nonnull
    have before := address pointer nonnull
    have none : s.calls.countP (holds ptr) = 0 := by
      rw [List.countP_eq_zero]
      intro started member holds'
      rw [idle started member] at holds'
      cases holds'
    rw [List.countP_cons, List.countP_cons]
    by_cases released : pointer = ptr
    · -- the old address, where the new block may be again
      subst released
      obtain ⟨block, found⟩ := Finmap.mem_iff.mp present
      rw [found, none] at before
      rw [none]
      by_cases here : pointer = p
      · subst here
        rw [Finmap.lookup_insert]
        simpa [holds, releases, Call.pointer] using before.moved.taken ⟨size, thread⟩
      · rw [Finmap.lookup_insert_of_ne _ here, Finmap.lookup_erase]
        simpa [holds, releases, Call.pointer, Ne.symm here] using before.moved
    · by_cases here : pointer = p
      · subst here
        rw [Finmap.lookup_eq_none.mpr (fresh released)] at before
        rw [Finmap.lookup_insert]
        simpa [holds, releases, Call.pointer, Ne.symm released] using before.taken ⟨size, thread⟩
      · rw [frame pointer here released]
        simpa [holds, releases, Call.pointer, Ne.symm here, Ne.symm released] using before

/-! ## Messages -/

/-- What a message of an allocation function makes the server do. -/
theorem allocation_sends (code : MsgCode) (known : code ∈ MsgCode.named ∧ code ∈ MsgCode.memory) (allocNum : UInt32)
    (p size ptr : UInt64) (c : Counters) (moment : Moment) :
    let message := allocationMessage code allocNum p size ptr c moment
    blockOf (received message) = (p, size, moment.threadId) ∧ (received message).freePtr = ptr ∧
      MemoryOperation.hasAllocOperation (received message) := by
  refine ⟨rfl, rfl, ?_⟩
  have same : (MsgCode.ofByte code.byte) = code := MsgCode.ofByte_byte known.1
  show decide (MsgCode.ofByte code.byte ∈ MsgCode.memory) = true
  rw [same]
  exact decide_eq_true known.2

theorem free_sends {ptr : UInt64} (given : ptr ≠ 0) (c : Counters) (moment : Moment) :
    ∃ message, (Wrapper.free ptr c moment).2 = some message ∧
      blockOf (received message) = (0, 0, moment.threadId) ∧ (received message).freePtr = ptr ∧
      MemoryOperation.hasAllocOperation (received message) := by
  rw [Wrapper.free, if_pos given]
  exact ⟨_, rfl, rfl, rfl, rfl⟩

/-- The blocks at an address after a message. -/
theorem blocksAt_tally (stream : List MemoryMessage) {message : MemoryMessage} {p size thread ptr : UInt64}
    (block : blockOf (received message) = (p, size, thread)) (frees : (received message).freePtr = ptr)
    (coded : MemoryOperation.hasAllocOperation (received message)) {pointer : UInt64} (nonnull : pointer ≠ 0) :
    blocksAt pointer (tally (stream ++ [message])).unfreed =
      (if ptr = pointer then (blocksAt pointer (tally stream).unfreed).dropLast
        else blocksAt pointer (tally stream).unfreed) ++
      if p = pointer then [(p, size, thread)] else [] := by
  have same : (received message).allocPtr = p := congrArg Prod.fst block
  rw [tally_append, blocksAt_addMemoryOperation _ coded nonnull, block, frees, same]

/-- A message with an allocation code. -/
theorem coded_append {stream : List MemoryMessage} {message : MemoryMessage}
    (coded : ∀ message ∈ stream, MemoryOperation.hasAllocOperation (received message))
    (last : MemoryOperation.hasAllocOperation (received message)) :
    ∀ message' ∈ stream ++ [message], MemoryOperation.hasAllocOperation (received message') := by
  intro message' member
  rcases List.mem_append.mp member with old | new
  · exact coded message' old
  · rw [List.mem_singleton.mp new]
    exact last

theorem sendMalloc_inv {s : System} (inv : Inv s) {thread : UInt64} {allocNum : UInt32} {size p : UInt64}
    (member : ⟨thread, .malloc allocNum size p⟩ ∈ s.calls) (c : Counters) (timeSec timeUsec : UInt64) :
    Inv { s with
      calls := s.calls.erase ⟨thread, .malloc allocNum size p⟩
      stream := s.stream ++ [allocationMessage .malloc allocNum p size 0 c ⟨timeSec, timeUsec, thread⟩] } := by
  obtain ⟨nonzero, fits, coded, address⟩ := inv
  have found : Finmap.lookup p s.live = some ⟨size, thread⟩ := fits _ member
  obtain ⟨block, frees, code⟩ := allocation_sends .malloc (by decide) allocNum p size 0 c ⟨timeSec, timeUsec, thread⟩
  constructor
  case nonzero => exact nonzero
  case fits => exact fun started other => fits started (List.mem_of_mem_erase other)
  case coded => exact coded_append coded code
  case address =>
    intro pointer nonnull
    have before := address pointer nonnull
    rw [countP_erase member, countP_erase member (releases pointer)] at before
    rw [blocksAt_tally s.stream block frees code nonnull, if_neg (Ne.symm nonnull)]
    by_cases here : p = pointer
    · subst here
      rw [found] at before ⊢
      rw [if_pos rfl]
      have before' : AtAddress p (some ⟨size, thread⟩) ((s.calls.erase ⟨thread, .malloc allocNum size p⟩).countP (holds p) + 1)
          ((s.calls.erase ⟨thread, .malloc allocNum size p⟩).countP (releases p)) (blocksAt p (tally s.stream).unfreed) := by
        simpa [holds, releases, Call.pointer] using before
      exact before'.announced
    · rw [if_neg here, List.append_nil]
      simpa [holds, releases, Call.pointer, here] using before

theorem sendRealloc_inv {s : System} (inv : Inv s) {thread : UInt64} {allocNum : UInt32} {ptr size p : UInt64}
    (member : ⟨thread, .realloc allocNum ptr size p⟩ ∈ s.calls) (unused : ¬ Usable s ptr) (c : Counters)
    (timeSec timeUsec : UInt64) :
    Inv { s with
      calls := s.calls.erase ⟨thread, .realloc allocNum ptr size p⟩
      stream := s.stream ++ [allocationMessage .realloc allocNum p size ptr c ⟨timeSec, timeUsec, thread⟩] } := by
  obtain ⟨nonzero, fits, coded, address⟩ := inv
  have found : Finmap.lookup p s.live = some ⟨size, thread⟩ := fits _ member
  obtain ⟨block, frees, code⟩ := allocation_sends .realloc (by decide) allocNum p size ptr c
    ⟨timeSec, timeUsec, thread⟩
  constructor
  case nonzero => exact nonzero
  case fits => exact fun started other => fits started (List.mem_of_mem_erase other)
  case coded => exact coded_append coded code
  case address =>
    intro pointer nonnull
    have before := address pointer nonnull
    rw [blocksAt_tally s.stream block frees code nonnull]
    -- first the address that was released is settled, then the new block is announced
    have settled : AtAddress pointer (Finmap.lookup pointer s.live) (s.calls.countP (holds pointer))
        ((s.calls.erase ⟨thread, .realloc allocNum ptr size p⟩).countP (releases pointer))
        (if ptr = pointer then (blocksAt pointer (tally s.stream).unfreed).dropLast
          else blocksAt pointer (tally s.stream).unfreed) := by
      rw [countP_erase member (releases pointer)] at before
      by_cases released : ptr = pointer
      · subst released
        rw [if_pos rfl]
        have one : releases ptr ⟨thread, .realloc allocNum ptr size p⟩ = true := decide_eq_true rfl
        rw [one, if_pos rfl] at before
        exact before.settled fun used => unused (usable_iff.mpr used)
      · rw [if_neg released]
        simpa [releases, released] using before
    rw [countP_erase member] at settled
    by_cases here : p = pointer
    · subst here
      rw [found] at settled ⊢
      rw [if_pos rfl]
      have one : holds p ⟨thread, .realloc allocNum ptr size p⟩ = true := decide_eq_true rfl
      rw [one, if_pos rfl] at settled
      exact settled.announced
    · rw [if_neg here, List.append_nil]
      simpa [holds, Call.pointer, here] using settled

theorem sendFree_inv {s : System} (inv : Inv s) (thread : UInt64) {ptr : UInt64} (given : ptr ≠ 0)
    (usable : Usable s ptr) (c : Counters) (timeSec timeUsec : UInt64) :
    Inv { s with
      calls := ⟨thread, .free ptr⟩ :: s.calls
      stream := s.stream ++ (Wrapper.free ptr c ⟨timeSec, timeUsec, thread⟩).2.toList } := by
  obtain ⟨nonzero, fits, coded, address⟩ := inv
  obtain ⟨message, sent, block, frees, code⟩ := free_sends given c ⟨timeSec, timeUsec, thread⟩
  rw [sent, Option.toList_some]
  constructor
  case nonzero => exact nonzero
  case fits =>
    intro started member
    rcases List.mem_cons.mp member with rfl | member
    · exact usable.1
    · exact fits started member
  case coded => exact coded_append coded code
  case address =>
    intro pointer nonnull
    have before := address pointer nonnull
    rw [blocksAt_tally s.stream block frees code nonnull, if_neg (Ne.symm nonnull), List.append_nil, List.countP_cons,
      List.countP_cons]
    by_cases here : ptr = pointer
    · subst here
      obtain ⟨present, idle⟩ := usable_iff.mp usable
      obtain ⟨block, found⟩ := Option.isSome_iff_exists.mp present
      rw [found, idle] at before
      rw [found, idle, if_pos rfl]
      simpa [holds, releases, Call.pointer] using before.givenUp
    · rw [if_neg here]
      simpa [holds, releases, Call.pointer, here] using before

/-! ## Every run -/

theorem step_inv {s next : System} (inv : Inv s) {event : Event} (unambiguous : Unambiguous s event)
    (stepped : step s event = some next) : Inv next := by
  cases event with
  | realMalloc c thread size p =>
    simp only [step, Option.ite_none_right_eq_some, Option.some.injEq] at stepped
    obtain ⟨⟨_, given, unused⟩, rfl⟩ := stepped
    exact realMalloc_inv inv thread _ size given unused
  | realRealloc c thread ptr size p =>
    simp only [step, Option.ite_none_right_eq_some, Option.some.injEq] at stepped
    obtain ⟨⟨_, _, _, usable, given, unused⟩, rfl⟩ := stepped
    exact realRealloc_inv inv thread _ size usable given unused
  | sendMalloc c thread allocNum size p timeSec timeUsec =>
    simp only [step, Option.ite_none_right_eq_some, Option.some.injEq] at stepped
    obtain ⟨member, rfl⟩ := stepped
    exact sendMalloc_inv inv member c timeSec timeUsec
  | sendRealloc c thread allocNum ptr size p timeSec timeUsec =>
    simp only [step, Option.ite_none_right_eq_some, Option.some.injEq] at stepped
    obtain ⟨member, rfl⟩ := stepped
    exact sendRealloc_inv inv member unambiguous c timeSec timeUsec
  | sendFree c thread ptr timeSec timeUsec =>
    simp only [step, Option.ite_none_right_eq_some, Option.some.injEq] at stepped
    obtain ⟨⟨_, given, usable⟩, rfl⟩ := stepped
    exact sendFree_inv inv thread given usable c timeSec timeUsec
  | realFree thread ptr =>
    simp only [step, Option.ite_none_right_eq_some, Option.some.injEq] at stepped
    obtain ⟨member, rfl⟩ := stepped
    exact realFree_inv inv member

theorem run_inv {events : List Event} {s : System} (meets : Meets step Unambiguous System.initial events)
    (ran : run step System.initial events = some s) : Inv s :=
  run_invariant (fun _ _ _ inv unambiguous stepped => step_inv inv unambiguous stepped) initial_inv meets ran

/-! ## At rest -/

/-- The server after the messages. -/
def server (messages : List MemoryMessage) : Controller := afterMessages Controller.fresh messages

theorem server_tallied (messages : List MemoryMessage) : Tallied (server messages) (tally messages) := by
  apply handleAll_tallied _ fresh_tallied
  intro call member
  obtain ⟨message, _, rfl⟩ := List.mem_map.mp member
  rfl

theorem server_coded {messages : List MemoryMessage}
    (coded : ∀ message ∈ messages, MemoryOperation.hasAllocOperation (received message)) :
    ∀ operation ∈ (server messages).operations.listMemoryOperation, MemoryOperation.hasAllocOperation operation := by
  induction messages using List.reverseRecOn with
  | nil =>
    intro operation member
    cases member
  | append_singleton messages message ih =>
    have before := ih fun other member => coded other (List.mem_append_left _ member)
    have last : server (messages ++ [message]) =
        (server messages).addMemoryOperation (received message) := by
      simp [server, afterMessages, Controller.handleAll_append, Controller.handle]
    rw [last]
    exact addMemoryOperation_coded before (coded message (by simp))

/-- With no call under way, the blocks at an address are the one that is live. -/
theorem blocksAt_rest {s : System} (inv : Inv s) (rest : s.calls = []) {pointer : UInt64} (nonnull : pointer ≠ 0) :
    blocksAt pointer (tally s.stream).unfreed =
      ((Finmap.lookup pointer s.live).map fun block => (pointer, block.size, block.thread)).toList := by
  obtain ⟨_, _, olds, length, split⟩ := inv.address pointer nonnull
  rw [rest] at length split
  rw [split, List.length_eq_zero_iff.mp length]
  rfl

theorem mem_realBlocks {live : Finmap fun _ : UInt64 => RealBlock} {pointer size thread : UInt64} :
    (pointer, size, thread) ∈ realBlocks live ↔ Finmap.lookup pointer live = some ⟨size, thread⟩ := by
  rw [realBlocks, Multiset.mem_map]
  constructor
  · rintro ⟨⟨key, block⟩, held, same⟩
    cases same
    exact Ledger.mem_blocks.mp held
  · intro found
    exact ⟨(pointer, ⟨size, thread⟩), Ledger.mem_blocks.mpr found, rfl⟩

theorem realBlocks_nodup (live : Finmap fun _ : UInt64 => RealBlock) : (realBlocks live).Nodup := by
  apply Multiset.Nodup.map _ (Ledger.blocks_nodup live)
  rintro ⟨key, size, thread⟩ ⟨key', size', thread'⟩ same
  cases same
  rfl

/-- With no call under way, the server takes for live just the blocks that are. -/
theorem rest_agrees {s : System} (inv : Inv s) (rest : s.calls = []) :
    unfreedBlocks (server s.stream).operations.listMemoryOperation = realBlocks s.live := by
  rw [unfreedBlocks_eq (server_tallied s.stream) (server_coded inv.coded)]
  have member : ∀ pointer size thread, pointer ≠ 0 →
      ((pointer, size, thread) ∈ (tally s.stream).unfreed ↔
        Finmap.lookup pointer s.live = some ⟨size, thread⟩) := by
    intro pointer size thread nonnull
    have here : (pointer, size, thread) ∈ blocksAt pointer (tally s.stream).unfreed ↔
        (pointer, size, thread) ∈ (tally s.stream).unfreed := by
      simp [blocksAt]
    rw [← here, blocksAt_rest inv rest nonnull]
    cases Finmap.lookup pointer s.live with
    | none => simp
    | some block =>
      obtain ⟨size', thread'⟩ := block
      simp [eq_comm]
  have nodup : ((tally s.stream).unfreed.filter fun block => block.1 ≠ 0).Nodup := by
    rw [List.nodup_iff_count_le_one]
    rintro ⟨pointer, size, thread⟩
    by_cases zero : pointer = 0
    · rw [List.count_eq_zero_of_not_mem (by simp [zero])]
      exact Nat.zero_le 1
    · rw [List.count_filter (by simpa using zero)]
      have here : (blocksAt pointer (tally s.stream).unfreed).count (pointer, size, thread) =
          (tally s.stream).unfreed.count (pointer, size, thread) := List.count_filter (by simp)
      rw [← here, blocksAt_rest inv rest zero]
      refine Nat.le_trans List.count_le_length ?_
      cases Finmap.lookup pointer s.live <;> simp
  refine (Multiset.Nodup.ext (Multiset.coe_nodup.mpr nodup) (realBlocks_nodup s.live)).mpr ?_
  rintro ⟨pointer, size, thread⟩
  rw [mem_realBlocks, Multiset.mem_coe, List.mem_filter]
  constructor
  · rintro ⟨inside, nonnull⟩
    exact (member pointer size thread (by simpa using nonnull)).mp inside
  · intro found
    have nonnull : pointer ≠ 0 := fun zero => inv.nonzero (zero ▸ Finmap.mem_of_lookup_eq_some found)
    exact ⟨(member pointer size thread nonnull).mpr found, by simpa using nonnull⟩

/-- In every interleaving in which no address that a `realloc` has released is in use
    again when its message is appended: once every call has returned, the server takes
    for live just the blocks that are live in the real allocator, with the size and the
    thread of each. -/
theorem ledger_at_rest (events : List Event) (s : System) (ran : run step System.initial events = some s)
    (meets : Meets step Unambiguous System.initial events) (rest : s.calls = []) :
    unfreedBlocks (server s.stream).operations.listMemoryOperation = realBlocks s.live :=
  rest_agrees (run_inv meets ran) rest

/-- A block that thread 1 moves while thread 2 allocates and frees. -/
def movedApart : List Event :=
  [.realMalloc ⟨0, 1⟩ 1 100 4096, .realMalloc ⟨0, 2⟩ 2 50 8192, .sendMalloc ⟨0, 2⟩ 2 2 50 8192 1 0,
    .sendMalloc ⟨1, 2⟩ 1 1 100 4096 1 0, .realRealloc ⟨2, 3⟩ 1 4096 200 12288, .sendFree ⟨2, 3⟩ 2 8192 2 0,
    .sendRealloc ⟨3, 3⟩ 1 3 4096 200 12288 2 0, .realFree 2 8192, .realMalloc ⟨4, 4⟩ 2 50 4096,
    .sendMalloc ⟨4, 4⟩ 2 4 50 4096 3 0]

theorem movedApart_at_rest :
    ∃ s, run step System.initial movedApart = some s ∧ s.calls = [] ∧
      unfreedBlocks (server s.stream).operations.listMemoryOperation = realBlocks s.live :=
  ⟨_, rfl, rfl, ledger_at_rest movedApart _ rfl (by decide +kernel) rfl⟩

/-- Thread 1 has moved its block from 4096, and thread 2 gets that address and reports
    it before thread 1 reports the move. -/
def movedAway : List Event :=
  [.realMalloc ⟨0, 1⟩ 1 100 4096, .sendMalloc ⟨0, 1⟩ 1 1 100 4096 1 0, .realRealloc ⟨1, 2⟩ 1 4096 200 8192,
    .realMalloc ⟨1, 3⟩ 2 50 4096, .sendMalloc ⟨1, 3⟩ 2 3 50 4096 2 0, .sendRealloc ⟨2, 3⟩ 1 2 4096 200 8192 2 0]

theorem movedAway_confused :
    ¬ ∀ events s, run step System.initial events = some s → s.calls = [] →
      unfreedBlocks (server s.stream).operations.listMemoryOperation = realBlocks s.live := by
  intro claim
  have same := claim movedAway _ rfl rfl
  have count := congrArg (Multiset.count (4096, 50, 2)) same
  revert count
  -- the block of thread 2 is live, but the server has marked its operation as freed
  decide +kernel

end Aleakd.EndToEnd
