import Aleakd.Ledger
import Aleakd.Runs
import Aleakd.Wrapper

/-!
The memory messages of one thread against the real allocator: a ledger that is
kept from the messages, and the blocks that are live, with their bytes.
-/
namespace Aleakd.WrapperLedger
open Aleakd.Messages Aleakd.Wrapper Aleakd.Ledger Aleakd.Runs

/-- A call of an allocation function, with its arguments and with what the real
    function did: the pointer it returned, 0 for NULL. `released` is about a
    `realloc` of a block to 0 bytes that returned NULL: it may have released it. -/
inductive Call where
  | malloc (size p : UInt64)
  | calloc (num size p : UInt64)
  | realloc (ptr size p : UInt64) (released : Bool)
  | free (ptr : UInt64)
  | posixMemalign (alignment size : UInt64) (ret : Int32) (memptr : UInt64)
  | alignedAlloc (alignment size p : UInt64)
  | memalign (alignment size p : UInt64)
  | valloc (size p : UInt64)
  | pvalloc (size p : UInt64)
deriving DecidableEq

/-! ## The real allocator -/

/-- A pointer that a real function returned, with the bytes of its block. -/
def block (p : UInt64) (bytes : Nat) : Option (UInt64 × Nat) := if p = 0 then none else some (p, bytes)

/-- The block that a pointer argument names. -/
def named (ptr : UInt64) : Option UInt64 := if ptr = 0 then none else some ptr

/-- What a call does to the live blocks. -/
def Call.effect : Call → Entry UInt64 Nat
  | .malloc size p | .alignedAlloc _ size p | .memalign _ size p | .valloc size p | .pvalloc size p =>
    ⟨none, block p size.toNat⟩
  | .calloc num size p => ⟨none, block p (num.toNat * size.toNat)⟩
  | .realloc ptr size p released => ⟨if p ≠ 0 ∨ released then named ptr else none, block p size.toNat⟩
  | .free ptr => ⟨named ptr, none⟩
  | .posixMemalign _ size ret memptr => ⟨none, if ret = 0 then block memptr size.toNat else none⟩

/-- The real functions keep their contract, and pointer arguments name live blocks:
    a new block is where none is live; the bytes of `calloc` fit; only a `realloc` to
    0 bytes releases its block and returns NULL. -/
def Allowed (live : Finmap fun _ : UInt64 => Nat) (call : Call) : Prop :=
  Valid live call.effect ∧
  match call with
  | .calloc num size p => p ≠ 0 → num.toNat * size.toNat < 2 ^ 64
  | .realloc ptr size p released =>
    (ptr ≠ 0 → ptr ∈ live) ∧ (released = true → p = 0 ∧ ptr ≠ 0 ∧ size = 0)
  | _ => True

/-! ## The library -/

/-- The message that a call sends. -/
def Call.send : Call → Counters → Moment → Counters × Option MemoryMessage
  | .malloc size p => Wrapper.malloc size p
  | .calloc num size p => Wrapper.calloc num size p
  | .realloc ptr size p _ => Wrapper.realloc ptr size p
  | .free ptr => Wrapper.free ptr
  | .posixMemalign alignment size ret memptr => Wrapper.posixMemalign alignment size ret memptr
  | .alignedAlloc alignment size p => Wrapper.alignedAlloc alignment size p
  | .memalign alignment size p => Wrapper.memalign alignment size p
  | .valloc size p => Wrapper.valloc size p
  | .pvalloc size p => Wrapper.pvalloc size p

/-- A message that the library sends for some call. -/
def Sent (message : MemoryMessage) : Prop :=
  ∃ (call : Call) (c : Counters) (moment : Moment), (call.send c moment).2 = some message

theorem allocation_sent {code : MsgCode} {succeeded : Bool} {p size ptr : UInt64} {c : Counters} {moment : Moment}
    {message : MemoryMessage} (sent : (allocation code succeeded p size ptr c moment).2 = some message) :
    succeeded = true ∧ message.1.msgCode = code.byte ∧ message.2.allocPtr = p ∧ message.2.freePtr = ptr := by
  cases succeeded with
  | false => cases sent
  | true =>
    cases sent
    exact ⟨rfl, rfl, rfl, rfl⟩

/-- A message as the functions with a code build it: only `free` and `realloc` name a
    block that goes, and `free` does, without one that comes. -/
structure Built (code : MsgCode) (message : MemoryMessage) : Prop where
  known : code ∈ MsgCode.memory
  coded : message.1.msgCode = code.byte
  keeps : code ≠ .free → code ≠ .realloc → message.2.freePtr = 0
  frees : code = .free → message.2.freePtr ≠ 0 ∧ message.2.allocPtr = 0 ∧ message.2.allocSize = 0

theorem sent_built {message : MemoryMessage} (sent : Sent message) : ∃ code, Built code message := by
  obtain ⟨call, c, moment, sent⟩ := sent
  have new : ∀ {code : MsgCode} {succeeded : Bool} {p size : UInt64}, code ∈ MsgCode.memory → code ≠ .free →
      (allocation code succeeded p size 0 c moment).2 = some message → ∃ code, Built code message := by
    intro code succeeded p size known other sent
    obtain ⟨_, coded, _, frees⟩ := allocation_sent sent
    exact ⟨code, known, coded, fun _ _ => frees, fun same => absurd same other⟩
  cases call with
  | malloc => exact new (by decide) (by decide) sent
  | calloc => exact new (by decide) (by decide) sent
  | posixMemalign => exact new (by decide) (by decide) sent
  | alignedAlloc => exact new (by decide) (by decide) sent
  | memalign => exact new (by decide) (by decide) sent
  | valloc => exact new (by decide) (by decide) sent
  | pvalloc => exact new (by decide) (by decide) sent
  | realloc =>
    obtain ⟨_, coded, _, _⟩ := allocation_sent sent
    exact ⟨.realloc, by decide, coded, fun _ other => absurd rfl other, fun same => by cases same⟩
  | free ptr =>
    rw [Call.send, Wrapper.free] at sent
    split at sent
    · next given =>
      cases sent
      exact ⟨.free, by decide, rfl, fun other => absurd rfl other, fun _ => ⟨given, rfl, rfl⟩⟩
    · cases sent

/-- What a message enters in the ledger: the block at `free_ptr` goes, and the one at
    `alloc_ptr` comes with `alloc_size`. -/
def reported (message : MemoryMessage) : Entry UInt64 Nat where
  releases := named message.2.freePtr
  adds := block message.2.allocPtr message.2.allocSize.toNat

/-- The ledger after the messages. -/
def replay (messages : List MemoryMessage) : Finmap fun _ : UInt64 => Nat :=
  messages.foldl (fun ledger message => post ledger (reported message)) ∅

/-! ## Runs -/

structure State where
  counters : Counters
  live : Finmap fun _ : UInt64 => Nat
  messages : List MemoryMessage

/-- After initialisation: nothing is live, and nothing was sent about the blocks. -/
def State.initial (counters : Counters) : State := ⟨counters, ∅, []⟩

instance Allowed.decidable (live : Finmap fun _ : UInt64 => Nat) (call : Call) : Decidable (Allowed live call) := by
  unfold Allowed
  cases call <;> infer_instance

def step (s : State) (event : Moment × Call) : Option State :=
  let (moment, call) := event
  if Allowed s.live call then
    let (counters, message) := call.send s.counters moment
    some ⟨counters, post s.live call.effect, s.messages ++ message.toList⟩
  else none

/-- The call reports what it did: the bytes of `calloc` are `size`, and no `realloc`
    releases a block without a new one. -/
def Reports : Call → Prop
  | .calloc num size p => p ≠ 0 → num.toNat * size.toNat = size.toNat
  | .realloc _ _ _ released => released = false
  | _ => True

/-- The ledger that is kept from the messages is right. -/
def Faithful (s : State) : Prop := replay s.messages = s.live

/-! ## One call -/

/-- What a call enters in the ledger, if anything. -/
def entered : Option MemoryMessage → Entry UInt64 Nat
  | some message => reported message
  | none => ⟨none, none⟩

theorem replay_append (messages : List MemoryMessage) (message : Option MemoryMessage) :
    replay (messages ++ message.toList) = post (replay messages) (entered message) := by
  cases message with
  | none => simp [entered, post, release, add]
  | some message => simp [entered, replay]

theorem entered_allocation (code : MsgCode) (succeeded : Bool) (p size ptr : UInt64) (c : Counters)
    (moment : Moment) :
    entered (allocation code succeeded p size ptr c moment).2 =
      if succeeded then ⟨named ptr, block p size.toNat⟩ else ⟨none, none⟩ := by
  cases succeeded <;> rfl

/-- A function that reports a block without releasing any. -/
theorem entered_allocation_new (code : MsgCode) (p size : UInt64) (c : Counters) (moment : Moment) :
    entered (allocation code (p ≠ 0) p size 0 c moment).2 = ⟨none, block p size.toNat⟩ := by
  rw [entered_allocation]
  by_cases null : p = 0 <;> simp [null, named, block]

/-- A call that reports what it did enters just that. -/
theorem entered_effect {call : Call} (reports : Reports call) (c : Counters) (moment : Moment) :
    entered (call.send c moment).2 = call.effect := by
  cases call with
  | malloc size p => exact entered_allocation_new .malloc p size c moment
  | alignedAlloc alignment size p => exact entered_allocation_new .alignedAlloc p size c moment
  | memalign alignment size p => exact entered_allocation_new .memalign p size c moment
  | valloc size p => exact entered_allocation_new .valloc p size c moment
  | pvalloc size p => exact entered_allocation_new .pvalloc p size c moment
  | calloc num size p =>
    refine (entered_allocation_new .calloc p size c moment).trans ?_
    rw [Call.effect]
    by_cases null : p = 0
    · simp [null, block]
    · rw [reports null]
  | realloc ptr size p released =>
    refine (entered_allocation .realloc (p ≠ 0) p size ptr c moment).trans ?_
    have kept : released = false := reports
    rw [Call.effect, kept]
    by_cases null : p = 0 <;> simp [null, block]
  | free ptr =>
    rw [Call.effect]
    by_cases null : ptr = 0
    · simp [Call.send, Wrapper.free, null, entered, named]
    · simp [Call.send, Wrapper.free, null, entered, reported, block, servercommMsgMemoryInitV1]
  | posixMemalign alignment size ret memptr =>
    refine (entered_allocation .posixMemalign (ret = 0) memptr size 0 c moment).trans ?_
    rw [Call.effect]
    by_cases failed : ret = 0 <;> simp [failed, named]

/-- A call that does not leaves the ledger wrong. -/
theorem entered_wrong {live : Finmap fun _ : UInt64 => Nat} {call : Call} (allowed : Allowed live call)
    (silent : ¬ Reports call) (c : Counters) (moment : Moment) :
    post live (entered (call.send c moment).2) ≠ post live call.effect := by
  intro same
  cases call with
  | malloc | alignedAlloc | memalign | valloc | pvalloc | free | posixMemalign => exact silent trivial
  | calloc num size p =>
    obtain ⟨given, bytes⟩ : p ≠ 0 ∧ num.toNat * size.toNat ≠ size.toNat := by
      simpa [Reports] using silent
    have entry : entered ((Call.calloc num size p).send c moment).2 = ⟨none, block p size.toNat⟩ :=
      entered_allocation_new .calloc p size c moment
    have held := congrArg (Finmap.lookup p) same
    simp only [entry, Call.effect, post, block, if_neg given, add, Finmap.lookup_insert, Option.some.injEq] at held
    exact bytes held.symm
  | realloc ptr size p released =>
    have gone : released = true := by simpa [Reports] using silent
    obtain ⟨_, known, contract⟩ := allowed
    obtain ⟨null, given, _⟩ := contract gone
    have entry : entered ((Call.realloc ptr size p released).send c moment).2 = ⟨none, none⟩ := by
      refine (entered_allocation .realloc (p ≠ 0) p size ptr c moment).trans ?_
      simp [null]
    rw [entry] at same
    have held := congrArg (Finmap.lookup ptr) same
    simp only [Call.effect, gone, or_true, if_true, named, if_neg given, post, null, block, add, release,
      Finmap.lookup_erase, Finmap.lookup_eq_none] at held
    exact held (known given)

/-- From a ledger that is right, a call leads to one exactly when it reports what it
    did. -/
theorem step_faithful {s next : State} {event : Moment × Call} (faithful : Faithful s)
    (stepped : step s event = some next) : Faithful next ↔ Reports event.2 := by
  obtain ⟨moment, call⟩ := event
  simp only [step, Option.ite_none_right_eq_some, Option.some.injEq] at stepped
  obtain ⟨allowed, rfl⟩ := stepped
  rw [Faithful, replay_append, faithful]
  constructor
  · intro same
    by_contra silent
    exact entered_wrong allowed silent s.counters moment same
  · intro reports
    rw [entered_effect reports]

/-! ## Every run -/

theorem initial_faithful (counters : Counters) : Faithful (State.initial counters) := rfl

theorem run_faithful {s : State} (faithful : Faithful s) {events : List (Moment × Call)} {final : State}
    (ran : run step s events = some final) :
    (∀ earlier later between, events = earlier ++ later → run step s earlier = some between → Faithful between) ↔
      ∀ event ∈ events, Reports event.2 := by
  induction events generalizing s with
  | nil =>
    constructor
    · intro _ event member
      cases member
    · intro _ earlier later between split ran'
      obtain ⟨rfl, rfl⟩ := List.append_eq_nil_iff.mp split.symm
      cases ran'
      exact faithful
  | cons event rest ih =>
    obtain ⟨next, stepped, ran'⟩ := run_cons_some.mp ran
    have here := step_faithful faithful stepped
    constructor
    · intro always
      have faithful' := always [event] rest next rfl (run_cons_some.mpr ⟨next, stepped, rfl⟩)
      intro other member
      rcases List.mem_cons.mp member with rfl | member
      · exact here.mp faithful'
      · refine (ih faithful' ran').mp ?_ other member
        intro earlier later between split ran''
        exact always (event :: earlier) later between (by rw [split, List.cons_append])
          (run_cons_some.mpr ⟨next, stepped, ran''⟩)
    · intro reports earlier later between split ran''
      cases earlier with
      | nil =>
        cases ran''
        exact faithful
      | cons first earlier =>
        rw [List.cons_append, List.cons.injEq] at split
        obtain ⟨rfl, split⟩ := split
        obtain ⟨next', stepped', ran'''⟩ := run_cons_some.mp ran''
        rw [stepped] at stepped'
        cases stepped'
        exact (ih (here.mpr (reports event List.mem_cons_self)) ran').mpr
          (fun other member => reports other (List.mem_cons_of_mem event member)) earlier later between split ran'''

/-- The ledger that is kept from the messages is right after every call of a run, if
    and only if no `calloc` returns a block of other than `size` bytes, and no
    `realloc` releases a block and returns NULL. -/
theorem messages_faithful_iff (counters : Counters) (events : List (Moment × Call)) (final : State)
    (ran : run step (State.initial counters) events = some final) :
    (∀ earlier later between, events = earlier ++ later →
        run step (State.initial counters) earlier = some between → Faithful between) ↔
      ∀ event ∈ events, Reports event.2 :=
  run_faithful (initial_faithful counters) ran

/-- Each function once, a `calloc` of one element among them, and a `realloc` that
    fails. -/
def eachFunction : List (Moment × Call) :=
  [(⟨1, 0, 7⟩, .malloc 8 4096), (⟨1, 0, 7⟩, .calloc 1 12 4112), (⟨1, 0, 7⟩, .realloc 4096 16 4128 false),
    (⟨1, 0, 7⟩, .realloc 4128 99 0 false), (⟨1, 0, 7⟩, .posixMemalign 16 8 0 4096),
    (⟨1, 0, 7⟩, .alignedAlloc 16 32 8192), (⟨1, 0, 7⟩, .memalign 64 8 8256), (⟨1, 0, 7⟩, .valloc 8 12288),
    (⟨1, 0, 7⟩, .pvalloc 8 16384), (⟨1, 0, 7⟩, .free 4112), (⟨1, 0, 7⟩, .free 0)]

theorem eachFunction_faithful :
    ∃ final, run step (State.initial ⟨0, 0⟩) eachFunction = some final ∧ Faithful final := by
  refine ⟨_, rfl, ?_⟩
  exact (messages_faithful_iff ⟨0, 0⟩ eachFunction _ rfl).mpr (by simp [eachFunction, Reports]) eachFunction [] _
    (List.append_nil _).symm rfl

/-- `calloc(3, 4)` provides 12 bytes and reports 4. -/
theorem calloc_reports_less :
    ¬ ∀ counters events final, run step (State.initial counters) events = some final → Faithful final := by
  intro claim
  have faithful := claim ⟨0, 0⟩ [(⟨1, 0, 7⟩, .calloc 3 4 4096)] _ rfl
  have held := congrArg (Finmap.lookup 4096) faithful
  revert held
  decide +kernel

end Aleakd.WrapperLedger
