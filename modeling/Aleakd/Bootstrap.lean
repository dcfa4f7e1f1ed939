import Aleakd.Runs
import Mathlib.Data.UInt

/-!
The start of the library, `wrapper_init` and the allocation functions around it. The
real functions are looked up one after the other; `dlsym` and `backtrace` may allocate
while this goes on, and then get their blocks from a buffer of the library.
-/
namespace Aleakd.Bootstrap
open Aleakd.Runs

/-! ## The allocation functions -/

inductive Pointer where
  | null
  /-- a block of `dummy_malloc`, at an offset of `tmpbuf` -/
  | tmpbuf (offset : UInt64)
  /-- a block of a real function -/
  | heap (address : UInt64)
deriving DecidableEq

/-- The pointer came from `dummy_malloc` or `dummy_calloc`. -/
def Pointer.isDummy : Pointer → Bool
  | .tmpbuf _ => true
  | .null | .heap _ => false

/-- `p` is what the real function returns, where it is called. -/
inductive Call where
  | malloc (size : UInt64) (p : Option UInt64)
  | calloc (num size : UInt64) (p : Option UInt64)
  | realloc (ptr : Pointer) (size : UInt64) (p : Option UInt64)
  | free (ptr : Pointer)

/-- `real_malloc`, `real_calloc`, `real_realloc` and `real_free` -/
inductive RealFunction where
  | malloc
  | calloc
  | realloc
  | free
deriving DecidableEq

/-- A call of a real function. -/
structure Invocation where
  function : RealFunction
  /-- the pointer to the function is not NULL -/
  resolved : Bool
  /-- the block that is passed -/
  argument : Pointer
deriving DecidableEq

/-- Where `wrapper_init` is, each time in a function that may allocate. -/
inductive InitStep where
  | backtraceInit
  | dlsymMalloc
  | dlsymCalloc
  | dlsymFree
  | dlsymRealloc
  /-- the other functions, the connection and the environment -/
  | others
deriving DecidableEq

structure State where
  /-- `g_bIsInitializing`, which is never set back -/
  isInitializing : Bool
  /-- where `wrapper_init` is, while it runs -/
  initStep : Option InitStep
  /-- the call that waits for `wrapper_init` to return -/
  outer : Option Call
  realMalloc : Bool
  realCalloc : Bool
  realFree : Bool
  realRealloc : Bool
  tmppos : UInt64
  /-- the pointers that the program has got and not given back -/
  held : List Pointer
  log : List Invocation
  /-- the process is gone -/
  exited : Bool

def State.initial : State where
  isInitializing := false
  initStep := none
  outer := none
  realMalloc := false
  realCalloc := false
  realFree := false
  realRealloc := false
  tmppos := 0
  held := []
  log := []
  exited := false

/-- `sizeof(tmpbuf)` -/
def tmpbufSize : UInt64 := 8192

/-- `dummy_malloc`, and `dummy_calloc` with the product of its arguments. -/
def State.dummyMalloc (s : State) (size : UInt64) : State :=
  if s.tmppos + size ≥ tmpbufSize then { s with exited := true }
  else { s with tmppos := s.tmppos + size, held := .tmpbuf s.tmppos :: s.held }

/-- What a real function that allocates returns. -/
def State.receive (s : State) : Option UInt64 → State
  | none => s
  | some address => { s with held := .heap address :: s.held }

def State.invoke (s : State) (function : RealFunction) (resolved : Bool) (argument : Pointer) : State :=
  { s with log := s.log ++ [⟨function, resolved, argument⟩] }

/-- The call, once `wrapper_init` has returned or is not needed. -/
def State.perform (s : State) : Call → State
  | .malloc size p =>
    if s.realMalloc then (s.invoke .malloc s.realMalloc .null).receive p else s.dummyMalloc size
  | .calloc num size p =>
    if s.realCalloc then (s.invoke .calloc s.realCalloc .null).receive p else s.dummyMalloc (num * size)
  | .realloc ptr _ p =>
    let s := s.invoke .realloc s.realRealloc ptr
    if s.realRealloc then
      match p with
      | none => s
      | some address => { s with held := .heap address :: s.held.erase ptr }
    else { s with exited := true }
  | .free ptr =>
    let s := if s.realFree then s.invoke .free s.realFree ptr else s
    { s with held := s.held.erase ptr }

/-- The real function of the call has not been looked up. -/
def Call.missing (s : State) : Call → Bool
  | .malloc .. => !s.realMalloc
  | .calloc .. => !s.realCalloc
  | .realloc .. => !s.realRealloc
  | .free _ => !s.realFree

/-- The program passes only what it has got from these functions. -/
def Call.given (held : List Pointer) : Call → Bool
  | .malloc .. | .calloc .. => true
  | .realloc ptr _ _ | .free ptr => ptr = .null || held.contains ptr

/-! ## Runs -/

inductive Event where
  /-- the constructor of the library, which calls `wrapper_init` -/
  | aleakdConstructor
  /-- a call of the program, or of a function that `wrapper_init` is in -/
  | call (call : Call)
  /-- the function that `wrapper_init` is in returns; `found` is for `dlsym` -/
  | returns (found : Bool)

def State.startInit (s : State) (outer : Option Call) : State :=
  { s with isInitializing := true, initStep := some .backtraceInit, outer }

/-- `wrapper_init` goes on, and at its end the call that waits for it. -/
def State.advance (s : State) (found : Bool) : InitStep → State
  | .backtraceInit => { s with initStep := some .dlsymMalloc }
  | .dlsymMalloc => { s with realMalloc := found, initStep := some .dlsymCalloc }
  | .dlsymCalloc => { s with realCalloc := found, initStep := some .dlsymFree }
  | .dlsymFree => { s with realFree := found, initStep := some .dlsymRealloc }
  | .dlsymRealloc => { s with realRealloc := found, initStep := some .others }
  | .others =>
    let s' := { s with initStep := none, outer := none }
    match s.outer with
    | none => s'
    | some call => s'.perform call

def step (s : State) (event : Event) : Option State :=
  if s.exited then none
  else
    match event with
    | .aleakdConstructor => some (if s.isInitializing then s else s.startInit none)
    | .call call =>
      if call.given s.held then
        some (if call.missing s && !s.isInitializing then s.startInit (some call) else s.perform call)
      else none
    | .returns found => s.initStep.map (s.advance found)

/-! ## When the blocks stay apart -/

/-- No real function was called through NULL, and none was given a block of `tmpbuf` to
    free or to resize. -/
def Apart (s : State) : Prop := ∀ invocation ∈ s.log, invocation.resolved = true ∧
  (invocation.function = .free ∨ invocation.function = .realloc → invocation.argument.isDummy = false)

/-- The call that is performed at an event. -/
def performed (s : State) : Event → Option Call
  | .aleakdConstructor => none
  | .call call => if call.missing s && !s.isInitializing then none else some call
  | .returns _ => if s.initStep = some .others then s.outer else none

/-- A block of `tmpbuf` is freed only until `real_free` is found, and never resized, and
    `realloc` is called only once `real_realloc` is found. -/
def Careful (s : State) : Call → Prop
  | .malloc .. | .calloc .. => True
  | .realloc ptr _ _ => s.realRealloc = true ∧ ptr.isDummy = false
  | .free ptr => s.realFree = true → ptr.isDummy = false

instance (s : State) : ∀ call, Decidable (Careful s call)
  | .malloc .. | .calloc .. => inferInstanceAs (Decidable True)
  | .realloc ptr _ _ => inferInstanceAs (Decidable (s.realRealloc = true ∧ ptr.isDummy = false))
  | .free ptr => inferInstanceAs (Decidable (s.realFree = true → ptr.isDummy = false))

theorem invoke_apart (s : State) (function : RealFunction) (resolved : Bool) (argument : Pointer) :
    Apart (s.invoke function resolved argument) ↔
      Apart s ∧ resolved = true ∧ (function = .free ∨ function = .realloc → argument.isDummy = false) := by
  constructor
  · intro apart
    refine ⟨fun invocation member => apart invocation (List.mem_append_left _ member), ?_⟩
    exact apart ⟨function, resolved, argument⟩ (List.mem_append_right _ List.mem_cons_self)
  · rintro ⟨apart, last⟩ invocation member
    rcases List.mem_append.mp member with old | new
    · exact apart invocation old
    · rw [List.mem_singleton.mp new]
      exact last

/-- Where the log is the same, nothing changes. -/
theorem apart_congr {s s' : State} (log : s'.log = s.log) : Apart s' ↔ Apart s := by rw [Apart, Apart, log]

theorem receive_log (s : State) (p : Option UInt64) : (s.receive p).log = s.log := by cases p <;> rfl

theorem dummyMalloc_log (s : State) (size : UInt64) : (s.dummyMalloc size).log = s.log := by
  unfold State.dummyMalloc
  split <;> rfl

theorem perform_apart (s : State) (call : Call) : Apart (s.perform call) ↔ Apart s ∧ Careful s call := by
  cases call with
  | malloc size p =>
    rw [State.perform]
    split
    · next found => rw [apart_congr (receive_log _ p), invoke_apart]; simp [found, Careful]
    · rw [apart_congr (dummyMalloc_log s size)]
      exact (and_iff_left trivial).symm
  | calloc num size p =>
    rw [State.perform]
    split
    · next found => rw [apart_congr (receive_log _ p), invoke_apart]; simp [found, Careful]
    · rw [apart_congr (dummyMalloc_log s _)]
      exact (and_iff_left trivial).symm
  | realloc ptr size p =>
    have invoked : Apart (s.invoke .realloc s.realRealloc ptr) ↔ Apart s ∧ Careful s (.realloc ptr size p) := by
      rw [invoke_apart]
      simp [Careful]
    rw [← invoked]
    apply apart_congr
    simp only [State.perform]
    split
    · cases p <;> rfl
    · rfl
  | free ptr =>
    cases found : s.realFree with
    | true =>
      have invoked : Apart (s.invoke .free s.realFree ptr) ↔ Apart s ∧ Careful s (.free ptr) := by
        rw [invoke_apart]
        simp [Careful, found]
      rw [← invoked, State.perform]
      apply apart_congr
      simp [found]
    | false =>
      rw [and_iff_left (show Careful s (.free ptr) from fun yes => by rw [found] at yes; cases yes)]
      apply apart_congr
      simp [State.perform, found]

/-- The last step of `wrapper_init` leaves the functions as they are. -/
theorem step_apart {s next : State} {event : Event} (stepped : step s event = some next) :
    Apart next ↔ Apart s ∧ ∀ call ∈ performed s event, Careful s call := by
  unfold step at stepped
  split at stepped
  · cases stepped
  · cases event with
    | aleakdConstructor =>
      cases stepped
      rw [and_iff_left (by intro call nothing; cases nothing)]
      apply apart_congr
      split <;> rfl
    | call call =>
      simp only [performed] at *
      split at stepped
      · split at stepped
        · next waits =>
          cases stepped
          rw [if_pos waits, and_iff_left (by intro call nothing; cases nothing)]
          exact apart_congr rfl
        · next goes =>
          cases stepped
          rw [if_neg goes, perform_apart]
          simp
      · cases stepped
    | returns found =>
      obtain ⟨place, here, rfl⟩ := Option.map_eq_some_iff.mp stepped
      cases place with
      | others =>
        simp only [performed, here, if_true, State.advance]
        cases waiting : s.outer with
        | none =>
          rw [and_iff_left (by intro call nothing; cases nothing)]
          exact apart_congr rfl
        | some call =>
          have careful : Careful { s with initStep := none, outer := none } call ↔ Careful s call := by
            cases call <;> exact Iff.rfl
          have same : Apart { s with initStep := none, outer := none } ↔ Apart s := apart_congr rfl
          rw [perform_apart, careful, same]
          simp
      | backtraceInit | dlsymMalloc | dlsymCalloc | dlsymFree | dlsymRealloc =>
        have silent : performed s (.returns found) = none := by simp [performed, here]
        rw [silent, and_iff_left (by intro call nothing; cases nothing)]
        exact apart_congr rfl

theorem run_apart {s final : State} {events : List Event} (ran : run step s events = some final) :
    Apart final ↔ Apart s ∧
      Meets step (fun s event => ∀ call ∈ performed s event, Careful s call) s events := by
  induction events generalizing s with
  | nil =>
    cases ran
    exact (and_iff_left trivial).symm
  | cons event rest ih =>
    obtain ⟨next, stepped, later⟩ := run_cons_some.mp ran
    rw [ih later, step_apart stepped, and_assoc]
    refine and_congr_right fun _ => and_congr_right fun _ => ?_
    constructor
    · intro meets next' stepped'
      rw [Option.mem_def.mp stepped'] at stepped
      cases stepped
      exact meets
    · intro meets
      exact meets next stepped

/-- The blocks stay apart, and no function is called through NULL, in exactly the runs in
    which a block of `tmpbuf` is freed only until `real_free` is found, none is resized,
    and `realloc` is performed only once `real_realloc` is found. -/
theorem apart_iff (events : List Event) (s : State) (ran : run step State.initial events = some s) :
    Apart s ↔
      Meets step (fun s event => ∀ call ∈ performed s event, Careful s call) State.initial events := by
  rw [run_apart ran, and_iff_right]
  intro invocation member
  cases member

/-- `dlsym` looks up `malloc`, allocates with `calloc`, and the block is freed after
    `wrapper_init`. -/
def callocInDlsym : List Event :=
  [.aleakdConstructor, .returns true, .call (.calloc 1 32 none), .returns true, .returns true, .returns true,
    .returns true, .returns true, .call (.malloc 8 (some 4096)), .call (.free (.heap 4096))]

theorem callocInDlsym_apart : ∃ s, run step State.initial callocInDlsym = some s ∧ Apart s :=
  ⟨_, rfl, (apart_iff callocInDlsym _ rfl).mpr (by decide +kernel)⟩

/-- The block goes to `real_free`. -/
theorem tmpbuf_block_freed : ¬ ∀ events s, run step State.initial events = some s → Apart s := by
  intro claim
  have apart := claim (callocInDlsym ++ [.call (.free (.tmpbuf 0))]) _ rfl
  have last := (apart ⟨.free, true, .tmpbuf 0⟩ (by decide +kernel)).2 (.inl rfl)
  cases last

/-! ## Without calls from inside -/

/-- `wrapper_init` is left alone: no call is made while it runs, and `dlsym` finds every
    function. -/
def Undisturbed (s : State) : Event → Prop
  | .aleakdConstructor => True
  | .call _ => s.initStep = none
  | .returns found => found = true

/-- The functions that are found by then. -/
def FoundBefore (s : State) : InitStep → Prop
  | .backtraceInit | .dlsymMalloc => True
  | .dlsymCalloc => s.realMalloc = true
  | .dlsymFree => s.realMalloc = true ∧ s.realCalloc = true
  | .dlsymRealloc => s.realMalloc = true ∧ s.realCalloc = true ∧ s.realFree = true
  | .others => s.realMalloc = true ∧ s.realCalloc = true ∧ s.realFree = true ∧ s.realRealloc = true

/-- The block that a call passes on. -/
def Call.argument : Call → Pointer
  | .malloc .. | .calloc .. => .null
  | .realloc ptr _ _ | .free ptr => ptr

structure Prepared (s : State) : Prop where
  held : ∀ ptr ∈ s.held, ptr.isDummy = false
  outer : ∀ call ∈ s.outer, call.argument.isDummy = false
  running : ∀ place ∈ s.initStep, s.isInitializing = true ∧ FoundBefore s place
  idle : s.initStep = none → ∀ call : Call, call.missing s = !s.isInitializing

theorem initial_prepared : Prepared State.initial where
  held := by
    intro ptr member
    cases member
  outer := by
    intro call member
    cases member
  running := by
    intro place here
    cases here
  idle := by
    rintro - (_ | _ | _ | _) <;> rfl

/-- What the program passes on is no block of `tmpbuf`. -/
theorem given_argument {held : List Pointer} (real : ∀ ptr ∈ held, ptr.isDummy = false) {call : Call}
    (given : call.given held = true) : call.argument.isDummy = false := by
  cases call with
  | malloc | calloc => rfl
  | realloc ptr size p | free ptr =>
    simp only [Call.given, Bool.or_eq_true, decide_eq_true_eq, List.contains_iff_mem] at given
    rcases given with rfl | member
    · rfl
    · exact real ptr member

theorem prepared_frame {s : State} (prepared : Prepared s) {held : List Pointer} (log : List Invocation)
    (real : ∀ ptr ∈ held, ptr.isDummy = false) : Prepared { s with held, log } :=
  ⟨real, prepared.outer, prepared.running, prepared.idle⟩

/-- Once every function is found, blocks come from real functions alone. -/
theorem perform_prepared {s : State} (prepared : Prepared s) {call : Call} (argument : call.argument.isDummy = false)
    (found : FoundBefore s .others) : Prepared (s.perform call) ∧ Careful s call := by
  obtain ⟨realMalloc, realCalloc, realFree, realRealloc⟩ := found
  have received : ∀ held : List Pointer, (∀ ptr ∈ held, ptr.isDummy = false) → ∀ address,
      ∀ ptr ∈ Pointer.heap address :: held, ptr.isDummy = false := by
    intro held real address
    exact List.forall_mem_cons.mpr ⟨rfl, real⟩
  have erased : ∀ argument, ∀ ptr ∈ s.held.erase argument, ptr.isDummy = false := by
    intro argument ptr member
    exact prepared.held ptr (List.mem_of_mem_erase member)
  cases call with
  | malloc size p =>
    refine ⟨?_, trivial⟩
    rw [State.perform, if_pos realMalloc]
    cases p with
    | none => exact prepared_frame prepared _ prepared.held
    | some address => exact prepared_frame prepared _ (received s.held prepared.held address)
  | calloc num size p =>
    refine ⟨?_, trivial⟩
    rw [State.perform, if_pos realCalloc]
    cases p with
    | none => exact prepared_frame prepared _ prepared.held
    | some address => exact prepared_frame prepared _ (received s.held prepared.held address)
  | realloc ptr size p =>
    refine ⟨?_, realRealloc, argument⟩
    have resolved : (s.invoke .realloc s.realRealloc ptr).realRealloc = true := realRealloc
    cases p with
    | none =>
      rw [State.perform, if_pos resolved]
      exact prepared_frame prepared _ prepared.held
    | some address =>
      rw [State.perform, if_pos resolved]
      exact prepared_frame prepared _ (received _ (erased ptr) address)
  | free ptr =>
    refine ⟨?_, fun _ => argument⟩
    rw [State.perform, if_pos realFree]
    exact prepared_frame prepared _ (erased ptr)

/-- `wrapper_init` starts, for a call or for the constructor. -/
theorem startInit_prepared {s : State} (prepared : Prepared s) {outer : Option Call}
    (argument : ∀ call ∈ outer, call.argument.isDummy = false) : Prepared (s.startInit outer) where
  held := prepared.held
  outer := argument
  running := by
    rintro place ⟨⟩
    exact ⟨rfl, trivial⟩
  idle := by
    intro absent
    cases absent

/-- The functions are found one after the other. -/
theorem advance_prepared {s : State} (prepared : Prepared s) {place : InitStep} (here : s.initStep = some place) :
    Prepared (s.advance true place) ∧ ∀ call ∈ performed s (.returns true), Careful s call := by
  obtain ⟨started, before⟩ := prepared.running place here
  cases place with
  | others =>
    have done : Prepared { s with initStep := none, outer := none } := by
      obtain ⟨realMalloc, realCalloc, realFree, realRealloc⟩ := before
      refine ⟨prepared.held, ?_, ?_, ?_⟩
      · intro call nothing
        cases nothing
      · intro place nothing
        cases nothing
      · intro _ call
        cases call <;> simp [Call.missing, started, realMalloc, realCalloc, realFree, realRealloc]
    simp only [State.advance, performed, here, if_true]
    cases waiting : s.outer with
    | none =>
      refine ⟨done, ?_⟩
      intro call nothing
      cases nothing
    | some call =>
      obtain ⟨prepared', careful⟩ := perform_prepared done (prepared.outer call waiting) before
      refine ⟨prepared', ?_⟩
      rintro call ⟨⟩
      cases call <;> exact careful
  | backtraceInit | dlsymMalloc | dlsymCalloc | dlsymFree | dlsymRealloc =>
    refine ⟨⟨prepared.held, prepared.outer, ?_, ?_⟩, ?_⟩
    · rintro place ⟨⟩
      simp_all [FoundBefore, State.advance]
    · intro absent
      cases absent
    · intro call isPerformed
      simp [performed, here] at isPerformed

theorem step_prepared {s next : State} {event : Event} (prepared : Prepared s) (undisturbed : Undisturbed s event)
    (stepped : step s event = some next) :
    Prepared next ∧ ∀ call ∈ performed s event, Careful s call := by
  unfold step at stepped
  split at stepped
  · cases stepped
  · cases event with
    | aleakdConstructor =>
      cases stepped
      have silent : ∀ call ∈ performed s .aleakdConstructor, Careful s call := by
        intro call nothing
        cases nothing
      refine ⟨?_, silent⟩
      split
      · exact prepared
      · apply startInit_prepared prepared
        intro call nothing
        cases nothing
    | call call =>
      simp only [performed] at *
      have missing := prepared.idle undisturbed call
      split at stepped
      · next given =>
        have argument := given_argument prepared.held given
        cases started : s.isInitializing with
        | false =>
          rw [missing, started] at stepped ⊢
          cases stepped
          refine ⟨startInit_prepared prepared ?_, ?_⟩
          · rintro call ⟨⟩
            exact argument
          · intro call nothing
            cases nothing
        | true =>
          have found : FoundBefore s .others := by
            have all := prepared.idle undisturbed
            rw [started] at all
            refine ⟨?_, ?_, ?_, ?_⟩
            · simpa [Call.missing] using all (.malloc 0 none)
            · simpa [Call.missing] using all (.calloc 0 0 none)
            · simpa [Call.missing] using all (.free .null)
            · simpa [Call.missing] using all (.realloc .null 0 none)
          rw [missing, started] at stepped ⊢
          cases stepped
          obtain ⟨prepared', careful⟩ := perform_prepared prepared argument found
          refine ⟨prepared', ?_⟩
          rintro call ⟨⟩
          exact careful
      · cases stepped
    | returns found =>
      obtain ⟨place, here, rfl⟩ := Option.map_eq_some_iff.mp stepped
      rw [show found = true from undisturbed]
      exact advance_prepared prepared here

/-- Where `wrapper_init` is left alone, the blocks stay apart. -/
theorem undisturbed_apart {s : State} {events : List Event}
    (undisturbed : Meets step Undisturbed State.initial events) (ran : run step State.initial events = some s) :
    Apart s := by
  have keeps : ∀ s event next, (Prepared s ∧ Apart s) → Undisturbed s event → step s event = some next →
      Prepared next ∧ Apart next := by
    rintro s event next ⟨prepared, apart⟩ undisturbed stepped
    obtain ⟨prepared', careful⟩ := step_prepared prepared undisturbed stepped
    exact ⟨prepared', (step_apart stepped).mpr ⟨apart, careful⟩⟩
  have start : Apart State.initial := by
    intro invocation member
    cases member
  exact (run_invariant keeps ⟨initial_prepared, start⟩ undisturbed ran).2

end Aleakd.Bootstrap
