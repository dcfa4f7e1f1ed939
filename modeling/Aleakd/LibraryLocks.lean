import Aleakd.LockOrder
import Mathlib.Data.Fin.VecNotation
import Mathlib.Data.Fintype.EquivFin
import Mathlib.Tactic.FinCases

/-!
The mutexes and the globals of the preloaded library, as the threads of the captured
program come to them: while the library starts, while the program runs, with or without a
pipe, and while the library is disposed of. `g_bUseServerMessage`, which nothing writes, is
left out.
-/
namespace Aleakd.LibraryLocks
open Aleakd.LockOrder Aleakd.Runs

inductive Lock where
  /-- `g_lockMsgCount` -/
  | msgCount
  /-- `g_lockSocket` -/
  | socket
  /-- `g_lockAddrCount` -/
  | addrCount
deriving DecidableEq

instance : Fintype Lock := ⟨{.msgCount, .socket, .addrCount}, by intro lock; cases lock <;> decide⟩

/-- No mutex is taken under another one, so any order will do. -/
def Lock.rank : Lock → Nat
  | .msgCount => 0
  | .socket => 1
  | .addrCount => 2

instance : LinearOrder Lock := LinearOrder.lift' Lock.rank (by decide)

inductive Field where
  | allocNumber
  | msgNum
  | init
  /-- `g_socket` and `g_server` -/
  | socket
  | transfertBufferEnabled
  /-- `g_pTransferBuffer` and `g_iTransfertBufferSize` -/
  | transferBuffer
  | preInitBuffer
  | preInitPos
  /-- `g_listAddr` and `g_listAddrCount` -/
  | listAddr
  /-- what `wrapper_init` sets: `real_malloc` and the eight like it, `g_bIsInitializing`,
      `g_bIsBacktraceInitializing` and `g_bSendBacktrace` -/
  | wrapped
  /-- `tmpbuf`, `tmppos` and `tmpallocs` -/
  | tmpbuf
  | realPthreadCreate
  | realPthreadSetnameNp
  | realPrctl
deriving DecidableEq

abbrev Program := List (Action Lock Field)

/-! ## The functions -/

def underMutex (lock : Lock) (touched : List (Field × Bool)) : Program :=
  [.acquire lock .exclusive, .access touched, .release lock]

def servercommMsgHeaderInitV1 : Program := underMutex .msgCount [(.msgNum, true)]

/-- `servercomm_send`, for a buffer of the caller's or the global `preInitBuffer`. -/
def servercommSend (buff : List (Field × Bool)) : Program :=
  underMutex .socket ([(.transfertBufferEnabled, false), (.transferBuffer, true), (.socket, false)] ++ buff)

/-- `servercomm_send_safe`, where it finds `g_socket` open or not. -/
def servercommSendSafe (opened : Bool) : Program :=
  .access [(.init, false), (.socket, false)] ::
    if opened then servercommSend [] else [.access [(.preInitBuffer, true), (.preInitPos, true)]]

def backtraceCheckAddr : Program := underMutex .addrCount [(.listAddr, true)]

/-- `servercomm_init`, which takes no mutex of its own, where it finds the pipe or not. -/
def servercommInit (opened : Bool) : Program :=
  [.access [(.socket, true)]] ++
    (if opened then
      servercommMsgHeaderInitV1 ++ servercommSendSafe true ++ [.access [(.preInitPos, false)]] ++
        servercommSend [(.preInitBuffer, false), (.preInitPos, false)] ++ [.access [(.preInitPos, true)]]
    else []) ++
    [.access [(.transfertBufferEnabled, true), (.init, true)]]

/-- `wrapper_init`, with `backtrace_init`, where it is called first. -/
def wrapperInit (opened : Bool) : Program :=
  [.access [(.wrapped, true), (.listAddr, true)]] ++ servercommInit opened ++ [.access [(.wrapped, true)]]

/-- `servercomm_dispose` with the pipe open, which takes no mutex. -/
def servercommDispose : Program :=
  [.access [(.socket, false), (.transfertBufferEnabled, true), (.transferBuffer, false), (.msgNum, false),
    (.init, true)]]

/-- The functions that the wrappers are made of, and that the library begins and ends with. -/
inductive Call where
  /-- a wrapper looks for its real function and at the settings -/
  | wrapped
  | dummyMalloc
  | incrAllocNumber
  | getAllocNumber
  | headerInit
  | sendSafe (opened : Bool)
  | checkAddr
  /-- the real function is looked up where it is still `NULL` -/
  | pthreadCreate
  | pthreadSetnameNp
  | prctl
  | wrapperInit (opened : Bool)
  | dispose
deriving DecidableEq

def Call.program : Call → Program
  | .wrapped => [.access [(.wrapped, false)]]
  | .dummyMalloc => [.access [(.tmpbuf, true)]]
  | .incrAllocNumber => [.access [(.allocNumber, true)]]
  | .getAllocNumber => [.access [(.allocNumber, false)]]
  | .headerInit => servercommMsgHeaderInitV1
  | .sendSafe opened => servercommSendSafe opened
  | .checkAddr => backtraceCheckAddr
  | .pthreadCreate => [.access [(.realPthreadCreate, true)]]
  | .pthreadSetnameNp => [.access [(.realPthreadSetnameNp, true)]]
  | .prctl => [.access [(.realPrctl, true)]]
  | .wrapperInit opened => LibraryLocks.wrapperInit opened
  | .dispose => servercommDispose

theorem call_ordered (call : Call) : Ordered [] call.program := by
  cases call with
  | sendSafe opened | wrapperInit opened => cases opened <;> decide
  | _ => decide

/-- What the threads do, for the calls that each of them makes. -/
def programOf {n : Nat} (calls : Fin n → List Call) (thread : Fin n) : Program := (calls thread).flatMap Call.program

theorem programOf_ordered {n : Nat} (calls : Fin n → List Call) (thread : Fin n) :
    Ordered [] (programOf calls thread) := ordered_flatMap call_ordered (calls thread)

/-- Whatever the threads call, one of them can go on until all are through. -/
theorem threads_never_stuck {n : Nat} (calls : Fin n → List Call) (schedule : List (Fin n)) (s : State (Fin n) Lock Field)
    (ran : run step (State.start (programOf calls)) schedule = some s) :
    (∀ thread, s.program thread = []) ∨ ∃ thread, (step s thread).isSome := by
  by_cases done : ∀ thread, s.program thread = []
  · exact .inl done
  · exact .inr (progress (run_orderly (programOf_ordered calls) ran) (by simpa using done))

/-- The second thread waits for the mutex that the first one has. -/
theorem threads_never_stuck_waiting :
    ∃ s, run step (State.start (programOf ![[.sendSafe true], [.sendSafe true]])) [0, 1, 0] = some s ∧
      ((∀ thread, s.program thread = []) ∨ ∃ thread, (step s thread).isSome) :=
  ⟨_, rfl, threads_never_stuck ![[.sendSafe true], [.sendSafe true]] [0, 1, 0] _ rfl⟩

/-! ## Races -/

/-- What goes on while the threads run. -/
inductive Situation where
  /-- the library has been initialised, and has its pipe or not -/
  | running (opened : Bool)
  /-- it has its pipe, and is disposed of -/
  | disposing
  /-- it is still being initialised -/
  | initialising

/-- The calls that the threads may make meanwhile. -/
def Situation.allows : Situation → Call → Bool
  | .running _, .dummyMalloc | .running _, .wrapperInit _ | .running _, .dispose => false
  | .running opened, .sendSafe opened' => opened = opened'
  | .disposing, .dummyMalloc | .disposing, .wrapperInit _ => false
  | .disposing, .sendSafe opened => opened
  | .initialising, .dispose => false
  | _, _ => true

/-- No run of any number of threads comes to a race at the field. -/
def RaceFree (situation : Situation) (field : Field) : Prop :=
  ∀ (n : Nat) (calls : Fin n → List Call) (schedule : List (Fin n)) (s : State (Fin n) Lock Field),
    (∀ thread, ∀ call ∈ calls thread, situation.allows call) →
    run step (State.start (programOf calls)) schedule = some s → ¬ Race s field

/-- What guards a field, if anything does. `servercomm_dispose` and `wrapper_init` take no
    mutex, and so hardly anything that they touch is safe from the others. -/
def guardOf (Party : Type) : Situation → Field → Option (Guard Party Lock)
  | _, .allocNumber | _, .realPthreadCreate | _, .realPthreadSetnameNp | _, .realPrctl => none
  | .running _, .listAddr | .disposing, .listAddr => some (.lockedBy .addrCount)
  | .initialising, .listAddr => none
  | .running _, .msgNum | .initialising, .msgNum => some (.lockedBy .msgCount)
  | .disposing, .msgNum => none
  | .running _, .transferBuffer | .initialising, .transferBuffer => some (.lockedBy .socket)
  | .disposing, .transferBuffer => none
  | .running _, .transfertBufferEnabled => some (.lockedBy .socket)
  | .disposing, .transfertBufferEnabled | .initialising, .transfertBufferEnabled => none
  | .running _, .init => some .constant
  | .disposing, .init | .initialising, .init => none
  | .running false, .preInitBuffer | .running false, .preInitPos => none
  | .running true, .preInitBuffer | .running true, .preInitPos => some .constant
  | .disposing, .preInitBuffer | .disposing, .preInitPos => some .constant
  | .running _, .socket | .running _, .wrapped | .running _, .tmpbuf => some .constant
  | .disposing, .socket | .disposing, .wrapped | .disposing, .tmpbuf => some .constant
  | .initialising, .preInitBuffer | .initialising, .preInitPos | .initialising, .socket
  | .initialising, .wrapped | .initialising, .tmpbuf => none

theorem call_guarded {n : Nat} {situation : Situation} {field : Field} {guard : Guard (Fin n) Lock}
    (has : guardOf (Fin n) situation field = some guard) (thread : Fin n) {call : Call}
    (allowed : situation.allows call) : Guarded thread field guard [] call.program := by
  cases call with
  | sendSafe opened =>
    cases situation with
    | running opened' =>
      cases opened <;> cases opened' <;> cases allowed <;> cases field <;> cases has <;>
        simp [Call.program, servercommSendSafe, servercommSend, underMutex, Guarded, Action.Admitted, Guard.Admits,
          after]
    | disposing | initialising =>
      cases opened <;> cases allowed <;> cases field <;> cases has <;>
        simp [Call.program, servercommSendSafe, servercommSend, underMutex, Guarded, Action.Admitted, Guard.Admits,
          after]
  | wrapperInit opened =>
    cases situation with
    | running opened' => cases allowed
    | disposing => cases allowed
    | initialising =>
      cases opened <;> cases field <;> cases has <;>
        simp [Call.program, wrapperInit, servercommInit, servercommMsgHeaderInitV1, servercommSendSafe, servercommSend,
          underMutex, Guarded, Action.Admitted, Guard.Admits, after]
  | _ =>
    cases situation with
    | running opened =>
      cases opened <;> cases allowed <;> cases field <;> cases has <;>
        simp [Call.program, servercommMsgHeaderInitV1, backtraceCheckAddr, underMutex, Guarded, Action.Admitted,
          Guard.Admits, after]
    | disposing | initialising =>
      cases allowed <;> cases field <;> cases has <;>
        simp [Call.program, servercommMsgHeaderInitV1, backtraceCheckAddr, servercommDispose, underMutex, Guarded,
          Action.Admitted, Guard.Admits, after]

theorem raceFree_of_guard {situation : Situation} {field : Field}
    (has : ∀ n, (guardOf (Fin n) situation field).isSome) : RaceFree situation field := by
  intro n calls schedule s allowed ran
  obtain ⟨guard, has⟩ := Option.isSome_iff_exists.mp (has n)
  refine no_race (programOf_ordered calls) (?_ : ∀ thread, Guarded thread field guard [] _) ran
  intro thread
  exact guarded_flatMap call_ordered fun call member => call_guarded has thread (allowed thread call member)

/-- Two threads with one call each, and how far they have come when both are at the field. -/
theorem not_raceFree {situation : Situation} {field : Field} (first second : Call) (schedule : List (Fin 2))
    (writes : Bool) {s : State (Fin 2) Lock Field} (allowed : situation.allows first ∧ situation.allows second)
    (ran : run step (State.start (programOf ![[first], [second]])) schedule = some s)
    (one : s.Touches 0 field true) (two : s.Touches 1 field writes) : ¬ RaceFree situation field := by
  intro free
  refine free 2 ![[first], [second]] schedule s ?_ ran ⟨0, 1, by decide, one, writes, two⟩
  intro thread call member
  fin_cases thread <;> simp only [List.mem_singleton, Fin.zero_eta, Fin.mk_one, Matrix.cons_val_zero,
    Matrix.cons_val_one] at member
  · exact member ▸ allowed.1
  · exact member ▸ allowed.2

/-- The globals that threads come to at any time without a mutex. -/
def unguarded : List Field := [.allocNumber, .realPthreadCreate, .realPthreadSetnameNp, .realPrctl]

/-- Two allocations of different threads race for the allocation number, and two first
    calls for the real function that they look up. -/
theorem unguarded_races (situation : Situation) {field : Field} (member : field ∈ unguarded) :
    ¬ RaceFree situation field := by
  have twice : ∀ call, situation.allows call → (programOf ![[call], [call]]) 0 = [.access [(field, true)]] →
      (programOf ![[call], [call]]) 1 = [.access [(field, true)]] → ¬ RaceFree situation field := by
    intro call allowed one two
    exact not_raceFree call call [] true ⟨allowed, allowed⟩ rfl ⟨_, _, one, by simp⟩ ⟨_, _, two, by simp⟩
  cases field with
  | allocNumber => exact twice .incrAllocNumber (by cases situation <;> rfl) rfl rfl
  | realPthreadCreate => exact twice .pthreadCreate (by cases situation <;> rfl) rfl rfl
  | realPthreadSetnameNp => exact twice .pthreadSetnameNp (by cases situation <;> rfl) rfl rfl
  | realPrctl => exact twice .prctl (by cases situation <;> rfl) rfl rfl
  | _ => simp [unguarded] at member

/-- Without a pipe two messages race for the buffer before it. -/
theorem unopened_races {field : Field} (member : field ∈ [Field.preInitBuffer, .preInitPos]) {situation : Situation}
    (allowed : situation.allows (.sendSafe false)) : ¬ RaceFree situation field := by
  refine not_raceFree (.sendSafe false) (.sendSafe false) [0, 1] true ⟨allowed, allowed⟩ rfl ⟨_, _, rfl, ?_⟩
    ⟨_, _, rfl, ?_⟩ <;> revert field <;> decide

/-- Whatever goes on while `servercomm_dispose` runs races with it. -/
theorem disposing_races {field : Field}
    (member : field ∈ [Field.msgNum, .init, .transfertBufferEnabled, .transferBuffer]) :
    ¬ RaceFree .disposing field := by
  cases field with
  | msgNum =>
    exact not_raceFree .headerInit .dispose [0] false (by decide) rfl ⟨_, _, rfl, by decide⟩ ⟨_, _, rfl, by decide⟩
  | init =>
    exact not_raceFree .dispose (.sendSafe true) [] false (by decide) rfl ⟨_, _, rfl, by decide⟩
      ⟨_, _, rfl, by decide⟩
  | transfertBufferEnabled =>
    exact not_raceFree .dispose (.sendSafe true) [1, 1] false (by decide) rfl ⟨_, _, rfl, by decide⟩
      ⟨_, _, rfl, by decide⟩
  | transferBuffer =>
    exact not_raceFree (.sendSafe true) .dispose [0, 0] false (by decide) rfl ⟨_, _, rfl, by decide⟩
      ⟨_, _, rfl, by decide⟩
  | _ => simp at member

/-- So does what goes on while `wrapper_init` runs, with what that sets. -/
theorem initialising_races {field : Field}
    (member : field ∈ [Field.init, .socket, .transfertBufferEnabled, .listAddr, .wrapped, .tmpbuf]) :
    ¬ RaceFree .initialising field := by
  cases field with
  | init =>
    exact not_raceFree (.wrapperInit true) (.sendSafe true) (List.replicate 14 0) false (by decide) rfl
      ⟨_, _, rfl, by decide⟩ ⟨_, _, rfl, by decide⟩
  | socket =>
    exact not_raceFree (.wrapperInit true) (.sendSafe false) [0] false (by decide) rfl ⟨_, _, rfl, by decide⟩
      ⟨_, _, rfl, by decide⟩
  | transfertBufferEnabled =>
    exact not_raceFree (.wrapperInit true) (.sendSafe true) (List.replicate 14 0 ++ [1, 1]) false (by decide) rfl
      ⟨_, _, rfl, by decide⟩ ⟨_, _, rfl, by decide⟩
  | listAddr =>
    -- both have found `g_bIsInitializing` 0
    exact not_raceFree (.wrapperInit true) (.wrapperInit true) [] true (by decide) rfl ⟨_, _, rfl, by decide⟩
      ⟨_, _, rfl, by decide⟩
  | wrapped =>
    exact not_raceFree (.wrapperInit true) .wrapped [] false (by decide) rfl ⟨_, _, rfl, by decide⟩
      ⟨_, _, rfl, by decide⟩
  | tmpbuf =>
    exact not_raceFree .dummyMalloc .dummyMalloc [] true (by decide) rfl ⟨_, _, rfl, by decide⟩
      ⟨_, _, rfl, by decide⟩
  | _ => simp at member

/-- A field is kept from races exactly where something guards it. -/
theorem raceFree_iff (situation : Situation) (field : Field) :
    RaceFree situation field ↔ (guardOf (Fin 2) situation field).isSome := by
  constructor
  · intro free
    by_contra none
    have raced : field ∈ unguarded ∨ situation.allows (.sendSafe false) ∧ field ∈ [Field.preInitBuffer, .preInitPos] ∨
        situation = .disposing ∧ field ∈ [Field.msgNum, .init, .transfertBufferEnabled, .transferBuffer] ∨
        situation = .initialising ∧
          field ∈ [Field.init, .socket, .transfertBufferEnabled, .listAddr, .wrapped, .tmpbuf] := by
      cases situation with
      | running opened => cases opened <;> cases field <;> simp_all [guardOf, unguarded, Situation.allows]
      | disposing | initialising => cases field <;> simp_all [guardOf, unguarded, Situation.allows]
    rcases raced with always | ⟨allowed, waits⟩ | ⟨rfl, ends⟩ | ⟨rfl, begins⟩
    · exact unguarded_races situation always free
    · exact unopened_races waits allowed free
    · exact disposing_races ends free
    · exact initialising_races begins free
  · intro some
    refine raceFree_of_guard fun n => ?_
    cases situation with
    | running opened => cases opened <;> cases field <;> first | rfl | cases some
    | disposing | initialising => cases field <;> first | rfl | cases some

/-- For any number of threads: while the program runs with its pipe open, all globals are
    kept from races but the allocation number and the three real functions that are looked up
    where they are first needed; without a pipe the buffer before it races too, and its
    position. While the library with its pipe open is disposed of under running threads, only
    those are safe that then nothing writes, and the cache of addresses; and while it is
    initialised under them, only the message number and the transfer buffer. -/
theorem globals_raceFree_iff (field : Field) :
    (RaceFree (.running true) field ↔ field ∉ unguarded) ∧
    (RaceFree (.running false) field ↔ field ∉ unguarded ++ [.preInitBuffer, .preInitPos]) ∧
    (RaceFree .disposing field ↔ field ∈ [.listAddr, .socket, .preInitBuffer, .preInitPos, .wrapped, .tmpbuf]) ∧
    (RaceFree .initialising field ↔ field ∈ [.msgNum, .transferBuffer]) := by
  rw [raceFree_iff, raceFree_iff, raceFree_iff, raceFree_iff]
  cases field <;> decide

end Aleakd.LibraryLocks
