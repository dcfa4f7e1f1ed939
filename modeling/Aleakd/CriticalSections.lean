import Aleakd.Runs
import Mathlib.Logic.Function.Basic

/-!
Threads that run code with mutexes, none of them with two at a time. However their steps
come in between each other, what a thread does under a mutex comes to as if it were done
at once, when the mutex is given back.
-/
namespace Aleakd.CriticalSections
open Function
universe u v w x y
variable {Thread : Type u} {Lock : Type v} {Memory : Lock → Type w} {Point : Type x} {Input : Type y}

/-- What a thread does at a point of its code. -/
inductive Move (Memory : Lock → Type w) (Point : Type x) where
  | acquire (lock : Lock) (next : Point)
  | release (lock : Lock) (next : Point)
  /-- in the memory that belongs to a lock; `none` where it must not be done -/
  | access (lock : Lock) (change : Memory lock → Option (Memory lock × Point))
  | alone (next : Point)

structure System (Thread : Type u) (Memory : Lock → Type w) (Point : Type x) where
  owner : Lock → Option Thread
  memory : ∀ lock, Memory lock
  point : Thread → Point

/-- The system without its mutexes. -/
structure Serial (Thread : Type u) (Memory : Lock → Type w) (Point : Type x) where
  memory : ∀ lock, Memory lock
  point : Thread → Point

/-- No mutex is taken. -/
def Serial.start (c : Serial Thread Memory Point) : System Thread Memory Point := ⟨fun _ => none, c.memory, c.point⟩

section
variable [DecidableEq Thread] [DecidableEq Lock]

/-- A thread goes on, given what it gets from outside; a mutex that is taken stops it. -/
def step (code : Point → Input → Option (Move Memory Point)) (s : System Thread Memory Point)
    (event : Thread × Input) : Option (System Thread Memory Point) :=
  match code (s.point event.1) event.2 with
  | none => none
  | some (.acquire lock next) =>
    if s.owner lock = none then
      some { s with owner := update s.owner lock (some event.1), point := update s.point event.1 next }
    else none
  | some (.release lock next) =>
    some { s with owner := update s.owner lock none, point := update s.point event.1 next }
  | some (.access lock change) =>
    (change (s.memory lock)).map fun (memory, next) =>
      { s with memory := update s.memory lock memory, point := update s.point event.1 next }
  | some (.alone next) => some { s with point := update s.point event.1 next }

end

/-- `holds` says which mutex a thread has at a point: it takes one only without another,
    gives back what it has, and touches the memory of this one only. -/
def Move.Kept (holds : Point → Option Lock) (point : Point) : Move Memory Point → Prop
  | .acquire lock next => holds point = none ∧ holds next = some lock
  | .release lock next => holds point = some lock ∧ holds next = none
  | .access lock change => holds point = some lock ∧
      ∀ memory memory' next, change memory = some (memory', next) → holds next = some lock
  | .alone next => holds next = holds point

def Disciplined (code : Point → Input → Option (Move Memory Point)) (holds : Point → Option Lock) : Prop :=
  ∀ point input move, code point input = some move → move.Kept holds point

/-- How far a thread can come by itself under a mutex, from the point before it takes it
    and the memory as it is then. -/
inductive Inside (code : Point → Input → Option (Move Memory Point)) (lock : Lock) (before : Memory lock)
    (point : Point) : Memory lock → Point → Prop where
  | enter {input : Input} {next : Point} (takes : code point input = some (.acquire lock next)) :
    Inside code lock before point before next
  | access {memory after : Memory lock} {here next : Point} {input : Input}
    {change : Memory lock → Option (Memory lock × Point)} (inside : Inside code lock before point memory here)
    (does : code here input = some (.access lock change)) (changed : change memory = some (after, next)) :
    Inside code lock before point after next
  | alone {memory : Memory lock} {here next : Point} {input : Input} (inside : Inside code lock before point memory here)
    (goes : code here input = some (.alone next)) : Inside code lock before point memory next

/-- What holds between the two: a thread without a mutex is at the same point in both, and
    so is the memory of a free mutex; a thread with a mutex has not begun yet in the serial
    one, and could come by itself to where it is. -/
structure Follows (code : Point → Input → Option (Move Memory Point)) (holds : Point → Option Lock)
    (s : System Thread Memory Point) (c : Serial Thread Memory Point) : Prop where
  outside : ∀ thread, holds (s.point thread) = none → c.point thread = s.point thread
  inside : ∀ thread lock, holds (s.point thread) = some lock → s.owner lock = some thread ∧
    holds (c.point thread) = none ∧
    Inside code lock (c.memory lock) (c.point thread) (s.memory lock) (s.point thread)
  owned : ∀ lock thread, s.owner lock = some thread → holds (s.point thread) = some lock
  free : ∀ lock, s.owner lock = none → c.memory lock = s.memory lock

theorem start_follows {code : Point → Input → Option (Move Memory Point)} {holds : Point → Option Lock}
    {c : Serial Thread Memory Point} (none : ∀ thread, holds (c.point thread) = none) :
    Follows code holds c.start c where
  outside _ _ := rfl
  inside thread lock has := by
    have without := none thread
    simp_all [Serial.start]
  owned lock thread has := by simp [Serial.start] at has
  free _ _ := rfl

section
variable [DecidableEq Thread] [DecidableEq Lock]

/-- What an event comes to in the serial system: all that was done under a mutex when it is
    given back, and what a thread does without one; otherwise nothing. -/
inductive Serves (code : Point → Input → Option (Move Memory Point)) (holds : Point → Option Lock)
    (s : System Thread Memory Point) (event : Thread × Input) (c : Serial Thread Memory Point) :
    Serial Thread Memory Point → Prop where
  | whole {lock : Lock} {next : Point} (gives : code (s.point event.1) event.2 = some (.release lock next))
    (inside : Inside code lock (c.memory lock) (c.point event.1) (s.memory lock) (s.point event.1)) :
    Serves code holds s event c ⟨update c.memory lock (s.memory lock), update c.point event.1 next⟩
  | alone {next : Point} (goes : code (s.point event.1) event.2 = some (.alone next))
    (same : c.point event.1 = s.point event.1) :
    Serves code holds s event c ⟨c.memory, update c.point event.1 next⟩
  | nothing (keeps : ∀ lock next, code (s.point event.1) event.2 ≠ some (.release lock next)) :
    Serves code holds s event c c

variable {code : Point → Input → Option (Move Memory Point)} {holds : Point → Option Lock}
  {s : System Thread Memory Point} {c : Serial Thread Memory Point} {thread : Thread} {lock : Lock} {input : Input}
  {next : Point}

omit [DecidableEq Thread] [DecidableEq Lock] in
/-- Two threads do not have the same mutex. -/
theorem apart (follows : Follows code holds s c) {other : Thread} (mine : holds (s.point thread) = some lock)
    (theirs : holds (s.point other) = some lock) : other = thread := by
  have first := (follows.inside thread lock mine).1
  have second := (follows.inside other lock theirs).1
  rw [first] at second
  exact (Option.some.inj second).symm

theorem acquire_follows (disciplined : Disciplined code holds) (follows : Follows code holds s c)
    (takes : code (s.point thread) input = some (.acquire lock next)) (isFree : s.owner lock = none) :
    Follows code holds
      { s with owner := update s.owner lock (some thread), point := update s.point thread next } c := by
  obtain ⟨without, has⟩ := disciplined _ _ _ takes
  have here := follows.outside thread without
  constructor
  case outside =>
    intro other outside
    by_cases same : other = thread
    · subst same
      simp [has] at outside
    · simp only [update_of_ne same] at outside ⊢
      exact follows.outside other outside
  case inside =>
    intro other lock' has'
    by_cases same : other = thread
    · subst same
      simp only [update_self, has, Option.some.injEq] at has'
      subst has'
      refine ⟨update_self .., by rw [here]; exact without, ?_⟩
      simp only [update_self, follows.free lock isFree, here]
      exact .enter takes
    · simp only [update_of_ne same] at has' ⊢
      obtain ⟨owner, rest⟩ := follows.inside other lock' has'
      have differs : lock' ≠ lock := by
        rintro rfl
        rw [isFree] at owner
        cases owner
      exact ⟨by rw [update_of_ne differs, owner], rest⟩
  case owned =>
    intro lock' other owner
    by_cases same : lock' = lock
    · subst same
      simp only [update_self, Option.some.injEq] at owner
      subst owner
      simpa using has
    · simp only [update_of_ne same] at owner
      have has' := follows.owned lock' other owner
      have differs : other ≠ thread := by
        rintro rfl
        rw [without] at has'
        cases has'
      simpa [update_of_ne differs] using has'
  case free =>
    intro lock' owner
    by_cases same : lock' = lock
    · subst same
      simp at owner
    · simp only [update_of_ne same] at owner
      exact follows.free lock' owner

/-- A thread that goes on with a mutex stays ahead of the serial system. -/
theorem inside_follows (follows : Follows code holds s c) (has : holds (s.point thread) = some lock)
    {memory : Memory lock} (has' : holds next = some lock)
    (reaches : Inside code lock (c.memory lock) (c.point thread) (s.memory lock) (s.point thread) →
      Inside code lock (c.memory lock) (c.point thread) memory next) :
    Follows code holds { s with memory := update s.memory lock memory, point := update s.point thread next } c := by
  obtain ⟨mine, before, inside⟩ := follows.inside thread lock has
  constructor
  case outside =>
    intro other outside
    by_cases same : other = thread
    · subst same
      simp [has'] at outside
    · simp only [update_of_ne same] at outside ⊢
      exact follows.outside other outside
  case inside =>
    intro other lock' has''
    by_cases same : other = thread
    · subst same
      simp only [update_self, has', Option.some.injEq] at has''
      subst has''
      simpa using ⟨mine, before, reaches inside⟩
    · simp only [update_of_ne same] at has'' ⊢
      have differs : lock' ≠ lock := by
        rintro rfl
        exact same (apart follows has has'')
      rw [update_of_ne differs]
      exact follows.inside other lock' has''
  case owned =>
    intro lock' other owner
    by_cases same : other = thread
    · subst same
      have also := follows.owned lock' other owner
      rw [has] at also
      simpa [← also] using has'
    · simpa [update_of_ne same] using follows.owned lock' other owner
  case free =>
    intro lock' isFree
    have differs : lock' ≠ lock := by
      rintro rfl
      rw [mine] at isFree
      cases isFree
    simpa [update_of_ne differs] using follows.free lock' isFree

/-- When the mutex is given back, the serial system does it all. -/
theorem release_follows (disciplined : Disciplined code holds) (follows : Follows code holds s c)
    (gives : code (s.point thread) input = some (.release lock next)) :
    Follows code holds { s with owner := update s.owner lock none, point := update s.point thread next }
      ⟨update c.memory lock (s.memory lock), update c.point thread next⟩ := by
  obtain ⟨has, without⟩ := disciplined _ _ _ gives
  constructor
  case outside =>
    intro other outside
    by_cases same : other = thread
    · subst same
      simp
    · simp only [update_of_ne same] at outside ⊢
      exact follows.outside other outside
  case inside =>
    intro other lock' has'
    by_cases same : other = thread
    · subst same
      simp [without] at has'
    · simp only [update_of_ne same] at has' ⊢
      have differs : lock' ≠ lock := by
        rintro rfl
        exact same (apart follows has has')
      rw [update_of_ne differs, update_of_ne differs]
      exact follows.inside other lock' has'
  case owned =>
    intro lock' other owner
    by_cases same : lock' = lock
    · subst same
      simp at owner
    · simp only [update_of_ne same] at owner
      have has' := follows.owned lock' other owner
      have differs : other ≠ thread := by
        rintro rfl
        rw [has] at has'
        exact same (Option.some.inj has').symm
      simpa [update_of_ne differs] using has'
  case free =>
    intro lock' isFree
    by_cases same : lock' = lock
    · subst same
      simp
    · simp only [update_of_ne same] at isFree ⊢
      exact follows.free lock' isFree

omit [DecidableEq Lock] in
/-- A thread without a mutex goes on in both systems. -/
theorem alone_follows (follows : Follows code holds s c) (without : holds (s.point thread) = none)
    (without' : holds next = none) :
    Follows code holds { s with point := update s.point thread next } ⟨c.memory, update c.point thread next⟩ := by
  constructor
  case outside =>
    intro other outside
    by_cases same : other = thread
    · subst same
      simp
    · simp only [update_of_ne same] at outside ⊢
      exact follows.outside other outside
  case inside =>
    intro other lock' has
    by_cases same : other = thread
    · subst same
      simp [without'] at has
    · simp only [update_of_ne same] at has ⊢
      exact follows.inside other lock' has
  case owned =>
    intro lock' other owner
    have has := follows.owned lock' other owner
    have differs : other ≠ thread := by
      rintro rfl
      rw [without] at has
      cases has
    simpa [update_of_ne differs] using has
  case free => exact follows.free

/-- Each event of the system is one of the serial system, or none. -/
theorem step_follows (disciplined : Disciplined code holds) (follows : Follows code holds s c)
    {event : Thread × Input} {s' : System Thread Memory Point} (stepped : step code s event = some s') :
    ∃ c', Serves code holds s event c c' ∧ Follows code holds s' c' := by
  unfold step at stepped
  split at stepped
  · cases stepped
  · next lock next takes =>
    split at stepped
    · next isFree =>
      cases stepped
      exact ⟨c, .nothing (by simp [takes]), acquire_follows disciplined follows takes isFree⟩
    · cases stepped
  · next lock next gives =>
    cases stepped
    have inside := (follows.inside event.1 lock (disciplined _ _ _ gives).1).2.2
    exact ⟨_, .whole gives inside, release_follows disciplined follows gives⟩
  · next lock change does =>
    obtain ⟨⟨memory, next⟩, changed, rfl⟩ := Option.map_eq_some_iff.mp stepped
    obtain ⟨has, has'⟩ := disciplined _ _ _ does
    refine ⟨c, .nothing (by simp [does]), ?_⟩
    exact inside_follows follows has (has' _ _ _ changed) fun inside => .access inside does changed
  · next next goes =>
    cases stepped
    have kept : holds next = holds (s.point event.1) := disciplined _ _ _ goes
    cases has : holds (s.point event.1) with
    | none => exact ⟨_, .alone goes (follows.outside event.1 has), alone_follows follows has (kept.trans has)⟩
    | some lock =>
      refine ⟨c, .nothing (by simp [goes]), ?_⟩
      have stays := inside_follows follows has (kept.trans has) fun inside => .alone inside goes
      simpa using stays

end

end Aleakd.CriticalSections
