import Aleakd.Runs
import Mathlib.Data.Fintype.Basic
import Mathlib.Order.WellFounded

/-!
Parties that take read-write locks, each along a program of its own. Where every program
takes the locks in one order, some party can always go on. Where it touches a field only
under the lock that guards it, no two parties are ever at the field at once, one of them
to write it.
-/
namespace Aleakd.LockOrder
open Aleakd.Runs
universe u v w
variable {Party : Type u} {Lock : Type v} {Field : Type w}

inductive Mode where
  | shared
  | exclusive
deriving DecidableEq

inductive Action (Lock : Type v) (Field : Type w) where
  | acquire (lock : Lock) (mode : Mode)
  | release (lock : Lock)
  /-- a stretch that touches only these fields, in any order and any number of times; the
      flag says that the field may be written -/
  | access (touched : List (Field × Bool))
deriving DecidableEq

structure State (Party : Type u) (Lock : Type v) (Field : Type w) where
  program : Party → List (Action Lock Field)
  holds : Party → List (Lock × Mode)

/-- Nobody has begun. -/
def State.start (program : Party → List (Action Lock Field)) : State Party Lock Field := ⟨program, fun _ => []⟩

/-- A party is about to touch the field, to write it where the flag says so. -/
def State.Touches (s : State Party Lock Field) (party : Party) (field : Field) (writes : Bool) : Prop :=
  ∃ touched rest, s.program party = .access touched :: rest ∧ (field, writes) ∈ touched

/-- Two parties are about to touch the field, and one of them to write it. -/
def Race (s : State Party Lock Field) (field : Field) : Prop :=
  ∃ party other, party ≠ other ∧ s.Touches party field true ∧ ∃ writes, s.Touches other field writes

variable [LinearOrder Lock]

/-- The locks of a party after an action. -/
def after (holds : List (Lock × Mode)) : Action Lock Field → List (Lock × Mode)
  | .acquire lock mode => (lock, mode) :: holds
  | .release lock => holds.filter fun held => held.1 ≠ lock
  | .access _ => holds

/-- A writer waits until nobody has the lock; a reader until nobody has it for writing,
    nor waits to. -/
def Possible (s : State Party Lock Field) : Action Lock Field → Prop
  | .acquire lock .exclusive => ∀ party, lock ∉ (s.holds party).map Prod.fst
  | .acquire lock .shared => ∀ party, (lock, Mode.exclusive) ∉ s.holds party ∧
      (s.program party).head? ≠ some (.acquire lock .exclusive)
  | .release _ | .access _ => True

/-- Each lock that the program takes comes behind those it has by then; what it releases
    it has, and in the end it has none. -/
def Ordered : List (Lock × Mode) → List (Action Lock Field) → Prop
  | holds, [] => holds = []
  | holds, .acquire lock mode :: rest => (∀ held ∈ holds, held.1 < lock) ∧ Ordered ((lock, mode) :: holds) rest
  | holds, .release lock :: rest =>
    lock ∈ holds.map Prod.fst ∧ Ordered (holds.filter fun held => held.1 ≠ lock) rest
  | holds, .access _ :: rest => Ordered holds rest

instance Ordered.decidable : (holds : List (Lock × Mode)) → (program : List (Action Lock Field)) →
    Decidable (Ordered holds program)
  | holds, [] => inferInstanceAs (Decidable (holds = []))
  | holds, .acquire lock mode :: rest =>
    have := Ordered.decidable ((lock, mode) :: holds) rest
    inferInstanceAs (Decidable (_ ∧ Ordered ((lock, mode) :: holds) rest))
  | holds, .release lock :: rest =>
    have := Ordered.decidable (holds.filter fun held => held.1 ≠ lock) rest
    inferInstanceAs (Decidable (_ ∧ Ordered (holds.filter fun held => held.1 ≠ lock) rest))
  | holds, .access _ :: rest => Ordered.decidable holds rest

/-- What keeps two parties from a field at once: the lock under which each of them has it,
    that only one of them ever touches it, or that all of them only read it. -/
inductive Guard (Party : Type u) (Lock : Type v) where
  | lockedBy (lock : Lock)
  | ownedBy (party : Party)
  | constant

/-- A party may touch the field, with these locks. -/
def Guard.Admits (party : Party) (holds : List (Lock × Mode)) (writes : Bool) : Guard Party Lock → Prop
  | .lockedBy lock => (lock, Mode.exclusive) ∈ holds ∨ writes = false ∧ lock ∈ holds.map Prod.fst
  | .ownedBy owner => party = owner
  | .constant => writes = false

instance Guard.Admits.decidable [DecidableEq Party] (party : Party) (holds : List (Lock × Mode)) (writes : Bool) :
    (guard : Guard Party Lock) → Decidable (guard.Admits party holds writes)
  | .lockedBy lock => inferInstanceAs (Decidable ((lock, Mode.exclusive) ∈ holds ∨ writes = false ∧ _))
  | .ownedBy owner => inferInstanceAs (Decidable (party = owner))
  | .constant => inferInstanceAs (Decidable (writes = false))

/-- The action touches the field only as its guard admits. -/
def Action.Admitted (party : Party) (field : Field) (guard : Guard Party Lock) (holds : List (Lock × Mode)) :
    Action Lock Field → Prop
  | .access touched => ∀ entry ∈ touched, entry.1 = field → guard.Admits party holds entry.2
  | .acquire .. | .release _ => True

/-- So does each action of a program. -/
def Guarded (party : Party) (field : Field) (guard : Guard Party Lock) :
    List (Lock × Mode) → List (Action Lock Field) → Prop
  | _, [] => True
  | holds, action :: rest =>
    action.Admitted party field guard holds ∧ Guarded party field guard (after holds action) rest

section
variable [DecidableEq Party] [DecidableEq Field]

instance Action.Admitted.decidable (party : Party) (field : Field) (guard : Guard Party Lock)
    (holds : List (Lock × Mode)) : (action : Action Lock Field) → Decidable (action.Admitted party field guard holds)
  | .access touched =>
    inferInstanceAs (Decidable (∀ entry ∈ touched, entry.1 = field → guard.Admits party holds entry.2))
  | .acquire .. | .release _ => inferInstanceAs (Decidable True)

instance Guarded.decidable (party : Party) (field : Field) (guard : Guard Party Lock) :
    (holds : List (Lock × Mode)) → (program : List (Action Lock Field)) →
      Decidable (Guarded party field guard holds program)
  | _, [] => inferInstanceAs (Decidable True)
  | holds, action :: rest =>
    have := Guarded.decidable party field guard (after holds action) rest
    inferInstanceAs (Decidable (_ ∧ Guarded party field guard (after holds action) rest))

end

/-! ## Programs one after the other -/

theorem ordered_append {holds : List (Lock × Mode)} {first second : List (Action Lock Field)}
    (before : Ordered holds first) (behind : Ordered [] second) : Ordered holds (first ++ second) := by
  induction first generalizing holds with
  | nil =>
    have none : holds = [] := before
    rwa [List.nil_append, none]
  | cons action rest ih =>
    cases action with
    | acquire lock mode => exact ⟨before.1, ih before.2⟩
    | release lock => exact ⟨before.1, ih before.2⟩
    | access touched => exact ih before

theorem ordered_flatMap {Call : Type u} {program : Call → List (Action Lock Field)}
    (each : ∀ call, Ordered [] (program call)) (calls : List Call) : Ordered [] (calls.flatMap program) := by
  induction calls with
  | nil => rfl
  | cons call rest ih => exact ordered_append (each call) ih

/-- A program that is partly through goes on in order. -/
theorem ordered_drop {holds : List (Lock × Mode)} {program : List (Action Lock Field)} (ordered : Ordered holds program)
    (position : Nat) : Ordered ((program.take position).foldl after holds) (program.drop position) := by
  induction position generalizing holds program with
  | zero => simpa using ordered
  | succ position ih =>
    cases program with
    | nil => simpa using ordered
    | cons action rest =>
      rw [List.take_succ_cons, List.foldl_cons, List.drop_succ_cons]
      cases action with
      | acquire lock mode => exact ih ordered.2
      | release lock => exact ih ordered.2
      | access touched => exact ih ordered

theorem guarded_append {party : Party} {field : Field} {guard : Guard Party Lock} {holds : List (Lock × Mode)}
    {first second : List (Action Lock Field)} (ordered : Ordered holds first)
    (before : Guarded party field guard holds first) (behind : Guarded party field guard [] second) :
    Guarded party field guard holds (first ++ second) := by
  induction first generalizing holds with
  | nil =>
    have none : holds = [] := ordered
    rwa [List.nil_append, none]
  | cons action rest ih =>
    cases action with
    | acquire lock mode => exact ⟨before.1, ih ordered.2 before.2⟩
    | release lock => exact ⟨before.1, ih ordered.2 before.2⟩
    | access touched => exact ⟨before.1, ih ordered before.2⟩

theorem guarded_flatMap {Call : Type u} {party : Party} {field : Field} {guard : Guard Party Lock}
    {program : Call → List (Action Lock Field)} (ordered : ∀ call, Ordered [] (program call))
    {calls : List Call} (each : ∀ call ∈ calls, Guarded party field guard [] (program call)) :
    Guarded party field guard [] (calls.flatMap program) := by
  induction calls with
  | nil => trivial
  | cons call rest ih =>
    exact guarded_append (ordered call) (each call List.mem_cons_self)
      (ih fun later member => each later (List.mem_cons_of_mem call member))

/-! ## Steps -/

/-- What a party has left to do is ordered, and no lock that somebody has for writing
    is somebody else's too. -/
structure Orderly (s : State Party Lock Field) : Prop where
  ordered : ∀ party, Ordered (s.holds party) (s.program party)
  apart : ∀ party other lock, party ≠ other → (lock, Mode.exclusive) ∈ s.holds party →
    lock ∉ (s.holds other).map Prod.fst

theorem start_orderly {program : Party → List (Action Lock Field)} (ordered : ∀ party, Ordered [] (program party)) :
    Orderly (State.start program) where
  ordered := ordered
  apart := by simp [State.start]

omit [LinearOrder Lock] in
/-- Where a party cannot take a lock, somebody has it. -/
theorem taken_of_blocked {s : State Party Lock Field} {lock : Lock} {mode : Mode}
    (blocked : ¬ Possible s (.acquire lock mode))
    (stuck : ∀ party rest, s.program party = .acquire lock .exclusive :: rest →
      ¬ Possible s (.acquire lock .exclusive)) : ∃ other, lock ∈ (s.holds other).map Prod.fst := by
  have writer : ¬ Possible s (.acquire lock .exclusive) → ∃ other, lock ∈ (s.holds other).map Prod.fst := by
    intro blocked
    by_contra none
    exact blocked fun other => fun has => none ⟨other, has⟩
  cases mode with
  | exclusive => exact writer blocked
  | shared =>
    by_contra none
    refine blocked fun party => ⟨fun has => none ⟨party, List.mem_map_of_mem has⟩, fun waits => ?_⟩
    obtain ⟨rest, here⟩ : ∃ rest, s.program party = .acquire lock .exclusive :: rest := by
      cases program : s.program party with
      | nil => simp [program] at waits
      | cons action rest => exact ⟨rest, by simpa [program] using waits⟩
    exact none (writer (stuck party rest here))

section
variable [Fintype Party] [DecidableEq Party] [DecidableEq Field]

instance Possible.decidable (s : State Party Lock Field) : (action : Action Lock Field) → Decidable (Possible s action)
  | .acquire lock .exclusive => inferInstanceAs (Decidable (∀ party, lock ∉ (s.holds party).map Prod.fst))
  | .acquire lock .shared => inferInstanceAs (Decidable (∀ party, (lock, Mode.exclusive) ∉ s.holds party ∧
      (s.program party).head? ≠ some (.acquire lock .exclusive)))
  | .release _ | .access _ => inferInstanceAs (Decidable True)

/-- A party goes on with its next action, if that is possible. -/
def step (s : State Party Lock Field) (party : Party) : Option (State Party Lock Field) :=
  match s.program party with
  | [] => none
  | action :: rest =>
    if Possible s action then
      some ⟨Function.update s.program party rest, Function.update s.holds party (after (s.holds party) action)⟩
    else none

theorem step_some {s next : State Party Lock Field} {party : Party} (stepped : step s party = some next) :
    ∃ action rest, s.program party = action :: rest ∧ Possible s action ∧
      next = ⟨Function.update s.program party rest,
        Function.update s.holds party (after (s.holds party) action)⟩ := by
  unfold step at stepped
  split at stepped
  · cases stepped
  · next action rest here =>
    split at stepped
    · next possible => exact ⟨action, rest, here, possible, by simpa using stepped.symm⟩
    · cases stepped

theorem step_orderly {s next : State Party Lock Field} {party : Party} (orderly : Orderly s)
    (stepped : step s party = some next) : Orderly next := by
  obtain ⟨action, rest, here, possible, rfl⟩ := step_some stepped
  have mine := orderly.ordered party
  rw [here] at mine
  constructor
  · intro other
    by_cases same : other = party
    · subst same
      simp only [Function.update_self]
      cases action with
      | acquire lock mode => exact mine.2
      | release lock => exact mine.2
      | access touched => exact mine
    · simpa [same] using orderly.ordered other
  · intro one other lock differ writes
    by_cases isOne : one = party
    · subst isOne
      simp only [Function.update_self, Function.update_of_ne differ.symm] at writes ⊢
      cases action with
      | acquire lock' mode =>
        rcases List.mem_cons.mp writes with new | old
        · cases new
          exact possible other
        · exact orderly.apart one other lock differ old
      | release lock' => exact orderly.apart one other lock differ (List.mem_filter.mp writes).1
      | access touched => exact orderly.apart one other lock differ writes
    · simp only [Function.update_of_ne isOne] at writes
      have before := orderly.apart one other lock differ writes
      by_cases isOther : other = party
      · subst isOther
        simp only [Function.update_self]
        cases action with
        | acquire lock' mode =>
          rw [after, List.map_cons, List.mem_cons, not_or]
          refine ⟨?_, before⟩
          rintro rfl
          cases mode with
          | shared => exact (possible one).1 writes
          | exclusive => exact possible one (List.mem_map_of_mem writes)
        | release lock' =>
          intro still
          obtain ⟨held, member, rfl⟩ := List.mem_map.mp still
          exact before (List.mem_map_of_mem (List.mem_filter.mp member).1)
        | access touched => exact before
      · simpa [isOther] using before

theorem run_orderly {program : Party → List (Action Lock Field)} (ordered : ∀ party, Ordered [] (program party))
    {schedule : List Party} {s : State Party Lock Field} (ran : run step (State.start program) schedule = some s) :
    Orderly s :=
  run_keeps (fun _ _ _ => step_orderly) (start_orderly ordered) ran

/-- As long as somebody is not through, somebody can go on. -/
theorem progress [WellFoundedGT Lock] {s : State Party Lock Field} (orderly : Orderly s)
    (unfinished : ∃ party, s.program party ≠ []) : ∃ party, (step s party).isSome := by
  by_contra stuck
  have blocked : ∀ party action rest, s.program party = action :: rest → ¬ Possible s action := by
    intro party action rest here possible
    exact stuck ⟨party, by simp [step, here, possible]⟩
  -- the locks that are waited for, of which there is a last one
  let wanted : Set Lock := { lock | ∃ party mode rest, s.program party = .acquire lock mode :: rest }
  have wants : ∀ party, s.program party ≠ [] → ∃ lock mode rest, s.program party = .acquire lock mode :: rest := by
    intro party more
    cases program : s.program party with
    | nil => exact absurd program more
    | cons action rest =>
      have waits := blocked party action rest program
      cases action with
      | acquire lock mode => exact ⟨lock, mode, rest, rfl⟩
      | release lock => exact absurd trivial waits
      | access touched => exact absurd trivial waits
  obtain ⟨party, more⟩ := unfinished
  obtain ⟨lock, mode, rest, here⟩ := wants party more
  obtain ⟨last, ⟨waiting, mode, rest, here⟩, latest⟩ :=
    WellFounded.has_min (wellFounded_gt (α := Lock)) wanted ⟨lock, party, mode, rest, here⟩
  obtain ⟨other, has⟩ := taken_of_blocked (blocked waiting _ rest here) fun party rest here =>
    blocked party _ rest here
  have ordered := orderly.ordered other
  have more : s.program other ≠ [] := by
    intro none
    rw [none] at ordered
    have nothing : s.holds other = [] := ordered
    simp [nothing] at has
  obtain ⟨later, mode', rest', here'⟩ := wants other more
  rw [here'] at ordered
  obtain ⟨held, member, rfl⟩ := List.mem_map.mp has
  exact latest later ⟨other, mode', rest', here'⟩ (ordered.1 held member)

/-! ## Nobody is in the way of a writer -/

/-- What the parties are still to do touches the field only under its guard. -/
def State.Guarded (field : Field) (guard : Guard Party Lock) (s : State Party Lock Field) : Prop :=
  ∀ party, LockOrder.Guarded party field guard (s.holds party) (s.program party)

theorem step_guarded {field : Field} {guard : Guard Party Lock} {s next : State Party Lock Field} {party : Party}
    (guarded : s.Guarded field guard) (stepped : step s party = some next) : next.Guarded field guard := by
  intro other
  obtain ⟨action, rest, here, _, rfl⟩ := step_some stepped
  have mine := guarded party
  rw [here] at mine
  by_cases same : other = party
  · subst same
    simpa using mine.2
  · simpa [same] using guarded other

/-- No two parties are ever at a field at once, one of them to write it, where each
    program touches it only under its guard. -/
theorem no_race {field : Field} {guard : Guard Party Lock} {program : Party → List (Action Lock Field)}
    (ordered : ∀ party, Ordered [] (program party))
    (guarded : ∀ party, Guarded party field guard [] (program party)) {schedule : List Party}
    {s : State Party Lock Field} (ran : run step (State.start program) schedule = some s) : ¬ Race s field := by
  have orderly := run_orderly ordered ran
  have guarded' : s.Guarded field guard :=
    run_keeps (fun _ _ _ guarded stepped => step_guarded guarded stepped)
      (show (State.start program).Guarded field guard from guarded) ran
  have admits : ∀ party writes, s.Touches party field writes → guard.Admits party (s.holds party) writes := by
    rintro party writes ⟨touched, rest, here, member⟩
    have mine := guarded' party
    rw [here] at mine
    exact mine.1 (field, writes) member rfl
  rintro ⟨party, other, differ, writing, writes, touching⟩
  have first := admits party true writing
  have second := admits other writes touching
  cases guard with
  | lockedBy lock =>
    have exclusive : (lock, Mode.exclusive) ∈ s.holds party := by simpa [Guard.Admits] using first
    refine orderly.apart party other lock differ exclusive ?_
    rcases second with exclusive' | ⟨_, shared⟩
    · exact List.mem_map_of_mem exclusive'
    · exact shared
  | ownedBy owner =>
    have mine : party = owner := first
    have yours : other = owner := second
    exact differ (mine.trans yours.symm)
  | constant => cases first

end

end Aleakd.LockOrder
