import Mathlib.Data.List.Induction
import Mathlib.Logic.Basic
import Mathlib.Tactic.Common

/-!
Runs of a system that moves by events: `step` gives the next state, or `none`
where the event is not possible there. An invariant that every step keeps holds
along every run; it may rely on a condition that every step of the run meets.
-/
namespace Aleakd.Runs
universe u v
variable {State : Type u} {Event : Type v}

/-- The state that a sequence of events leads to. -/
def run (step : State → Event → Option State) : State → List Event → Option State
  | s, [] => some s
  | s, e :: rest => (step s e).bind (fun next => run step next rest)

/-- Every step of the run meets a condition on its event and the state before it. -/
def Meets (step : State → Event → Option State) (condition : State → Event → Prop) : State → List Event → Prop
  | _, [] => True
  | s, e :: rest => condition s e ∧ ∀ next ∈ step s e, Meets step condition next rest

instance Meets.decidable (step : State → Event → Option State) (condition : State → Event → Prop)
    [∀ s e, Decidable (condition s e)] : ∀ s events, Decidable (Meets step condition s events)
  | _, [] => inferInstanceAs (Decidable True)
  | s, e :: rest =>
    have : DecidablePred fun next => Meets step condition next rest := fun next =>
      Meets.decidable step condition next rest
    inferInstanceAs (Decidable (condition s e ∧ ∀ next ∈ step s e, Meets step condition next rest))

@[simp] theorem run_nil (step : State → Event → Option State) (s : State) : run step s [] = some s := rfl

theorem run_cons_some {step : State → Event → Option State} {s final : State} {e : Event} {rest : List Event} :
    run step s (e :: rest) = some final ↔ ∃ next, step s e = some next ∧ run step next rest = some final := by
  simp [run, Option.bind_eq_some_iff]

theorem run_append (step : State → Event → Option State) (s : State) (first second : List Event) :
    run step s (first ++ second) = (run step s first).bind (fun next => run step next second) := by
  induction first generalizing s with
  | nil => rfl
  | cons e rest ih =>
    simp only [List.cons_append, run]
    cases step s e with
    | none => rfl
    | some next => exact ih next

theorem run_concat (step : State → Event → Option State) (s : State) (events : List Event) (e : Event) :
    run step s (events ++ [e]) = (run step s events).bind (fun next => step next e) := by
  rw [run_append]
  refine Option.bind_congr fun next _ => ?_
  rw [run]
  cases step next e <;> rfl

/-- What one step keeps under the condition, a run keeps. -/
theorem run_invariant {step : State → Event → Option State} {condition : State → Event → Prop}
    {Inv : State → Prop}
    (keeps : ∀ s e next, Inv s → condition s e → step s e = some next → Inv next)
    {s final : State} {events : List Event} (start : Inv s) (meets : Meets step condition s events)
    (ran : run step s events = some final) : Inv final := by
  induction events generalizing s with
  | nil =>
    cases ran
    exact start
  | cons e rest ih =>
    obtain ⟨next, stepped, later⟩ := run_cons_some.mp ran
    exact ih (keeps s e next start meets.1 stepped) (meets.2 next stepped) later

/-- The trivial condition is met by every run. -/
theorem meets_true (step : State → Event → Option State) (s : State) (events : List Event) :
    Meets step (fun _ _ => True) s events := by
  induction events generalizing s with
  | nil => trivial
  | cons e rest ih => exact ⟨trivial, fun next _ => ih next⟩

/-- So is a condition on the events alone, where they all meet it. -/
theorem meets_of_forall {step : State → Event → Option State} {condition : Event → Prop} {events : List Event}
    (all : ∀ e ∈ events, condition e) (s : State) : Meets step (fun _ e => condition e) s events := by
  induction events generalizing s with
  | nil => trivial
  | cons e rest ih =>
    exact ⟨all e List.mem_cons_self, fun next _ => ih (fun later member => all later (List.mem_cons_of_mem e member)) next⟩

/-- What every step keeps, every run keeps. -/
theorem run_keeps {step : State → Event → Option State} {Inv : State → Prop}
    (keeps : ∀ s e next, Inv s → step s e = some next → Inv next)
    {s final : State} {events : List Event} (start : Inv s) (ran : run step s events = some final) : Inv final :=
  run_invariant (fun s e next inv _ stepped => keeps s e next inv stepped) start (meets_true step s events) ran

/-! ## Histories -/

/-- A property of what has happened so far, that each event keeps exactly under a
    condition, holds all the way exactly when every event meets the condition. -/
theorem always_iff {Property : List Event → Prop} {condition : List Event → Event → Prop} {events : List Event}
    (start : Property [])
    (keeps : ∀ earlier e, earlier ++ [e] <+: events → Property earlier →
      (Property (earlier ++ [e]) ↔ condition earlier e)) :
    (∀ earlier, earlier <+: events → Property earlier) ↔
      ∀ earlier e, earlier ++ [e] <+: events → condition earlier e := by
  constructor
  · intro always earlier e within
    have before := always earlier ((List.prefix_append earlier [e]).trans within)
    exact (keeps earlier e within before).mp (always _ within)
  · intro meets earlier
    induction earlier using List.reverseRecOn with
    | nil => exact fun _ => start
    | append_singleton earlier e ih =>
      intro within
      have before := ih ((List.prefix_append earlier [e]).trans within)
      exact (keeps earlier e within before).mpr (meets earlier e within)

end Aleakd.Runs
