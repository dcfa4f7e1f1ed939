import Mathlib.Data.List.Nodup
import Mathlib.Logic.Function.Basic
import Mathlib.Tactic.Common

/-!
Parties that are each in the middle of at most one task. A task may hold a key, which
its party took and will hand in. No key is there twice, as long as each party takes only
a key that nobody has taken.
-/
namespace Aleakd.Parties
universe u v w
variable {Party : Type u} {Task : Type v} {Key : Type w}

/-- The key that the task of a party holds. -/
def held (key : Task → Option Key) (tasks : Party → Option Task) (party : Party) : Option Key := (tasks party).bind key

theorem held_task {key : Task → Option Key} {tasks : Party → Option Task} {party : Party} {k : Key} :
    held key tasks party = some k ↔ ∃ task, tasks party = some task ∧ key task = some k := Option.bind_eq_some_iff

/-- No two parties hold the same key. -/
def Exclusive (holds : Party → Option Key) : Prop :=
  ∀ party party' k, holds party = some k → holds party' = some k → party = party'

theorem exclusive_start : Exclusive fun _ : Party => (none : Option Key) := by
  intro party party' k holds
  cases holds

section
variable [DecidableEq Party]

/-- What a party has after one party has changed. -/
theorem update_some {f : Party → Option Task} {party other : Party} {new : Option Task} {task : Task}
    (has : Function.update f party new other = some task) :
    other = party ∧ new = some task ∨ other ≠ party ∧ f other = some task := by
  by_cases same : other = party
  · subst same
    rw [Function.update_self] at has
    exact .inl ⟨rfl, has⟩
  · rw [Function.update_of_ne same] at has
    exact .inr ⟨same, has⟩

theorem held_update (key : Task → Option Key) (tasks : Party → Option Task) (party : Party) (new : Option Task) :
    held key (Function.update tasks party new) = Function.update (held key tasks) party (new.bind key) := by
  funext other
  by_cases same : other = party
  · subst same
    rw [held, Function.update_self, Function.update_self]
  · rw [held, Function.update_of_ne same, Function.update_of_ne same]
    rfl

/-- The party goes on with the key that it has. -/
theorem held_same {key : Task → Option Key} {tasks : Party → Option Task} {party : Party} {new : Option Task}
    (same : new.bind key = held key tasks party) : held key (Function.update tasks party new) = held key tasks := by
  rw [held_update, same, Function.update_eq_self]

theorem exclusive_release {holds : Party → Option Key} (exclusive : Exclusive holds) (party : Party) :
    Exclusive (Function.update holds party none) := by
  intro one other k has has'
  rcases update_some has with ⟨_, new⟩ | ⟨_, has⟩
  · cases new
  · rcases update_some has' with ⟨_, new⟩ | ⟨_, has'⟩
    · cases new
    · exact exclusive one other k has has'

theorem exclusive_take {holds : Party → Option Key} (exclusive : Exclusive holds) (party : Party) {k : Key}
    (free : ∀ other, holds other ≠ some k) : Exclusive (Function.update holds party (some k)) := by
  intro one other k' has has'
  rcases update_some has with ⟨rfl, new⟩ | ⟨_, has⟩
  · cases new
    rcases update_some has' with ⟨rfl, _⟩ | ⟨_, has'⟩
    · rfl
    · exact absurd has' (free other)
  · rcases update_some has' with ⟨_, new⟩ | ⟨_, has'⟩
    · cases new
      exact absurd has (free one)
    · exact exclusive one other k' has has'

end

/-! ## Keys that are handed in -/

/-- The key is handed in, or some party holds it. -/
def Used (sent : List Key) (holds : Party → Option Key) (k : Key) : Prop := k ∈ sent ∨ ∃ party, holds party = some k

/-- No key is there twice, handed in or held. -/
structure Unique (sent : List Key) (holds : Party → Option Key) : Prop where
  distinct : sent.Nodup
  apart : ∀ party k, holds party = some k → k ∉ sent
  alone : Exclusive holds

theorem unique_start : Unique [] fun _ : Party => (none : Option Key) where
  distinct := List.nodup_nil
  apart := by
    intro party k holds
    cases holds
  alone := exclusive_start

/-- When no party holds a key, those that are handed in count. -/
theorem unique_idle {sent : List Key} {holds : Party → Option Key} (idle : ∀ party, holds party = none) :
    Unique sent holds ↔ sent.Nodup := by
  constructor
  · exact Unique.distinct
  · intro distinct
    refine ⟨distinct, ?_, ?_⟩
    · intro party k has
      rw [idle party] at has
      cases has
    · intro party party' k has
      rw [idle party] at has
      cases has

section
variable [DecidableEq Party] {sent : List Key} {holds : Party → Option Key} {party : Party} {k : Key}

theorem used_take (idle : holds party = none) (k' : Key) :
    Used sent (Function.update holds party (some k)) k' ↔ Used sent holds k' ∨ k' = k := by
  constructor
  · rintro (member | ⟨other, has⟩)
    · exact .inl (.inl member)
    · rcases update_some has with ⟨_, new⟩ | ⟨_, has⟩
      · cases new
        exact .inr rfl
      · exact .inl (.inr ⟨other, has⟩)
  · rintro ((member | ⟨other, has⟩) | rfl)
    · exact .inl member
    · have others : other ≠ party := by
        rintro rfl
        rw [idle] at has
        cases has
      exact .inr ⟨other, by rw [Function.update_of_ne others]; exact has⟩
    · exact .inr ⟨party, Function.update_self ..⟩

theorem used_send (has : holds party = some k) (k' : Key) :
    Used (sent ++ [k]) (Function.update holds party none) k' ↔ Used sent holds k' := by
  constructor
  · rintro (member | ⟨other, has'⟩)
    · rcases List.mem_append.mp member with member | last
      · exact .inl member
      · rw [List.mem_singleton.mp last]
        exact .inr ⟨party, has⟩
    · rcases update_some has' with ⟨_, new⟩ | ⟨_, has'⟩
      · cases new
      · exact .inr ⟨other, has'⟩
  · rintro (member | ⟨other, has'⟩)
    · exact .inl (List.mem_append_left _ member)
    · by_cases same : other = party
      · subst same
        rw [has] at has'
        cases has'
        exact .inl (List.mem_append_right _ List.mem_cons_self)
      · exact .inr ⟨other, by rw [Function.update_of_ne same]; exact has'⟩

/-- A party that holds nothing may take a key that is not in use, and no other. -/
theorem unique_take (idle : holds party = none) :
    Unique sent (Function.update holds party (some k)) ↔ Unique sent holds ∧ ¬ Used sent holds k := by
  constructor
  · intro unique
    have others : ∀ other k', holds other = some k' →
        other ≠ party ∧ Function.update holds party (some k) other = some k' := by
      intro other k' has
      have different : other ≠ party := by
        rintro rfl
        rw [idle] at has
        cases has
      exact ⟨different, by rw [Function.update_of_ne different]; exact has⟩
    refine ⟨⟨unique.distinct, ?_, ?_⟩, ?_⟩
    · intro other k' has
      exact unique.apart other k' (others other k' has).2
    · intro one other k' has has'
      exact unique.alone one other k' (others one k' has).2 (others other k' has').2
    · rintro (member | ⟨other, has⟩)
      · exact unique.apart party k (Function.update_self ..) member
      · obtain ⟨different, has⟩ := others other k has
        exact different (unique.alone other party k has (Function.update_self ..))
  · rintro ⟨unique, free⟩
    refine ⟨unique.distinct, ?_, exclusive_take unique.alone party fun other has => free (.inr ⟨other, has⟩)⟩
    intro other k' has member
    rcases update_some has with ⟨_, new⟩ | ⟨_, has⟩
    · cases new
      exact free (.inl member)
    · exact unique.apart other k' has member

/-- A party hands in the key that it holds. -/
theorem unique_send (has : holds party = some k) :
    Unique (sent ++ [k]) (Function.update holds party none) ↔ Unique sent holds := by
  have last : k ∈ sent ++ [k] := List.mem_append_right _ List.mem_cons_self
  constructor
  · intro unique
    have apart := List.nodup_append.mp unique.distinct
    have others : ∀ other k', other ≠ party → holds other = some k' → k' ∉ sent ++ [k] := by
      intro other k' different has'
      exact unique.apart other k' (by rw [Function.update_of_ne different]; exact has')
    refine ⟨apart.1, ?_, ?_⟩
    · intro other k' has' member
      by_cases same : other = party
      · subst same
        rw [has] at has'
        cases has'
        exact apart.2.2 k member k List.mem_cons_self rfl
      · exact others other k' same has' (List.mem_append_left _ member)
    · intro one other k' one' other'
      by_cases first : one = party
      · by_cases second : other = party
        · rw [first, second]
        · rw [first, has] at one'
          cases one'
          exact absurd last (others other k second other')
      · by_cases second : other = party
        · rw [second, has] at other'
          cases other'
          exact absurd last (others one k first one')
        · exact unique.alone one other k' (by rw [Function.update_of_ne first]; exact one')
            (by rw [Function.update_of_ne second]; exact other')
  · intro unique
    refine ⟨?_, ?_, exclusive_release unique.alone party⟩
    · rw [← List.concat_eq_append]
      exact List.Nodup.concat (unique.apart party k has) unique.distinct
    · intro other k' has' member
      rcases update_some has' with ⟨_, new⟩ | ⟨different, has'⟩
      · cases new
      · rcases List.mem_append.mp member with member | same
        · exact unique.apart other k' has' member
        · rw [List.mem_singleton.mp same] at has'
          exact different (unique.alone other party k has' has)

end

end Aleakd.Parties
