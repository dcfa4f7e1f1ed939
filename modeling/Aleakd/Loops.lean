import Mathlib.Data.UInt

/-!
Loops `for(i = start; i <= last; i++)` on a 64-bit counter. The counter wraps, so a loop
whose last value is the largest one never ends; any other ends within 2^64 rounds.
-/
namespace Aleakd.Loops
universe u
variable {State : Type u}

/-- The rounds of a loop, where they are fewer than the fuel. -/
def rounds (last : UInt64) (body : UInt64 → State → State) : Nat → UInt64 → State → Option State
  | 0, _, _ => none
  | fuel + 1, i, s => if i ≤ last then rounds last body fuel (i + 1) (body i s) else some s

/-- The state that a loop leaves, and `none` where it does not end: after 2^64 rounds the
    counter has had every value. -/
def forUpTo (start last : UInt64) (body : UInt64 → State → State) (s : State) : Option State :=
  rounds last body (2 ^ 64 + 1) start s

theorem rounds_invariant {last : UInt64} {body : UInt64 → State → State} {Inv : Nat → State → Prop}
    (ends : last.toNat < 2 ^ 64 - 1) {start : UInt64}
    (keeps : ∀ i s, start ≤ i → i ≤ last → Inv i.toNat s → Inv (i.toNat + 1) (body i s))
    (fuel : Nat) (i : UInt64) (s : State) (from_ : start ≤ i) (within : i.toNat ≤ last.toNat + 1)
    (enough : last.toNat + 1 < fuel + i.toNat) (inv : Inv i.toNat s) :
    ∃ final, rounds last body fuel i s = some final ∧ Inv (last.toNat + 1) final := by
  induction fuel generalizing i s with
  | zero => omega
  | succ fuel ih =>
    by_cases more : i ≤ last
    · have below := UInt64.le_iff_toNat_le.mp more
      have next : (i + 1).toNat = i.toNat + 1 := by
        rw [UInt64.toNat_add, UInt64.toNat_one]
        omega
      have later : start ≤ i + 1 := by
        rw [UInt64.le_iff_toNat_le] at from_ ⊢
        omega
      rw [rounds, if_pos more]
      refine ih (i + 1) (body i s) later (by omega) (by omega) ?_
      rw [next]
      exact keeps i s from_ more inv
    · have above : ¬ i.toNat ≤ last.toNat := fun le => more (UInt64.le_iff_toNat_le.mpr le)
      have done : i.toNat = last.toNat + 1 := by omega
      rw [rounds, if_neg more]
      exact ⟨s, rfl, done ▸ inv⟩

/-- A loop ends unless its last value is the largest one; what holds before it, and what
    each round keeps for the next value, holds after it for the value after the last. -/
theorem forUpTo_invariant {start last : UInt64} {body : UInt64 → State → State} {s : State}
    {Inv : Nat → State → Prop} (ends : last.toNat < 2 ^ 64 - 1) (some : start ≤ last)
    (before : Inv start.toNat s)
    (keeps : ∀ i s, start ≤ i → i ≤ last → Inv i.toNat s → Inv (i.toNat + 1) (body i s)) :
    ∃ final, forUpTo start last body s = .some final ∧ Inv (last.toNat + 1) final := by
  have le := UInt64.le_iff_toNat_le.mp some
  exact rounds_invariant ends keeps (2 ^ 64 + 1) start s (UInt64.le_refl start) (by omega) (by omega) before

/-- A loop whose last value is the largest one does not end. -/
theorem rounds_endless {last : UInt64} (endless : last.toNat = 2 ^ 64 - 1) (body : UInt64 → State → State) (fuel : Nat)
    (i : UInt64) (s : State) : rounds last body fuel i s = none := by
  induction fuel generalizing i s with
  | zero => rfl
  | succ fuel ih =>
    have below : i ≤ last := by
      rw [UInt64.le_iff_toNat_le, endless]
      have := i.toNat_lt
      omega
    rw [rounds, if_pos below]
    exact ih (i + 1) (body i s)

/-- What every round keeps holds after the loop, if it ends. -/
theorem rounds_keeps {last : UInt64} {body : UInt64 → State → State} {Inv : State → Prop}
    (keeps : ∀ i s, i ≤ last → Inv s → Inv (body i s)) {fuel : Nat} {i : UInt64} {s final : State} (inv : Inv s)
    (ended : rounds last body fuel i s = some final) : Inv final := by
  induction fuel generalizing i s with
  | zero => cases ended
  | succ fuel ih =>
    rw [rounds] at ended
    split at ended
    · next more => exact ih (keeps i s more inv) ended
    · cases ended
      exact inv

/-- Only that last value keeps a loop from its end. -/
theorem forUpTo_ends {last : UInt64} (ends : last.toNat < 2 ^ 64 - 1) (start : UInt64) (body : UInt64 → State → State)
    (s : State) : ∃ final, forUpTo start last body s = some final := by
  by_cases reached : start ≤ last
  · obtain ⟨final, ended, _⟩ := @forUpTo_invariant State start last body s (fun _ _ => True) ends reached trivial
      fun _ _ _ _ _ => trivial
    exact ⟨final, ended⟩
  · exact ⟨s, by rw [forUpTo, rounds, if_neg reached]⟩

end Aleakd.Loops
