import Mathlib.Data.UInt
import Mathlib.Tactic.Common

/-!
Numbers from a 32-bit counter that is counted up each time one is taken. While fewer
than 2^32 are taken, the next one is not among those taken before.
-/
namespace Aleakd.Numbering

/-- How far a number is from where the counter started. -/
def age (start number : UInt32) : Nat := (number - start).toNat

@[simp] theorem age_start (start : UInt32) : age start start = 0 := by simp [age]

theorem age_next {start number : UInt32} (room : age start number + 1 < 2 ^ 32) :
    age start (number + 1) = age start number + 1 := by
  have next : number + 1 - start = number - start + 1 := by
    rw [UInt32.sub_eq_add_neg, UInt32.sub_eq_add_neg, UInt32.add_assoc, UInt32.add_comm 1, ← UInt32.add_assoc]
  unfold age at room ⊢
  rw [next, UInt32.toNat_add]
  exact Nat.mod_eq_of_lt room

/-- The counter has been counted up `n` times, and the numbers in use were taken from it. -/
structure Issued (start counter : UInt32) (n : Nat) (used : UInt32 → Prop) : Prop where
  counter : age start counter = n
  used : ∀ number, used number → age start number ≤ n

theorem issued_start {start : UInt32} {used : UInt32 → Prop} (none : ∀ number, ¬ used number) :
    Issued start start 0 used where
  counter := age_start start
  used number isUsed := absurd isUsed (none number)

/-- The next number is new. -/
theorem next_new {start counter : UInt32} {n : Nat} {used : UInt32 → Prop} (issued : Issued start counter n used)
    (room : n + 1 < 2 ^ 32) : ¬ used (counter + 1) := by
  intro isUsed
  have within := issued.used (counter + 1) isUsed
  rw [age_next (by rw [issued.counter]; exact room), issued.counter] at within
  omega

/-- The next number is taken. -/
theorem issued_next {start counter : UInt32} {n : Nat} {used used' : UInt32 → Prop}
    (issued : Issued start counter n used) (room : n + 1 < 2 ^ 32)
    (more : ∀ number, used' number → used number ∨ number = counter + 1) : Issued start (counter + 1) (n + 1) used' := by
  have next : age start (counter + 1) = n + 1 := by
    rw [age_next (by rw [issued.counter]; exact room), issued.counter]
  refine ⟨next, ?_⟩
  intro number isUsed
  rcases more number isUsed with before | rfl
  · exact Nat.le_succ_of_le (issued.used number before)
  · exact Nat.le_of_eq next

/-- No number is taken. -/
theorem issued_mono {start counter : UInt32} {n : Nat} {used used' : UInt32 → Prop}
    (issued : Issued start counter n used) (fewer : ∀ number, used' number → used number) :
    Issued start counter n used' where
  counter := issued.counter
  used number isUsed := issued.used number (fewer number isUsed)

end Aleakd.Numbering
