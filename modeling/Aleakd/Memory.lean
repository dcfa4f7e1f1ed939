import Mathlib.Data.Vector.Defs
import Mathlib.Tactic.Common

/-!
Arrays as the C library sees them: a fixed number of cells, and `memcpy` into
them, which has a result only while it stays inside the array.
-/
namespace Aleakd.Memory
universe u
variable {Cell : Type u} {n : Nat}

/-- `memcpy(dest + offset, source, …)` of all the cells of `source`; `none` when
    it would write past the end of `dest`. -/
def memcpy (dest : List.Vector Cell n) (offset : Nat) (source : List Cell) : Option (List.Vector Cell n) :=
  if fits : offset + source.length ≤ n then
    some ⟨dest.val.take offset ++ source ++ dest.val.drop (offset + source.length), by
      have size := dest.property
      simp only [List.length_append, List.length_take, List.length_drop]
      omega⟩
  else none

/-- The copy has a result exactly when it ends inside the array. -/
theorem memcpy_isSome_iff (dest : List.Vector Cell n) (offset : Nat) (source : List Cell) :
    (memcpy dest offset source).isSome ↔ offset + source.length ≤ n := by
  unfold memcpy
  split
  · next fits => exact iff_of_true rfl fits
  · next overrun => exact iff_of_false Bool.false_ne_true overrun

theorem memcpy_fits {offset : Nat} {source : List Cell} (dest : List.Vector Cell n)
    (fits : offset + source.length ≤ n) : ∃ after, memcpy dest offset source = some after :=
  Option.isSome_iff_exists.mp ((memcpy_isSome_iff dest offset source).mpr fits)

/-- The cells up to the end of the copy: those before it, then the copied ones. -/
theorem memcpy_take {dest after : List.Vector Cell n} {offset : Nat} {source : List Cell}
    (copied : memcpy dest offset source = some after) :
    after.val.take (offset + source.length) = dest.val.take offset ++ source := by
  unfold memcpy at copied
  split at copied
  · next fits =>
    cases copied
    have size : offset + source.length = (dest.val.take offset ++ source).length := by
      have := dest.property
      simp only [List.length_append, List.length_take]
      omega
    simp only [size, List.take_left]
  · cases copied

/-- A copy to the start of the array. -/
theorem memcpy_start (dest : List.Vector Cell n) {source : List Cell} (fits : source.length ≤ n) :
    ∃ after, memcpy dest 0 source = some after ∧ after.val.take source.length = source := by
  obtain ⟨after, copied⟩ := memcpy_fits dest (by rw [Nat.zero_add]; exact fits)
  refine ⟨after, copied, ?_⟩
  have front := memcpy_take copied
  rwa [Nat.zero_add, List.take_zero, List.nil_append] at front

end Aleakd.Memory
