import Mathlib.Data.List.GetD
import Mathlib.Tactic.Common

/-!
Memory as C sees it, cell by cell: what a store changes and what it leaves alone, and what a
load gives of it.
-/
namespace Aleakd.ByteMemory
universe u
variable {Cell : Type u}

/-- The cells are written one after the other. -/
def store (memory : Nat → Cell) (start : Nat) (cells : List Cell) : Nat → Cell :=
  fun i => if start ≤ i then cells.getD (i - start) (memory i) else memory i

/-- So many cells, from `start` on. -/
def load (memory : Nat → Cell) (start n : Nat) : List Cell := (List.range n).map fun k => memory (start + k)

@[simp] theorem load_length (memory : Nat → Cell) (start n : Nat) : (load memory start n).length = n := by
  rw [load, List.length_map, List.length_range]

theorem store_outside (memory : Nat → Cell) {start i : Nat} {cells : List Cell}
    (outside : i < start ∨ start + cells.length ≤ i) : store memory start cells i = memory i := by
  rw [store]
  split
  · next behind => exact List.getD_eq_default _ _ (by omega)
  · rfl

theorem store_inside (memory : Nat → Cell) (start : Nat) {cells : List Cell} {k : Nat} (inside : k < cells.length) :
    store memory start cells (start + k) = cells[k] := by
  rw [store, if_pos (Nat.le_add_right start k), Nat.add_sub_cancel_left, List.getD_eq_getElem _ _ inside]

theorem mem_load {memory : Nat → Cell} {start n : Nat} {cell : Cell} :
    cell ∈ load memory start n ↔ ∃ k < n, memory (start + k) = cell := by
  simp [load]

theorem load_congr {memory other : Nat → Cell} {start n : Nat}
    (same : ∀ i, start ≤ i → i < start + n → memory i = other i) : load memory start n = load other start n := by
  refine List.map_congr_left fun k member => ?_
  have inside := List.mem_range.mp member
  exact same (start + k) (by omega) (by omega)

theorem load_append (memory : Nat → Cell) (start n k : Nat) :
    load memory start (n + k) = load memory start n ++ load memory (start + n) k := by
  rw [load, List.range_add, List.map_append, List.map_map]
  refine congrArg (_ ++ ·) (List.map_congr_left fun j _ => ?_)
  rw [Function.comp_apply, Nat.add_assoc]

/-- A load that the store does not touch. -/
theorem load_store_apart (memory : Nat → Cell) {start at_ n : Nat} {cells : List Cell}
    (apart : at_ + n ≤ start ∨ start + cells.length ≤ at_) :
    load (store memory start cells) at_ n = load memory at_ n :=
  load_congr fun _ _ _ => store_outside memory (by omega)

/-- A load of a part of what was stored. -/
theorem load_store_within (memory : Nat → Cell) (start : Nat) {cells : List Cell} {k n : Nat}
    (within : k + n ≤ cells.length) : load (store memory start cells) (start + k) n = (cells.drop k).take n := by
  refine List.ext_getElem (by rw [load_length, List.length_take, List.length_drop]; omega) fun j inside _ => ?_
  rw [load_length] at inside
  rw [List.getElem_take, List.getElem_drop, ← store_inside memory start (by omega : k + j < cells.length)]
  simp [load, Nat.add_assoc]

/-- What was stored is loaded. -/
theorem load_store_same (memory : Nat → Cell) (start : Nat) {cells : List Cell} {n : Nat} (whole : cells.length = n) :
    load (store memory start cells) start n = cells := by
  subst whole
  have all : load (store memory start cells) (start + 0) cells.length = (cells.drop 0).take cells.length :=
    load_store_within memory start (by omega)
  rwa [Nat.add_zero, List.drop_zero, List.take_length] at all

/-- A store over cells that are all the same leaves the others so. -/
theorem load_store_front (cell : Cell) {memory : Nat → Cell} {start n : Nat} {cells : List Cell}
    (clear : load memory start n = List.replicate n cell) (fits : cells.length ≤ n) :
    load (store memory start cells) start n = cells ++ List.replicate (n - cells.length) cell := by
  obtain ⟨k, rfl⟩ := Nat.exists_eq_add_of_le fits
  rw [load_append, ← List.replicate_append_replicate] at clear
  have behind := (List.append_inj clear (by simp)).2
  rw [load_append, load_store_same memory start rfl, load_store_apart memory (.inr (Nat.le_refl _)), behind,
    Nat.add_sub_cancel_left]

end Aleakd.ByteMemory
