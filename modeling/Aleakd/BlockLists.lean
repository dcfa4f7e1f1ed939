import Aleakd.HighWater
import Aleakd.ServerLedger

/-!
The blocks that the server takes for live, address by address: a message takes off
the last one at the address that it frees, and puts its own block last at the
address that it allocates.
-/
namespace Aleakd.BlockLists
open Aleakd.Messages Aleakd.Operations Aleakd.OperationList Aleakd.ApplicationWindow Aleakd.TakeLast Aleakd.HighWater
open Aleakd.ServerLedger

/-- The blocks at an address, in the order of their messages. -/
def blocksAt (pointer : UInt64) (blocks : List (UInt64 × UInt64 × UInt64)) : List (UInt64 × UInt64 × UInt64) :=
  blocks.filter fun block => block.1 = pointer

theorem blocksAt_take {t : Tally} {freePtr pointer : UInt64} (given : pointer ≠ 0) :
    blocksAt pointer (((t.take freePtr).map fun result => result.2).getD t.unfreed) =
      if freePtr = pointer then (blocksAt pointer t.unfreed).dropLast else blocksAt pointer t.unfreed := by
  unfold Tally.take
  by_cases zero : freePtr = 0
  · have other : freePtr ≠ pointer := fun same => given (same.symm.trans zero)
    rw [if_pos zero, if_neg other]
    rfl
  · rw [if_neg zero]
    cases taken : takeLast (fun block => decide (block.1 = freePtr)) t.unfreed with
    | none =>
      have absent := takeLast_none.mp taken
      split
      · next same =>
        have nothing : blocksAt pointer t.unfreed = [] := by
          rw [blocksAt, List.filter_eq_nil_iff]
          intro block member
          rw [← same, absent block member]
          exact Bool.false_ne_true
        rw [nothing]
        exact nothing
      · rfl
    | some result =>
      obtain ⟨found, left⟩ := result
      split
      · next same =>
        rw [← same]
        exact takeLast_filter taken
      · next other =>
        have holds := takeLast_test taken
        simp only [decide_eq_true_eq] at holds
        apply takeLast_filter_other taken
        exact decide_eq_false fun same => other (holds.symm.trans same)

/-- What an operation does to the blocks at an address. -/
theorem blocksAt_addMemoryOperation (t : Tally) {operation : MemoryOperation}
    (coded : MemoryOperation.hasAllocOperation operation) {pointer : UInt64} (given : pointer ≠ 0) :
    blocksAt pointer (t.addMemoryOperation operation).unfreed =
      (if operation.freePtr = pointer then (blocksAt pointer t.unfreed).dropLast else blocksAt pointer t.unfreed) ++
        if operation.allocPtr = pointer then [blockOf operation] else [] := by
  have last : blocksAt pointer [blockOf operation] =
      if operation.allocPtr = pointer then [blockOf operation] else [] := by
    simp [blocksAt, blockOf, List.filter_cons]
  rw [← blocksAt_take given, ← last, Tally.addMemoryOperation, if_pos coded]
  exact List.filter_append _ _

/-! ## The unfreed blocks of the server -/

/-- Positions that pass a test, and what is there. -/
theorem map_filter_range {α β : Type} (p : α → Bool) (f : α → β) (l : List α) :
    ((List.range l.length).filter fun i => l[i]?.any p).map (fun i => l[i]?.map f) =
      ((l.filter p).map f).map some := by
  induction l using List.reverseRecOn with
  | nil => rfl
  | append_singleton before last ih =>
    have same : ∀ i ∈ List.range before.length, (before ++ [last])[i]? = before[i]? :=
      fun i member => List.getElem?_append_left (List.mem_range.mp member)
    have old : ((List.range before.length).filter fun i => (before ++ [last])[i]?.any p) =
        (List.range before.length).filter fun i => before[i]?.any p := by
      apply List.filter_congr
      intro i member
      rw [same i member]
    have old' : ((List.range before.length).filter fun i => before[i]?.any p).map
          (fun i => (before ++ [last])[i]?.map f) = ((before.filter p).map f).map some := by
      rw [← ih]
      apply List.map_congr_left
      intro i member
      rw [same i (List.mem_filter.mp member).1]
    rw [List.length_append, List.length_singleton, List.range_succ, List.filter_append, List.map_append, old, old',
      List.filter_append, List.map_append, List.map_append, List.filter_singleton]
    cases holds : p last <;> simp [holds]

/-- Where all operations have an allocation code, the unfreed blocks are those of the
    tally that have an address. -/
theorem unfreedBlocks_eq {c : Controller} {t : Tally} (tallied : Tallied c t)
    (coded : ∀ operation ∈ c.operations.listMemoryOperation, MemoryOperation.hasAllocOperation operation) :
    unfreedBlocks c.operations.listMemoryOperation = ↑(t.unfreed.filter fun block => block.1 ≠ 0) := by
  have blocks := tallied.unfreed
  have whole := map_filter_range (fun operation => MemoryOperation.hasAllocOperation operation && !operation.freed)
    blockOf c.operations.listMemoryOperation
  have same : (c.operations.listMemoryOperation.filter fun operation =>
      MemoryOperation.hasAllocOperation operation && !operation.freed).map blockOf = t.unfreed := by
    apply List.map_injective_iff.mpr (Option.some_injective _)
    rw [← whole, ← blocks, tallied.indexed]
    rfl
  rw [← same, unfreedBlocks, List.filter_map, List.filter_filter]
  congr 2
  apply List.filter_congr
  intro operation member
  rw [Bool.eq_iff_iff]
  refine (decide_eq_true_iff (p := Unfreed operation)).trans ?_
  simp only [Unfreed, coded operation member, blockOf, Function.comp_apply, Bool.true_and, Bool.and_eq_true,
    Bool.not_eq_true']
  exact and_congr_left fun _ => decide_eq_true_iff.symm

end Aleakd.BlockLists
