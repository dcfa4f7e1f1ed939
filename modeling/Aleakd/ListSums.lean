import Mathlib.Algebra.BigOperators.Group.Finset.Basic
import Mathlib.Algebra.BigOperators.Group.List.Basic
import Mathlib.Data.Fintype.Basic
import Mathlib.Data.List.Nodup
import Mathlib.Data.List.Perm.Basic
import Mathlib.Data.UInt
import Mathlib.Tactic.Abel

/-!
Lists of which one element changes, or that get one element more, and sums over them.
-/
namespace Aleakd.ListSums
universe u v w
variable {α : Type u} {β : Type w} {G : Type v}

/-- A change of one element that another function does not see. -/
theorem map_modify {f : α → β} {change : α → α} (keeps : ∀ x, f (change x) = f x) (l : List α) (k : Nat) :
    (l.modify k change).map f = l.map f := by
  apply List.ext_getElem?
  intro i
  rw [List.getElem?_map, List.getElem?_map, List.getElem?_modify]
  cases l[i]? with
  | none => rfl
  | some x => by_cases here : k = i <;> simp [here, keeps]

/-- A change of one element is a new value under another function. -/
theorem map_modify_at {l : List α} {k : Nat} {x : α} (found : l[k]? = some x) (f : α → β) (change : α → α) :
    (l.modify k change).map f = (l.map f).set k (f (change x)) := by
  obtain ⟨inside, rfl⟩ := List.getElem?_eq_some_iff.mp found
  apply List.ext_getElem?
  intro i
  rw [List.getElem?_map, List.getElem?_modify, List.getElem?_set, List.length_map, List.getElem?_map]
  by_cases here : k = i
  · subst here
    simp [inside]
  · simp [here]

/-- An element after one element has changed. -/
theorem modify_origin {l : List α} {i k : Nat} {change : α → α} {x : α} (found : (l.modify i change)[k]? = some x) :
    ∃ before, l[k]? = some before ∧ x = if i = k then change before else before := by
  rw [List.getElem?_modify] at found
  obtain ⟨before, object, rfl⟩ := Option.map_eq_some_iff.mp found
  refine ⟨before, object, ?_⟩
  split <;> rfl

/-- An element after one element has come. -/
theorem append_origin {l : List α} {k : Nat} {last x : α} (found : (l ++ [last])[k]? = some x) :
    l[k]? = some x ∨ k = l.length ∧ x = last := by
  rcases Nat.lt_or_ge k l.length with inside | beyond
  · rw [List.getElem?_append_left inside] at found
    exact .inl found
  · rw [List.getElem?_append_right beyond, List.getElem?_singleton] at found
    split at found
    · cases found
      exact .inr ⟨by omega, rfl⟩
    · cases found

/-- A place that is empty is filled. -/
theorem filterMap_set {f : α → Option β} {l : List α} {i : Nat} {old new : α} {x : β} (found : l[i]? = some old)
    (empty : f old = none) (filled : f new = some x) : ((l.set i new).filterMap f).Perm (l.filterMap f ++ [x]) := by
  obtain ⟨inside, here⟩ := List.getElem?_eq_some_iff.mp found
  have after := (List.set_perm_cons_eraseIdx inside new).filterMap f
  have before := (List.getElem_cons_eraseIdx_perm inside).filterMap f
  rw [List.filterMap_cons_some filled] at after
  rw [here, List.filterMap_cons_none empty] at before
  calc
    ((l.set i new).filterMap f).Perm (x :: (l.eraseIdx i).filterMap f) := after
    (x :: (l.eraseIdx i).filterMap f).Perm (x :: l.filterMap f) := before.cons x
    (x :: l.filterMap f).Perm (l.filterMap f ++ [x]) := (List.perm_append_singleton x _).symm

theorem modify_last (l : List α) (last : α) (change : α → α) :
    (l ++ [last]).modify l.length change = l ++ [change last] := by
  rw [List.modify_eq_take_cons_drop (by simp)]
  simp

/-- One list of two that are zipped changes. -/
theorem zip_modify (l : List α) (l' : List β) (k : Nat) (change : α → α) :
    (l.modify k change).zip l' = (l.zip l').modify k (Prod.map change id) := by
  apply List.ext_getElem?
  intro i
  rw [List.getElem?_modify, List.zip_eq_zipWith, List.zip_eq_zipWith, List.getElem?_zipWith, List.getElem?_zipWith,
    List.getElem?_modify]
  cases l[i]? with
  | none => rfl
  | some x =>
    cases l'[i]? with
    | none => by_cases here : k = i <;> simp [here]
    | some y => by_cases here : k = i <;> simp [here]

theorem countP_modify {test : α → Bool} {change : α → α} (keeps : ∀ x, test (change x) = test x) (l : List α) (k : Nat) :
    (l.modify k change).countP test = l.countP test := by
  have before := List.countP_map (p := id) (f := test) (l := l.modify k change)
  rw [map_modify keeps, List.countP_map] at before
  exact before.symm

/-- A change of one element shows in the sum as its difference. -/
theorem sum_modify [AddCommGroup G] {l : List α} {k : Nat} {x : α} (found : l[k]? = some x) (change : α → α)
    (g : α → G) : ((l.modify k change).map g).sum = (l.map g).sum + (g (change x) - g x) := by
  obtain ⟨inside, rfl⟩ := List.getElem?_eq_some_iff.mp found
  have split : l = l.take k ++ l[k] :: l.drop (k + 1) := by simp
  have whole : (l.map g).sum = ((l.take k).map g).sum + (g l[k] + ((l.drop (k + 1)).map g).sum) := by
    conv_lhs => rw [split]
    rw [List.map_append, List.sum_append, List.map_cons, List.sum_cons]
  rw [List.modify_eq_take_cons_drop inside, whole, List.map_append, List.sum_append, List.map_cons, List.sum_cons]
  abel

/-- The sum over the elements that pass a test. -/
theorem sum_filter [AddCommMonoid G] (test : α → Bool) (g : α → G) (l : List α) :
    ((l.filter test).map g).sum = (l.map fun x => if test x then g x else 0).sum := by
  induction l with
  | nil => rfl
  | cons x rest ih =>
    by_cases holds : test x = true
    · simp [holds, ih]
    · simp [holds, ih]

theorem sum_fst [AddCommMonoid G] {H : Type w} [AddCommMonoid H] (f : α → G × H) (l : List α) :
    (l.map f).sum.1 = (l.map fun x => (f x).1).sum := by
  induction l with
  | nil => rfl
  | cons x rest ih => rw [List.map_cons, List.sum_cons, Prod.fst_add, ih, List.map_cons, List.sum_cons]

theorem countP_eq_sum (test : α → Bool) (l : List α) :
    (l.countP test : Int) = (l.map fun x => if test x then 1 else 0).sum := by
  induction l with
  | nil => rfl
  | cons x rest ih =>
    rw [List.countP_cons, List.map_cons, List.sum_cons, ← ih]
    split <;> omega

/-- A sum of 64-bit numbers wraps. -/
theorem sum_toNat (l : List UInt64) : l.sum.toNat = (l.map UInt64.toNat).sum % 2 ^ 64 := by
  induction l with
  | nil => rfl
  | cons x rest ih =>
    rw [List.sum_cons, UInt64.toNat_add, ih, List.map_cons, List.sum_cons, Nat.add_mod_mod]

/-- Amounts that add up to a whole for each element, added up over the list first. -/
theorem sum_all [AddCommMonoid G] [Fintype β] {f : β → α → G} {whole : α → G} {l : List α}
    (adds : ∀ x ∈ l, ∑ y, f y x = whole x) : ∑ y, (l.map (f y)).sum = (l.map whole).sum := by
  induction l with
  | nil => simp
  | cons x rest ih =>
    have later := ih fun x' member => adds x' (List.mem_cons_of_mem x member)
    simp only [List.map_cons, List.sum_cons, Finset.sum_add_distrib]
    rw [later, adds x List.mem_cons_self]

/-! ## Sums by keys -/

end Aleakd.ListSums
