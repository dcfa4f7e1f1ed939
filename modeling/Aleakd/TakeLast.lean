import Mathlib.Data.List.Nodup
import Mathlib.Tactic.Common

/-!
Taking the last element of a list that satisfies a test: the list is searched
from its end, and the element that is found is removed.
-/
namespace Aleakd.TakeLast
universe u v
variable {α : Type u} {β : Type v} {test : α → Bool}

def takeLast (test : α → Bool) : List α → Option (α × List α)
  | [] => none
  | x :: rest =>
    match takeLast test rest with
    | some (found, left) => some (found, x :: left)
    | none => if test x then some (x, rest) else none

theorem takeLast_none {l : List α} : takeLast test l = none ↔ ∀ x ∈ l, test x = false := by
  induction l with
  | nil => simp [takeLast]
  | cons x rest ih =>
    cases later : takeLast test rest with
    | some result => simp [takeLast, later, ← ih]
    | none =>
      have all := ih.mp later
      by_cases holds : test x = true
      · simp [takeLast, later, holds]
      · simpa [takeLast, later, holds] using all

/-- What is found is the last element that passes the test, and only it is removed. -/
theorem takeLast_some {l left : List α} {found : α} (taken : takeLast test l = some (found,left)) :
    ∃ before after, l = before ++ found :: after ∧ left = before ++ after ∧ test found = true ∧
      ∀ x ∈ after, test x = false := by
  induction l generalizing left with
  | nil => cases taken
  | cons x rest ih =>
    cases later : takeLast test rest with
    | some result =>
      simp only [takeLast, later, Option.some.injEq, Prod.mk.injEq] at taken
      obtain ⟨rfl, rfl⟩ := taken
      obtain ⟨before, after, split, left, holds, last⟩ := ih later
      exact ⟨x :: before, after, by rw [split, List.cons_append], by rw [left, List.cons_append], holds, last⟩
    | none =>
      simp only [takeLast, later, Option.ite_none_right_eq_some, Option.some.injEq, Prod.mk.injEq] at taken
      obtain ⟨holds, rfl, rfl⟩ := taken
      exact ⟨[], rest, rfl, rfl, holds, takeLast_none.mp later⟩

/-- Of the elements that pass the test, the last one goes. -/
theorem takeLast_filter {l left : List α} {found : α} (taken : takeLast test l = some (found,left)) :
    left.filter test = (l.filter test).dropLast := by
  obtain ⟨before, after, rfl, rfl, holds, last⟩ := takeLast_some taken
  have nothing : after.filter test = [] := by simpa using last
  simp [nothing, holds]

/-- The elements that pass another test stay. -/
theorem takeLast_filter_other {l left : List α} {found : α} (taken : takeLast test l = some (found,left))
    {other : α → Bool} (fails : other found = false) : left.filter other = l.filter other := by
  obtain ⟨before, after, rfl, rfl, _, _⟩ := takeLast_some taken
  simp [fails]

/-- What is found is what a search from the end of the list finds. -/
theorem takeLast_find (test : α → Bool) (l : List α) :
    (takeLast test l).map Prod.fst = l.reverse.find? test := by
  induction l with
  | nil => rfl
  | cons x rest ih =>
    rw [List.reverse_cons, List.find?_append, ← ih, takeLast]
    cases takeLast test rest with
    | some result => rfl
    | none => by_cases holds : test x = true <;> simp [holds]

/-- Elements that cannot pass the test need not be searched. -/
theorem find_reverse_filter {kept : α → Bool} {l : List α} (only : ∀ x ∈ l, test x = true → kept x = true) :
    (l.filter kept).reverse.find? test = l.reverse.find? test := by
  induction l with
  | nil => rfl
  | cons x rest ih =>
    have later := ih fun y member => only y (List.mem_cons_of_mem x member)
    rw [List.reverse_cons, List.find?_append, ← later]
    by_cases holds : test x = true
    · rw [List.filter_cons_of_pos (only x List.mem_cons_self holds), List.reverse_cons, List.find?_append]
    · by_cases stays : kept x = true <;> simp [stays, holds]

theorem takeLast_mem {l left : List α} {found : α} (taken : takeLast test l = some (found,left)) : found ∈ l := by
  obtain ⟨before, after, rfl, _⟩ := takeLast_some taken
  simp

theorem takeLast_test {l left : List α} {found : α} (taken : takeLast test l = some (found,left)) :
    test found = true := by
  obtain ⟨_, _, _, _, holds, _⟩ := takeLast_some taken
  exact holds

theorem takeLast_congr {l : List α} {test' : α → Bool} (same : ∀ x ∈ l, test x = test' x) :
    takeLast test l = takeLast test' l := by
  induction l with
  | nil => rfl
  | cons x rest ih =>
    have later := ih fun y member => same y (List.mem_cons_of_mem x member)
    have here := same x List.mem_cons_self
    rw [takeLast, takeLast, later, here]

/-- Taking from the images takes the image. -/
theorem takeLast_map (test : α → Bool) (f : β → α) (l : List β) :
    takeLast test (l.map f) = (takeLast (fun y => test (f y)) l).map fun (found, left) => (f found, left.map f) := by
  induction l with
  | nil => rfl
  | cons y rest ih =>
    rw [List.map_cons, takeLast, takeLast, ih]
    cases takeLast (fun y => test (f y)) rest with
    | some result => rfl
    | none => by_cases holds : test (f y) = true <;> simp [holds]

/-- Without repetitions, what is left is everything else. -/
theorem takeLast_left [DecidableEq α] {l left : List α} {found : α} (distinct : l.Nodup)
    (taken : takeLast test l = some (found,left)) : left = l.filter (· ≠ found) := by
  obtain ⟨before, after, rfl, rfl, _, _⟩ := takeLast_some taken
  have apart := List.nodup_middle.mp distinct
  obtain ⟨absent, _⟩ := List.nodup_cons.mp apart
  have keeps : ∀ x ∈ before ++ after, x ≠ found := by
    rintro x member rfl
    exact absent member
  rw [List.filter_append, List.filter_cons_of_neg (by simp), ← List.filter_append]
  exact (List.filter_eq_self.mpr (by simpa using keeps)).symm

/-- A test that at most one element passes finds that element. -/
theorem takeLast_unique {l : List α} {x : α} (member : x ∈ l) (holds : test x = true)
    (only : ∀ y ∈ l, test y = true → y = x) : ∃ left, takeLast test l = some (x,left) := by
  cases taken : takeLast test l with
  | none =>
    have fails := takeLast_none.mp taken x member
    rw [holds] at fails
    cases fails
  | some result =>
    obtain ⟨found, left⟩ := result
    rw [only found (takeLast_mem taken) (takeLast_test taken)]
    exact ⟨left, rfl⟩

end Aleakd.TakeLast
