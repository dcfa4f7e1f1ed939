import Mathlib.Data.List.Basic
import Mathlib.Tactic.Ring

/-!
Numerals as lists of characters: two numbers do not have the same digits, in a base whose
digits differ. And lists that are set off in groups of one size, counted from the end.
-/
namespace Aleakd.Numerals
universe u

theorem digitChar_inj {d e : Nat} (small : d < 16) (small' : e < 16) (same : d.digitChar = e.digitChar) : d = e := by
  have each : ∀ d e : Fin 16, Nat.digitChar d = Nat.digitChar e → d = e := by decide
  exact congrArg Fin.val (each ⟨d, small⟩ ⟨e, small'⟩ same)

theorem toDigits_inj {base : Nat} (some : 1 < base) (small : base ≤ 16) {m n : Nat}
    (same : Nat.toDigits base m = Nat.toDigits base n) : m = n := by
  induction m using Nat.strongRecOn generalizing n with
  | ind m ih =>
    rw [Nat.toDigits_eq_if some, Nat.toDigits_eq_if (n := n) some] at same
    have last := Nat.mod_lt m (show 0 < base by omega)
    have last' := Nat.mod_lt n (show 0 < base by omega)
    split at same
    · next one =>
      split at same
      · next one' => exact digitChar_inj (by omega) (by omega) (by simpa using same)
      · next more' =>
        have lengths := congrArg List.length same
        have positive := Nat.length_toDigits_pos (b := base) (n := n / base)
        rw [List.length_append] at lengths
        simp only [List.length_singleton] at lengths
        omega
    · next more =>
      split at same
      · next one' =>
        have lengths := congrArg List.length same
        have positive := Nat.length_toDigits_pos (b := base) (n := m / base)
        rw [List.length_append] at lengths
        simp only [List.length_singleton] at lengths
        omega
      · next more' =>
        obtain ⟨front, back⟩ := List.append_inj' same rfl
        have quotients := ih (m / base) (Nat.div_lt_self (by omega) some) front
        have remainders := digitChar_inj (by omega) (by omega) (List.cons.inj back).1
        rw [← Nat.div_add_mod m base, ← Nat.div_add_mod n base, quotients, remainders]

/-! ## Groups -/

section
variable {α : Type u} (size : Nat) (separator : α)

/-- A separator in front of each group but the first. -/
def grouped : List α → List α
  | [] => []
  | first :: rest =>
    if rest ≠ [] ∧ rest.length % size = 0 then first :: separator :: grouped rest else first :: grouped rest

@[simp] theorem grouped_nil : grouped size separator [] = [] := rfl

theorem grouped_cons (first : α) (rest : List α) :
    grouped size separator (first :: rest) =
      if rest ≠ [] ∧ rest.length % size = 0 then first :: separator :: grouped size separator rest
      else first :: grouped size separator rest := rfl

/-- Without the separators the list is as it was. -/
theorem filter_grouped [DecidableEq α] {l : List α} (apart : separator ∉ l) :
    (grouped size separator l).filter (· ≠ separator) = l := by
  induction l with
  | nil => rfl
  | cons first rest ih =>
    obtain ⟨differs, later⟩ := not_or.mp (mt List.mem_cons.mpr apart)
    rw [grouped_cons]
    split <;> simpa [Ne.symm differs] using ih later

theorem pred_div {n : Nat} (positive : 0 < n) : (n - 1) / size + (if n % size = 0 then 1 else 0) = n / size := by
  have division := Nat.succ_div (a := n - 1) (b := size)
  rw [Nat.sub_add_cancel positive] at division
  simp only [division, Nat.dvd_iff_mod_eq_zero]

variable {size} {separator}

theorem grouped_length {l : List α} (some : l ≠ []) :
    (grouped size separator l).length = l.length + (l.length - 1) / size := by
  induction l with
  | nil => exact absurd rfl some
  | cons first rest ih =>
    by_cases none : rest = []
    · simp [none, grouped_cons]
    · have groups := pred_div size (List.length_pos_of_ne_nil none)
      rw [grouped_cons, List.length_cons, Nat.add_sub_cancel, ← groups]
      by_cases full : rest.length % size = 0
      · rw [if_pos ⟨none, full⟩, if_pos full, List.length_cons, List.length_cons, ih none]
        omega
      · rw [if_neg (fun both => full both.2), if_neg full, List.length_cons, ih none]
        omega

/-- Counted from the end, the separators are those behind each full group. -/
theorem grouped_separator_iff (positive : 0 < size) {l : List α} (apart : separator ∉ l) {k : Nat}
    (inside : k < (grouped size separator l).length) :
    (grouped size separator l).reverse[k]? = some separator ↔ k % (size + 1) = size := by
  induction l with
  | nil => simp at inside
  | cons first rest ih =>
    obtain ⟨differs, later⟩ := not_or.mp (mt List.mem_cons.mpr apart)
    by_cases inRest : k < (grouped size separator rest).length
    · rw [← ih later inRest, grouped_cons]
      split <;> simp [List.getElem?_append_left, inRest]
    · -- the first element, or the separator that comes behind it
      rw [grouped_cons] at inside ⊢
      by_cases none : rest = []
      · subst none
        have same : k = 0 := by simpa using inside
        simp [same, Ne.symm differs]
        omega
      · have length : (grouped size separator rest).length = _ := grouped_length none
        have groups := pred_div size (List.length_pos_of_ne_nil none)
        have division := Nat.div_add_mod rest.length size
        rw [← groups] at division
        generalize (rest.length - 1) / size = q at length division
        by_cases full : rest.length % size = 0
        · rw [if_pos ⟨none, full⟩] at inside ⊢
          rw [if_pos full, full, Nat.mul_add] at division
          by_cases last : k = (grouped size separator rest).length
          · have position : k = size + (size + 1) * q := by
              rw [last, length, ← division]
              ring
            have within : k % (size + 1) = size := by
              rw [position, Nat.add_mul_mod_self_left, Nat.mod_eq_of_lt (by omega)]
            rw [within, last]
            simp
          · have beyond : k = (grouped size separator rest).length + 1 := by
              simp only [List.length_cons] at inside
              omega
            have position : k = (size + 1) * (q + 1) := by
              rw [beyond, length, ← division]
              ring
            have within : k % (size + 1) = 0 := by rw [position, Nat.mul_mod_right]
            rw [within, beyond, List.reverse_cons, List.getElem?_append_right (by simp)]
            simp [Ne.symm differs]
            omega
        · rw [if_neg (fun both => full both.2)] at inside ⊢
          have last : k = (grouped size separator rest).length := by
            simp only [List.length_cons] at inside
            omega
          have short := Nat.mod_lt rest.length positive
          have position : k = rest.length % size + (size + 1) * q := by
            rw [if_neg full, Nat.add_zero] at division
            rw [last, length, Nat.add_mul, Nat.one_mul]
            omega
          have within : k % (size + 1) = rest.length % size := by
            rw [position, Nat.add_mul_mod_self_left, Nat.mod_eq_of_lt (show rest.length % size < size + 1 by omega)]
          rw [within, last, List.reverse_cons, List.getElem?_append_right (by simp)]
          simp [Ne.symm differs]
          omega

end

end Aleakd.Numerals
