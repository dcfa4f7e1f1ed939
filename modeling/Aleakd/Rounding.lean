import Mathlib.Algebra.Order.Ring.Nat
import Mathlib.Data.Int.Order.Basic
import Mathlib.Data.Nat.Log

/-!
Integers in a binary format of `p` significant bits: each is rounded to the nearest one
that the format has, and to the even one of two. The exponents are taken to be as large as
they need to be.
-/
namespace Aleakd.Rounding

/-! ## To a multiple -/

/-- The nearest multiple of `unit`. -/
def nearest (unit n : Nat) : Nat :=
  if 2 * (n % unit) < unit ∨ 2 * (n % unit) = unit ∧ n / unit % 2 = 0 then unit * (n / unit)
  else unit * (n / unit + 1)

theorem nearest_cases (unit n : Nat) :
    nearest unit n = unit * (n / unit) ∨ nearest unit n = unit * (n / unit + 1) := by
  unfold nearest
  split
  · exact .inl rfl
  · exact .inr rfl

theorem nearest_dvd (unit n : Nat) : unit ∣ nearest unit n := by
  rcases nearest_cases unit n with down | up
  · exact down ▸ Nat.dvd_mul_right ..
  · exact up ▸ Nat.dvd_mul_right ..

theorem nearest_eq_iff {unit : Nat} (positive : 0 < unit) {n : Nat} : nearest unit n = n ↔ unit ∣ n := by
  refine ⟨fun same => same ▸ nearest_dvd unit n, fun multiple => ?_⟩
  rw [nearest, Nat.mod_eq_zero_of_dvd multiple, if_pos (.inl (by omega)), Nat.mul_div_cancel' multiple]

/-- A multiple that is not above a number is not above what it is rounded to. -/
theorem le_nearest {unit n m : Nat} (multiple : unit ∣ m) (le : m ≤ n) : m ≤ nearest unit n := by
  have below : m ≤ unit * (n / unit) := by
    obtain ⟨k, rfl⟩ := multiple
    rcases Nat.eq_zero_or_pos unit with rfl | positive
    · simp
    · exact Nat.mul_le_mul_left unit ((Nat.le_div_iff_mul_le positive).mpr (by rwa [Nat.mul_comm]))
  rcases nearest_cases unit n with down | up
  · exact down ▸ below
  · rw [up]
    exact le_trans below (Nat.mul_le_mul_left unit (Nat.le_succ _))

/-- Nor does a number get above a multiple. -/
theorem nearest_le {unit n m : Nat} (positive : 0 < unit) (multiple : unit ∣ m) (le : n ≤ m) : nearest unit n ≤ m := by
  by_cases same : unit ∣ n
  · rwa [(nearest_eq_iff positive).mpr same]
  · obtain ⟨k, rfl⟩ := multiple
    have less : n < unit * k := lt_of_le_of_ne le fun same' => same (same' ▸ Nat.dvd_mul_right ..)
    have above : n / unit + 1 ≤ k := Nat.succ_le_of_lt (Nat.div_lt_of_lt_mul less)
    rcases nearest_cases unit n with down | up
    · rw [down]
      exact Nat.mul_le_mul_left unit (by omega)
    · rw [up]
      exact Nat.mul_le_mul_left unit above

theorem nearest_mono {unit : Nat} (positive : 0 < unit) {m n : Nat} (le : m ≤ n) : nearest unit m ≤ nearest unit n := by
  have quotients : m / unit ≤ n / unit := Nat.div_le_div_right le
  rcases Nat.eq_or_lt_of_le quotients with same | less
  · -- between the same two multiples: what is rounded up has more left over
    have division := Nat.div_add_mod m unit
    have division' := Nat.div_add_mod n unit
    rw [same] at division
    unfold nearest
    rw [same]
    split
    · split
      · exact le_refl _
      · exact Nat.mul_le_mul_left unit (Nat.le_succ _)
    · next up =>
      rw [if_neg]
      rintro (down | ⟨tie, even⟩)
      · exact up (.inl (by omega))
      · by_cases left : 2 * (m % unit) < unit
        · exact up (.inl left)
        · exact up (.inr ⟨by omega, even⟩)
  · have above : unit * (m / unit + 1) ≤ n := by
      have := Nat.mul_le_mul_left unit (Nat.succ_le_of_lt less)
      exact le_trans this (Nat.mul_div_le n unit)
    have first : nearest unit m ≤ unit * (m / unit + 1) :=
      nearest_le positive (Nat.dvd_mul_right ..) (Nat.lt_mul_div_succ m positive).le
    exact le_trans first (le_nearest (Nat.dvd_mul_right ..) above)

/-! ## To so many bits -/

/-- The weight of the last of `p` significant bits. -/
def unitOf (p n : Nat) : Nat := 2 ^ (n.log2 + 1 - p)

theorem unitOf_pos (p n : Nat) : 0 < unitOf p n := Nat.two_pow_pos _

/-- The value of a natural number in the format. -/
def round (p n : Nat) : Nat := nearest (unitOf p n) n

theorem unitOf_mono (p : Nat) {m n : Nat} (le : m.log2 ≤ n.log2) : unitOf p m ∣ unitOf p n :=
  Nat.pow_dvd_pow 2 (by omega)

/-- The powers of two at the ends of a binade are multiples of its unit. -/
theorem unitOf_dvd {p : Nat} (some : 0 < p) (n : Nat) : unitOf p n ∣ 2 ^ n.log2 ∧ unitOf p n ∣ 2 ^ (n.log2 + 1) :=
  ⟨Nat.pow_dvd_pow 2 (by omega), Nat.pow_dvd_pow 2 (by omega)⟩

theorem log2_le_log2 {m n : Nat} (le : m ≤ n) : m.log2 ≤ n.log2 := by
  rw [Nat.log2_eq_log_two, Nat.log2_eq_log_two]
  exact Nat.log_mono_right le

theorem round_mono {p : Nat} (some : 0 < p) {m n : Nat} (le : m ≤ n) : round p m ≤ round p n := by
  rcases Nat.eq_or_lt_of_le (log2_le_log2 le) with same | less
  · have unit : unitOf p m = unitOf p n := by rw [unitOf, unitOf, same]
    rw [round, round, unit]
    exact nearest_mono (unitOf_pos p n) le
  · -- a power of two lies between them
    have first : round p m ≤ 2 ^ (m.log2 + 1) :=
      nearest_le (unitOf_pos p m) (unitOf_dvd some m).2 Nat.lt_log2_self.le
    have second : 2 ^ n.log2 ≤ round p n :=
      le_nearest (unitOf_dvd some n).1 (Nat.log2_self_le (by rintro rfl; simp at less))
    exact le_trans first (le_trans (Nat.pow_le_pow_right (by decide) less) second)

/-- What has been rounded is in the format. -/
theorem round_round {p : Nat} (some : 0 < p) (n : Nat) : round p (round p n) = round p n := by
  refine (nearest_eq_iff (unitOf_pos _ _)).mpr ?_
  have top : round p n ≤ 2 ^ (n.log2 + 1) := nearest_le (unitOf_pos p n) (unitOf_dvd some n).2 Nat.lt_log2_self.le
  rcases Nat.eq_or_lt_of_le top with same | less
  · have whole := (unitOf_dvd some (round p n)).1
    have power : (round p n).log2 = n.log2 + 1 := by rw [same, Nat.log2_two_pow]
    rwa [power, ← same] at whole
  · have within : (round p n).log2 ≤ n.log2 := by
      by_cases zero : round p n = 0
      · simp [zero]
      · exact Nat.le_of_lt_succ ((Nat.log2_lt zero).mpr less)
    exact Nat.dvd_trans (unitOf_mono p within) (nearest_dvd _ n)

/-- Numbers of at most `p` bits stay as they are. -/
theorem round_small {p n : Nat} (small : n < 2 ^ p) : round p n = n := by
  refine (nearest_eq_iff (unitOf_pos p n)).mpr ?_
  by_cases zero : n = 0
  · rw [zero]
    exact Nat.dvd_zero _
  · have bits := (Nat.log2_lt zero).mpr small
    rw [unitOf, Nat.sub_eq_zero_of_le (Nat.succ_le_of_lt bits)]
    exact Nat.one_dvd n

/-! ## Signed -/

/-- The value of an integer in the format. -/
def roundInt (p : Nat) (z : Int) : Int := if 0 ≤ z then round p z.natAbs else -round p z.natAbs

/-- The numbers of the format that are integers. -/
def Binary (p : Nat) : Type := { z : Int // roundInt p z = z }

theorem roundInt_ofNat (p n : Nat) : roundInt p n = round p n := by simp [roundInt]

theorem roundInt_roundInt {p : Nat} (some : 0 < p) (z : Int) : roundInt p (roundInt p z) = roundInt p z := by
  unfold roundInt
  split
  · simp [round_round some]
  · split
    · next negative positive =>
      have zero : round p z.natAbs = 0 := by omega
      simp [zero, round_small (Nat.two_pow_pos p)]
    · simp [round_round some]

end Aleakd.Rounding
