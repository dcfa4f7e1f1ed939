import Aleakd.Runs
import Aleakd.Stats
import Mathlib.Data.UInt

/-!
The remaining size by second, `MemoryUsage`: what `update` leaves for each second after
sizes have come in any order, and the range of seconds that it keeps beside them.
-/
namespace Aleakd.Usage
open Aleakd.Stats Aleakd.Runs

/-- A call of `update`: the second and the size. -/
abbrev Update := UInt64 × UInt64

/-- The usage after calls of `update`. -/
def afterUpdates (updates : List Update) : MemoryUsage :=
  updates.foldl (fun u call => u.update call.1 call.2) MemoryUsage.empty

theorem afterUpdates_append (updates : List Update) (call : Update) :
    afterUpdates (updates ++ [call]) = (afterUpdates updates).update call.1 call.2 := by
  simp [afterUpdates]

/-! ## One call -/

/-- A call writes the size, if what is recorded is 0 as an `int`, or smaller as an `int`
    that is made unsigned again. -/
def Writes (recorded size : UInt64) : Prop :=
  recorded.toUInt32.toInt32 = 0 ∨ recorded.toUInt32.toInt32.toInt64.toUInt64 < size

instance Writes.decidable (recorded size : UInt64) : Decidable (Writes recorded size) := inferInstanceAs
  (Decidable (recorded.toUInt32.toInt32 = 0 ∨ recorded.toUInt32.toInt32.toInt64.toUInt64 < size))

theorem value_absent {u : MemoryUsage} {timestamp : UInt64} (absent : timestamp ∉ u.listSizeByTimestamp) :
    u.value timestamp = 0 := by
  rw [MemoryUsage.value, Finmap.lookup_eq_none.mpr absent]
  rfl

/-- A call for a second without a size writes. -/
theorem writes_absent {u : MemoryUsage} {timestamp : UInt64} (absent : timestamp ∉ u.listSizeByTimestamp)
    (size : UInt64) : Writes (u.value timestamp) size := by
  rw [value_absent absent]
  exact .inl rfl

/-- What a call does: it records the size for the second, or nothing where a size is
    recorded that it takes for larger. -/
theorem update_cases (u : MemoryUsage) (timestamp size : UInt64) :
    (Writes (u.value timestamp) size ∧
      (u.update timestamp size).listSizeByTimestamp = Finmap.insert timestamp size u.listSizeByTimestamp ∧
      (u.update timestamp size).lastTime = timestamp ∧
      (u.update timestamp size).firstTime =
        if (u.value timestamp).toUInt32.toInt32 = 0 ∧ u.firstTime = 0 then timestamp else u.firstTime) ∨
    (¬ Writes (u.value timestamp) size ∧ timestamp ∈ u.listSizeByTimestamp ∧ u.update timestamp size = u) := by
  by_cases zero : (u.value timestamp).toUInt32.toInt32 = 0
  · have result : u.update timestamp size =
        { firstTime := if u.firstTime = 0 then timestamp else u.firstTime
          lastTime := timestamp
          listSizeByTimestamp := Finmap.insert timestamp size u.listSizeByTimestamp } := if_pos zero
    rw [result]
    refine .inl ⟨.inl zero, rfl, rfl, ?_⟩
    simp only [zero, true_and]
  · by_cases smaller : (u.value timestamp).toUInt32.toInt32.toInt64.toUInt64 < size
    · have result : u.update timestamp size =
          { u with
            lastTime := timestamp
            listSizeByTimestamp := Finmap.insert timestamp size u.listSizeByTimestamp } :=
        (if_neg zero).trans (if_pos smaller)
      rw [result]
      refine .inl ⟨.inr smaller, rfl, rfl, ?_⟩
      rw [if_neg fun both => zero both.1]
    · have result : u.update timestamp size = u := (if_neg zero).trans (if_neg smaller)
      have keeps : ¬ Writes (u.value timestamp) size := not_or.mpr ⟨zero, smaller⟩
      refine .inr ⟨keeps, ?_, result⟩
      by_contra absent
      exact keeps (writes_absent absent size)

theorem value_insert (u : MemoryUsage) (timestamp size other : UInt64) {u' : MemoryUsage}
    (map : u'.listSizeByTimestamp = Finmap.insert timestamp size u.listSizeByTimestamp) :
    u'.value other = if other = timestamp then size else u.value other := by
  rw [MemoryUsage.value, map]
  by_cases same : other = timestamp
  · rw [same, Finmap.lookup_insert, if_pos rfl]
    rfl
  · rw [Finmap.lookup_insert_of_ne _ same, if_neg same]
    rfl

/-- The value for a second after a call. -/
theorem update_value (u : MemoryUsage) (timestamp size other : UInt64) :
    (u.update timestamp size).value other =
      if other = timestamp ∧ Writes (u.value timestamp) size then size else u.value other := by
  rcases update_cases u timestamp size with ⟨writes, map, _⟩ | ⟨keeps, _, same⟩
  · rw [value_insert u timestamp size other map]
    simp [writes]
  · rw [same, if_neg fun both => keeps both.2]

theorem update_mem (u : MemoryUsage) (timestamp size other : UInt64) :
    other ∈ (u.update timestamp size).listSizeByTimestamp ↔ other = timestamp ∨ other ∈ u.listSizeByTimestamp := by
  rcases update_cases u timestamp size with ⟨_, map, _⟩ | ⟨_, recorded, same⟩
  · rw [map, Finmap.mem_insert]
  · rw [same]
    constructor
    · exact .inr
    · rintro (rfl | member)
      · exact recorded
      · exact member

theorem update_last (u : MemoryUsage) (timestamp size : UInt64) :
    (u.update timestamp size).lastTime = timestamp ∨ (u.update timestamp size).lastTime = u.lastTime := by
  rcases update_cases u timestamp size with ⟨_, _, last, _⟩ | ⟨_, _, same⟩
  · exact .inl last
  · exact .inr (congrArg MemoryUsage.lastTime same)

theorem afterUpdates_last_le {updates : List Update} {timestamp : UInt64}
    (earlier : ∀ call ∈ updates, call.1 ≤ timestamp) : (afterUpdates updates).lastTime ≤ timestamp := by
  induction updates using List.reverseRecOn with
  | nil => exact UInt64.le_iff_toNat_le.mpr (Nat.zero_le _)
  | append_singleton updates call ih =>
    rw [afterUpdates_append]
    rcases update_last (afterUpdates updates) call.1 call.2 with moved | same
    · rw [moved]
      exact earlier call (by simp)
    · rw [same]
      exact ih fun other member => earlier other (List.mem_append_left _ member)

/-! ## The largest size -/

/-- The sizes passed for a second. -/
def sizesFor (updates : List Update) (timestamp : UInt64) : List UInt64 :=
  (updates.filter fun call => call.1 = timestamp).map Prod.snd

/-- The largest size passed for a second, 0 without one. -/
def largest (updates : List Update) (timestamp : UInt64) : UInt64 := (sizesFor updates timestamp).foldl max 0

/-- The value for each second is the largest size passed for it. -/
def Maximal (updates : List Update) : Prop :=
  ∀ timestamp, (afterUpdates updates).value timestamp = largest updates timestamp

/-- The call leaves the larger one of the size and of what is recorded. By the lower 32
    bits of what is recorded: if they are 0, the size must not be smaller; if they are a
    positive `int`, a size above them must not be smaller; if a negative one, a size that
    is larger must be larger than them with their sign extended. -/
def Keeps (recorded size : UInt64) : Prop :=
  if recorded.toNat % 2 ^ 32 = 0 then recorded ≤ size
  else if recorded.toNat % 2 ^ 32 < 2 ^ 31 then size.toNat ≤ recorded.toNat % 2 ^ 32 ∨ recorded ≤ size
  else size ≤ recorded ∨ 2 ^ 64 - 2 ^ 32 + recorded.toNat % 2 ^ 32 < size.toNat

instance Keeps.decidable (recorded size : UInt64) : Decidable (Keeps recorded size) := inferInstanceAs (Decidable
  (if recorded.toNat % 2 ^ 32 = 0 then recorded ≤ size
  else if recorded.toNat % 2 ^ 32 < 2 ^ 31 then size.toNat ≤ recorded.toNat % 2 ^ 32 ∨ recorded ≤ size
  else size ≤ recorded ∨ 2 ^ 64 - 2 ^ 32 + recorded.toNat % 2 ^ 32 < size.toNat))

/-- Truncating to an `int` and widening again. -/
theorem truncated_toNat (x : UInt64) :
    (x.toUInt32.toInt32 = 0 ↔ x.toNat % 2 ^ 32 = 0) ∧
      x.toUInt32.toInt32.toInt64.toUInt64.toNat =
        if x.toNat % 2 ^ 32 < 2 ^ 31 then x.toNat % 2 ^ 32 else 2 ^ 64 - 2 ^ 32 + x.toNat % 2 ^ 32 := by
  have low : x.toUInt32.toNat = x.toNat % 2 ^ 32 := UInt64.toNat_toUInt32 x
  have signed : x.toUInt32.toInt32.toInt =
      if x.toNat % 2 ^ 32 < 2 ^ 31 then ((x.toNat % 2 ^ 32 : Nat) : Int) else (x.toNat % 2 ^ 32 : Nat) - 2 ^ 32 := by
    show x.toUInt32.toBitVec.toInt = _
    rw [BitVec.toInt_eq_toNat_cond]
    show (if 2 * x.toUInt32.toNat < 2 ^ 32 then (x.toUInt32.toNat : Int) else x.toUInt32.toNat - (2 ^ 32 : Nat)) = _
    rw [low]
    split <;> split <;> omega
  constructor
  · have zero : (0 : Int32).toInt = 0 := rfl
    rw [← Int32.toInt_inj, signed, zero]
    split <;> omega
  · have wide : x.toUInt32.toInt32.toInt64.toInt = x.toUInt32.toInt32.toInt := Int32.toInt_toInt64 _
    have bits : x.toUInt32.toInt32.toInt64.toInt = _ :=
      BitVec.toInt_eq_toNat_cond x.toUInt32.toInt32.toInt64.toUInt64.toBitVec
    have below := x.toUInt32.toInt32.toInt64.toUInt64.toNat_lt
    have same : x.toUInt32.toInt32.toInt64.toUInt64.toBitVec.toNat = x.toUInt32.toInt32.toInt64.toUInt64.toNat := rfl
    rw [same] at bits
    rw [wide, signed] at bits
    split at bits <;> split at bits <;> split <;> omega

theorem writes_iff (recorded size : UInt64) :
    Writes recorded size ↔ recorded.toNat % 2 ^ 32 = 0 ∨
      (if recorded.toNat % 2 ^ 32 < 2 ^ 31 then recorded.toNat % 2 ^ 32
        else 2 ^ 64 - 2 ^ 32 + recorded.toNat % 2 ^ 32) < size.toNat := by
  rw [Writes, (truncated_toNat recorded).1, UInt64.lt_iff_toNat_lt, (truncated_toNat recorded).2]

/-- The condition says that a call writes what is no smaller and keeps what is no
    smaller. -/
theorem keeps_iff (recorded size : UInt64) :
    Keeps recorded size ↔ (Writes recorded size → recorded ≤ size) ∧ (¬ Writes recorded size → size ≤ recorded) := by
  have small := recorded.toNat_lt
  rw [Keeps, writes_iff, UInt64.le_iff_toNat_le, UInt64.le_iff_toNat_le]
  split
  · omega
  · split <;> omega

theorem max_eq_right_iff {a b : UInt64} : max a b = b ↔ a ≤ b := by
  rw [← UInt64.toNat_inj, UInt64.toNat_max, UInt64.le_iff_toNat_le]
  omega

theorem max_eq_left_iff {a b : UInt64} : max a b = a ↔ b ≤ a := by
  rw [← UInt64.toNat_inj, UInt64.toNat_max, UInt64.le_iff_toNat_le]
  omega

theorem largest_append (updates : List Update) (call : Update) (timestamp : UInt64) :
    largest (updates ++ [call]) timestamp =
      if timestamp = call.1 then max (largest updates timestamp) call.2 else largest updates timestamp := by
  by_cases same : call.1 = timestamp
  · simp [largest, sizesFor, same]
  · simp [largest, sizesFor, same, Ne.symm same]

theorem maximal_nil : Maximal [] := fun _ => rfl

/-- One more call keeps the values the largest if and only if it meets the condition. -/
theorem maximal_append {updates : List Update} {call : Update} (maximal : Maximal updates) :
    Maximal (updates ++ [call]) ↔ Keeps (largest updates call.1) call.2 := by
  have here : (afterUpdates (updates ++ [call])).value call.1 = largest (updates ++ [call]) call.1 ↔
      Keeps (largest updates call.1) call.2 := by
    rw [afterUpdates_append, update_value, largest_append, if_pos rfl, maximal, keeps_iff]
    by_cases writes : Writes (largest updates call.1) call.2
    · rw [if_pos ⟨rfl, writes⟩, eq_comm, max_eq_right_iff]
      simp [writes]
    · rw [if_neg fun both => writes both.2, eq_comm, max_eq_left_iff]
      simp [writes]
  constructor
  · intro maximal'
    exact here.mp (maximal' call.1)
  · intro keeps timestamp
    by_cases same : timestamp = call.1
    · rw [same]
      exact here.mpr keeps
    · rw [afterUpdates_append, update_value, if_neg fun both => same both.1, largest_append, if_neg same, maximal]

/-- After calls of `update` in any order, the value for each second is the largest size
    passed for it, all the way, if and only if every call meets the condition on its size
    and the largest one passed for the second before it. -/
theorem value_largest_iff (updates : List Update) :
    (∀ earlier, earlier <+: updates → Maximal earlier) ↔
      ∀ earlier call, earlier ++ [call] <+: updates → Keeps (largest earlier call.1) call.2 :=
  always_iff maximal_nil fun _ _ _ maximal => maximal_append maximal

theorem largest_lt {updates : List Update} {bound : UInt64} (positive : 0 < bound)
    (small : ∀ call ∈ updates, call.2 < bound) (timestamp : UInt64) : largest updates timestamp < bound := by
  induction updates using List.reverseRecOn with
  | nil => exact positive
  | append_singleton updates call ih =>
    have before := ih fun other member => small other (List.mem_append_left _ member)
    rw [largest_append]
    split
    · have last := small call (by simp)
      rw [UInt64.lt_iff_toNat_lt] at before last ⊢
      rw [UInt64.toNat_max]
      omega
    · exact before

/-- Sizes below two gigabytes meet the condition. -/
theorem small_maximal {updates : List Update} (small : ∀ call ∈ updates, call.2 < 2 ^ 31) : Maximal updates := by
  refine (value_largest_iff updates).mpr ?_ updates (List.prefix_refl updates)
  intro earlier call within
  have below : largest earlier call.1 < 2 ^ 31 := largest_lt (by decide)
    (fun other member => small other (within.subset (List.mem_append_left _ member))) call.1
  rw [UInt64.lt_iff_toNat_lt] at below
  have bound : (2 ^ 31 : UInt64).toNat = 2 ^ 31 := rfl
  rw [bound] at below
  rw [Keeps, Nat.mod_eq_of_lt (by omega), if_pos below, UInt64.le_iff_toNat_le]
  split <;> omega

/-- Four gigabytes are left in a second, and then one byte. -/
theorem large_value_lost : ¬ ∀ updates, Maximal updates := by
  intro all
  exact absurd (all [(5, 2 ^ 32), (5, 1)] 5) (by decide +kernel)

/-! ## The range of seconds -/

/-- The range covers what is recorded, and its ends are recorded. -/
structure Covers (u : MemoryUsage) : Prop where
  first : u.firstTime ∈ u.listSizeByTimestamp
  last : u.lastTime ∈ u.listSizeByTimestamp
  within : ∀ timestamp ∈ u.listSizeByTimestamp, u.firstTime ≤ timestamp ∧ timestamp ≤ u.lastTime

/-- Without a first second nothing is recorded. -/
def Started (u : MemoryUsage) : Prop := u.firstTime = 0 → u = MemoryUsage.empty

theorem Started.absent {u : MemoryUsage} (started : Started u) (none : u.firstTime = 0) (timestamp : UInt64) :
    timestamp ∉ u.listSizeByTimestamp := by
  rw [started none]
  exact Finmap.notMem_empty

theorem covers_of_mem {u : MemoryUsage} (started : Started u) (covers : u.firstTime ≠ 0 → Covers u)
    {timestamp : UInt64} (recorded : timestamp ∈ u.listSizeByTimestamp) : Covers u :=
  covers fun none => started.absent none timestamp recorded

/-- The call writes nothing, or for a second that is not before the last one. -/
def InOrder (u : MemoryUsage) (call : Update) : Prop :=
  Writes (u.value call.1) call.2 → u.lastTime ≤ call.1

instance InOrder.decidable (u : MemoryUsage) (call : Update) : Decidable (InOrder u call) := inferInstanceAs
  (Decidable (Writes (u.value call.1) call.2 → u.lastTime ≤ call.1))

/-- The first call writes, and its second becomes the first one. -/
theorem update_empty (timestamp size : UInt64) :
    MemoryUsage.empty.update timestamp size = ⟨timestamp, timestamp, Finmap.insert timestamp size ∅⟩ := rfl

/-- A later call that writes moves the last second only. -/
theorem update_later {u : MemoryUsage} {timestamp size : UInt64} (some : u.firstTime ≠ 0)
    (writes : Writes (u.value timestamp) size) :
    u.update timestamp size = ⟨u.firstTime, timestamp, Finmap.insert timestamp size u.listSizeByTimestamp⟩ := by
  rcases update_cases u timestamp size with ⟨_, map, last, first⟩ | ⟨keeps, _⟩
  · rw [if_neg fun both => some both.2] at first
    calc u.update timestamp size
        = ⟨(u.update timestamp size).firstTime, (u.update timestamp size).lastTime,
          (u.update timestamp size).listSizeByTimestamp⟩ := rfl
      _ = _ := by rw [first, last, map]
  · exact absurd writes keeps

theorem update_same {u : MemoryUsage} {timestamp size : UInt64} (keeps : ¬ Writes (u.value timestamp) size) :
    u.update timestamp size = u := by
  rcases update_cases u timestamp size with ⟨writes, _⟩ | ⟨_, _, same⟩
  · exact absurd writes keeps
  · exact same

theorem started_update {u : MemoryUsage} (started : Started u) {timestamp : UInt64} (positive : 0 < timestamp)
    (size : UInt64) : (u.update timestamp size).firstTime ≠ 0 := by
  by_cases first : u.firstTime = 0
  · rw [started first, update_empty]
    rintro rfl
    exact UInt64.lt_irrefl 0 positive
  · by_cases writes : Writes (u.value timestamp) size
    · rw [update_later first writes]
      exact first
    · rw [update_same writes]
      exact first

/-- A call keeps the range if and only if it meets the condition. -/
theorem covers_update {u : MemoryUsage} (started : Started u) (covers : u.firstTime ≠ 0 → Covers u) (call : Update) :
    Covers (u.update call.1 call.2) ↔ InOrder u call := by
  by_cases first : u.firstTime = 0
  · rw [started first, update_empty]
    refine iff_of_true ⟨Finmap.mem_insert.mpr (.inl rfl), Finmap.mem_insert.mpr (.inl rfl), ?_⟩ ?_
    · intro other member
      rcases Finmap.mem_insert.mp member with rfl | member
      · exact ⟨UInt64.le_refl _, UInt64.le_refl _⟩
      · exact absurd member (Finmap.notMem_empty)
    · intro _
      exact UInt64.le_iff_toNat_le.mpr (Nat.zero_le _)
  · have before := covers first
    by_cases writes : Writes (u.value call.1) call.2
    · rw [update_later first writes]
      constructor
      · intro after _
        exact (after.within u.lastTime (Finmap.mem_insert.mpr (.inr before.last))).2
      · intro order
        have later := order writes
        refine ⟨Finmap.mem_insert.mpr (.inr before.first), Finmap.mem_insert.mpr (.inl rfl), ?_⟩
        intro other member
        rcases Finmap.mem_insert.mp member with rfl | member
        · exact ⟨UInt64.le_trans (before.within _ before.last).1 later, UInt64.le_refl _⟩
        · exact ⟨(before.within other member).1, UInt64.le_trans (before.within other member).2 later⟩
    · rw [update_same writes]
      exact iff_of_true before fun writes' => absurd writes' writes

theorem afterUpdates_started {updates : List Update} (positive : ∀ call ∈ updates, 0 < call.1) :
    Started (afterUpdates updates) := by
  induction updates using List.reverseRecOn with
  | nil => exact fun _ => rfl
  | append_singleton updates call ih =>
    have before := ih fun other member => positive other (List.mem_append_left _ member)
    intro none
    rw [afterUpdates_append] at none
    exact absurd none (started_update before (positive call (by simp)) call.2)

/-- After calls of `update` for positive seconds, the range covers what is recorded and its
    ends are recorded, all the way, if and only if every call that writes is for a second
    that is not before the last one. -/
theorem range_covers_iff (updates : List Update) (positive : ∀ call ∈ updates, 0 < call.1) :
    (∀ earlier, earlier <+: updates → earlier ≠ [] → Covers (afterUpdates earlier)) ↔
      ∀ earlier call, earlier ++ [call] <+: updates → InOrder (afterUpdates earlier) call := by
  refine always_iff (fun empty => absurd rfl empty) ?_
  intro earlier call within covers
  have started : Started (afterUpdates earlier) := afterUpdates_started fun other member =>
    positive other (within.subset (List.mem_append_left _ member))
  have before : (afterUpdates earlier).firstTime ≠ 0 → Covers (afterUpdates earlier) := by
    intro first
    apply covers
    rintro rfl
    exact first rfl
  rw [afterUpdates_append, ← covers_update started before call]
  simp

/-- Three calls, the last one for a second that is recorded with a larger size. -/
theorem range_covers_iff_ordered : Covers (afterUpdates [(3, 7), (5, 9), (3, 2)]) := by
  refine (range_covers_iff [(3, 7), (5, 9), (3, 2)] (by simp)).mpr ?_ _ (List.prefix_refl _) (by simp)
  have all : ([((3 : UInt64), (7 : UInt64)), (5, 9), (3, 2)].inits.all fun earlier =>
      earlier.getLast?.all fun call => InOrder (afterUpdates earlier.dropLast) call) = true := by decide +kernel
  intro earlier call within
  have last := List.all_eq_true.mp all (earlier ++ [call]) ((List.mem_inits _ _).mpr within)
  simpa using last

/-- A size for an earlier second comes late. -/
theorem late_second_uncovered :
    ¬ ∀ updates : List Update, (∀ call ∈ updates, 0 < call.1) → updates ≠ [] → Covers (afterUpdates updates) := by
  intro all
  have covers := all [(5, 1), (3, 1)] (by simp) (by simp)
  exact absurd (covers.within 5 (by decide +kernel)).2 (by decide +kernel)

end Aleakd.Usage
