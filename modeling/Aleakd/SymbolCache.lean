import Aleakd.Symbols
import Mathlib.Data.Finset.Card

/-!
The cache of `backtrace_check_addr` over a sequence of calls. One scan looks for the address
and for the entry that is used least; an empty entry is told from the others by its count
alone. Up to the number of entries, it lets through the first call for each address.
-/
namespace Aleakd.SymbolCache
open Aleakd.Symbols

/-- `BACKTRACE_ADDR_CACHE_COUNT`. -/
def backtraceAddrCacheCount : Nat := 32768

/-- The cache after calls of `backtrace_check_addr`. -/
def cacheAfter (cacheCount : Nat) (calls : List UInt64) : List CachedAddr :=
  calls.foldl (fun cache addr => (backtraceCheckAddr cache addr).1) (backtraceInit cacheCount)

/-- What a further call returns. -/
def returns (cacheCount : Nat) (calls : List UInt64) (addr : UInt64) : Bool :=
  (backtraceCheckAddr (cacheAfter cacheCount calls) addr).2

/-- No two entries have the same address, unless they are empty. -/
def Distinct (cache : List CachedAddr) : Prop :=
  ∀ (i j : Nat) (a b : CachedAddr), cache[i]? = some a → cache[j]? = some b → a.addr ≠ 0 → a.addr = b.addr → i = j

def Stored (cache : List CachedAddr) (addr : UInt64) : Prop := ∃ entry ∈ cache, entry.addr = addr

/-- The call takes an entry from its address. -/
structure Evicts (cache : List CachedAddr) (addr : UInt64) (slot : Nat) (old : CachedAddr) : Prop where
  there : cache[slot]? = some old
  occupied : old.addr ≠ 0
  taken : ∀ new, (backtraceCheckAddr cache addr).1[slot]? = some new → new.addr ≠ old.addr

/-- What the cache is for: of the calls for an address only those are let through that do
    not find it, and an address is only lost when there is no room for all. -/
structure SuppressesRepeats (cacheCount : Nat) (calls : List UInt64) : Prop where
  distinct : ∀ earlier later, calls = earlier ++ later → Distinct (cacheAfter cacheCount earlier)
  counted : ∀ earlier later, calls = earlier ++ later → ∀ entry ∈ cacheAfter cacheCount earlier,
    entry.addr ≠ 0 → 1 ≤ entry.count.toInt
  stored : ∀ earlier addr later, calls = earlier ++ addr :: later →
    Stored (cacheAfter cacheCount (earlier ++ [addr])) addr
  repeated : ∀ earlier addr later, calls = earlier ++ addr :: later → returns cacheCount earlier addr = true →
    ∃ before between, earlier = before ++ addr :: between ∧ returns cacheCount before addr = false ∧
      ∀ middle other after, between = middle ++ other :: after → ∀ slot old,
        Evicts (cacheAfter cacheCount (before ++ addr :: middle)) other slot old → old.addr ≠ addr
  evicts : ∀ earlier addr later, calls = earlier ++ addr :: later → ∀ slot old,
    Evicts (cacheAfter cacheCount earlier) addr slot old →
      (∀ entry ∈ cacheAfter cacheCount earlier, entry.addr ≠ 0) ∧
        ∀ entry ∈ cacheAfter cacheCount earlier, old.count ≤ entry.count
  first : calls.toFinset.card ≤ cacheCount → ∀ earlier addr later, calls = earlier ++ addr :: later →
    (returns cacheCount earlier addr = false ↔ addr ∉ earlier)

/-! ## One scan -/

/-- The scan finds the address, or ends with the smallest count that is below `valMin`. -/
theorem scan_cases (addr : UInt64) (cache : List CachedAddr) (start posMin : Nat) (valMin : Int32) :
    (∃ i old, scan addr cache start posMin valMin = .found (start + i) ∧ cache[i]? = some old ∧ old.addr = addr) ∨
      (∀ entry ∈ cache, entry.addr ≠ addr) ∧
        ((scan addr cache start posMin valMin = .full posMin ∧ ∀ entry ∈ cache, valMin ≤ entry.count) ∨
          ∃ i old, scan addr cache start posMin valMin = .full (start + i) ∧ cache[i]? = some old ∧
            old.count < valMin ∧ ∀ entry ∈ cache, old.count ≤ entry.count) := by
  induction cache generalizing start posMin valMin with
  | nil =>
    refine .inr ⟨fun _ member => ?_, .inl ⟨rfl, fun _ member => ?_⟩⟩
    · cases member
    · cases member
  | cons entry rest ih =>
    have next : ∀ i, start + 1 + i = start + (i + 1) := fun i => by omega
    rw [scan]
    by_cases here : entry.addr = addr
    · rw [if_pos here]
      exact .inl ⟨0, entry, rfl, rfl, here⟩
    rw [if_neg here]
    by_cases less : entry.count < valMin
    · rw [if_pos less]
      rcases ih (start + 1) start entry.count with ⟨i, old, found, there, same⟩ | ⟨absent, least⟩
      · exact .inl ⟨i + 1, old, by rw [found, next], there, same⟩
      refine .inr ⟨List.forall_mem_cons.mpr ⟨here, absent⟩, .inr ?_⟩
      rcases least with ⟨full, least⟩ | ⟨i, old, full, there, below, least⟩
      · exact ⟨0, entry, full, rfl, less, List.forall_mem_cons.mpr ⟨Int32.le_refl _, least⟩⟩
      · exact ⟨i + 1, old, by rw [full, next], there, Int32.lt_trans below less,
          List.forall_mem_cons.mpr ⟨Int32.le_of_lt below, least⟩⟩
    · rw [if_neg less]
      have above : valMin ≤ entry.count := Int32.not_lt.mp less
      rcases ih (start + 1) posMin valMin with ⟨i, old, found, there, same⟩ | ⟨absent, least⟩
      · exact .inl ⟨i + 1, old, by rw [found, next], there, same⟩
      refine .inr ⟨List.forall_mem_cons.mpr ⟨here, absent⟩, ?_⟩
      rcases least with ⟨full, least⟩ | ⟨i, old, full, there, below, least⟩
      · exact .inl ⟨full, List.forall_mem_cons.mpr ⟨above, least⟩⟩
      · exact .inr ⟨i + 1, old, by rw [full, next], there, below,
          List.forall_mem_cons.mpr ⟨Int32.le_of_lt (Int32.lt_of_lt_of_le below above), least⟩⟩

/-- What a call does: the address is found and counted, or it takes the entry that is used
    least. -/
inductive Checked (cache : List CachedAddr) (addr : UInt64) : List CachedAddr × Bool → Prop where
  | hit {slot : Nat} {old : CachedAddr} (there : cache[slot]? = some old) (same : old.addr = addr) :
      Checked cache addr (cache.set slot ⟨addr, old.count + 1⟩, true)
  | miss {slot : Nat} {old : CachedAddr} (absent : ∀ entry ∈ cache, entry.addr ≠ addr)
      (there : cache[slot]? = some old) (least : ∀ entry ∈ cache, old.count ≤ entry.count) :
      Checked cache addr (cache.set slot ⟨addr, 1⟩, false)

theorem check_cases {cache : List CachedAddr} (addr : UInt64) (some_ : cache ≠ [])
    (room : ∀ entry ∈ cache, entry.count < Int32.maxValue) :
    Checked cache addr (backtraceCheckAddr cache addr) := by
  rw [backtraceCheckAddr]
  rcases scan_cases addr cache 0 0 Int32.maxValue with ⟨i, old, found, there, same⟩ | ⟨absent, least⟩
  · have modified : cache.modify i (fun entry => { entry with count := entry.count + 1 }) =
        cache.set i ⟨addr, old.count + 1⟩ := by
      refine List.ext_getElem? fun j => ?_
      rw [List.getElem?_modify, List.getElem?_set]
      by_cases here : i = j
      · subst here
        rw [if_pos rfl, if_pos (List.getElem?_eq_some_iff.mp there).1, there, ← same]
        simp
      · rw [if_neg here]
        simp [here]
    rw [found, Nat.zero_add]
    simp only [modified]
    exact .hit there same
  · rcases least with ⟨_, least⟩ | ⟨i, old, full, there, _, least⟩
    · obtain ⟨entry, member⟩ := List.exists_mem_of_ne_nil cache some_
      exact absurd (room entry member) (Int32.not_lt.mpr (least entry member))
    · rw [full, Nat.zero_add]
      exact .miss absent there least

/-! ## The representation -/

/-- What holds of the cache after calls for non-null addresses. -/
structure Inv (cacheCount : Nat) (calls : List UInt64) (cache : List CachedAddr) : Prop where
  size : cache.length = cacheCount
  distinct : Distinct cache
  -- the scan takes an entry for empty by its count alone
  empty : ∀ entry ∈ cache, entry.addr = 0 → entry.count.toInt = 0
  counted : ∀ entry ∈ cache, entry.addr ≠ 0 → 1 ≤ entry.count.toInt
  bounded : ∀ entry ∈ cache, entry.count.toInt ≤ calls.length
  called : ∀ entry ∈ cache, entry.addr ≠ 0 → entry.addr ∈ calls

theorem set_cases {cache : List CachedAddr} {slot j : Nat} {new entry : CachedAddr}
    (there : (cache.set slot new)[j]? = some entry) : (j = slot ∧ entry = new) ∨ (j ≠ slot ∧ cache[j]? = some entry) := by
  rw [List.getElem?_set] at there
  split at there
  · next here =>
    split at there
    · cases there
      exact .inl ⟨here.symm, rfl⟩
    · cases there
  · next other => exact .inr ⟨fun same => other same.symm, there⟩

/-- An entry is given to the address of the call, which no other entry has. -/
theorem set_inv {cacheCount : Nat} {calls : List UInt64} {cache : List CachedAddr} {addr : UInt64} {slot : Nat}
    {count : Int32} (inv : Inv cacheCount calls cache) (nonNull : addr ≠ 0)
    (alone : ∀ (j : Nat) (entry : CachedAddr), cache[j]? = some entry → entry.addr = addr → j = slot)
    (positive : 1 ≤ count.toInt) (atMost : count.toInt ≤ calls.length + 1) :
    Inv cacheCount (calls ++ [addr]) (cache.set slot ⟨addr, count⟩) := by
  have from_ : ∀ entry ∈ cache.set slot ⟨addr, count⟩, entry = ⟨addr, count⟩ ∨ entry ∈ cache :=
    fun entry member => (List.mem_or_eq_of_mem_set member).symm
  have length : ((calls ++ [addr]).length : Int) = calls.length + 1 := by simp
  refine ⟨by rw [List.length_set]; exact inv.size, ?_, ?_, ?_, ?_, ?_⟩
  · intro i j a b hasA hasB occupied same
    rcases set_cases hasA with ⟨rfl, rfl⟩ | ⟨otherA, oldA⟩
    · rcases set_cases hasB with ⟨rfl, _⟩ | ⟨otherB, oldB⟩
      · rfl
      · exact absurd (alone j b oldB same.symm) otherB
    · rcases set_cases hasB with ⟨rfl, rfl⟩ | ⟨_, oldB⟩
      · exact absurd (alone i a oldA same) otherA
      · exact inv.distinct i j a b oldA oldB occupied same
  · intro entry member null
    rcases from_ entry member with rfl | old
    · exact absurd null nonNull
    · exact inv.empty entry old null
  · intro entry member occupied
    rcases from_ entry member with rfl | old
    · exact positive
    · exact inv.counted entry old occupied
  · intro entry member
    rw [length]
    rcases from_ entry member with rfl | old
    · exact atMost
    · have before := inv.bounded entry old
      omega
  · intro entry member occupied
    rcases from_ entry member with rfl | old
    · simp
    · exact List.mem_append_left _ (inv.called entry old occupied)

theorem init_inv (cacheCount : Nat) : Inv cacheCount [] (backtraceInit cacheCount) := by
  have null : ∀ entry ∈ backtraceInit cacheCount, entry = ⟨0, 0⟩ := fun _ member => (List.mem_replicate.mp member).2
  refine ⟨List.length_replicate, ?_, ?_, ?_, ?_, ?_⟩
  · intro i j a b hasA hasB occupied same
    rw [null a (List.mem_of_getElem? hasA)] at occupied
    exact absurd rfl occupied
  · intro entry member _
    rw [null entry member]
    rfl
  · intro entry member occupied
    rw [null entry member] at occupied
    exact absurd rfl occupied
  · intro entry member
    rw [null entry member]
    exact Int.le_refl 0
  · intro entry member occupied
    rw [null entry member] at occupied
    exact absurd rfl occupied

section Call
variable {cacheCount : Nat} {calls : List UInt64} {cache : List CachedAddr} {addr : UInt64}

/-- With so few calls before it, the scan finds an entry that is used least. -/
theorem inv_checked (inv : Inv cacheCount calls cache) (some_ : 0 < cacheCount) (few : calls.length + 1 < 2 ^ 31)
    (addr : UInt64) : Checked cache addr (backtraceCheckAddr cache addr) := by
  refine check_cases addr (List.ne_nil_of_length_pos (by rw [inv.size]; exact some_)) fun entry member => ?_
  have bounded := inv.bounded entry member
  have most : Int32.maxValue.toInt = 2 ^ 31 - 1 := by decide
  rw [Int32.lt_iff_toInt_lt, most]
  omega

theorem checked_inv {result : List CachedAddr × Bool} (inv : Inv cacheCount calls cache)
    (few : calls.length + 1 < 2 ^ 31) (nonNull : addr ≠ 0) (checked : Checked cache addr result) :
    Inv cacheCount (calls ++ [addr]) result.1 := by
  cases checked with
  | @hit slot old there same =>
    have member := List.mem_of_getElem? there
    have counted := inv.counted old member (by rw [same]; exact nonNull)
    have bounded := inv.bounded old member
    have next : (old.count + 1).toInt = old.count.toInt + 1 := by
      rw [Int32.toInt_add, Int32.toInt_one]
      exact Int.bmod_eq_of_le (by omega) (by omega)
    refine set_inv inv nonNull (fun j entry other same' => ?_) (by omega) (by omega)
    exact (inv.distinct slot j old entry there other (by rw [same]; exact nonNull) (by rw [same, same'])).symm
  | @miss slot old absent there least =>
    have one : (1 : Int32).toInt = 1 := Int32.toInt_one
    refine set_inv inv nonNull (fun j entry other same => ?_) (by omega) (by omega)
    exact absurd same (absent entry (List.mem_of_getElem? other))

/-- The address of the call is stored after it. -/
theorem checked_stored {result : List CachedAddr × Bool} (checked : Checked cache addr result) :
    Stored result.1 addr := by
  have set : ∀ {slot : Nat} {old : CachedAddr} (count : Int32), cache[slot]? = some old →
      Stored (cache.set slot ⟨addr, count⟩) addr := by
    intro slot old count there
    have within := (List.getElem?_eq_some_iff.mp there).1
    exact ⟨_, List.mem_set within _, rfl⟩
  cases checked with
  | hit there same => exact set _ there
  | miss absent there least => exact set _ there

/-- Only the entry that is set can change its address. -/
theorem set_taken {slot slot' : Nat} {old new : CachedAddr} (there : cache[slot]? = some old)
    (taken : ∀ entry, (cache.set slot' new)[slot]? = some entry → entry.addr ≠ old.addr) :
    slot' = slot ∧ new.addr ≠ old.addr := by
  by_cases here : slot' = slot
  · subst here
    exact ⟨rfl, taken new (List.getElem?_set_self (List.getElem?_eq_some_iff.mp there).1)⟩
  · exact absurd rfl (taken old (by rw [List.getElem?_set_ne here]; exact there))

/-- An entry is only taken from its address for one that is not stored, and when no count is
    smaller. -/
theorem evicts_least {slot : Nat} {old : CachedAddr} (checked : Checked cache addr (backtraceCheckAddr cache addr))
    (evicts : Evicts cache addr slot old) : ∀ entry ∈ cache, entry.addr ≠ addr ∧ old.count ≤ entry.count := by
  obtain ⟨there, _, taken⟩ := evicts
  generalize backtraceCheckAddr cache addr = result at checked taken
  cases checked with
  | hit there' same =>
    obtain ⟨rfl, other⟩ := set_taken there taken
    rw [there] at there'
    cases there'
    exact absurd same.symm other
  | miss absent there' least =>
    obtain ⟨rfl, _⟩ := set_taken there taken
    rw [there] at there'
    cases there'
    exact fun entry member => ⟨absent entry member, least entry member⟩

/-- An address that is still stored after a call is none that the call has lost. -/
theorem evicts_other {slot : Nat} {old : CachedAddr} {kept : UInt64} (inv : Inv cacheCount calls cache)
    (checked : Checked cache addr (backtraceCheckAddr cache addr)) (stored : Stored (backtraceCheckAddr cache addr).1 kept)
    (evicts : Evicts cache addr slot old) : old.addr ≠ kept := by
  obtain ⟨there, occupied, taken⟩ := evicts
  obtain ⟨entry, member, rfl⟩ := stored
  obtain ⟨j, has⟩ := List.mem_iff_getElem?.mp member
  intro same
  have elsewhere : j ≠ slot := by
    rintro rfl
    exact taken entry has same.symm
  generalize backtraceCheckAddr cache addr = result at checked has
  cases checked with
  | @hit slot' old' there' same' =>
    rcases set_cases has with ⟨rfl, rfl⟩ | ⟨_, has⟩
    · exact elsewhere (inv.distinct slot j old old' there there' occupied (by rw [same, same'])).symm
    · exact elsewhere (inv.distinct slot j old entry there has occupied same).symm
  | @miss slot' old' absent there' least =>
    rcases set_cases has with ⟨rfl, rfl⟩ | ⟨_, has⟩
    · exact absent old (List.mem_of_getElem? there) same
    · exact elsewhere (inv.distinct slot j old entry there has occupied same).symm

/-- An entry is only taken from its address when no entry is empty. -/
theorem evicts_full {slot : Nat} {old : CachedAddr} (inv : Inv cacheCount calls cache)
    (checked : Checked cache addr (backtraceCheckAddr cache addr)) (evicts : Evicts cache addr slot old) :
    ∀ entry ∈ cache, entry.addr ≠ 0 := by
  intro entry member null
  have least := Int32.le_iff_toInt_le.mp (evicts_least checked evicts entry member).2
  have used := inv.counted old (List.mem_of_getElem? evicts.there) evicts.occupied
  rw [inv.empty entry member null] at least
  omega

/-- An address that was stored and is not any more has lost its entry. -/
theorem exists_evicts {lost : UInt64} (nonNull : lost ≠ 0) (before : Stored cache lost)
    (after : ¬ Stored (backtraceCheckAddr cache addr).1 lost) : ∃ slot old, Evicts cache addr slot old := by
  obtain ⟨old, member, rfl⟩ := before
  obtain ⟨slot, there⟩ := List.mem_iff_getElem?.mp member
  refine ⟨slot, old, there, nonNull, fun new now same => after ⟨new, List.mem_of_getElem? now, same⟩⟩

/-- A cache without an empty entry has seen as many addresses as it has entries. -/
theorem inv_full (inv : Inv cacheCount calls cache) (occupied : ∀ entry ∈ cache, entry.addr ≠ 0) :
    cacheCount ≤ calls.toFinset.card := by
  have distinct : (cache.map CachedAddr.addr).Nodup := by
    rw [List.nodup_iff_getElem?_ne_getElem?]
    intro i j before within
    rw [List.length_map] at within
    rw [List.getElem?_map, List.getElem?_map, List.getElem?_eq_getElem within,
      List.getElem?_eq_getElem (lt_trans before within)]
    intro same
    have equal := inv.distinct i j _ _ (List.getElem?_eq_getElem (lt_trans before within))
      (List.getElem?_eq_getElem within) (occupied _ (List.getElem_mem _)) (Option.some.inj same)
    omega
  have called : (cache.map CachedAddr.addr).toFinset ⊆ calls.toFinset := by
    intro addr member
    rw [List.mem_toFinset, List.mem_map] at member
    obtain ⟨entry, member, rfl⟩ := member
    exact List.mem_toFinset.mpr (inv.called entry member (occupied entry member))
  calc cacheCount = (cache.map CachedAddr.addr).length := by rw [List.length_map, inv.size]
    _ = (cache.map CachedAddr.addr).toFinset.card := (List.toFinset_card_of_nodup distinct).symm
    _ ≤ calls.toFinset.card := Finset.card_le_card called

end Call

/-! ## Sequences of calls -/

section Run
variable {cacheCount : Nat} {calls : List UInt64}

theorem cacheAfter_append (cacheCount : Nat) (calls : List UInt64) (addr : UInt64) :
    cacheAfter cacheCount (calls ++ [addr]) = (backtraceCheckAddr (cacheAfter cacheCount calls) addr).1 := by
  rw [cacheAfter, List.foldl_append]
  rfl

theorem run_inv (some_ : 0 < cacheCount) (few : calls.length < 2 ^ 31) (nonNull : 0 ∉ calls) :
    Inv cacheCount calls (cacheAfter cacheCount calls) := by
  induction calls using List.reverseRecOn with
  | nil => exact init_inv cacheCount
  | append_singleton calls addr ih =>
    rw [List.length_append, List.length_singleton] at few
    have before := ih (by omega) fun null => nonNull (List.mem_append_left _ null)
    rw [cacheAfter_append]
    exact checked_inv before few (fun null => nonNull (by simp [null])) (inv_checked before some_ few addr)

/-- What is stored was let through once, and its entry was not taken from it since. -/
theorem stored_origin (some_ : 0 < cacheCount) (few : calls.length < 2 ^ 31) (nonNull : 0 ∉ calls) {addr : UInt64}
    (stored : Stored (cacheAfter cacheCount calls) addr) (address : addr ≠ 0) :
    ∃ before between, calls = before ++ addr :: between ∧ returns cacheCount before addr = false ∧
      ∀ middle other after, between = middle ++ other :: after → ∀ slot old,
        Evicts (cacheAfter cacheCount (before ++ addr :: middle)) other slot old → old.addr ≠ addr := by
  induction calls using List.reverseRecOn with
  | nil =>
    obtain ⟨entry, member, rfl⟩ := stored
    exact absurd ((init_inv cacheCount).called entry member address) List.not_mem_nil
  | append_singleton calls last ih =>
    rw [List.length_append, List.length_singleton] at few
    have earlier : 0 ∉ calls := fun null => nonNull (List.mem_append_left _ null)
    have inv := run_inv some_ (by omega : calls.length < 2 ^ 31) earlier
    have checked := inv_checked inv some_ few last
    rw [cacheAfter_append] at stored
    obtain ⟨entry, member, same⟩ := id stored
    rcases (backtraceCheckAddr_spec _ last).2 entry member with ⟨old, was, same'⟩ | ⟨letThrough, here⟩
    · obtain ⟨before, between, split, first, since⟩ := ih (by omega) earlier ⟨old, was, same'.trans same⟩
      refine ⟨before, between ++ [last], by rw [split]; simp, first, fun middle other after cut slot old evicts => ?_⟩
      rcases List.eq_nil_or_concat after with rfl | ⟨after', x, rfl⟩
      · obtain ⟨rfl, same⟩ := List.append_inj' cut rfl
        cases same
        rw [← split] at evicts
        exact evicts_other inv checked stored evicts
      · rw [List.concat_eq_append, ← List.cons_append, ← List.append_assoc] at cut
        exact since middle other after' (List.append_inj' cut rfl).1 slot old evicts
    · have isLast : last = addr := here.symm.trans same
      subst isLast
      refine ⟨calls, [], rfl, letThrough, fun middle other after cut => ?_⟩
      exact absurd cut.symm (by simp)

/-- While there is room for all of them, every address of a call stays stored. -/
theorem all_stored (some_ : 0 < cacheCount) (few : calls.length < 2 ^ 31) (nonNull : 0 ∉ calls)
    (room : calls.toFinset.card ≤ cacheCount) : ∀ addr ∈ calls, Stored (cacheAfter cacheCount calls) addr := by
  induction calls using List.reverseRecOn with
  | nil =>
    intro addr member
    cases member
  | append_singleton calls last ih =>
    rw [List.length_append, List.length_singleton] at few
    have earlier : 0 ∉ calls := fun null => nonNull (List.mem_append_left _ null)
    have inv := run_inv some_ (by omega : calls.length < 2 ^ 31) earlier
    have checked := inv_checked inv some_ few last
    have fewer : calls.toFinset ⊆ (calls ++ [last]).toFinset := by
      rw [List.toFinset_append]
      exact Finset.subset_union_left
    have before := ih (by omega) earlier (le_trans (Finset.card_le_card fewer) room)
    intro addr member
    rw [cacheAfter_append]
    rcases List.mem_append.mp member with old | new
    · by_contra lost
      obtain ⟨slot, taken, evicts⟩ := exists_evicts (fun null => earlier (null ▸ old)) (before addr old) lost
      -- every entry is in use and the call is for one address more
      have full := inv_full inv (evicts_full inv checked evicts)
      have unknown : last ∉ calls := by
        intro known
        obtain ⟨entry, has, same⟩ := before last known
        exact (evicts_least checked evicts entry has).1 same
      have more : (calls ++ [last]).toFinset.card = calls.toFinset.card + 1 := by
        rw [List.toFinset_append, Finset.union_comm]
        exact Finset.card_insert_of_notMem fun known => unknown (List.mem_toFinset.mp known)
      omega
    · rw [List.mem_singleton.mp new]
      exact checked_stored checked

/-- While there is room, a call finds its address exactly when it is not the first for it. -/
theorem found_iff (some_ : 0 < cacheCount) {addr : UInt64} (few : calls.length + 1 < 2 ^ 31) (nonNull : 0 ∉ calls)
    (address : addr ≠ 0) (room : calls.toFinset.card ≤ cacheCount) :
    returns cacheCount calls addr = true ↔ addr ∈ calls := by
  have inv := run_inv some_ (by omega) nonNull
  constructor
  · intro repeated
    obtain ⟨entry, member, rfl⟩ := (backtraceCheckAddr_spec _ addr).1 repeated
    exact inv.called entry member address
  · intro known
    obtain ⟨entry, member, same⟩ := all_stored some_ (by omega) nonNull room addr known
    have checked := inv_checked inv some_ few addr
    rw [returns]
    generalize backtraceCheckAddr _ addr = result at checked
    cases checked with
    | hit there same => rfl
    | miss absent there least => exact absurd same (absent entry member)

theorem suppressesRepeats_of_pos (some_ : 0 < cacheCount) (few : calls.length < 2 ^ 31) (nonNull : 0 ∉ calls) :
    SuppressesRepeats cacheCount calls := by
  have start : ∀ earlier later, calls = earlier ++ later → earlier.length < 2 ^ 31 ∧ 0 ∉ earlier := by
    rintro earlier later rfl
    rw [List.length_append] at few
    exact ⟨by omega, fun null => nonNull (List.mem_append_left _ null)⟩
  have next : ∀ earlier addr later, calls = earlier ++ addr :: later → earlier.length + 1 < 2 ^ 31 ∧ addr ≠ 0 := by
    rintro earlier addr later rfl
    rw [List.length_append, List.length_cons] at few
    exact ⟨by omega, fun null => nonNull (by simp [null])⟩
  have inv : ∀ earlier later, calls = earlier ++ later → Inv cacheCount earlier (cacheAfter cacheCount earlier) :=
    fun earlier later split => run_inv some_ (start earlier later split).1 (start earlier later split).2
  have checked : ∀ earlier addr later, calls = earlier ++ addr :: later →
      Checked (cacheAfter cacheCount earlier) addr (backtraceCheckAddr (cacheAfter cacheCount earlier) addr) :=
    fun earlier addr later split => inv_checked (inv earlier _ split) some_ (next earlier addr later split).1 addr
  refine ⟨fun earlier later split => (inv earlier later split).distinct,
    fun earlier later split => (inv earlier later split).counted, ?_, ?_, ?_, ?_⟩
  · intro earlier addr later split
    rw [cacheAfter_append]
    exact checked_stored (checked earlier addr later split)
  · intro earlier addr later split repeated
    obtain ⟨few', nonNull'⟩ := start earlier _ split
    exact stored_origin some_ few' nonNull' ((backtraceCheckAddr_spec _ addr).1 repeated) (next earlier addr later split).2
  · intro earlier addr later split slot old evicts
    have once := checked earlier addr later split
    exact ⟨evicts_full (inv earlier _ split) once evicts, fun entry member => (evicts_least once evicts entry member).2⟩
  · intro room earlier addr later split
    obtain ⟨few', address⟩ := next earlier addr later split
    have fewer : earlier.toFinset ⊆ calls.toFinset := by
      rw [split, List.toFinset_append]
      exact Finset.subset_union_left
    have found := found_iff some_ few' (start earlier _ split).2 address (le_trans (Finset.card_le_card fewer) room)
    rw [← found, Bool.not_eq_true]

end Run

/-- The cache that the library is built with. -/
theorem suppresses_repeats {calls : List UInt64} (few : calls.length < 2 ^ 31) (nonNull : 0 ∉ calls) :
    SuppressesRepeats backtraceAddrCacheCount calls :=
  suppressesRepeats_of_pos (by decide) few nonNull

theorem suppresses_repeats_twice : SuppressesRepeats backtraceAddrCacheCount [1, 2, 1] :=
  suppresses_repeats (by decide) (by decide)

end Aleakd.SymbolCache
