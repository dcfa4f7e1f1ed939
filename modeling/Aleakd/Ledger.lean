import Mathlib.Data.Finmap
import Mathlib.Algebra.BigOperators.Group.Multiset.Basic

/-!
Ledgers: which blocks are held under which keys, posted to by entries that first
release a key and then add a block. An entry is valid when the key that it
releases is held, and the key that it adds is then free.
-/
namespace Aleakd.Ledger
universe u v w x
variable {Key : Type u} {Block : Type v} {Amount : Type w}

/-- One change: a key that is given up, then a block under a key. -/
structure Entry (Key : Type u) (Block : Type v) where
  releases : Option Key
  adds : Option (Key × Block)

section
variable [DecidableEq Key]

def release (ledger : Finmap fun _ : Key => Block) : Option Key → Finmap fun _ : Key => Block
  | some key => Finmap.erase key ledger
  | none => ledger

def add (ledger : Finmap fun _ : Key => Block) : Option (Key × Block) → Finmap fun _ : Key => Block
  | some (key, block) => Finmap.insert key block ledger
  | none => ledger

def post (ledger : Finmap fun _ : Key => Block) (e : Entry Key Block) : Finmap fun _ : Key => Block :=
  add (release ledger e.releases) e.adds

/-- The entry releases what is held and adds where nothing is held. -/
def Valid (ledger : Finmap fun _ : Key => Block) (e : Entry Key Block) : Prop :=
  (∀ key ∈ e.releases, key ∈ ledger) ∧ ∀ added ∈ e.adds, added.1 ∉ release ledger e.releases

instance Valid.decidable (ledger : Finmap fun _ : Key => Block) (e : Entry Key Block) : Decidable (Valid ledger e) :=
  inferInstanceAs (Decidable
    ((∀ key ∈ e.releases, key ∈ ledger) ∧ ∀ added ∈ e.adds, added.1 ∉ release ledger e.releases))

theorem lookup_add (ledger : Finmap fun _ : Key => Block) (added : Option (Key × Block)) (key : Key) :
    Finmap.lookup key (add ledger added) =
      match added with
      | some (key', block) => if key' = key then some block else Finmap.lookup key ledger
      | none => Finmap.lookup key ledger := by
  cases added with
  | none => rfl
  | some pair =>
    obtain ⟨key', block⟩ := pair
    by_cases same : key' = key
    · subst same
      simp [add]
    · have other : key ≠ key' := fun equal => same equal.symm
      simp [add, Finmap.lookup_insert_of_ne _ other, same]

theorem insert_erase {ledger : Finmap fun _ : Key => Block} {key : Key} {block : Block}
    (held : Finmap.lookup key ledger = some block) : Finmap.insert key block (Finmap.erase key ledger) = ledger := by
  apply Finmap.ext_lookup
  intro other
  by_cases same : other = key
  · subst same
    rw [Finmap.lookup_insert, held]
  · rw [Finmap.lookup_insert_of_ne _ same, Finmap.lookup_erase_ne same]

end

/-! ## Totals -/

/-- The blocks of a ledger with their keys. -/
def blocks (ledger : Finmap fun _ : Key => Block) : Multiset (Key × Block) :=
  ledger.entries.map fun entry => (entry.1, entry.2)

/-- The sum of an amount over the blocks. -/
def total [AddCommMonoid Amount] (amount : Block → Amount) (ledger : Finmap fun _ : Key => Block) : Amount :=
  ((blocks ledger).map fun held => amount held.2).sum

theorem blocks_nodup (ledger : Finmap fun _ : Key => Block) : (blocks ledger).Nodup := by
  apply Multiset.Nodup.map _ ledger.nodup_entries
  rintro ⟨key, block⟩ ⟨key', block'⟩ same
  cases same
  rfl

theorem total_hom {Amount' : Type x} [AddCommMonoid Amount] [AddCommMonoid Amount'] (f : Amount →+ Amount')
    (amount : Block → Amount) (ledger : Finmap fun _ : Key => Block) :
    f (total amount ledger) = total (fun block => f (amount block)) ledger := by
  rw [total, map_multiset_sum, Multiset.map_map]
  rfl

variable [DecidableEq Key]

theorem blocks_insert {ledger : Finmap fun _ : Key => Block} {key : Key} (block : Block) (free : key ∉ ledger) :
    blocks (Finmap.insert key block ledger) = (key, block) ::ₘ blocks ledger := by
  rw [blocks, Finmap.entries_insert_of_notMem free, Multiset.map_cons, blocks]

theorem blocks_erase {ledger : Finmap fun _ : Key => Block} {key : Key} {block : Block}
    (held : Finmap.lookup key ledger = some block) :
    blocks ledger = (key, block) ::ₘ blocks (Finmap.erase key ledger) := by
  have absent : key ∉ Finmap.erase key ledger := Finmap.notMem_erase_self
  rw [← blocks_insert block absent, insert_erase held]

theorem mem_blocks {ledger : Finmap fun _ : Key => Block} {key : Key} {block : Block} :
    (key, block) ∈ blocks ledger ↔ Finmap.lookup key ledger = some block := by
  by_cases member : key ∈ ledger
  · obtain ⟨held, found⟩ := Finmap.mem_iff.mp member
    rw [blocks_erase found, found, Multiset.mem_cons, Option.some.injEq]
    constructor
    · rintro (same | elsewhere)
      · exact (Prod.mk.inj same).2.symm
      · exfalso
        obtain ⟨entry, inside, same⟩ := Multiset.mem_map.mp elsewhere
        have gone : key ∈ Finmap.erase key ledger := by
          rw [Finmap.mem_def, Multiset.keys, Multiset.mem_map]
          exact ⟨entry, inside, (Prod.mk.inj same).1⟩
        exact Finmap.notMem_erase_self gone
    · rintro rfl
      exact .inl rfl
  · rw [Finmap.lookup_eq_none.mpr member]
    constructor
    · intro inside
      obtain ⟨entry, inside, same⟩ := Multiset.mem_map.mp inside
      refine absurd ?_ member
      rw [Finmap.mem_def, Multiset.keys, Multiset.mem_map]
      exact ⟨entry, inside, (Prod.mk.inj same).1⟩
    · intro none
      cases none

theorem total_insert [AddCommMonoid Amount] (amount : Block → Amount) {ledger : Finmap fun _ : Key => Block}
    {key : Key} (block : Block) (free : key ∉ ledger) :
    total amount (Finmap.insert key block ledger) = amount block + total amount ledger := by
  rw [total, blocks_insert block free, Multiset.map_cons, Multiset.sum_cons, total]

theorem total_erase [AddCommMonoid Amount] (amount : Block → Amount) {ledger : Finmap fun _ : Key => Block} {key : Key}
    {block : Block} (held : Finmap.lookup key ledger = some block) :
    total amount ledger = amount block + total amount (Finmap.erase key ledger) := by
  rw [total, blocks_erase held, Multiset.map_cons, Multiset.sum_cons, total]

end Aleakd.Ledger
