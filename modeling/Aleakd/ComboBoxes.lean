import Mathlib.Data.List.Basic

/-!
An editable combo box whose items carry data, as Qt has it, and what becomes of it where
pairs of data and text are offered to it one after the other: the text of an item that has
the data is set, and other data gets an item of its own.
-/
namespace Aleakd.ComboBoxes
universe u
variable {Data : Type u}

structure Item (Data : Type u) where
  text : List Char
  data : Option Data

/-- `QComboBox`; there is no current item where the index is -1. -/
structure QComboBox (Data : Type u) where
  items : List (Item Data)
  currentIndex : Option Nat
  currentText : List Char

/-- An item that comes into an empty box becomes the current one. -/
def QComboBox.addItem (box : QComboBox Data) (text : List Char) (data : Option Data) : QComboBox Data :=
  if box.items = [] ∧ box.currentIndex = none then ⟨[⟨text, data⟩], some 0, text⟩
  else { box with items := box.items ++ [⟨text, data⟩] }

/-- The edit field follows the text of the current item. -/
def QComboBox.setItemText (box : QComboBox Data) (i : Nat) (text : List Char) : QComboBox Data :=
  match box.items[i]? with
  | some item =>
    if item.text = text then box
    else
      { box with
        items := box.items.modify i fun item => { item with text }
        currentText := if box.currentIndex = some i then text else box.currentText }
  | none => box

def QComboBox.clear (box : QComboBox Data) : QComboBox Data := if box.items = [] then box else ⟨[], none, []⟩

/-- `setCurrentIndex(-1)`, then `setEditText`. -/
def QComboBox.edit (box : QComboBox Data) (text : List Char) : QComboBox Data :=
  { box with currentIndex := none, currentText := text }

section
variable [DecidableEq Data]

def QComboBox.findData (box : QComboBox Data) (data : Data) : Option Nat :=
  box.items.findIdx? fun item => item.data = some data

def QComboBox.offer (box : QComboBox Data) (data : Data) (text : List Char) : QComboBox Data :=
  match box.findData data with
  | none => box.addItem text (some data)
  | some i => box.setItemText i text

def QComboBox.offerAll (box : QComboBox Data) (pairs : List (Data × List Char)) : QComboBox Data :=
  pairs.foldl (fun box (data, text) => box.offer data text) box

/-! ## One pair -/

/-- What the items carry, in order. -/
def QComboBox.listData (box : QComboBox Data) : List (Option Data) := box.items.map Item.data

theorem findData_some {box : QComboBox Data} {data : Data} {i : Nat} (found : box.findData data = some i) :
    ∃ item, box.items[i]? = some item ∧ item.data = some data := by
  obtain ⟨inside, carries, _⟩ := List.findIdx?_eq_some_iff_getElem.mp found
  exact ⟨box.items[i], List.getElem?_eq_getElem inside, by simpa using carries⟩

theorem findData_none {box : QComboBox Data} {data : Data} (none : box.findData data = none) :
    some data ∉ box.listData := by
  intro member
  obtain ⟨item, inside, carries⟩ := List.mem_map.mp member
  have differs := List.findIdx?_eq_none_iff.mp none item inside
  simp [carries] at differs

omit [DecidableEq Data] in
theorem addItem_items (box : QComboBox Data) (text : List Char) (data : Option Data) :
    (box.addItem text data).items = box.items ++ [⟨text, data⟩] := by
  rw [QComboBox.addItem]
  split
  · next empty => simp [empty.1]
  · rfl

omit [DecidableEq Data] in
theorem setItemText_items (box : QComboBox Data) (i : Nat) (text : List Char) :
    (box.setItemText i text).items = box.items.modify i fun item => { item with text } := by
  rw [QComboBox.setItemText]
  split
  · next item here =>
    split
    · next same =>
      refine (List.ext_getElem? fun j => ?_).symm
      rw [List.getElem?_modify]
      by_cases at' : i = j
      · subst at'
        simp [here, ← same]
      · simp [at']
    · rfl
  · next beyond => rw [List.modify_eq_self (List.getElem?_eq_none_iff.mp beyond)]

/-- An item keeps its data, and its text where the data is not what is offered. -/
theorem offer_kept (box : QComboBox Data) (data : Data) (text : List Char) {i : Nat} {item : Item Data}
    (here : box.items[i]? = some item) :
    ∃ later, (box.offer data text).items[i]? = some later ∧ later.data = item.data ∧
      (item.data ≠ some data → later = item) := by
  rw [QComboBox.offer]
  cases found : box.findData data with
  | none =>
    refine ⟨item, ?_, rfl, fun _ => rfl⟩
    obtain ⟨inside, _⟩ := List.getElem?_eq_some_iff.mp here
    rw [addItem_items, List.getElem?_append_left inside, here]
  | some j =>
    obtain ⟨changed, there, carries⟩ := findData_some found
    rw [setItemText_items, List.getElem?_modify, here]
    by_cases same : j = i
    · subst same
      rw [here] at there
      cases there
      exact ⟨{ item with text }, by simp, rfl, fun other => absurd carries other⟩
    · exact ⟨item, by simp [same], rfl, fun _ => rfl⟩

/-- What is offered has its item, with the text. -/
theorem offer_has (box : QComboBox Data) (data : Data) (text : List Char) :
    ∃ i : Nat, (box.offer data text).items[i]? = some (⟨text, some data⟩ : Item Data) := by
  rw [QComboBox.offer]
  cases found : box.findData data with
  | none => exact ⟨box.items.length, by simp [addItem_items]⟩
  | some i =>
    obtain ⟨item, here, carries⟩ := findData_some found
    exact ⟨i, by simp [setItemText_items, here, ← carries]⟩

theorem offer_data (box : QComboBox Data) (data : Data) (text : List Char) :
    (box.offer data text).listData = if some data ∈ box.listData then box.listData else box.listData ++ [some data] := by
  rw [QComboBox.offer]
  cases found : box.findData data with
  | none =>
    rw [if_neg (findData_none found)]
    simp [QComboBox.listData, addItem_items]
  | some i =>
    obtain ⟨item, here, carries⟩ := findData_some found
    have member : some data ∈ box.listData := List.mem_map.mpr ⟨item, List.mem_of_getElem? here, carries⟩
    rw [if_pos member]
    refine List.ext_getElem? fun j => ?_
    simp only [QComboBox.listData, setItemText_items, List.getElem?_map, List.getElem?_modify]
    by_cases same : i = j <;> cases box.items[j]? <;> simp [same]

/-- Where there are items, the current one stays the current one. -/
theorem offer_current {box : QComboBox Data} (some : box.items ≠ []) (data : Data) (text : List Char) :
    (box.offer data text).currentIndex = box.currentIndex ∧
      (box.currentIndex = none → (box.offer data text).currentText = box.currentText) := by
  rw [QComboBox.offer]
  cases found : box.findData data with
  | none => simp [QComboBox.addItem, some]
  | some i =>
    simp only [QComboBox.setItemText]
    split
    · split
      · exact ⟨rfl, fun _ => rfl⟩
      · exact ⟨rfl, fun none => by simp [none]⟩
    · exact ⟨rfl, fun _ => rfl⟩

/-! ## All pairs -/

theorem offerAll_append (box : QComboBox Data) (first second : List (Data × List Char)) :
    box.offerAll (first ++ second) = (box.offerAll first).offerAll second := List.foldl_append

theorem offerAll_kept (box : QComboBox Data) (pairs : List (Data × List Char)) {i : Nat} {item : Item Data}
    (here : box.items[i]? = some item) :
    ∃ later, (box.offerAll pairs).items[i]? = some later ∧ later.data = item.data ∧
      ((∀ pair ∈ pairs, item.data ≠ some pair.1) → later = item) := by
  induction pairs generalizing box item with
  | nil => exact ⟨item, here, rfl, fun _ => rfl⟩
  | cons pair rest ih =>
    obtain ⟨next, there, carries, kept⟩ := offer_kept box pair.1 pair.2 here
    obtain ⟨later, last, carries', kept'⟩ := ih (box.offer pair.1 pair.2) there
    refine ⟨later, last, carries'.trans carries, fun other => ?_⟩
    have same := kept (other pair List.mem_cons_self)
    subst same
    exact kept' fun pair member => other pair (List.mem_cons_of_mem _ member)

/-- What is offered last for some data is what its item says. -/
theorem offerAll_latest (box : QComboBox Data) (before later : List (Data × List Char)) (data : Data)
    (text : List Char) (last : ∀ pair ∈ later, pair.1 ≠ data) :
    ∃ i : Nat, (box.offerAll (before ++ (data, text) :: later)).items[i]? = some (⟨text, some data⟩ : Item Data) := by
  rw [offerAll_append]
  obtain ⟨i, here⟩ := offer_has (box.offerAll before) data text
  obtain ⟨item, there, _, kept⟩ := offerAll_kept ((box.offerAll before).offer data text) later here
  refine ⟨i, ?_⟩
  rw [← kept fun pair member same => last pair member (Option.some.inj same).symm]
  exact there

/-- Items are only added, one for each new data. -/
theorem offerAll_data (box : QComboBox Data) (pairs : List (Data × List Char)) :
    box.listData <+: (box.offerAll pairs).listData ∧
      (∀ data, data ∈ (box.offerAll pairs).listData ↔ data ∈ box.listData ∨ data ∈ pairs.map fun pair => some pair.1) ∧
      ((box.listData.filter Option.isSome).Nodup → ((box.offerAll pairs).listData.filter Option.isSome).Nodup) := by
  induction pairs generalizing box with
  | nil => simp [QComboBox.offerAll]
  | cons pair rest ih =>
    obtain ⟨first, members, apart⟩ := ih (box.offer pair.1 pair.2)
    rw [offer_data] at first members apart
    refine ⟨?_, ?_, ?_⟩
    · refine List.IsPrefix.trans ?_ first
      split
      · exact List.prefix_rfl
      · exact List.prefix_append _ _
    · intro data
      refine (members data).trans ?_
      split <;> grind
    · intro before
      refine apart ?_
      split
      · exact before
      · next fresh =>
        rw [List.filter_append, List.nodup_append]
        refine ⟨before, by simp, ?_⟩
        simp
        grind

theorem offerAll_current {box : QComboBox Data} (some : box.items ≠ []) (pairs : List (Data × List Char)) :
    (box.offerAll pairs).currentIndex = box.currentIndex ∧
      (box.currentIndex = none → (box.offerAll pairs).currentText = box.currentText) := by
  induction pairs generalizing box with
  | nil => exact ⟨rfl, fun _ => rfl⟩
  | cons pair rest ih =>
    obtain ⟨index, text⟩ := offer_current some pair.1 pair.2
    have still : (box.offer pair.1 pair.2).items ≠ [] := by
      obtain ⟨i, here⟩ := offer_has box pair.1 pair.2
      exact fun none => by simp [none] at here
    obtain ⟨index', text'⟩ := ih still
    refine ⟨index'.trans index, fun none => (text' ?_).trans (text none)⟩
    rw [index, none]

end

end Aleakd.ComboBoxes
