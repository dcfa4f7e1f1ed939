import Aleakd.Search
import Mathlib.Tactic.NormNum

/-!
The widgets of the list of memory operations that a search asks, and how opening a
thread fills them in. Times and ids go through texts there: they are printed as decimal
numbers, with the microseconds padded to six digits, and read back by the search.
-/
namespace Aleakd.ListView
open Aleakd.Messages Aleakd.Operations Aleakd.OperationList Aleakd.Stats Aleakd.Threads Aleakd.ApplicationWindow
open Aleakd.Search

/-! ## Texts -/

/-- `QChar::isSpace` -/
def isSpace (c : Char) : Bool :=
  c.toNat ∈ [9, 10, 11, 12, 13, 0x20, 0x85, 0xa0, 0x1680, 0x2028, 0x2029, 0x202f, 0x205f, 0x3000] ||
    (0x2000 ≤ c.toNat && c.toNat ≤ 0x200a)

/-- `QString::trimmed` -/
def trimmed (text : List Char) : List Char := ((text.dropWhile isSpace).reverse.dropWhile isSpace).reverse

/-- The text after a plus sign. -/
def afterSign : List Char → List Char
  | '+' :: rest => rest
  | whole => whole

/-- `QString::toULong` and `QString::toULongLong`: 0 where the text is no number, or one
    that does not fit. -/
def toULong (text : List Char) : UInt64 :=
  let digits := afterSign (trimmed text)
  if digits ≠ [] ∧ digits.all Char.isDigit ∧ Nat.ofDigitChars 10 digits 0 < 2 ^ 64 then
    UInt64.ofNat (Nat.ofDigitChars 10 digits 0)
  else 0

/-- `QString::number`, and `QString::arg` for a number. -/
def number (n : Int) : List Char :=
  if n < 0 then '-' :: Nat.toDigits 10 n.natAbs else Nat.toDigits 10 n.natAbs

/-- `QString::arg` for a number with a field width that is filled with zeros. -/
def padded (width : Nat) (n : Int) : List Char :=
  let digits := Nat.toDigits 10 n.natAbs
  if n < 0 then '-' :: (List.replicate (width - 1 - digits.length) '0' ++ digits)
  else List.replicate (width - digits.length) '0' ++ digits

/-- What `onThreadInfosDoubleClicked` makes of a time, `"%0,%1"`; nothing of one that is
    not set. -/
def timevalToText (tv : Timeval) : List Char :=
  if Timeval.isSet tv then number tv.tvSec.toInt ++ ',' :: padded 6 tv.tvUsec.toInt else []

example : timevalToText ⟨12, 3456⟩ = ['1', '2', ',', '0', '0', '3', '4', '5', '6'] := by decide

def textToTimeval (text : List Char) (tv : Timeval) : Timeval :=
  if text ≠ [] then
    match text.splitOn ',' with
    | [first, second] => ⟨(toULong first).toInt64, (toULong second).toInt64⟩
    | tokens => ⟨(toULong (tokens.headD [])).toInt64, 0⟩
  else tv

/-! ## Widgets -/

/-- An editable `QComboBox`: the data of the current item, where there is one, and the
    text. -/
structure ComboBox where
  currentData : Option UInt64
  currentText : List Char

/-- `QMemoryOperationListView` -/
structure MemoryOperationListView where
  timeStampMinLineEdit : List Char
  timeStampMaxLineEdit : List Char
  threadIdComboBox : ComboBox
  notFreeOnlyCheckBox : Bool

/-- What `onFilterButtonClicked` reads from the widgets. -/
def MemoryOperationListView.criteria (view : MemoryOperationListView) : Criteria where
  threadId :=
    match view.threadIdComboBox.currentData with
    | some threadId => threadId
    | none => toULong view.threadIdComboBox.currentText
  tvMin := textToTimeval view.timeStampMinLineEdit ⟨0, 0⟩
  tvMax := textToTimeval view.timeStampMaxLineEdit ⟨0, 0⟩
  notFreed := view.notFreeOnlyCheckBox

/-- `onThreadInfosDoubleClicked`, for a row of the list of threads. -/
def onThreadInfosDoubleClicked (c : Controller) (row : Nat) (view : MemoryOperationListView) :
    MemoryOperationListView :=
  match (c.threads.listThreadInfos[row]?).bind fun i => c.threads.objects[i]? with
  | some infos =>
    { view with
      timeStampMinLineEdit := timevalToText infos.tvCreation
      timeStampMaxLineEdit := timevalToText infos.tvTermination
      threadIdComboBox := ⟨none, number infos.threadId.toNat⟩ }
  | none => view

/-! ## Reading back what was printed -/

theorem digit_not_space {c : Char} (digit : c.isDigit = true) : isSpace c = false := by
  have range : 48 ≤ c.toNat ∧ c.toNat ≤ 57 := by
    simpa [Char.isDigit, UInt32.le_iff_toNat_le] using digit
  simp only [isSpace, List.mem_cons, List.not_mem_nil, or_false, Bool.or_eq_false_iff, decide_eq_false_iff_not,
    Bool.and_eq_false_imp, decide_eq_true_eq]
  omega

theorem trimmed_digits {text : List Char} (digits : ∀ c ∈ text, c.isDigit = true) : trimmed text = text := by
  have none : ∀ l : List Char, (∀ c ∈ l, c.isDigit = true) → l.dropWhile isSpace = l := by
    intro l digits
    cases l with
    | nil => rfl
    | cons c rest => rw [List.dropWhile_cons_of_neg (by simp [digit_not_space (digits c List.mem_cons_self)])]
  rw [trimmed, none text digits, none text.reverse (by simpa using digits), List.reverse_reverse]

theorem toULong_digits {text : List Char} (digits : ∀ c ∈ text, c.isDigit = true) (some : text ≠ [])
    (fits : Nat.ofDigitChars 10 text 0 < 2 ^ 64) : toULong text = UInt64.ofNat (Nat.ofDigitChars 10 text 0) := by
  have noSign : afterSign text = text := by
    unfold afterSign
    split
    · next rest => exact absurd (digits '+' List.mem_cons_self) (by decide)
    · rfl
  simp only [toULong, trimmed_digits digits, noSign]
  rw [if_pos ⟨some, List.all_eq_true.mpr digits, fits⟩]

/-- A number that is printed is read back. -/
theorem toULong_number {n : Nat} (fits : n < 2 ^ 64) : toULong (number n) = UInt64.ofNat n := by
  have printed : number n = Nat.toDigits 10 n := by
    rw [number, if_neg (by omega), Int.natAbs_natCast]
  rw [printed, toULong_digits, Nat.ofDigitChars_ten_toDigits]
  · exact fun c member => Nat.isDigit_of_mem_toDigits (by decide) (by decide) member
  · exact Nat.toDigits_ne_nil
  · rw [Nat.ofDigitChars_ten_toDigits]
    exact fits

/-- So is one that is padded. -/
theorem toULong_padded (width : Nat) {n : Nat} (fits : n < 2 ^ 64) : toULong (padded width n) = UInt64.ofNat n := by
  have printed : padded width n = List.replicate (width - (Nat.toDigits 10 n).length) '0' ++ Nat.toDigits 10 n := by
    simp only [padded, if_neg (show ¬ (n : Int) < 0 by omega), Int.natAbs_natCast]
  have value : Nat.ofDigitChars 10 (padded width n) 0 = n := by
    rw [printed, Nat.ofDigitChars_append, Nat.ofDigitChars_replicate_zero, Nat.mul_zero, Nat.ofDigitChars_ten_toDigits]
  rw [toULong_digits, value]
  · intro c member
    rw [printed] at member
    rcases List.mem_append.mp member with zero | digit
    · rw [(List.mem_replicate.mp zero).2]
      decide
    · exact Nat.isDigit_of_mem_toDigits (by decide) (by decide) digit
  · rw [printed]
    simp [Nat.toDigits_ne_nil]
  · rw [value]
    exact fits

/-- A time as `gettimeofday` gives it. -/
structure Proper (tv : Timeval) : Prop where
  sec : 0 ≤ tv.tvSec.toInt
  usec : 0 ≤ tv.tvUsec.toInt
  below : tv.tvUsec.toInt < 10 ^ 6

theorem toInt64_ofNat_toNat {x : Int64} (positive : 0 ≤ x.toInt) : (UInt64.ofNat x.toInt.toNat).toInt64 = x := by
  rw [UInt64.toInt64_ofNat', ← Int64.ofInt_eq_ofNat, Int.toNat_of_nonneg positive, Int64.ofInt_toInt]

/-- A time that is printed is read back. -/
theorem textToTimeval_timevalToText {tv : Timeval} (proper : Proper tv) :
    textToTimeval (timevalToText tv) ⟨0, 0⟩ = tv := by
  obtain ⟨tvSec, tvUsec⟩ := tv
  have sec := Int.toNat_of_nonneg proper.sec
  have usec := Int.toNat_of_nonneg proper.usec
  have small := tvSec.toInt_lt
  have small' := tvUsec.toInt_lt
  by_cases set : Timeval.isSet ⟨tvSec, tvUsec⟩ = true
  · have comma : ',' ∉ number tvSec.toInt.toNat := by
      intro member
      rw [number, if_neg (by omega)] at member
      exact absurd (Nat.isDigit_of_mem_toDigits (by decide) (by decide) member) (by decide)
    have comma' : ',' ∉ padded 6 tvUsec.toInt.toNat := by
      intro member
      simp only [padded, if_neg (show ¬ (tvUsec.toInt.toNat : Int) < 0 by omega), List.mem_append, List.mem_replicate]
        at member
      rcases member with zero | digit
      · exact absurd zero.2 (by decide)
      · exact absurd (Nat.isDigit_of_mem_toDigits (by decide) (by decide) digit) (by decide)
    have text : timevalToText ⟨tvSec, tvUsec⟩ = number tvSec.toInt.toNat ++ ',' :: padded 6 tvUsec.toInt.toNat := by
      rw [timevalToText, if_pos set, sec, usec]
    rw [text, textToTimeval, if_pos (by simp), List.splitOn_append_cons_self_of_not_mem comma,
      List.splitOn_eq_singleton comma']
    show (⟨_, _⟩ : Timeval) = _
    rw [toULong_number (by omega), toULong_padded 6 (by omega), toInt64_ofNat_toNat proper.sec,
      toInt64_ofNat_toNat proper.usec]
  · rw [timevalToText, if_neg set, textToTimeval, if_neg (by simp)]
    simp only [Timeval.isSet, ne_eq, decide_not, Bool.or_eq_true, Bool.not_eq_eq_eq_not, Bool.not_true,
      decide_eq_false_iff_not, not_or, not_not] at set
    rw [set.1, set.2]

end Aleakd.ListView
