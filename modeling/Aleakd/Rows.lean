import Aleakd.ListView
import Aleakd.Numerals

/-!
The rows of the two lists, `QMemoryOperationModel::data` and `QThreadInfosModel::data`,
with the texts that they are made of. What a row shows of an operation is all that the
library has sent about it: two operations with the same row have the same fields.
-/
namespace Aleakd.Rows
open Aleakd.Messages Aleakd.Operations Aleakd.Stats Aleakd.Threads Aleakd.ApplicationWindow Aleakd.ListView
open Aleakd.OperationList Aleakd.Numerals

/-! ## Texts -/

/-- `Utils::getBeautifulNumberString` -/
def getBeautifulNumberString (szNumber : List Char) : List Char :=
  let pad := szNumber.length % 3
  szNumber.zipIdx.foldl (fun szNewString (c, i) =>
    (if i ≠ 0 ∧ ((i : Int) - pad).tmod 3 = 0 then szNewString ++ [' '] else szNewString) ++ [c]) []

example : getBeautifulNumberString ['1', '2', '3', '4', '5'] = ['1', '2', ' ', '3', '4', '5'] := by decide

/-- The sign is a character like any other. -/
example : getBeautifulNumberString ['-', '1', '2', '3'] = ['-', ' ', '1', '2', '3'] := by decide

/-- `"0x" + QString::number(n, 16)` -/
def hexNumber (n : UInt64) : List Char := '0' :: 'x' :: Nat.toDigits 16 n.toNat

/-- `QString("%0,%1")` with the two parts of a time. -/
def timeText (tv : Timeval) : List Char := number tv.tvSec.toInt ++ ',' :: padded 6 tv.tvUsec.toInt

/-- `ALeakD_MsgLabel` -/
def ALeakDMsgLabel : MsgCode → String
  | .malloc => "malloc"
  | .free => "free"
  | .calloc => "calloc"
  | .realloc => "realloc"
  | .posixMemalign => "posix_memalign"
  | .alignedAlloc => "aligned_alloc"
  | .memalign => "memalign"
  | .valloc => "valloc"
  | .pvalloc => "pvalloc"
  | .pthreadCreate => "pthread_create"
  | .pthreadSetName => "pthread_set_name"
  | _ => ""

structure QColor where
  red : Nat
  green : Nat
  blue : Nat
deriving DecidableEq

/-! ## Rows -/

/-- `QMemoryOperationModel::Cols` -/
inductive MemoryOperationColumn where
  | msgNum
  | timeStampColumn
  | threadColumn
  | operationColumn
  | allocSizeColumn
  | allocPtrColumn
  | allocNumColumn
  | freePtrColumn
deriving DecidableEq

/-- What `QMemoryOperationModel::data` shows of an operation. -/
def memoryOperationText (operation : MemoryOperation) : MemoryOperationColumn → List Char
  | .msgNum => number operation.msgNum.toNat
  | .timeStampColumn => timeText operation.tvOperation
  | .threadColumn => number operation.callerThreadId.toNat
  | .operationColumn => (ALeakDMsgLabel operation.msgCode).toList
  | .allocSizeColumn =>
    if operation.allocSize ≠ 0 then getBeautifulNumberString (number operation.allocSize.toNat) else []
  | .allocPtrColumn => if operation.allocPtr ≠ 0 then hexNumber operation.allocPtr else []
  | .allocNumColumn => if operation.allocNum ≠ 0 then number operation.allocNum.toNat else []
  | .freePtrColumn => if operation.freePtr ≠ 0 then hexNumber operation.freePtr else []

def grey : QColor := ⟨180, 180, 180⟩

def red : QColor := ⟨255, 180, 180⟩

def green : QColor := ⟨180, 255, 180⟩

/-- The background that `QMemoryOperationModel::data` gives the row. -/
def memoryOperationColor (operation : MemoryOperation) : QColor :=
  if operation.msgCode = .free then grey else if operation.freed then green else red

/-- `QThreadInfosModel::Cols` -/
inductive ThreadInfosColumn where
  | threadIdColumn
  | threadNameColumn
  | timeCreation
  | timeTermination
  | currentAllocCountColumn
  | currentSizeColumn
  | totalAllocCountColumn
  | peakSizeColumn
deriving DecidableEq

/-- What `QThreadInfosModel::data` shows of a thread; the text of a name is up to the
    `QString`. -/
def threadInfosText (fromUtf8 : List UInt8 → List Char) (infos : ThreadInfos) : ThreadInfosColumn → List Char
  | .threadIdColumn => number infos.threadId.toNat
  | .threadNameColumn => fromUtf8 infos.threadName
  | .timeCreation => timeText infos.tvCreation
  | .timeTermination => if Timeval.isSet infos.tvTermination then timeText infos.tvTermination else []
  | .currentAllocCountColumn => getBeautifulNumberString (number infos.currentAllocCount.toNat)
  | .currentSizeColumn => getBeautifulNumberString (number infos.currentSize.toNat)
  | .totalAllocCountColumn => getBeautifulNumberString (number infos.totalAllocCount.toNat)
  | .peakSizeColumn => getBeautifulNumberString (number infos.peakSize.toNat)

def threadInfosColor (infos : ThreadInfos) : Option QColor := if infos.isTerminated then some grey else none

/-! ## Numbers in groups of three -/

/-- The loop from some position on. -/
theorem beautiful_from (szNumber rest : List Char) (i : Nat) (szNewString : List Char)
    (total : szNumber.length = i + rest.length) :
    (rest.zipIdx i).foldl (fun szNewString (c, i) =>
        (if i ≠ 0 ∧ ((i : Int) - (szNumber.length % 3 : Nat)).tmod 3 = 0 then szNewString ++ [' '] else szNewString) ++ [c])
      szNewString =
    szNewString ++
      if i ≠ 0 ∧ rest ≠ [] ∧ rest.length % 3 = 0 then ' ' :: grouped 3 ' ' rest else grouped 3 ' ' rest := by
  induction rest generalizing i szNewString with
  | nil => simp
  | cons c rest ih =>
    have divides : ((i : Int) - (szNumber.length % 3 : Nat)).tmod 3 = 0 ↔ (c :: rest).length % 3 = 0 := by
      rw [← Int.dvd_iff_tmod_eq_zero]
      omega
    have tail : grouped 3 ' ' (c :: rest) =
        c :: if rest ≠ [] ∧ rest.length % 3 = 0 then ' ' :: grouped 3 ' ' rest else grouped 3 ' ' rest := by
      rw [grouped_cons]
      split <;> rfl
    rw [List.zipIdx_cons, List.foldl_cons, ih (i + 1) _ (by simp at total ⊢; omega), tail]
    have some : (i ≠ 0 ∧ c :: rest ≠ [] ∧ (c :: rest).length % 3 = 0) ↔ i ≠ 0 ∧ (c :: rest).length % 3 = 0 := by simp
    simp only [divides, some]
    split <;> simp

/-- Groups of three from the right. -/
theorem getBeautifulNumberString_eq (szNumber : List Char) :
    getBeautifulNumberString szNumber = grouped 3 ' ' szNumber := by
  rw [getBeautifulNumberString, beautiful_from szNumber szNumber 0 [] (by simp)]
  simp

/-- The spaces stand behind each third digit from the end, and nowhere else. -/
theorem getBeautifulNumberString_space_iff {szNumber : List Char} (apart : ' ' ∉ szNumber) {k : Nat}
    (inside : k < (getBeautifulNumberString szNumber).length) :
    (getBeautifulNumberString szNumber).reverse[k]? = some ' ' ↔ k % 4 = 3 := by
  rw [getBeautifulNumberString_eq] at inside ⊢
  exact grouped_separator_iff (by decide) apart inside

theorem not_mem_number {c : Char} (digit : c.isDigit = false) (sign : c ≠ '-') (n : Int) : c ∉ number n := by
  have digits : c ∉ Nat.toDigits 10 n.natAbs := by
    intro member
    have isDigit := Nat.isDigit_of_mem_toDigits (by decide) (by decide) member
    simp [digit] at isDigit
  rw [number]
  split
  · exact fun member => (List.mem_cons.mp member).elim sign digits
  · exact digits

/-- A number in groups is read back by leaving out the spaces. -/
theorem getBeautifulNumberString_read (n : Int) :
    (getBeautifulNumberString (number n)).filter (· ≠ ' ') = number n := by
  rw [getBeautifulNumberString_eq]
  exact filter_grouped 3 ' ' (not_mem_number (by decide) (by decide) n)

/-! ## What a row tells -/

theorem number_inj {m n : Int} (same : number m = number n) : m = n := by
  have digits : ∀ m n : Int, 0 ≤ n → '-' :: Nat.toDigits 10 m.natAbs ≠ Nat.toDigits 10 n.natAbs := by
    intro m n _ same
    have first : '-' ∈ Nat.toDigits 10 n.natAbs := same ▸ List.mem_cons_self
    exact absurd (Nat.isDigit_of_mem_toDigits (by decide) (by decide) first) (by decide)
  rw [number, number] at same
  split at same <;> split at same
  · have magnitudes := toDigits_inj (by decide) (by decide) (List.cons.inj same).2
    omega
  · exact absurd same (digits m n (by omega))
  · exact absurd same.symm (digits n m (by omega))
  · have magnitudes := toDigits_inj (by decide) (by decide) same
    omega

theorem beautiful_inj {m n : Int} (same : getBeautifulNumberString (number m) = getBeautifulNumberString (number n)) :
    m = n := by
  refine number_inj ?_
  rw [← getBeautifulNumberString_read m, same, getBeautifulNumberString_read]

theorem hexNumber_inj {m n : UInt64} (same : hexNumber m = hexNumber n) : m = n := by
  have digits : Nat.toDigits 16 m.toNat = Nat.toDigits 16 n.toNat := by simpa [hexNumber] using same
  exact UInt64.toNat_inj.mp (toDigits_inj (by decide) (by decide) digits)

theorem padded_value (n zeros : Nat) :
    Nat.ofDigitChars 10 (List.replicate zeros '0' ++ Nat.toDigits 10 n) 0 = n := by
  rw [Nat.ofDigitChars_append, Nat.ofDigitChars_replicate_zero, Nat.mul_zero, Nat.ofDigitChars_ten_toDigits]

theorem not_mem_zeros {c : Char} (digit : c.isDigit = false) (n zeros : Nat) :
    c ∉ List.replicate zeros '0' ++ Nat.toDigits 10 n := by
  intro member
  rcases List.mem_append.mp member with zero | isDigit
  · rw [(List.mem_replicate.mp zero).2] at digit
    exact absurd digit (by decide)
  · have isDigit := Nat.isDigit_of_mem_toDigits (by decide) (by decide) isDigit
    simp [digit] at isDigit

theorem not_mem_padded {c : Char} (digit : c.isDigit = false) (sign : c ≠ '-') (width : Nat) (n : Int) :
    c ∉ padded width n := by
  simp only [padded]
  split
  · exact fun member => (List.mem_cons.mp member).elim sign (not_mem_zeros digit _ _)
  · exact not_mem_zeros digit _ _

theorem padded_inj {width : Nat} {m n : Int} (same : padded width m = padded width n) : m = n := by
  have signed : ∀ (n zeros : Nat) (rest : List Char), '-' :: rest ≠ List.replicate zeros '0' ++ Nat.toDigits 10 n := by
    intro n zeros rest same
    exact not_mem_zeros (c := '-') (by decide) n zeros (same ▸ List.mem_cons_self)
  have value : ∀ m n zeros zeros' : Nat,
      List.replicate zeros '0' ++ Nat.toDigits 10 m = List.replicate zeros' '0' ++ Nat.toDigits 10 n → m = n := by
    intro m n zeros zeros' same
    rw [← padded_value m zeros, same, padded_value]
  simp only [padded] at same
  split at same <;> split at same
  · have magnitudes := value _ _ _ _ (List.cons.inj same).2
    omega
  · exact absurd same (signed _ _ _)
  · exact absurd same.symm (signed _ _ _)
  · have magnitudes := value _ _ _ _ same
    omega

theorem timeText_inj {a b : Timeval} (same : timeText a = timeText b) : a = b := by
  obtain ⟨sec, _, usec⟩ := (List.append_cons_inj_of_notMem (not_mem_number (by decide) (by decide) _)
    (not_mem_padded (by decide) (by decide) 6 _)).mp same
  cases a
  cases b
  exact congrArg₂ Timeval.mk (Int64.toInt_inj.mp (number_inj sec)) (Int64.toInt_inj.mp (padded_inj usec))

theorem label_inj : ∀ a ∈ MsgCode.memory, ∀ b ∈ MsgCode.memory, ALeakDMsgLabel a = ALeakDMsgLabel b → a = b := by
  decide

/-- A text that is left out where the value is zero. -/
theorem optional_inj {α : Type} [DecidableEq α] {zero : α} {text : α → List Char}
    (inj : ∀ {a b}, text a = text b → a = b) (shown : ∀ a, text a ≠ []) {a b : α}
    (same : (if a ≠ zero then text a else []) = if b ≠ zero then text b else []) : a = b := by
  by_cases isZero : a = zero <;> by_cases isZero' : b = zero
  · rw [isZero, isZero']
  · exact absurd (by simpa [isZero, isZero'] using same) (shown b).symm
  · exact absurd (by simpa [isZero, isZero'] using same) (shown a)
  · exact inj (by simpa [isZero, isZero'] using same)

theorem isSet_iff (tv : Timeval) : Timeval.isSet tv = true ↔ tv ≠ ⟨0, 0⟩ := by
  obtain ⟨sec, usec⟩ := tv
  simp [Timeval.isSet]
  grind

theorem uint64_inj {a b : UInt64} (same : (a.toNat : Int) = b.toNat) : a = b :=
  UInt64.toNat_inj.mp (Int.ofNat_inj.mp same)

theorem uint32_inj {a b : UInt32} (same : (a.toNat : Int) = b.toNat) : a = b :=
  UInt32.toNat_inj.mp (Int.ofNat_inj.mp same)

theorem number_ne_nil (n : Int) : number n ≠ [] := by
  rw [number]
  split <;> simp

theorem beautiful_ne_nil (n : Int) : getBeautifulNumberString (number n) ≠ [] := by
  intro none
  have read := getBeautifulNumberString_read n
  rw [none] at read
  exact number_ne_nil n read.symm

/-- Two operations whose rows read the same are the same to the library: they come from
    messages with the same code, thread, time, numbers and addresses. -/
theorem memory_row_iff {a b : MemoryOperation} (memory : a.msgCode ∈ MsgCode.memory)
    (memory' : b.msgCode ∈ MsgCode.memory) :
    (∀ column, memoryOperationText a column = memoryOperationText b column) ↔
      a.msgNum = b.msgNum ∧ a.tvOperation = b.tvOperation ∧ a.callerThreadId = b.callerThreadId ∧
      a.msgCode = b.msgCode ∧ a.allocSize = b.allocSize ∧ a.allocPtr = b.allocPtr ∧ a.allocNum = b.allocNum ∧
      a.freePtr = b.freePtr := by
  constructor
  · intro same
    refine ⟨uint32_inj (number_inj (same .msgNum)), timeText_inj (same .timeStampColumn),
      uint64_inj (number_inj (same .threadColumn)), ?_, ?_, ?_, ?_, ?_⟩
    · exact label_inj _ memory _ memory' (String.toList_inj.mp (same .operationColumn))
    · exact @optional_inj UInt64 _ 0 (fun size => getBeautifulNumberString (number size.toNat))
        (fun same => uint64_inj (beautiful_inj same)) (fun _ => beautiful_ne_nil _) _ _ (same .allocSizeColumn)
    · exact optional_inj hexNumber_inj (fun _ => List.cons_ne_nil _ _) (same .allocPtrColumn)
    · exact @optional_inj UInt32 _ 0 (fun num => number num.toNat) (fun same => uint32_inj (number_inj same))
        (fun _ => number_ne_nil _) _ _ (same .allocNumColumn)
    · exact optional_inj hexNumber_inj (fun _ => List.cons_ne_nil _ _) (same .freePtrColumn)
  · rintro ⟨num, time, thread, code, size, ptr, allocNum, freePtr⟩ column
    cases column <;> simp [memoryOperationText, num, time, thread, code, size, ptr, allocNum, freePtr]

/-- What a row of the threads tells. -/
theorem thread_row_iff (fromUtf8 : List UInt8 → List Char) (a b : ThreadInfos) :
    (∀ column, threadInfosText fromUtf8 a column = threadInfosText fromUtf8 b column) ↔
      a.threadId = b.threadId ∧ fromUtf8 a.threadName = fromUtf8 b.threadName ∧ a.tvCreation = b.tvCreation ∧
      a.tvTermination = b.tvTermination ∧ a.currentAllocCount = b.currentAllocCount ∧
      a.currentSize = b.currentSize ∧ a.totalAllocCount = b.totalAllocCount ∧ a.peakSize = b.peakSize := by
  constructor
  · intro same
    refine ⟨uint64_inj (number_inj (same .threadIdColumn)), same .threadNameColumn,
      timeText_inj (same .timeCreation), ?_, uint32_inj (beautiful_inj (same .currentAllocCountColumn)),
      uint64_inj (beautiful_inj (same .currentSizeColumn)),
      uint32_inj (beautiful_inj (same .totalAllocCountColumn)),
      uint64_inj (beautiful_inj (same .peakSizeColumn))⟩
    have termination := same .timeTermination
    simp only [threadInfosText, isSet_iff] at termination
    exact optional_inj timeText_inj (fun _ => by simp [timeText]) termination
  · rintro ⟨id, name, creation, termination, count, size, total, peak⟩ column
    cases column <;> simp [threadInfosText, id, name, creation, termination, count, size, total, peak]

/-- An allocation and the free of its block, whose rows differ in more than one column. -/
theorem memory_row_iff_free :
    let a : MemoryOperation := ⟨⟨5, 20⟩, 7, .malloc, 3, 64, 4096, 1, 0, false, none⟩
    let b : MemoryOperation := ⟨⟨5, 21⟩, 8, .free, 3, 0, 0, 0, 4096, false, none⟩
    ∃ column, memoryOperationText a column ≠ memoryOperationText b column := by
  intro a b
  by_contra same
  have equal := (memory_row_iff (a := a) (b := b) (by decide) (by decide)).mp (by simpa using same)
  exact absurd equal.1 (by decide)

/-! ## Rows over time -/

/-- What becomes of an operation within its session: it may be freed, and may get a
    backtrace. -/
structure Later (before after : MemoryOperation) : Prop where
  fields : { before with freed := after.freed, backTrace := after.backTrace } = after
  freed : before.freed = true → after.freed = true

theorem Later.refl (operation : MemoryOperation) : Later operation operation := ⟨rfl, id⟩

theorem Later.trans {a b c : MemoryOperation} (first : Later a b) (second : Later b c) : Later a c where
  fields := by
    rw [← second.fields, ← first.fields]
  freed := fun isFreed => second.freed (first.freed isFreed)

theorem Later.text {before after : MemoryOperation} (later : Later before after) (column : MemoryOperationColumn) :
    memoryOperationText after column = memoryOperationText before column := by
  rw [← later.fields]
  cases column <;> rfl

/-- A row changes its colour only from that of a block in use to that of one given back. -/
theorem Later.color {before after : MemoryOperation} (later : Later before after) :
    memoryOperationColor after = memoryOperationColor before ∨
      memoryOperationColor before = red ∧ memoryOperationColor after = green := by
  have code : after.msgCode = before.msgCode := by rw [← later.fields]
  have freed := later.freed
  simp only [memoryOperationColor, code]
  by_cases free : before.msgCode = .free
  · simp [free]
  · cases was : before.freed <;> cases is : after.freed <;> simp_all

/-- Every operation of a list is at its place in a later one. -/
def Kept (objects later : List MemoryOperation) : Prop :=
  ∀ (i : Nat) operation, objects[i]? = some operation → ∃ after, later[i]? = some after ∧ Later operation after

theorem Kept.refl (objects : List MemoryOperation) : Kept objects objects :=
  fun _ operation here => ⟨operation, here, Later.refl operation⟩

theorem Kept.trans {a b c : List MemoryOperation} (first : Kept a b) (second : Kept b c) : Kept a c := by
  intro i operation here
  obtain ⟨next, there, later⟩ := first i operation here
  obtain ⟨last, last', later'⟩ := second i next there
  exact ⟨last, last', later.trans later'⟩

theorem kept_append (objects new : List MemoryOperation) : Kept objects (objects ++ new) := by
  intro i operation here
  obtain ⟨inside, _⟩ := List.getElem?_eq_some_iff.mp here
  exact ⟨operation, by rw [List.getElem?_append_left inside, here], Later.refl operation⟩

theorem kept_modify {change : MemoryOperation → MemoryOperation} (later : ∀ operation, Later operation (change operation))
    (objects : List MemoryOperation) (i : Nat) : Kept objects (objects.modify i change) := by
  intro j operation here
  rw [List.getElem?_modify, here]
  by_cases same : i = j
  · exact ⟨change operation, by simp [same], later operation⟩
  · exact ⟨operation, by simp [same], Later.refl operation⟩

theorem free_kept (l : OperationLists) (freePtr : UInt64) :
    Kept l.listMemoryOperation (l.free freePtr).1.listMemoryOperation := by
  rw [OperationLists.free]
  split
  · split
    · exact kept_modify (fun _ => ⟨rfl, fun _ => rfl⟩) _ _
    · exact Kept.refl _
  · exact Kept.refl _

theorem handle_kept (c : Controller) {call : Callback} (inSession : call ≠ .newConnection) :
    Kept c.operations.listMemoryOperation (c.handle call).operations.listMemoryOperation := by
  cases call with
  | newConnection => exact absurd rfl inSession
  | memoryOperation operation =>
    exact (free_kept c.operations operation.freePtr).trans (kept_append _ [operation])
  | threadOperation operation => exact Kept.refl _
  | backtrace backtrace =>
    show Kept _ (c.operations.addBacktrace backtrace).listMemoryOperation
    rw [OperationLists.addBacktrace]
    split
    · exact kept_modify (fun operation => (⟨rfl, id⟩ : Later operation { operation with backTrace := backtrace })) _ _
    · exact Kept.refl _
  | symbolInfos symbolInfos => exact Kept.refl _

end Aleakd.Rows
