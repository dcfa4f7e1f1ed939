import Aleakd.BlockLists
import Aleakd.Chart
import Aleakd.ComboBoxes
import Aleakd.Rows
import Aleakd.ThreadTables

/-!
The window of the server: the controller with the widgets that it fills and reads. In any
order, messages come in, the timer ticks, and the user searches, opens a thread or changes
what the widgets ask for. The tab that is shown is left out.
-/
namespace Aleakd.Widgets
open Aleakd.Messages Aleakd.Operations Aleakd.OperationList Aleakd.Stats Aleakd.Threads Aleakd.ApplicationWindow
open Aleakd.Search Aleakd.ListView Aleakd.ComboBoxes Aleakd.Rows Aleakd.Runs Aleakd.ThreadTables

/-- The labels of the status bar. -/
inductive CaptureItem where
  | messageCount
  | memoryOperationCount
  | memorySizeUsed
  | threadCount
  | symbolInfosCount

structure Window where
  controller : Controller
  /-- `m_iLoadedCount` of the model of the operations -/
  loadedCount : Int
  timeStampMinLineEdit : List Char
  timeStampMaxLineEdit : List Char
  threadIdComboBox : QComboBox UInt64
  notFreeOnlyCheckBox : Bool
  memoryUsageView : Chart.MemoryUsageView
  /-- `m_listStatusRow1` and `m_listStatusRow2` -/
  statusFilter : DataItem → List Char
  statusGlobal : DataItem → List Char
  capture : CaptureItem → List Char

/-- The number behind a label of the status bar. -/
def captured (c : Controller) : CaptureItem → Int
  | .messageCount => c.globalStats.messageCount.toInt
  | .memoryOperationCount => c.globalStats.memoryOperationCount.toInt
  | .memorySizeUsed => c.globalStats.memoryOperationSize.toNat
  | .threadCount => c.threads.listThreadInfos.length
  | .symbolInfosCount => c.listSymbolInfos.keys.card

/-- `setCaptureMessageCount` and its like. -/
def captureText (item : CaptureItem) (szValue : List Char) : List Char :=
  match item with
  | .messageCount => "Message count: ".toList ++ szValue
  | .memoryOperationCount => "Operation count: ".toList ++ szValue
  | .memorySizeUsed => "Memory usage: ".toList ++ szValue ++ " bytes".toList
  | .threadCount => "Threads: ".toList ++ szValue
  | .symbolInfosCount => "Symbols: ".toList ++ szValue

/-- A window that has just been made. -/
def Window.fresh : Window where
  controller := Controller.fresh
  loadedCount := 0
  timeStampMinLineEdit := []
  timeStampMaxLineEdit := []
  threadIdComboBox := ⟨[], none, []⟩
  notFreeOnlyCheckBox := false
  memoryUsageView := ⟨[], none⟩
  statusFilter := fun _ => ['0']
  statusGlobal := fun _ => ['0']
  capture := fun item => captureText item ['0']

/-- What the search asks the widgets for. The data of an item that has none reads as 0. -/
def Window.listView (w : Window) : MemoryOperationListView where
  timeStampMinLineEdit := w.timeStampMinLineEdit
  timeStampMaxLineEdit := w.timeStampMaxLineEdit
  threadIdComboBox :=
    { currentData := w.threadIdComboBox.currentIndex.map fun i =>
        ((w.threadIdComboBox.items[i]?).bind Item.data).getD 0
      currentText := w.threadIdComboBox.currentText }
  notFreeOnlyCheckBox := w.notFreeOnlyCheckBox

/-- `QMemoryOperationModel::fetchTo` -/
def fetchTo (loadedCount row : Int) : Int := loadedCount + (row - loadedCount)

/-- The calls of the handler; a new connection clears the widgets with the data. -/
def Window.handle (w : Window) (call : Callback) : Window :=
  match call with
  | .newConnection =>
    { w with
      controller := w.controller.onNewConnection
      loadedCount := 0
      threadIdComboBox := w.threadIdComboBox.clear
      memoryUsageView := { w.memoryUsageView with lineSeries := [] } }
  | _ => { w with controller := w.controller.handle call }

def Window.onFilterButtonClicked (w : Window) : Window :=
  let controller := Search.onFilterButtonClicked w.controller w.listView.criteria
  { w with controller, loadedCount := fetchTo 0 controller.listFilterMemoryOperation.length }

/-- The row that is double clicked may be any. -/
def Window.onThreadInfosDoubleClicked (w : Window) (row : Nat) : Window :=
  match (w.controller.threads.listThreadInfos[row]?).bind fun i => w.controller.threads.objects[i]? with
  | some infos =>
    { w with
      timeStampMinLineEdit := timevalToText infos.tvCreation
      timeStampMaxLineEdit := timevalToText infos.tvTermination
      threadIdComboBox := w.threadIdComboBox.edit (number infos.threadId.toNat) }
  | none => w

/-- The label of a thread in the combo box, `"%0 (%1)"` where it has a name. -/
def entryLabel (fromUtf8 : List UInt8 → List Char) (infos : ThreadInfos) : List Char :=
  if fromUtf8 infos.threadName = [] then number infos.threadId.toNat
  else number infos.threadId.toNat ++ ' ' :: '(' :: fromUtf8 infos.threadName ++ [')']

/-- The part of `onTimerUpdate` about the combo box. -/
def refreshThreads (fromUtf8 : List UInt8 → List Char) (t : ThreadTable) (box : QComboBox UInt64) : QComboBox UInt64 :=
  let box := if box.items.length = 0 then box.addItem "All threads".toList (some 0) else box
  box.offerAll (t.entries.map fun infos => (infos.threadId, entryLabel fromUtf8 infos))

/-- `none` where a loop of the chart does not end. -/
def Window.onTimerUpdate (fromUtf8 : List UInt8 → List Char) (w : Window) : Option Window :=
  (Chart.onTimerUpdate w.controller w.memoryUsageView).map fun (controller, memoryUsageView) =>
    { w with
      controller
      memoryUsageView
      threadIdComboBox := refreshThreads fromUtf8 w.controller.threads w.threadIdComboBox
      statusFilter := fun item => getBeautifulNumberString (number (displayed w.controller.searchStats item))
      statusGlobal := fun item => getBeautifulNumberString (number (displayed w.controller.globalStats item))
      capture := fun item => captureText item (getBeautifulNumberString (number (captured w.controller item))) }

/-- How the user leaves the widgets: an item that is typed in has no data. -/
structure Edit where
  timeStampMin : List Char
  timeStampMax : List Char
  notFreeOnly : Bool
  typed : List (List Char)
  currentIndex : Option Nat
  currentText : List Char

def Window.edit (w : Window) (e : Edit) : Window :=
  let items := w.threadIdComboBox.items ++ e.typed.map fun text => ⟨text, none⟩
  { w with
    timeStampMinLineEdit := e.timeStampMin
    timeStampMaxLineEdit := e.timeStampMax
    notFreeOnlyCheckBox := e.notFreeOnly
    threadIdComboBox := ⟨items, e.currentIndex.filter (· < items.length), e.currentText⟩ }

inductive Event where
  | handler (call : Callback)
  | timerUpdate
  | filterButtonClicked
  | threadInfosDoubleClicked (row : Nat)
  | edit (e : Edit)

def step (fromUtf8 : List UInt8 → List Char) (w : Window) : Event → Option Window
  | .handler call => some (w.handle call)
  | .timerUpdate => w.onTimerUpdate fromUtf8
  | .filterButtonClicked => some w.onFilterButtonClicked
  | .threadInfosDoubleClicked row => some (w.onThreadInfosDoubleClicked row)
  | .edit e => some (w.edit e)

/-- The operation in a row of the list. -/
def Window.memoryOperationAt (w : Window) (row : Nat) : Option MemoryOperation :=
  if (row : Int) < w.loadedCount then
    (w.controller.listFilterMemoryOperation[row]?).bind fun i => w.controller.operations.listMemoryOperation[i]?
  else none

/-- The thread in a row of the list. -/
def Window.threadInfosAt (w : Window) (row : Nat) : Option ThreadInfos :=
  (w.controller.listFilterThreadInfos[row]?).bind fun i => w.controller.threads.objects[i]?

/-! ## What the steps do to the controller -/

theorem collectUsage_controller {c c' : Controller} {u : MemoryUsage} (collected : Chart.collectUsage c = some (u, c')) :
    ∃ time value, c' = { c with lastUpdateTime := time, lastUpdateValue := value } := by
  simp only [Chart.collectUsage] at collected
  generalize (if c.lastUpdateTime = 0 then _ else _) = startTime at collected
  split at collected
  · obtain ⟨⟨u', lastSize⟩, _, same⟩ := Option.map_eq_some_iff.mp collected
    cases same
    split
    · exact ⟨_, _, rfl⟩
    · exact ⟨_, _, rfl⟩
  · cases collected
    exact ⟨_, _, rfl⟩

/-- A tick of the chart is about the list of threads and the point drawn last alone. -/
theorem chart_controller {c c' : Controller} {view view' : Chart.MemoryUsageView}
    (ticked : Chart.onTimerUpdate c view = some (c', view')) :
    ∃ time value, c' = { c with
      listFilterThreadInfos := c.threads.listThreadInfos, lastUpdateTime := time, lastUpdateValue := value } := by
  rw [Chart.onTimerUpdate, Option.bind_eq_some_iff] at ticked
  obtain ⟨⟨u, next⟩, collected, drew⟩ := ticked
  obtain ⟨view'', _, same⟩ := Option.map_eq_some_iff.mp drew
  cases same
  exact collectUsage_controller collected

theorem timerUpdate_some {fromUtf8 : List UInt8 → List Char} {w next : Window}
    (ticked : w.onTimerUpdate fromUtf8 = some next) :
    ∃ time value, next.controller = { w.controller with
        listFilterThreadInfos := w.controller.threads.listThreadInfos
        lastUpdateTime := time
        lastUpdateValue := value } ∧
      next = { w with
        controller := next.controller
        memoryUsageView := next.memoryUsageView
        threadIdComboBox := refreshThreads fromUtf8 w.controller.threads w.threadIdComboBox
        statusFilter := next.statusFilter
        statusGlobal := next.statusGlobal
        capture := next.capture } := by
  obtain ⟨⟨controller, view⟩, chart, rfl⟩ := Option.map_eq_some_iff.mp ticked
  obtain ⟨time, value, same⟩ := chart_controller chart
  exact ⟨time, value, same, rfl⟩

/-- The search lists what the criteria accept. -/
theorem filterButtonClicked_rows (w : Window) :
    w.onFilterButtonClicked.controller.operations = w.controller.operations ∧
      w.onFilterButtonClicked.controller.threads = w.controller.threads ∧
      w.onFilterButtonClicked.controller.listFilterMemoryOperation =
        (List.range w.controller.operations.listMemoryOperation.length).filter fun i =>
          w.controller.operations.listMemoryOperation[i]?.any w.listView.criteria.accepts :=
  ⟨rfl, rfl, (search_spec w.listView.criteria _ (SessionTotals.reset_totalled w.controller.searchStats)).2⟩

/-! ## The list of threads -/

/-- The ids of the threads of a session, one for each entry. -/
def threadIds (t : ThreadTable) : List UInt64 := t.entries.map ThreadInfos.threadId

theorem threadIds_eq (t : ThreadTable) :
    threadIds t = t.listThreadInfos.filterMap fun i => (t.objects[i]?).map ThreadInfos.threadId := by
  rw [threadIds, ThreadTable.entries, List.map_filterMap]

/-- Entries come behind those that there are, which keep their ids. -/
structure Extends (t later : ThreadTable) : Prop where
  listed : t.listThreadInfos <+: later.listThreadInfos
  ids : threadIds t <+: threadIds later

theorem Extends.refl (t : ThreadTable) : Extends t t := ⟨List.prefix_rfl, List.prefix_rfl⟩

theorem Extends.trans {a b c : ThreadTable} (first : Extends a b) (second : Extends b c) : Extends a c :=
  ⟨first.listed.trans second.listed, first.ids.trans second.ids⟩

theorem modify_extends {change : ThreadInfos → ThreadInfos} (keeps : ∀ infos, (change infos).threadId = infos.threadId)
    (t : ThreadTable) (i : Nat) (alive : List Nat) :
    Extends t { t.modify i change with listThreadInfosAlive := alive } := by
  refine ⟨List.prefix_rfl, ?_⟩
  have same : ∀ j : Nat, ((t.objects.modify i change)[j]?).map ThreadInfos.threadId =
      (t.objects[j]?).map ThreadInfos.threadId := by
    intro j
    rw [List.getElem?_modify]
    by_cases here : i = j <;> cases t.objects[j]? <;> simp [here, keeps]
  simp only [threadIds_eq, ThreadTable.modify, same]
  exact List.prefix_rfl

theorem append_extends {t : ThreadTable} (inside : ∀ i ∈ t.listThreadInfos, i < t.objects.length) (threadId : UInt64)
    (tvOperation : Timeval) : Extends t (t.append threadId tvOperation).1 := by
  refine ⟨List.prefix_append _ _, ?_⟩
  have before : t.listThreadInfos.filterMap (fun i =>
      ((t.objects ++ [ThreadInfos.make threadId tvOperation t.listThreadInfos.isEmpty])[i]?).map ThreadInfos.threadId) =
      threadIds t := by
    rw [threadIds_eq]
    refine List.filterMap_congr fun i member => ?_
    rw [List.getElem?_append_left (inside i member)]
  rw [threadIds_eq (t.append threadId tvOperation).1]
  simp only [ThreadTable.append, List.filterMap_append, before]
  exact List.prefix_append _ _

theorem getThreadInfos_extends {t : ThreadTable} (inside : ∀ i ∈ t.listThreadInfos, i < t.objects.length)
    (threadId : UInt64) (threadCreation : Bool) (tvOperation : Timeval) :
    Extends t (t.getThreadInfos threadId threadCreation tvOperation).1 := by
  rw [ThreadTable.getThreadInfos]
  split
  · next i _ =>
    split
    · refine (modify_extends (ThreadInfos.terminate_threadId tvOperation) t i _).trans (append_extends ?_ _ _)
      simpa [ThreadTable.modify] using inside
    · exact Extends.refl t
  · exact append_extends inside _ _

theorem listed_inside {base : Nat} {t : ThreadTable} (shaped : Shaped base t) :
    ∀ i ∈ t.listThreadInfos, i < t.objects.length := by
  intro i member
  have within := shaped.within
  rw [shaped.listed, List.mem_range'_1] at member
  omega

theorem addAlloc_extends {base : Nat} {t : ThreadTable} (shaped : Shaped base t) (threadId : UInt64) (msgNum : UInt32)
    (size : UInt64) (tvOperation : Timeval) :
    Extends t (t.updateThreadInfosAddAlloc threadId msgNum size tvOperation) :=
  (getThreadInfos_extends (listed_inside shaped) threadId false tvOperation).trans
    (modify_extends (ThreadInfos.addAlloc_threadId msgNum size) _ _ _)

theorem addFree_extends {base : Nat} {t : ThreadTable} (shaped : Shaped base t) (threadId : UInt64)
    (allocMsgNum : UInt32) (size : UInt64) (tvOperation : Timeval) :
    Extends t (t.updateThreadInfosAddFree threadId allocMsgNum size tvOperation) := by
  rw [ThreadTable.updateThreadInfosAddFree]
  split
  · exact modify_extends (ThreadInfos.addFree_threadId size) t _ _
  · exact (getThreadInfos_extends (listed_inside shaped) threadId false tvOperation).trans
      (modify_extends (ThreadInfos.addFree_threadId size) _ _ _)

theorem addMemoryOperation_extends {base : Nat} {t : ThreadTable} (shaped : Shaped base t)
    (operation : MemoryOperation) (freed : Option MemoryOperation) :
    Extends t (t.addMemoryOperation operation freed) := by
  have second : ∀ t', Shaped base t' →
      Extends t' (if operation.allocPtr ≠ 0 then t'.updateThreadInfosAddAlloc operation.callerThreadId operation.msgNum
        operation.allocSize operation.tvOperation else t') := by
    intro t' shaped'
    split
    · exact addAlloc_extends shaped' _ _ _ _
    · exact Extends.refl t'
  cases freed with
  | none => exact second t shaped
  | some freed =>
    have shaped' := (updateThreadInfosAddFree_session shaped freed.callerThreadId freed.msgNum freed.allocSize
      operation.tvOperation).1
    exact (addFree_extends shaped _ _ _ _).trans (second _ shaped')

/-- The lists of a table hold objects, and a message puts its entries behind those listed. -/
theorem handle_extends {base : Nat} {c : Controller} (shaped : Shaped base c.threads) {call : Callback}
    (inSession : call ≠ .newConnection) :
    Shaped base (c.handle call).threads ∧ Extends c.threads (c.handle call).threads := by
  cases call with
  | newConnection => exact absurd rfl inSession
  | memoryOperation operation =>
    exact ⟨(addMemoryOperation_session shaped operation _).1, addMemoryOperation_extends shaped operation _⟩
  | threadOperation operation =>
    refine ⟨(updateThreadInfos_session shaped operation).1, ?_⟩
    exact (getThreadInfos_extends (listed_inside shaped) operation.threadId _ operation.tvOperation).trans
      (modify_extends (ThreadInfos.applyOperation_threadId operation) _ _ _)
  | backtrace backtrace => exact ⟨shaped, Extends.refl _⟩
  | symbolInfos symbolInfos => exact ⟨shaped, Extends.refl _⟩

/-! ## What holds of every window -/

structure Inv (w : Window) : Prop where
  loaded : w.loadedCount = w.controller.listFilterMemoryOperation.length
  listed : ∀ i ∈ w.controller.listFilterMemoryOperation, i < w.controller.operations.listMemoryOperation.length
  ascending : w.controller.listFilterMemoryOperation.Pairwise (· < ·)
  shaped : ∃ base, Shaped base w.controller.threads
  threads : w.controller.listFilterThreadInfos <+: w.controller.threads.listThreadInfos
  /-- no two items of the combo box carry the same id -/
  apart : (w.threadIdComboBox.listData.filter Option.isSome).Nodup
  current : ∀ i ∈ w.threadIdComboBox.currentIndex, i < w.threadIdComboBox.items.length
  /-- the items are for threads of the session, beside the one for all -/
  ids : ∀ threadId, some threadId ∈ w.threadIdComboBox.listData →
    threadId = 0 ∨ threadId ∈ threadIds w.controller.threads

theorem fresh_inv : Inv Window.fresh where
  loaded := rfl
  listed := by simp [Window.fresh, Controller.fresh]
  ascending := List.Pairwise.nil
  shaped := ⟨0, empty_shaped⟩
  threads := List.prefix_rfl
  apart := List.Pairwise.nil
  current := by simp [Window.fresh]
  ids := by simp [Window.fresh, QComboBox.listData]

theorem kept_length {objects later : List MemoryOperation} (kept : Kept objects later) {i : Nat}
    (inside : i < objects.length) : i < later.length := by
  obtain ⟨_, there, _⟩ := kept i objects[i] (List.getElem?_eq_getElem inside)
  exact (List.getElem?_eq_some_iff.mp there).1

theorem handle_lists (c : Controller) {call : Callback} (inSession : call ≠ .newConnection) :
    (c.handle call).listFilterMemoryOperation = c.listFilterMemoryOperation ∧
      (c.handle call).listFilterThreadInfos = c.listFilterThreadInfos := by
  cases call with
  | newConnection => exact absurd rfl inSession
  | memoryOperation operation => exact ⟨rfl, rfl⟩
  | threadOperation operation => exact ⟨rfl, rfl⟩
  | backtrace backtrace => exact ⟨rfl, rfl⟩
  | symbolInfos symbolInfos => exact ⟨rfl, rfl⟩

theorem window_handle {w : Window} {call : Callback} (inSession : call ≠ .newConnection) :
    w.handle call = { w with controller := w.controller.handle call } := by
  cases call with
  | newConnection => exact absurd rfl inSession
  | _ => rfl

theorem handle_inv {w : Window} (inv : Inv w) (call : Callback) : Inv (w.handle call) := by
  obtain ⟨base, shaped⟩ := inv.shaped
  by_cases new : call = .newConnection
  · subst new
    have none : (w.threadIdComboBox.clear).items = [] := by
      rw [QComboBox.clear]
      split
      · assumption
      · rfl
    constructor
    case loaded => rfl
    case listed => simp [Window.handle, Controller.onNewConnection, Controller.clearData]
    case ascending => exact List.Pairwise.nil
    case shaped => exact ⟨_, (clear_session shaped).1⟩
    case threads => exact List.nil_prefix
    case apart => simp [Window.handle, QComboBox.listData, none]
    case current =>
      intro i here
      simp only [Window.handle] at here ⊢
      rw [QComboBox.clear] at here ⊢
      split at here
      · next empty =>
        have inside := inv.current i here
        simp [empty] at inside
      · simp at here
    case ids => simp [Window.handle, QComboBox.listData, none]
  · obtain ⟨operations, threads⟩ := handle_lists w.controller new
    obtain ⟨shaped', extends'⟩ := handle_extends shaped new
    rw [window_handle new]
    constructor
    case loaded => exact inv.loaded.trans (by rw [operations])
    case listed =>
      intro i member
      exact kept_length (handle_kept w.controller new) (inv.listed i (operations ▸ member))
    case ascending => exact operations ▸ inv.ascending
    case shaped => exact ⟨base, shaped'⟩
    case threads => exact threads ▸ inv.threads.trans extends'.listed
    case apart => exact inv.apart
    case current => exact inv.current
    case ids =>
      intro threadId member
      exact (inv.ids threadId member).imp_right fun known => extends'.ids.subset known

/-! ### The combo box -/

/-- The box that the threads are offered to. -/
def withAll (box : QComboBox UInt64) : QComboBox UInt64 :=
  if box.items.length = 0 then box.addItem "All threads".toList (some 0) else box

theorem refreshThreads_eq (fromUtf8 : List UInt8 → List Char) (t : ThreadTable) (box : QComboBox UInt64) :
    refreshThreads fromUtf8 t box =
      (withAll box).offerAll (t.entries.map fun infos => (infos.threadId, entryLabel fromUtf8 infos)) := rfl

theorem withAll_some {box : QComboBox UInt64} (some : box.items ≠ []) : withAll box = box := by
  simp [withAll, some]

theorem withAll_none {box : QComboBox UInt64} (none : box.items = []) (current : box.currentIndex = .none) :
    withAll box = ⟨[⟨"All threads".toList, some 0⟩], some 0, "All threads".toList⟩ := by
  rw [withAll, if_pos (by simp [none]), QComboBox.addItem, if_pos ⟨none, current⟩]

theorem withAll_items (box : QComboBox UInt64) : (withAll box).items ≠ [] := by
  by_cases none : box.items = []
  · simp [withAll, none, addItem_items]
  · rwa [withAll_some none]

/-- Where the box is empty, nothing is current. -/
theorem Inv.noCurrent {w : Window} (inv : Inv w) (none : w.threadIdComboBox.items = []) :
    w.threadIdComboBox.currentIndex = .none := by
  cases current : w.threadIdComboBox.currentIndex with
  | none => rfl
  | some i =>
    have inside := inv.current i current
    simp [none] at inside

theorem mem_offered {fromUtf8 : List UInt8 → List Char} {t : ThreadTable} {threadId : UInt64} :
    some threadId ∈ (t.entries.map fun infos => (infos.threadId, entryLabel fromUtf8 infos)).map
        (fun pair => some pair.1) ↔ threadId ∈ threadIds t := by
  simp [threadIds]

theorem timerUpdate_inv {fromUtf8 : List UInt8 → List Char} {w next : Window} (inv : Inv w)
    (ticked : w.onTimerUpdate fromUtf8 = some next) : Inv next := by
  obtain ⟨time, value, controller, same⟩ := timerUpdate_some ticked
  obtain ⟨first, members, apart⟩ := offerAll_data (withAll w.threadIdComboBox)
    (w.controller.threads.entries.map fun infos => (infos.threadId, entryLabel fromUtf8 infos))
  rw [same, controller]
  constructor
  case loaded => exact inv.loaded
  case listed => exact inv.listed
  case ascending => exact inv.ascending
  case shaped => exact inv.shaped
  case threads => exact List.prefix_rfl
  case apart =>
    refine apart ?_
    by_cases none : w.threadIdComboBox.items = []
    · rw [withAll_none none (inv.noCurrent none)]
      exact List.nodup_singleton _
    · rw [withAll_some none]
      exact inv.apart
  case current =>
    intro i current
    simp only [refreshThreads_eq] at current ⊢
    rw [(offerAll_current (withAll_items _) _).1] at current
    have grows := first.length_le
    simp only [QComboBox.listData, List.length_map] at grows
    refine Nat.lt_of_lt_of_le ?_ grows
    by_cases none : w.threadIdComboBox.items = []
    · rw [withAll_none none (inv.noCurrent none)] at current ⊢
      cases current
      exact Nat.one_pos
    · rw [withAll_some none] at current ⊢
      exact inv.current i current
  case ids =>
    intro threadId member
    rcases (members _).mp member with old | new
    · by_cases none : w.threadIdComboBox.items = []
      · rw [withAll_none none (inv.noCurrent none)] at old
        exact .inl (by simpa [QComboBox.listData] using old)
      · rw [withAll_some none] at old
        exact inv.ids threadId old
    · exact .inr (mem_offered.mp new)

theorem filterButtonClicked_inv {w : Window} (inv : Inv w) : Inv w.onFilterButtonClicked := by
  obtain ⟨operations, threads, rows⟩ := filterButtonClicked_rows w
  constructor
  case loaded => simp [Window.onFilterButtonClicked, fetchTo]
  case listed =>
    intro i member
    rw [rows] at member
    rw [operations]
    exact List.mem_range.mp (List.mem_filter.mp member).1
  case ascending =>
    rw [rows]
    exact List.pairwise_lt_range.filter _
  case shaped => exact inv.shaped
  case threads => exact inv.threads
  case apart => exact inv.apart
  case current => exact inv.current
  case ids => exact inv.ids

theorem threadInfosDoubleClicked_inv {w : Window} (inv : Inv w) (row : Nat) :
    Inv (w.onThreadInfosDoubleClicked row) := by
  rw [Window.onThreadInfosDoubleClicked]
  split
  · exact { inv with current := by simp [QComboBox.edit] }
  · exact inv

theorem edit_inv {w : Window} (inv : Inv w) (e : Edit) : Inv (w.edit e) := by
  have data : (w.edit e).threadIdComboBox.listData = w.threadIdComboBox.listData ++ List.replicate e.typed.length none := by
    simp [Window.edit, QComboBox.listData, Function.comp_def]
  constructor
  case loaded => exact inv.loaded
  case listed => exact inv.listed
  case ascending => exact inv.ascending
  case shaped => exact inv.shaped
  case threads => exact inv.threads
  case apart =>
    rw [data, List.filter_append, List.filter_replicate_of_neg (by simp), List.append_nil]
    exact inv.apart
  case current =>
    intro i current
    simpa [Window.edit] using (Option.filter_eq_some_iff.mp current).2
  case ids =>
    intro threadId member
    rw [data, List.mem_append] at member
    rcases member with old | typed
    · exact inv.ids threadId old
    · simp at typed

theorem step_inv (fromUtf8 : List UInt8 → List Char) (w : Window) (e : Event) (next : Window) (inv : Inv w)
    (stepped : step fromUtf8 w e = some next) : Inv next := by
  cases e with
  | handler call =>
    cases stepped
    exact handle_inv inv call
  | timerUpdate => exact timerUpdate_inv inv stepped
  | filterButtonClicked =>
    cases stepped
    exact filterButtonClicked_inv inv
  | threadInfosDoubleClicked row =>
    cases stepped
    exact threadInfosDoubleClicked_inv inv row
  | edit e =>
    cases stepped
    exact edit_inv inv e

theorem run_inv {fromUtf8 : List UInt8 → List Char} {events : List Event} {w : Window}
    (ran : run (step fromUtf8) Window.fresh events = some w) : Inv w :=
  run_keeps (step_inv fromUtf8) fresh_inv ran

/-! ## The rows of the operations -/

/-- Events that leave the rows: no search, and no new connection. -/
def Quiet : Event → Prop
  | .handler .newConnection | .filterButtonClicked => False
  | _ => True

/-- The operations at the places that are found. -/
theorem found_operations (accepts : MemoryOperation → Bool) (objects : List MemoryOperation) :
    ((List.range objects.length).filter fun i => objects[i]?.any accepts).map (fun i => objects[i]?) =
      (objects.filter accepts).map some := by
  simpa using BlockLists.map_filter_range accepts id objects

/-- What quiet events keep of the list of operations. -/
structure Shows (found : List Nat) (objects : List MemoryOperation) (w : Window) : Prop where
  rows : w.controller.listFilterMemoryOperation = found
  loaded : w.loadedCount = found.length
  kept : Kept objects w.controller.operations.listMemoryOperation

theorem step_shows {fromUtf8 : List UInt8 → List Char} {places : List Nat} {objects : List MemoryOperation}
    (w : Window) (e : Event) (next : Window) (shows : Shows places objects w) (quiet : Quiet e)
    (stepped : step fromUtf8 w e = some next) : Shows places objects next := by
  cases e with
  | handler call =>
    cases stepped
    have inSession : call ≠ .newConnection := by
      rintro rfl
      exact quiet
    rw [window_handle inSession]
    exact ⟨(handle_lists w.controller inSession).1.trans shows.rows, shows.loaded,
      shows.kept.trans (handle_kept w.controller inSession)⟩
  | timerUpdate =>
    obtain ⟨time, value, controller, same⟩ := timerUpdate_some stepped
    rw [same, controller]
    exact ⟨shows.rows, shows.loaded, shows.kept⟩
  | filterButtonClicked => exact absurd quiet id
  | threadInfosDoubleClicked row =>
    cases stepped
    rw [Window.onThreadInfosDoubleClicked]
    split <;> exact ⟨shows.rows, shows.loaded, shows.kept⟩
  | edit e =>
    cases stepped
    exact ⟨shows.rows, shows.loaded, shows.kept⟩

theorem Shows.at {places : List Nat} {objects : List MemoryOperation} {w : Window} (shows : Shows places objects w)
    {row : Nat} {operation : MemoryOperation} (listed : (places[row]?).bind (fun i => objects[i]?) = some operation) :
    ∃ after, w.memoryOperationAt row = some after ∧ Later operation after := by
  obtain ⟨i, here, object⟩ := Option.bind_eq_some_iff.mp listed
  obtain ⟨after, there, later⟩ := shows.kept i operation object
  obtain ⟨inside, _⟩ := List.getElem?_eq_some_iff.mp here
  refine ⟨after, ?_, later⟩
  rw [Window.memoryOperationAt, if_pos (by rw [shows.loaded]; exact Int.ofNat_lt.mpr inside), shows.rows, here]
  exact there

/-- What a search finds stays in the rows, in order, whatever comes in until the next
    search or connection: as many rows, each with the texts that it had, and a row changes
    its colour only from that of a block in use to that of one given back. -/
theorem rows_stay {fromUtf8 : List UInt8 → List Char} {w final : Window} {later : List Event}
    (quiet : ∀ e ∈ later, Quiet e) (ran : run (step fromUtf8) w (.filterButtonClicked :: later) = some final) :
    let found := w.controller.operations.listMemoryOperation.filter w.listView.criteria.accepts
    final.loadedCount = found.length ∧
    ∀ (row : Nat) before, found[row]? = some before → ∃ after, final.memoryOperationAt row = some after ∧
      (∀ column, memoryOperationText after column = memoryOperationText before column) ∧
      (memoryOperationColor after = memoryOperationColor before ∨
        memoryOperationColor before = red ∧ memoryOperationColor after = green) := by
  intro found
  obtain ⟨next, stepped, ran⟩ := run_cons_some.mp ran
  cases stepped
  obtain ⟨operations, _, rows⟩ := filterButtonClicked_rows w
  have start : Shows _ w.controller.operations.listMemoryOperation w.onFilterButtonClicked :=
    ⟨rows, by rw [← rows]; simp [Window.onFilterButtonClicked, fetchTo], by rw [operations]; exact Kept.refl _⟩
  have shows := run_invariant step_shows start (meets_of_forall quiet _) ran
  have places := found_operations w.listView.criteria.accepts w.controller.operations.listMemoryOperation
  constructor
  · rw [shows.loaded]
    simpa using congrArg List.length places
  · intro row before here
    have listed := congrArg (fun places => places[row]?) places
    simp only [List.getElem?_map, show (List.filter _ _)[row]? = some before from here, Option.map_some] at listed
    obtain ⟨i, place, object⟩ := Option.map_eq_some_iff.mp listed
    obtain ⟨after, there, changed⟩ := @Shows.at _ _ _ shows row before (by rw [place]; exact object)
    exact ⟨after, there, changed.text, changed.color⟩

/-- A free turns the row of its block from red to green. -/
theorem rows_stay_freed :
    ∃ final after, run (step fun _ => [])
        (Window.fresh.handle (.memoryOperation ⟨⟨5, 20⟩, 7, .malloc, 3, 64, 4096, 1, 0, false, none⟩))
        [.filterButtonClicked, .handler (.memoryOperation ⟨⟨5, 21⟩, 8, .free, 3, 0, 0, 0, 4096, false, none⟩)] =
          some final ∧
      final.loadedCount = 1 ∧ final.memoryOperationAt 0 = some after ∧
      memoryOperationColor ⟨⟨5, 20⟩, 7, .malloc, 3, 64, 4096, 1, 0, false, none⟩ = red ∧
      memoryOperationColor after = green := by
  obtain ⟨loaded, rows⟩ := @rows_stay (fun _ => [])
    (Window.fresh.handle (.memoryOperation ⟨⟨5, 20⟩, 7, .malloc, 3, 64, 4096, 1, 0, false, none⟩)) _
    [.handler (.memoryOperation ⟨⟨5, 21⟩, 8, .free, 3, 0, 0, 0, 4096, false, none⟩)] (by simp [Quiet]) rfl
  obtain ⟨after, there, _, _⟩ := rows 0 _ rfl
  refine ⟨_, after, rfl, loaded, there, rfl, ?_⟩
  cases there
  rfl

/-! ## Opening a thread -/

/-- A double click opens the thread that its row shows, though the row may come from an
    older list: the widgets then ask for its id and its time, as long as the text of that
    time is the one of seconds and microseconds. -/
theorem opens_shown {fromUtf8 : List UInt8 → List Char} {events : List Event} {w : Window}
    (ran : run (step fromUtf8) Window.fresh events = some w) {row : Nat} {infos : ThreadInfos}
    (shown : w.threadInfosAt row = some infos) (creation : Proper infos.tvCreation)
    (termination : Proper infos.tvTermination) :
    (w.onThreadInfosDoubleClicked row).listView.criteria =
      ⟨infos.threadId, infos.tvCreation, infos.tvTermination, w.notFreeOnlyCheckBox⟩ := by
  obtain ⟨i, place, object⟩ := Option.bind_eq_some_iff.mp shown
  obtain ⟨later, whole⟩ := (run_inv ran).threads
  have here : w.controller.threads.listThreadInfos[row]? = some i := by
    obtain ⟨inside, _⟩ := List.getElem?_eq_some_iff.mp place
    rw [← whole, List.getElem?_append_left inside, place]
  have opened : (w.controller.threads.listThreadInfos[row]?).bind (fun i => w.controller.threads.objects[i]?) =
      some infos := by rw [here]; exact object
  rw [Window.onThreadInfosDoubleClicked, opened]
  have id := toULong_number infos.threadId.toNat_lt
  simp [MemoryOperationListView.criteria, Window.listView, QComboBox.edit, textToTimeval_timevalToText creation,
    textToTimeval_timevalToText termination, id]

/-- A thread that is opened from the list of the last tick. -/
theorem opens_shown_created :
    ∃ w, run (step fun _ => []) Window.fresh
        [.handler (.threadOperation ⟨⟨5, 20⟩, 7, .pthreadCreate, 3, 9, []⟩), .timerUpdate] = some w ∧
      (w.onThreadInfosDoubleClicked 0).listView.criteria = ⟨9, ⟨5, 20⟩, ⟨0, 0⟩, false⟩ := by
  refine ⟨_, rfl, @opens_shown (fun _ => [])
    [.handler (.threadOperation ⟨⟨5, 20⟩, 7, .pthreadCreate, 3, 9, []⟩), .timerUpdate] _ rfl 0 _ rfl ?_ ?_⟩
  · exact ⟨by decide, by decide, by decide⟩
  · exact ⟨by decide, by decide, by decide⟩

/-! ## Choosing a thread -/

/-- After a tick the combo box offers each thread of the session once, under the label of
    the last entry with its id. -/
theorem tick_offers {fromUtf8 : List UInt8 → List Char} {events : List Event} {w next : Window}
    (ran : run (step fromUtf8) Window.fresh events = some w) (ticked : w.onTimerUpdate fromUtf8 = some next) :
    (∀ before infos later, w.controller.threads.entries = before ++ infos :: later →
      (∀ other ∈ later, other.threadId ≠ infos.threadId) →
      ∃ i : Nat, next.threadIdComboBox.items[i]? = some ⟨entryLabel fromUtf8 infos, some infos.threadId⟩) ∧
    (∀ threadId, threadId ≠ 0 →
      (some threadId ∈ next.threadIdComboBox.listData ↔ threadId ∈ threadIds w.controller.threads)) ∧
    ∀ (i j : Nat) threadId, next.threadIdComboBox.listData[i]? = some (some threadId) →
      next.threadIdComboBox.listData[j]? = some (some threadId) → i = j := by
  have inv := run_inv ran
  have inv' := timerUpdate_inv inv ticked
  obtain ⟨time, value, controller, same⟩ := timerUpdate_some ticked
  have box : next.threadIdComboBox = refreshThreads fromUtf8 w.controller.threads w.threadIdComboBox := by rw [same]
  have threads : next.controller.threads = w.controller.threads := by rw [controller]
  refine ⟨?_, ?_, ?_⟩
  · intro before infos later entries last
    rw [box, refreshThreads_eq, entries, List.map_append, List.map_cons]
    exact offerAll_latest _ _ _ _ _ (by simpa using last)
  · intro threadId nonzero
    constructor
    · intro member
      exact threads ▸ (inv'.ids threadId member).resolve_left nonzero
    · intro known
      rw [box, refreshThreads_eq]
      exact ((offerAll_data _ _).2.1 _).mpr (.inr (mem_offered.mpr known))
  · intro i j threadId first second
    have apart := List.pairwise_filter.mp inv'.apart
    obtain ⟨insideI, atI⟩ := List.getElem?_eq_some_iff.mp first
    obtain ⟨insideJ, atJ⟩ := List.getElem?_eq_some_iff.mp second
    rcases Nat.lt_trichotomy i j with less | equal | more
    · exact absurd (atI.trans atJ.symm)
        (List.pairwise_iff_getElem.mp apart i j insideI insideJ less (by rw [atI]; rfl) (by rw [atJ]; rfl))
    · exact equal
    · exact absurd (atJ.trans atI.symm)
        (List.pairwise_iff_getElem.mp apart j i insideJ insideI more (by rw [atJ]; rfl) (by rw [atI]; rfl))

/-- A thread that has been created is offered under its id. -/
theorem tick_offers_created :
    ∃ w next, run (step fun _ => []) Window.fresh
        [.handler (.threadOperation ⟨⟨5, 20⟩, 7, .pthreadCreate, 3, 9, []⟩)] = some w ∧
      w.onTimerUpdate (fun _ => []) = some next ∧ some 9 ∈ next.threadIdComboBox.listData := by
  refine ⟨_, _, rfl, rfl, ((@tick_offers (fun _ => [])
    [.handler (.threadOperation ⟨⟨5, 20⟩, 7, .pthreadCreate, 3, 9, []⟩)] _ _ rfl rfl).2.1 9 (by decide)).mpr ?_⟩
  decide

/-- Events of the program and of the timer, and searches. -/
def Automatic : Event → Prop
  | .handler .newConnection | .threadInfosDoubleClicked _ | .edit _ => False
  | _ => True

/-- The data of the current item, as the search reads it. -/
def currentData (box : QComboBox UInt64) : Option UInt64 :=
  box.currentIndex.map fun i => ((box.items[i]?).bind Item.data).getD 0

/-- The thread that the search reads from the box. -/
def chosen (box : QComboBox UInt64) : UInt64 := (currentData box).getD (toULong box.currentText)

theorem criteria_eq (w : Window) :
    w.listView.criteria = ⟨chosen w.threadIdComboBox, textToTimeval w.timeStampMinLineEdit ⟨0, 0⟩,
      textToTimeval w.timeStampMaxLineEdit ⟨0, 0⟩, w.notFreeOnlyCheckBox⟩ := by
  simp only [MemoryOperationListView.criteria, Window.listView, chosen, currentData]
  cases w.threadIdComboBox.currentIndex <;> rfl

/-- Offering threads leaves the choice. -/
theorem offerAll_chosen {box : QComboBox UInt64} (some : box.items ≠ [])
    (current : ∀ i ∈ box.currentIndex, i < box.items.length) (pairs : List (UInt64 × List Char)) :
    chosen (box.offerAll pairs) = chosen box := by
  obtain ⟨index, text⟩ := offerAll_current some pairs
  rw [chosen, chosen, currentData, currentData, index]
  cases isCurrent : box.currentIndex with
  | none => simp [text isCurrent]
  | some i =>
    have here := List.getElem?_eq_getElem (current i isCurrent)
    obtain ⟨later, there, same, _⟩ := offerAll_kept box pairs here
    simp [here, there, same]

/-- A tick chooses all threads where there was nothing to choose from. -/
theorem refreshThreads_chosen (fromUtf8 : List UInt8 → List Char) {w : Window} (inv : Inv w) (t : ThreadTable) :
    (refreshThreads fromUtf8 t w.threadIdComboBox).items ≠ [] ∧
      chosen (refreshThreads fromUtf8 t w.threadIdComboBox) =
        if w.threadIdComboBox.items = [] then 0 else chosen w.threadIdComboBox := by
  rw [refreshThreads_eq]
  generalize (t.entries.map fun infos => (infos.threadId, entryLabel fromUtf8 infos)) = pairs
  constructor
  · intro none
    have grows := (offerAll_data (withAll w.threadIdComboBox) pairs).1.length_le
    simp only [QComboBox.listData, none, List.length_map, List.length_nil, Nat.le_zero] at grows
    exact withAll_items _ (List.eq_nil_of_length_eq_zero grows)
  · by_cases none : w.threadIdComboBox.items = []
    · rw [if_pos none, withAll_none none (inv.noCurrent none), offerAll_chosen (by simp) (by simp)]
      rfl
    · rw [if_neg none, withAll_some none, offerAll_chosen none inv.current]

theorem tick_criteria {fromUtf8 : List UInt8 → List Char} {w next : Window} (inv : Inv w)
    (ticked : w.onTimerUpdate fromUtf8 = some next) :
    next.threadIdComboBox.items ≠ [] ∧
      next.listView.criteria =
        if w.threadIdComboBox.items = [] then { w.listView.criteria with threadId := 0 } else w.listView.criteria := by
  obtain ⟨time, value, controller, same⟩ := timerUpdate_some ticked
  obtain ⟨some, choice⟩ := refreshThreads_chosen fromUtf8 inv w.controller.threads
  rw [same]
  refine ⟨some, ?_⟩
  rw [criteria_eq, criteria_eq]
  dsimp only
  rw [choice]
  split <;> rfl

/-- What a window still asks for when another one has come of it. -/
def StillAsks (w s : Window) : Prop :=
  (s.listView.criteria = w.listView.criteria ∧ (w.threadIdComboBox.items ≠ [] → s.threadIdComboBox.items ≠ [])) ∨
    w.threadIdComboBox.items = [] ∧ s.threadIdComboBox.items ≠ [] ∧
      s.listView.criteria = { w.listView.criteria with threadId := 0 }

/-- What the user chose stays chosen, until the user chooses again or a new connection
    comes: no message, tick or search changes what the next search asks for. The first
    tick alone chooses for the user, all threads. -/
theorem choice_kept {fromUtf8 : List UInt8 → List Char} {events later : List Event} {w final : Window}
    (ran : run (step fromUtf8) Window.fresh events = some w) (automatic : ∀ e ∈ later, Automatic e)
    (ran' : run (step fromUtf8) w later = some final) :
    final.listView.criteria = w.listView.criteria ∨
      w.threadIdComboBox.items = [] ∧ final.listView.criteria = { w.listView.criteria with threadId := 0 } := by
  have start : Inv w ∧ StillAsks w w := ⟨run_inv ran, .inl ⟨rfl, id⟩⟩
  have kept : Inv final ∧ StillAsks w final := by
    refine run_invariant (?_ : ∀ s e next, Inv s ∧ StillAsks w s → Automatic e → step fromUtf8 s e = some next →
      Inv next ∧ StillAsks w next) start (meets_of_forall automatic _) ran'
    rintro s e next ⟨inv, chosen⟩ automatic stepped
    refine ⟨step_inv fromUtf8 s e next inv stepped, ?_⟩
    cases e with
    | handler call =>
      cases stepped
      have inSession : call ≠ .newConnection := by
        rintro rfl
        exact automatic
      rwa [window_handle inSession]
    | timerUpdate =>
      obtain ⟨some, criteria⟩ := tick_criteria inv stepped
      rcases chosen with ⟨same, still⟩ | ⟨none, some', all⟩
      · by_cases empty : s.threadIdComboBox.items = []
        · rw [if_pos empty, same] at criteria
          exact .inr ⟨by_contra fun more => still more empty, some, criteria⟩
        · rw [if_neg empty, same] at criteria
          exact .inl ⟨criteria, fun _ => some⟩
      · rw [if_neg some', all] at criteria
        exact .inr ⟨none, some, criteria⟩
    | filterButtonClicked =>
      cases stepped
      exact chosen
    | threadInfosDoubleClicked row => exact absurd automatic id
    | edit e => exact absurd automatic id
  rcases kept.2 with ⟨same, _⟩ | ⟨none, _, all⟩
  · exact .inl same
  · exact .inr ⟨none, all⟩

/-- A thread comes after the first tick, and the next tick leaves all threads chosen. -/
theorem choice_kept_created :
    ∃ w final, run (step fun _ => []) Window.fresh [.timerUpdate] = some w ∧
      run (step fun _ => []) w
        [.handler (.threadOperation ⟨⟨5, 20⟩, 7, .pthreadCreate, 3, 9, []⟩), .timerUpdate] = some final ∧
      (final.listView.criteria = w.listView.criteria ∨
        w.threadIdComboBox.items = [] ∧ final.listView.criteria = { w.listView.criteria with threadId := 0 }) := by
  refine ⟨_, _, rfl, rfl, @choice_kept (fun _ => []) [.timerUpdate]
    [.handler (.threadOperation ⟨⟨5, 20⟩, 7, .pthreadCreate, 3, 9, []⟩), .timerUpdate] _ _ rfl ?_ rfl⟩
  simp [Automatic]

/-! ## The chart -/

/-- Within a session the memory operations come in the order of their seconds, which are
    positive and not the last one of a counter. -/
def InOrder : UInt64 → List Event → Prop
  | _, [] => True
  | last, .handler (.memoryOperation operation) :: rest =>
    0 < operation.tvOperation.tvSec.toUInt64 ∧ operation.tvOperation.tvSec.toUInt64.toNat < 2 ^ 64 - 1 ∧
      last ≤ operation.tvOperation.tvSec.toUInt64 ∧ InOrder operation.tvOperation.tvSec.toUInt64 rest
  | _, .handler .newConnection :: rest => InOrder 0 rest
  | last, _ :: rest => InOrder last rest

/-- The points are those of samples that fit what is recorded, up to some second. -/
structure Charted (last : UInt64) (w : Window) : Prop where
  exported : ∃ samples, w.memoryUsageView.lineSeries = samples.map Chart.point ∧ Chart.Exported w.controller samples
  before : w.controller.globalStats.memoryUsage.lastTime ≤ last

theorem exported_congr {c c' : Controller} {samples : List (UInt64 × UInt64)} (exported : Chart.Exported c samples)
    (usage : c'.globalStats.memoryUsage = c.globalStats.memoryUsage) (time : c'.lastUpdateTime = c.lastUpdateTime)
    (value : c'.lastUpdateValue = c.lastUpdateValue) : Chart.Exported c' samples := by
  constructor
  case started => exact usage ▸ exported.started
  case covers => exact usage ▸ exported.covers
  case bounded => exact usage ▸ exported.bounded
  case drawn =>
    rw [usage, time]
    exact exported.drawn
  case recorded => exact usage ▸ exported.recorded
  case sorted => exact exported.sorted
  case within =>
    rw [time]
    exact exported.within
  case shown =>
    rw [usage, time, value]
    exact exported.shown

/-- What leaves the usage and the points keeps the chart. -/
theorem Charted.congr {last : UInt64} {w next : Window} (charted : Charted last w)
    (series : next.memoryUsageView.lineSeries = w.memoryUsageView.lineSeries)
    (usage : next.controller.globalStats.memoryUsage = w.controller.globalStats.memoryUsage)
    (time : next.controller.lastUpdateTime = w.controller.lastUpdateTime)
    (value : next.controller.lastUpdateValue = w.controller.lastUpdateValue) : Charted last next := by
  obtain ⟨samples, points, exported⟩ := charted.exported
  exact ⟨⟨samples, series.trans points, exported_congr exported usage time value⟩, usage ▸ charted.before⟩

theorem timerUpdate_exported (fromUtf8 : List UInt8 → List Char) {w : Window} {samples : List (UInt64 × UInt64)}
    (points : w.memoryUsageView.lineSeries = samples.map Chart.point) (exported : Chart.Exported w.controller samples) :
    ∃ next samples', w.onTimerUpdate fromUtf8 = some next ∧
      next.memoryUsageView.lineSeries = samples'.map Chart.point ∧ Chart.Exported next.controller samples' ∧
      Chart.UpToDate next.controller samples' ∧ next.controller.globalStats = w.controller.globalStats := by
  obtain ⟨c, view, samples', ticked, points', exported', upToDate, stats⟩ :=
    Chart.onTimerUpdate_exported points exported
  rw [Window.onTimerUpdate, ticked]
  exact ⟨_, samples', rfl, points', exported', upToDate, stats⟩

/-- Every event is possible, and keeps the chart. -/
theorem step_charted (fromUtf8 : List UInt8 → List Char) {last : UInt64} {w : Window} (charted : Charted last w)
    {e : Event} {rest : List Event} (inOrder : InOrder last (e :: rest)) :
    ∃ next last', step fromUtf8 w e = some next ∧ Charted last' next ∧ InOrder last' rest := by
  cases e with
  | handler call =>
    cases call with
    | newConnection =>
      refine ⟨_, 0, rfl, ⟨⟨[], rfl, ?_⟩, UInt64.le_refl _⟩, inOrder⟩
      exact Chart.opened_exported (Chart.newConnection_opened w.controller w.memoryUsageView.chartRange)
    | memoryOperation operation =>
      obtain ⟨positive, bounded, later, inOrder⟩ := inOrder
      obtain ⟨usage, time, value⟩ := Chart.addMemoryOperation_usage w.controller operation
      obtain ⟨samples, points, exported⟩ := charted.exported
      refine ⟨_, _, rfl, ⟨⟨samples, points, ?_⟩, ?_⟩, inOrder⟩
      · exact exported_congr (Chart.update_exported exported positive bounded
          (UInt64.le_trans charted.before later)) usage time value
      · show (w.controller.addMemoryOperation operation).globalStats.memoryUsage.lastTime ≤ _
        rw [usage]
        show (w.controller.globalStats.memoryUsage.update _ _).lastTime ≤ _
        rcases Usage.update_last w.controller.globalStats.memoryUsage operation.tvOperation.tvSec.toUInt64
          (w.controller.addMemoryOperation operation).globalStats.totalRemainingSize with now | before
        · rw [now]
          exact UInt64.le_refl _
        · rw [before]
          exact UInt64.le_trans charted.before later
    | threadOperation operation => exact ⟨_, last, rfl, charted.congr rfl rfl rfl rfl, inOrder⟩
    | backtrace backtrace => exact ⟨_, last, rfl, charted.congr rfl rfl rfl rfl, inOrder⟩
    | symbolInfos symbolInfos => exact ⟨_, last, rfl, charted.congr rfl rfl rfl rfl, inOrder⟩
  | timerUpdate =>
    obtain ⟨samples, points, exported⟩ := charted.exported
    obtain ⟨next, samples', ticked, points', exported', _, stats⟩ := timerUpdate_exported fromUtf8 points exported
    refine ⟨next, last, ticked, ⟨⟨samples', points', exported'⟩, ?_⟩, inOrder⟩
    rw [stats]
    exact charted.before
  | filterButtonClicked => exact ⟨_, last, rfl, charted.congr rfl rfl rfl rfl, inOrder⟩
  | threadInfosDoubleClicked row =>
    refine ⟨_, last, rfl, ?_, inOrder⟩
    rw [Window.onThreadInfosDoubleClicked]
    split <;> exact ⟨charted.exported, charted.before⟩
  | edit e => exact ⟨_, last, rfl, ⟨charted.exported, charted.before⟩, inOrder⟩

theorem run_charted (fromUtf8 : List UInt8 → List Char) {events : List Event} {last : UInt64} {w : Window}
    (charted : Charted last w) (inOrder : InOrder last events) :
    ∃ final last', run (step fromUtf8) w events = some final ∧ Charted last' final := by
  induction events generalizing last w with
  | nil => exact ⟨w, last, rfl, charted⟩
  | cons e rest ih =>
    obtain ⟨next, last', stepped, charted', inOrder'⟩ := step_charted fromUtf8 charted inOrder
    obtain ⟨final, last'', ran, charted''⟩ := ih charted' inOrder'
    exact ⟨final, last'', run_cons_some.mpr ⟨next, stepped, ran⟩, charted''⟩

/-- The window never hangs in a tick while the operations of each session come in the order
    of their seconds; and each tick leaves every recorded second drawn with its value, if
    and only if a double can have all of these numbers. -/
theorem ticks_end (fromUtf8 : List UInt8 → List Char) {events : List Event} (inOrder : InOrder 0 events) :
    ∃ w next, run (step fromUtf8) Window.fresh events = some w ∧ w.onTimerUpdate fromUtf8 = some next ∧
      (next.memoryUsageView.lineSeries.Pairwise fun point later => point.1.val ≤ later.1.val) ∧
      ((∀ timestamp, w.controller.globalStats.memoryUsage.contains timestamp = true →
          Chart.shown next.memoryUsageView.lineSeries timestamp =
            some ((w.controller.globalStats.memoryUsage.value timestamp).toNat : Int)) ↔
        ∀ timestamp, w.controller.globalStats.memoryUsage.contains timestamp = true →
          Chart.Exact timestamp ∧ Chart.Exact (w.controller.globalStats.memoryUsage.value timestamp)) := by
  have start : Charted 0 Window.fresh :=
    ⟨⟨[], rfl, Chart.opened_exported (Chart.fresh_opened none)⟩, UInt64.le_refl _⟩
  obtain ⟨w, last, ran, charted⟩ := run_charted fromUtf8 start inOrder
  obtain ⟨samples, points, exported⟩ := charted.exported
  obtain ⟨next, samples', ticked, points', exported', upToDate, stats⟩ :=
    timerUpdate_exported fromUtf8 points exported
  have shown := upToDate.shown_iff exported'
  rw [stats] at shown
  refine ⟨w, next, ran, ticked, ?_, ?_⟩
  · rw [points']
    exact exported'.sorted.points
  · rw [points']
    exact shown

/-- A tick between two operations, the second of which comes after a new connection. -/
theorem ticks_end_reconnected :
    ∃ w next, run (step fun _ => []) Window.fresh
        [.handler (.memoryOperation ⟨⟨5, 20⟩, 7, .malloc, 3, 64, 4096, 1, 0, false, none⟩), .timerUpdate,
          .handler .newConnection,
          .handler (.memoryOperation ⟨⟨2, 20⟩, 1, .malloc, 3, 64, 4096, 1, 0, false, none⟩)] = some w ∧
      w.onTimerUpdate (fun _ => []) = some next := by
  obtain ⟨w, next, ran, ticked, _⟩ := ticks_end (fun _ => [])
    (show InOrder 0 [.handler (.memoryOperation ⟨⟨5, 20⟩, 7, .malloc, 3, 64, 4096, 1, 0, false, none⟩), .timerUpdate,
      .handler .newConnection, .handler (.memoryOperation ⟨⟨2, 20⟩, 1, .malloc, 3, 64, 4096, 1, 0, false, none⟩)] from
    ⟨by decide, by decide, by decide, by decide, by decide, by decide, trivial⟩)
  exact ⟨w, next, ran, ticked⟩

end Aleakd.Widgets
