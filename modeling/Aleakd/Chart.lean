import Aleakd.Controller
import Aleakd.Loops
import Aleakd.Rounding
import Aleakd.Usage

/-!
The chart of the remaining size, which `onTimerUpdate` extends by what has been recorded
since it last did. It goes on from the second that it drew last, draws that one again
where its value has changed, and collects the new points in a `MemoryUsage` of its own
before it appends them. Every recorded second is drawn with the value recorded for it, as
far as both are numbers that a double can have.
-/
namespace Aleakd.Chart
open Aleakd.Operations Aleakd.Stats Aleakd.ApplicationWindow Aleakd.Usage Aleakd.Loops Aleakd.Runs Aleakd.Rounding

/-- A `qreal`, which is a double; those that integers become are integers. -/
abbrev QReal := Binary 53

/-- The conversion of an integer, to the nearest. -/
def qreal (z : Int) : QReal := ⟨roundInt 53 z, roundInt_roundInt (by decide) z⟩

/-- What is passed to `updateChartRange`. -/
structure ChartRange where
  xMin : QReal
  xMax : QReal
  yMin : QReal
  yMax : QReal

/-- `QMemoryUsageView`: the points of the line series, and the range of the axes, once it
    is set. -/
structure MemoryUsageView where
  lineSeries : List (QReal × QReal)
  chartRange : Option ChartRange

/-- The point that `append` makes of a second and a size. -/
def point (sample : UInt64 × UInt64) : QReal × QReal := (qreal sample.1.toNat, qreal sample.2.toNat)

/-- One round of the loop that collects what is to be drawn, in the usage and the last size
    of a tick. -/
def collect (c : Controller) (i : UInt64) : MemoryUsage × UInt64 → MemoryUsage × UInt64
  | (memoryUsageUpdate, lastSize) =>
    if c.globalStats.memoryUsage.contains i then
      let size := c.globalStats.memoryUsage.value i
      (if i = c.lastUpdateTime then
        if c.lastUpdateValue ≠ size then memoryUsageUpdate.update i size else memoryUsageUpdate
      else memoryUsageUpdate.update i size, size)
    else (memoryUsageUpdate, lastSize)

/-- The part of `onTimerUpdate` under the lock: the usage to draw, and the controller that
    remembers how far it goes. -/
def collectUsage (c : Controller) : Option (MemoryUsage × Controller) :=
  let startTime := if c.lastUpdateTime = 0 then c.globalStats.memoryUsage.firstTime else c.lastUpdateTime
  if startTime ≠ 0 then
    (forUpTo startTime c.globalStats.memoryUsage.lastTime (collect c) (MemoryUsage.empty, 0)).map
      fun (memoryUsageUpdate, lastSize) =>
        (memoryUsageUpdate,
          if memoryUsageUpdate.count > 0 then
            { c with lastUpdateTime := memoryUsageUpdate.lastTime, lastUpdateValue := lastSize }
          else c)
  else some (MemoryUsage.empty, c)

/-- One round of the loop that draws. -/
def draw (c : Controller) (memoryUsageUpdate : MemoryUsage) (i : UInt64) (view : MemoryUsageView) : MemoryUsageView :=
  if memoryUsageUpdate.contains i then
    { lineSeries := view.lineSeries ++ [point (i, memoryUsageUpdate.value i)]
      chartRange := some ⟨qreal c.globalStats.tvStartTime.tvSec.toInt, qreal i.toNat, qreal 0,
        qreal c.globalStats.peakRemainingSize.toNat⟩ }
  else view

def drawUsage (c : Controller) (memoryUsageUpdate : MemoryUsage) (view : MemoryUsageView) : Option MemoryUsageView :=
  if memoryUsageUpdate.count ≠ 0 then
    forUpTo memoryUsageUpdate.firstTime memoryUsageUpdate.lastTime (draw c memoryUsageUpdate) view
  else some view

/-- `onTimerUpdate`, less the texts of the other views; `none` where a loop does not end. -/
def onTimerUpdate (c : Controller) (view : MemoryUsageView) : Option (Controller × MemoryUsageView) :=
  (collectUsage { c with listFilterThreadInfos := c.threads.listThreadInfos }).bind fun (memoryUsageUpdate, c) =>
    (drawUsage c memoryUsageUpdate view).map fun view => (c, view)

/-! ## Runs -/

/-- What happens to the usage of a session: a size is recorded, or the timer ticks. -/
inductive Event where
  | update (timestamp size : UInt64)
  | tick

def updateUsage (c : Controller) (timestamp size : UInt64) : Controller :=
  { c with globalStats := { c.globalStats with memoryUsage := c.globalStats.memoryUsage.update timestamp size } }

def step : Controller × MemoryUsageView → Event → Option (Controller × MemoryUsageView)
  | (c, view), .update timestamp size => some (updateUsage c timestamp size, view)
  | (c, view), .tick => onTimerUpdate c view

/-- A memory message is such an update, by the size that then remains. -/
theorem addMemoryOperation_usage (c : Controller) (operation : MemoryOperation) :
    (c.addMemoryOperation operation).globalStats.memoryUsage =
        (updateUsage c operation.tvOperation.tvSec.toUInt64
          (c.addMemoryOperation operation).globalStats.totalRemainingSize).globalStats.memoryUsage ∧
      (c.addMemoryOperation operation).lastUpdateTime = c.lastUpdateTime ∧
      (c.addMemoryOperation operation).lastUpdateValue = c.lastUpdateValue := by
  have coded : ∀ s : MemoryStats, (s.countCode operation).memoryUsage = s.memoryUsage := by
    intro s
    unfold MemoryStats.countCode
    split <;> rfl
  have recorded : ∀ (s : MemoryStats) (freed : Option MemoryOperation),
      (s.addMemoryOperation operation freed).memoryUsage =
        s.memoryUsage.update operation.tvOperation.tvSec.toUInt64
          (s.addMemoryOperation operation freed).totalRemainingSize := by
    intro s freed
    rw [MemoryStats.addMemoryOperation]
    show (MemoryStats.countCode _ operation).memoryUsage =
      s.memoryUsage.update _ (MemoryStats.countCode _ operation).totalRemainingSize
    rw [coded, MemoryStats.countCode_remaining]
    cases freed <;> rfl
  exact ⟨recorded c.globalStats _, rfl, rfl⟩

/-- The updates among the events, in order. -/
def updates : List Event → List Update
  | [] => []
  | .update timestamp size :: rest => (timestamp, size) :: updates rest
  | .tick :: rest => updates rest

/-- A session starts: nothing is recorded and nothing is drawn. -/
structure Opened (c : Controller) (view : MemoryUsageView) : Prop where
  usage : c.globalStats.memoryUsage = MemoryUsage.empty
  update : c.lastUpdateTime = 0
  series : view.lineSeries = []

theorem fresh_opened (chartRange : Option ChartRange) : Opened Controller.fresh ⟨[], chartRange⟩ := ⟨rfl, rfl, rfl⟩

/-- `clearData` also clears the series. -/
theorem newConnection_opened (c : Controller) (chartRange : Option ChartRange) :
    Opened c.onNewConnection ⟨[], chartRange⟩ := ⟨rfl, rfl, rfl⟩

/-! ## Samples

The points as they were before they were made `qreal`. -/

/-- The size of the last sample at a second. -/
def latest (points : List (UInt64 × UInt64)) (timestamp : UInt64) : Option UInt64 :=
  ((points.filter fun point => point.1 = timestamp).getLast?).map Prod.snd

theorem latest_append (first second : List (UInt64 × UInt64)) (timestamp : UInt64) :
    latest (first ++ second) timestamp = (latest second timestamp).or (latest first timestamp) := by
  rw [latest, List.filter_append, List.getLast?_append, Option.map_or]
  rfl

theorem latest_none {points : List (UInt64 × UInt64)} {timestamp : UInt64}
    (absent : ∀ point ∈ points, point.1 ≠ timestamp) : latest points timestamp = none := by
  have empty : points.filter (fun point => point.1 = timestamp) = [] :=
    List.filter_eq_nil_iff.mpr fun point member => by simpa using absent point member
  rw [latest, empty]
  rfl

theorem latest_concat (points : List (UInt64 × UInt64)) (i size timestamp : UInt64) :
    latest (points ++ [(i, size)]) timestamp = if timestamp = i then some size else latest points timestamp := by
  rw [latest_append]
  by_cases same : i = timestamp
  · simp [latest, same]
  · simp [latest, same, Ne.symm same]

/-- The seconds of samples never go back. -/
def Sorted (points : List (UInt64 × UInt64)) : Prop := points.Pairwise fun point later => point.1 ≤ later.1

/-! ## What is collected -/

/-- A second to draw: one that is recorded after the last one drawn, or that one with
    another value. -/
def ToDraw (c : Controller) (timestamp : UInt64) : Prop :=
  timestamp ∈ c.globalStats.memoryUsage.listSizeByTimestamp ∧
    (c.lastUpdateTime < timestamp ∨
      timestamp = c.lastUpdateTime ∧ c.lastUpdateValue ≠ c.globalStats.memoryUsage.value timestamp)

/-- The usage collected before a second, and the last size. -/
structure Collected (c : Controller) (before : Nat) (u : MemoryUsage) (lastSize : UInt64) : Prop where
  mem : ∀ timestamp, timestamp ∈ u.listSizeByTimestamp ↔ timestamp.toNat < before ∧ ToDraw c timestamp
  value : ∀ timestamp ∈ u.listSizeByTimestamp, u.value timestamp = c.globalStats.memoryUsage.value timestamp
  started : Started u
  covers : u.firstTime ≠ 0 → Covers u
  last : ∀ timestamp ∈ c.globalStats.memoryUsage.listSizeByTimestamp, c.lastUpdateTime ≤ timestamp →
    timestamp.toNat < before →
    (∀ later ∈ c.globalStats.memoryUsage.listSizeByTimestamp, timestamp < later → before ≤ later.toNat) →
    lastSize = c.globalStats.memoryUsage.value timestamp

theorem contains_iff (u : MemoryUsage) (timestamp : UInt64) :
    u.contains timestamp = true ↔ timestamp ∈ u.listSizeByTimestamp := by
  rw [MemoryUsage.contains, decide_eq_true_eq]

theorem lt_succ_iff (timestamp i : UInt64) :
    timestamp.toNat < i.toNat + 1 ↔ timestamp.toNat < i.toNat ∨ timestamp = i := by
  rw [← UInt64.toNat_inj]
  omega

/-- A second is put into the usage when it is to be drawn. -/
theorem collect_eq {c : Controller} {i : UInt64} (reached : c.lastUpdateTime ≤ i) (u : MemoryUsage)
    (lastSize : UInt64) [Decidable (ToDraw c i)] :
    collect c i (u, lastSize) =
      (if ToDraw c i then u.update i (c.globalStats.memoryUsage.value i) else u,
        if i ∈ c.globalStats.memoryUsage.listSizeByTimestamp then c.globalStats.memoryUsage.value i else lastSize) := by
  by_cases recorded : i ∈ c.globalStats.memoryUsage.listSizeByTimestamp
  · rw [collect, if_pos ((contains_iff _ _).mpr recorded), if_pos recorded]
    by_cases same : i = c.lastUpdateTime
    · by_cases changed : c.lastUpdateValue ≠ c.globalStats.memoryUsage.value i
      · rw [if_pos (show ToDraw c i from ⟨recorded, .inr ⟨same, changed⟩⟩)]
        simp only [if_pos same, if_pos changed]
      · have drawn : ¬ ToDraw c i := by
          rintro ⟨_, later | ⟨_, changed'⟩⟩
          · exact UInt64.lt_irrefl _ (same ▸ later)
          · exact changed changed'
        rw [if_neg drawn]
        simp only [if_pos same, if_neg changed]
    · have later : c.lastUpdateTime < i := by
        rw [← UInt64.toNat_inj] at same
        rw [UInt64.le_iff_toNat_le] at reached
        rw [UInt64.lt_iff_toNat_lt]
        omega
      rw [if_pos (show ToDraw c i from ⟨recorded, .inl later⟩)]
      simp only [if_neg same]
  · rw [collect, if_neg fun contains => recorded ((contains_iff _ _).mp contains), if_neg recorded,
      if_neg fun draw : ToDraw c i => recorded draw.1]

theorem mem_lt_last {u : MemoryUsage} (started : Started u) (covers : u.firstTime ≠ 0 → Covers u) {bound : Nat}
    (positive : 0 < bound) (below : ∀ timestamp ∈ u.listSizeByTimestamp, timestamp.toNat < bound) :
    u.lastTime.toNat < bound := by
  by_cases first : u.firstTime = 0
  · rw [started first]
    exact positive
  · exact below _ (covers first).last

/-- The last size is that of the last second recorded so far. -/
theorem collect_lastSize {c : Controller} {i : UInt64} {u : MemoryUsage} {lastSize timestamp : UInt64}
    (collected : Collected c i.toNat u lastSize)
    (recorded : timestamp ∈ c.globalStats.memoryUsage.listSizeByTimestamp) (reached : c.lastUpdateTime ≤ timestamp)
    (before : timestamp.toNat < i.toNat + 1)
    (last : ∀ later ∈ c.globalStats.memoryUsage.listSizeByTimestamp, timestamp < later → i.toNat + 1 ≤ later.toNat) :
    (if i ∈ c.globalStats.memoryUsage.listSizeByTimestamp then c.globalStats.memoryUsage.value i else lastSize) =
      c.globalStats.memoryUsage.value timestamp := by
  rcases (lt_succ_iff timestamp i).mp before with before | rfl
  · have absent : i ∉ c.globalStats.memoryUsage.listSizeByTimestamp := by
      intro member
      have later := last i member (UInt64.lt_iff_toNat_lt.mpr before)
      omega
    rw [if_neg absent]
    refine collected.last timestamp recorded reached before ?_
    intro later member after
    have le := last later member after
    omega
  · rw [if_pos recorded]

/-- One round collects its second, if it is to be drawn. -/
theorem collect_collected {c : Controller} {i : UInt64} (reached : c.lastUpdateTime ≤ i) (positive : 0 < i)
    {u : MemoryUsage} {lastSize : UInt64} (collected : Collected c i.toNat u lastSize) :
    Collected c (i.toNat + 1) (collect c i (u, lastSize)).1 (collect c i (u, lastSize)).2 := by
  classical
  rw [collect_eq reached]
  by_cases toDraw : ToDraw c i
  · rw [if_pos toDraw]
    have fresh : i ∉ u.listSizeByTimestamp := by
      intro member
      have before := ((collected.mem i).mp member).1
      omega
    have order : InOrder u (i, c.globalStats.memoryUsage.value i) := by
      intro _
      have before : u.lastTime.toNat < i.toNat := mem_lt_last collected.started collected.covers
        (UInt64.lt_iff_toNat_lt.mp positive) fun timestamp member => ((collected.mem timestamp).mp member).1
      exact UInt64.le_iff_toNat_le.mpr before.le
    have first := started_update collected.started positive (c.globalStats.memoryUsage.value i)
    refine ⟨?_, ?_, fun none => absurd none first, fun _ => ?_, fun _ => collect_lastSize collected⟩
    · intro timestamp
      rw [update_mem, collected.mem, lt_succ_iff]
      constructor
      · rintro (rfl | ⟨before, draw⟩)
        · exact ⟨.inr rfl, toDraw⟩
        · exact ⟨.inl before, draw⟩
      · rintro ⟨before | same, draw⟩
        · exact .inr ⟨before, draw⟩
        · exact .inl same
    · intro timestamp member
      rw [update_value]
      rcases (update_mem _ _ _ _).mp member with rfl | member
      · rw [if_pos ⟨rfl, writes_absent fresh _⟩]
      · have other : timestamp ≠ i := fun same => fresh (same ▸ member)
        rw [if_neg (not_and_of_not_left _ other)]
        exact collected.value timestamp member
    · exact (covers_update collected.started collected.covers (i, _)).mpr order
  · rw [if_neg toDraw]
    refine ⟨?_, collected.value, collected.started, collected.covers, fun _ => collect_lastSize collected⟩
    intro timestamp
    rw [collected.mem, lt_succ_iff]
    constructor
    · rintro ⟨before, draw⟩
      exact ⟨.inl before, draw⟩
    · rintro ⟨before | rfl, draw⟩
      · exact ⟨before, draw⟩
      · exact absurd draw toDraw

/-! ## What is drawn -/

theorem count_eq_zero (u : MemoryUsage) : u.count = 0 ↔ ∀ timestamp, timestamp ∉ u.listSizeByTimestamp := by
  rw [MemoryUsage.count, Finset.card_eq_zero, Finset.eq_empty_iff_forall_notMem]
  simp only [Finmap.mem_keys]

/-- The points drawn for the seconds of a usage before one. -/
structure Drawn (u : MemoryUsage) (before : Nat) (points : List (UInt64 × UInt64)) : Prop where
  of : ∀ point ∈ points, point.1 ∈ u.listSizeByTimestamp ∧ point.1.toNat < before
  sorted : Sorted points
  size : ∀ timestamp ∈ u.listSizeByTimestamp, timestamp.toNat < before →
    latest points timestamp = some (u.value timestamp)

theorem drawn_concat {u : MemoryUsage} {i : UInt64} {points : List (UInt64 × UInt64)} (drawn : Drawn u i.toNat points)
    (recorded : i ∈ u.listSizeByTimestamp) : Drawn u (i.toNat + 1) (points ++ [(i, u.value i)]) := by
  refine ⟨?_, ?_, ?_⟩
  · intro point member
    rcases List.mem_append.mp member with member | member
    · have old := drawn.of point member
      exact ⟨old.1, by omega⟩
    · rw [List.mem_singleton.mp member]
      exact ⟨recorded, Nat.lt_succ_self _⟩
  · refine List.pairwise_append.mpr ⟨drawn.sorted, List.pairwise_singleton _ _, ?_⟩
    intro point member later last
    rw [List.mem_singleton.mp last, UInt64.le_iff_toNat_le]
    exact (drawn.of point member).2.le
  · intro timestamp member before
    rw [latest_concat]
    by_cases same : timestamp = i
    · rw [if_pos same, same]
    · rw [if_neg same]
      exact drawn.size timestamp member (((lt_succ_iff timestamp i).mp before).resolve_right same)

theorem drawn_skip {u : MemoryUsage} {i : UInt64} {points : List (UInt64 × UInt64)} (drawn : Drawn u i.toNat points)
    (absent : i ∉ u.listSizeByTimestamp) : Drawn u (i.toNat + 1) points := by
  refine ⟨?_, drawn.sorted, ?_⟩
  · intro point member
    have old := drawn.of point member
    exact ⟨old.1, by omega⟩
  · intro timestamp member before
    rcases (lt_succ_iff timestamp i).mp before with before | rfl
    · exact drawn.size timestamp member before
    · exact absurd member absent

/-- Drawing ends, and appends points for all seconds of a usage. -/
theorem drawUsage_drawn (c : Controller) {u : MemoryUsage} (started : Started u) (covers : u.firstTime ≠ 0 → Covers u)
    (bounded : u.lastTime.toNat < 2 ^ 64 - 1) (view : MemoryUsageView) :
    ∃ view' points, drawUsage c u view = some view' ∧ view'.lineSeries = view.lineSeries ++ points.map point ∧
      Drawn u (u.lastTime.toNat + 1) points := by
  by_cases first : u.firstTime = 0
  · refine ⟨view, [], ?_, (List.append_nil _).symm, ?_, List.Pairwise.nil, ?_⟩
    · rw [drawUsage, if_neg (not_not.mpr ((count_eq_zero u).mpr (started.absent first)))]
    · simp
    · exact fun timestamp member => absurd member (started.absent first timestamp)
  · have range := covers first
    have some_ : u.count ≠ 0 := fun zero => (count_eq_zero u).mp zero _ range.first
    let Inv (n : Nat) (view' : MemoryUsageView) : Prop :=
      ∃ points, view'.lineSeries = view.lineSeries ++ points.map point ∧ Drawn u n points
    have before : Inv u.firstTime.toNat view := by
      refine ⟨[], (List.append_nil _).symm, by simp, List.Pairwise.nil, ?_⟩
      intro timestamp member below
      have above := UInt64.le_iff_toNat_le.mp (range.within timestamp member).1
      omega
    have keeps : ∀ i view', u.firstTime ≤ i → i ≤ u.lastTime → Inv i.toNat view' →
        Inv (i.toNat + 1) (draw c u i view') := by
      rintro i view' _ _ ⟨points, series, drawn⟩
      by_cases recorded : i ∈ u.listSizeByTimestamp
      · rw [draw, if_pos ((contains_iff u i).mpr recorded)]
        refine ⟨points ++ [(i, u.value i)], ?_, drawn_concat drawn recorded⟩
        show view'.lineSeries ++ _ = _
        rw [series, List.append_assoc, List.map_append, List.map_singleton]
      · rw [draw, if_neg fun contains => recorded ((contains_iff u i).mp contains)]
        exact ⟨points, series, drawn_skip drawn recorded⟩
    obtain ⟨view', ended, points, series, drawn⟩ :=
      forUpTo_invariant bounded (range.within _ range.last).1 before keeps
    refine ⟨view', points, ?_, series, drawn⟩
    rw [drawUsage, if_pos some_]
    exact ended

/-! ## Ticks -/

/-- What links the usage, the second and the value drawn last, and the points: the points
    go up to that second, and show what is recorded before it, and that value for it. -/
structure Exported (c : Controller) (points : List (UInt64 × UInt64)) : Prop where
  started : Started c.globalStats.memoryUsage
  covers : c.globalStats.memoryUsage.firstTime ≠ 0 → Covers c.globalStats.memoryUsage
  bounded : c.globalStats.memoryUsage.lastTime.toNat < 2 ^ 64 - 1
  drawn : c.lastUpdateTime ≠ 0 → c.lastUpdateTime ∈ c.globalStats.memoryUsage.listSizeByTimestamp
  recorded : ∀ point ∈ points, point.1 ∈ c.globalStats.memoryUsage.listSizeByTimestamp
  sorted : Sorted points
  within : ∀ point ∈ points, point.1 ≤ c.lastUpdateTime
  shown : ∀ timestamp ∈ c.globalStats.memoryUsage.listSizeByTimestamp, timestamp ≤ c.lastUpdateTime →
    latest points timestamp =
      some (if timestamp = c.lastUpdateTime then c.lastUpdateValue else c.globalStats.memoryUsage.value timestamp)

/-- The points show everything that is recorded. -/
def UpToDate (c : Controller) (points : List (UInt64 × UInt64)) : Prop :=
  ∀ timestamp ∈ c.globalStats.memoryUsage.listSizeByTimestamp,
    latest points timestamp = some (c.globalStats.memoryUsage.value timestamp)

theorem Exported.range {c : Controller} {points : List (UInt64 × UInt64)} (exported : Exported c points)
    {timestamp : UInt64} (recorded : timestamp ∈ c.globalStats.memoryUsage.listSizeByTimestamp) :
    Covers c.globalStats.memoryUsage :=
  covers_of_mem exported.started exported.covers recorded

theorem Exported.before {c : Controller} {points : List (UInt64 × UInt64)} (exported : Exported c points) :
    c.lastUpdateTime ≤ c.globalStats.memoryUsage.lastTime := by
  by_cases zero : c.lastUpdateTime = 0
  · rw [zero]
    exact UInt64.le_iff_toNat_le.mpr (Nat.zero_le _)
  · exact ((exported.range (exported.drawn zero)).within _ (exported.drawn zero)).2

theorem ToDraw.reached {c : Controller} {timestamp : UInt64} (toDraw : ToDraw c timestamp) :
    c.lastUpdateTime ≤ timestamp := by
  rcases toDraw.2 with later | ⟨same, _⟩
  · exact UInt64.le_of_lt later
  · exact same ▸ UInt64.le_refl _

/-- What need not be drawn is shown. -/
theorem Exported.shown_of_not_toDraw {c : Controller} {points : List (UInt64 × UInt64)} (exported : Exported c points)
    {timestamp : UInt64} (recorded : timestamp ∈ c.globalStats.memoryUsage.listSizeByTimestamp)
    (drawn : ¬ ToDraw c timestamp) :
    timestamp ≤ c.lastUpdateTime ∧ latest points timestamp = some (c.globalStats.memoryUsage.value timestamp) := by
  have within : timestamp ≤ c.lastUpdateTime := UInt64.not_lt.mp fun later => drawn ⟨recorded, .inl later⟩
  refine ⟨within, ?_⟩
  rw [exported.shown timestamp recorded within]
  split
  · next same =>
    by_contra changed
    exact drawn ⟨recorded, .inr ⟨same, fun value => changed (congrArg some value)⟩⟩
  · rfl

/-- If anything is to be drawn, the last second recorded is. -/
theorem ToDraw.last {c : Controller} {points : List (UInt64 × UInt64)} (exported : Exported c points)
    {timestamp : UInt64} (toDraw : ToDraw c timestamp) : ToDraw c c.globalStats.memoryUsage.lastTime := by
  have range := exported.range toDraw.1
  have within := (range.within timestamp toDraw.1).2
  by_cases same : timestamp = c.globalStats.memoryUsage.lastTime
  · exact same ▸ toDraw
  · have reached := toDraw.reached
    refine ⟨range.last, .inl ?_⟩
    rw [← UInt64.toNat_inj] at same
    rw [UInt64.le_iff_toNat_le] at within reached
    rw [UInt64.lt_iff_toNat_lt]
    omega

/-- A recorded second, not before the one drawn last, with nothing to collect before it. -/
structure StartsAt (c : Controller) (start : UInt64) : Prop where
  recorded : start ∈ c.globalStats.memoryUsage.listSizeByTimestamp
  reached : c.lastUpdateTime ≤ start
  first : ∀ timestamp ∈ c.globalStats.memoryUsage.listSizeByTimestamp, c.lastUpdateTime ≤ timestamp →
    start.toNat ≤ timestamp.toNat

/-- Where collecting starts, if anything is recorded. -/
theorem startTime_cases {c : Controller} {points : List (UInt64 × UInt64)} (exported : Exported c points)
    {start : UInt64}
    (isStart : start = if c.lastUpdateTime = 0 then c.globalStats.memoryUsage.firstTime else c.lastUpdateTime) :
    start = 0 ∧ c.globalStats.memoryUsage.firstTime = 0 ∨ 0 < start ∧ StartsAt c start := by
  by_cases nothing : start = 0
  · left
    refine ⟨nothing, ?_⟩
    by_cases zero : c.lastUpdateTime = 0
    · rwa [if_pos zero, nothing, eq_comm] at isStart
    · rw [if_neg zero, nothing, eq_comm] at isStart
      exact absurd isStart zero
  · right
    have positive : 0 < start := by
      rw [← UInt64.toNat_inj, UInt64.toNat_zero] at nothing
      rw [UInt64.lt_iff_toNat_lt, UInt64.toNat_zero]
      omega
    refine ⟨positive, ?_⟩
    by_cases zero : c.lastUpdateTime = 0
    · rw [if_pos zero] at isStart
      rw [isStart] at nothing ⊢
      have range := exported.covers nothing
      refine ⟨range.first, ?_, fun timestamp member _ => UInt64.le_iff_toNat_le.mp (range.within timestamp member).1⟩
      rw [zero]
      exact UInt64.le_iff_toNat_le.mpr (Nat.zero_le _)
    · rw [isStart, if_neg zero]
      exact ⟨exported.drawn zero, UInt64.le_refl _, fun _ _ after => UInt64.le_iff_toNat_le.mp after⟩

/-- Before the first round nothing is collected. -/
theorem StartsAt.collected {c : Controller} {start : UInt64} (starts : StartsAt c start) :
    Collected c start.toNat MemoryUsage.empty 0 := by
  refine ⟨?_, fun timestamp member => absurd member Finmap.notMem_empty, fun _ => rfl,
    fun some => absurd rfl some, ?_⟩
  · intro timestamp
    refine iff_of_false Finmap.notMem_empty ?_
    rintro ⟨below, toDraw⟩
    exact Nat.not_lt.mpr (starts.first timestamp toDraw.1 toDraw.reached) below
  · intro timestamp member after below
    exact absurd below (Nat.not_lt.mpr (starts.first timestamp member after))

/-- What is collected in the end: the seconds to draw with their values. -/
structure Selected (c : Controller) (u : MemoryUsage) : Prop where
  mem : ∀ timestamp, timestamp ∈ u.listSizeByTimestamp ↔ ToDraw c timestamp
  value : ∀ timestamp ∈ u.listSizeByTimestamp, u.value timestamp = c.globalStats.memoryUsage.value timestamp
  started : Started u
  covers : u.firstTime ≠ 0 → Covers u

/-- Collecting ends, and goes up to the last second recorded if anything is to be drawn. -/
theorem collectUsage_selected {c : Controller} {points : List (UInt64 × UInt64)} (exported : Exported c points) :
    ∃ u c', collectUsage c = some (u, c') ∧ Selected c u ∧
      (u.firstTime = 0 ∧ c' = c ∨ u.firstTime ≠ 0 ∧ u.lastTime = c.globalStats.memoryUsage.lastTime ∧
        c' = { c with
          lastUpdateTime := c.globalStats.memoryUsage.lastTime
          lastUpdateValue := c.globalStats.memoryUsage.value c.globalStats.memoryUsage.lastTime }) := by
  obtain ⟨start, isStart⟩ : ∃ start, start =
      if c.lastUpdateTime = 0 then c.globalStats.memoryUsage.firstTime else c.lastUpdateTime := ⟨_, rfl⟩
  rw [collectUsage, ← isStart]
  rcases startTime_cases exported isStart with ⟨nothing, empty⟩ | ⟨positive, starts⟩
  · refine ⟨MemoryUsage.empty, c, if_neg (not_not.mpr nothing), ⟨?_, ?_, fun _ => rfl, fun some => absurd rfl some⟩,
      .inl ⟨rfl, rfl⟩⟩
    · intro timestamp
      exact iff_of_false Finmap.notMem_empty fun toDraw => exported.started.absent empty timestamp toDraw.1
    · exact fun timestamp member => absurd member Finmap.notMem_empty
  · have some_ : start ≠ 0 := by
      rintro rfl
      exact UInt64.lt_irrefl 0 positive
    have range := exported.range starts.recorded
    have within := (range.within start starts.recorded).2
    let Inv (n : Nat) (state : MemoryUsage × UInt64) : Prop := Collected c n state.1 state.2
    have keeps : ∀ i state, start ≤ i → i ≤ c.globalStats.memoryUsage.lastTime → Inv i.toNat state →
        Inv (i.toNat + 1) (collect c i state) := fun i state le _ collected =>
      collect_collected (UInt64.le_trans starts.reached le) (UInt64.lt_of_lt_of_le positive le) collected
    have before : Inv start.toNat (MemoryUsage.empty, 0) := starts.collected
    obtain ⟨⟨u, lastSize⟩, ended, inv⟩ := forUpTo_invariant exported.bounded within before keeps
    have collected : Collected c _ u lastSize := inv
    have mem : ∀ timestamp, timestamp ∈ u.listSizeByTimestamp ↔ ToDraw c timestamp := by
      intro timestamp
      rw [collected.mem timestamp]
      refine and_iff_right_of_imp fun toDraw => ?_
      exact Nat.lt_succ_of_le (UInt64.le_iff_toNat_le.mp (range.within timestamp toDraw.1).2)
    have selected : Selected c u := ⟨mem, collected.value, collected.started, collected.covers⟩
    have size : lastSize = c.globalStats.memoryUsage.value c.globalStats.memoryUsage.lastTime := by
      refine collected.last _ range.last (UInt64.le_trans starts.reached within) (Nat.lt_succ_self _) ?_
      intro later member
      exact fun after => UInt64.lt_iff_toNat_lt.mp after
    rw [if_pos some_, ended]
    by_cases first : u.firstTime = 0
    · have none : u.count = 0 := (count_eq_zero u).mpr (collected.started.absent first)
      refine ⟨u, c, ?_, selected, .inl ⟨first, rfl⟩⟩
      simp [none]
    · have own := collected.covers first
      have counted : u.count > 0 := Nat.pos_of_ne_zero fun none => (count_eq_zero u).mp none _ own.first
      have last : u.lastTime = c.globalStats.memoryUsage.lastTime := by
        have toDraw := (mem _).mp own.last
        exact UInt64.le_antisymm (range.within _ toDraw.1).2 (own.within _ ((mem _).mpr (toDraw.last exported))).2
      refine ⟨u, _, rfl, selected, .inr ⟨first, last, ?_⟩⟩
      simp only [if_pos counted, last, size]

theorem Selected.within {c : Controller} {points : List (UInt64 × UInt64)} {u : MemoryUsage}
    (selected : Selected c u) (exported : Exported c points) {timestamp : UInt64}
    (member : timestamp ∈ u.listSizeByTimestamp) :
    c.lastUpdateTime ≤ timestamp ∧ timestamp ≤ c.globalStats.memoryUsage.lastTime := by
  have toDraw := (selected.mem timestamp).mp member
  exact ⟨toDraw.reached, ((exported.range toDraw.1).within timestamp toDraw.1).2⟩

/-- The new points follow the old ones. -/
theorem Selected.sorted {c : Controller} {points new : List (UInt64 × UInt64)} {u : MemoryUsage}
    (selected : Selected c u) (exported : Exported c points) {before : Nat} (drawn : Drawn u before new) :
    Sorted (points ++ new) := by
  refine List.pairwise_append.mpr ⟨exported.sorted, drawn.sorted, ?_⟩
  intro point member later inNew
  exact UInt64.le_trans (exported.within point member) (selected.within exported (drawn.of later inNew).1).1

/-- With the new points everything is shown: a second has a new point, or its last point is
    an old one that still holds. -/
theorem Selected.upToDate {c : Controller} {points new : List (UInt64 × UInt64)} {u : MemoryUsage}
    (selected : Selected c u) (exported : Exported c points) (drawn : Drawn u (u.lastTime.toNat + 1) new) :
    UpToDate c (points ++ new) := by
  intro timestamp recorded
  rw [latest_append]
  by_cases member : timestamp ∈ u.listSizeByTimestamp
  · have range := covers_of_mem selected.started selected.covers member
    have below := UInt64.le_iff_toNat_le.mp (range.within timestamp member).2
    rw [drawn.size timestamp member (Nat.lt_succ_of_le below), selected.value timestamp member]
    rfl
  · have old : latest new timestamp = none :=
      latest_none fun point inNew same => member (same ▸ (drawn.of point inNew).1)
    rw [old, Option.none_or]
    exact (exported.shown_of_not_toDraw recorded fun toDraw => member ((selected.mem timestamp).mpr toDraw)).2

/-- A tick ends, and then everything that is recorded is drawn. -/
theorem onTimerUpdate_exported {c : Controller} {view : MemoryUsageView} {points : List (UInt64 × UInt64)}
    (series : view.lineSeries = points.map point) (exported : Exported c points) :
    ∃ c' view' points', onTimerUpdate c view = some (c', view') ∧ view'.lineSeries = points'.map point ∧
      Exported c' points' ∧ UpToDate c' points' ∧ c'.globalStats = c.globalStats := by
  have exported' : Exported { c with listFilterThreadInfos := c.threads.listThreadInfos } points :=
    ⟨exported.started, exported.covers, exported.bounded, exported.drawn, exported.recorded, exported.sorted,
      exported.within, exported.shown⟩
  obtain ⟨u, c', ended, selected, next⟩ := collectUsage_selected exported'
  have bounded : u.lastTime.toNat < 2 ^ 64 - 1 := by
    rcases next with ⟨first, _⟩ | ⟨_, last, _⟩
    · rw [selected.started first]
      decide
    · rw [last]
      exact exported.bounded
  obtain ⟨view', new, drew, series', drawn⟩ := drawUsage_drawn c' selected.started selected.covers bounded view
  have upToDate := selected.upToDate exported' drawn
  refine ⟨c', view', points ++ new, by simp [onTimerUpdate, ended, drew], ?_, ?_⟩
  · rw [series', series, List.map_append]
  rcases next with ⟨first, same⟩ | ⟨first, last, moved⟩
  · have nothing : new = [] := by
      exact List.eq_nil_iff_forall_not_mem.mpr fun sample inNew =>
        selected.started.absent first _ (drawn.of sample inNew).1
    rw [nothing, List.append_nil] at upToDate ⊢
    rw [same]
    exact ⟨exported', upToDate, rfl⟩
  · have range := exported.range ((selected.mem _).mp (selected.covers first).last).1
    rw [moved]
    refine ⟨⟨exported.started, exported.covers, exported.bounded, fun _ => range.last, ?_,
      selected.sorted exported' drawn, ?_, ?_⟩, upToDate, rfl⟩
    · intro sample member
      rcases List.mem_append.mp member with old | inNew
      · exact exported.recorded sample old
      · exact ((selected.mem _).mp (drawn.of sample inNew).1).1
    · intro sample member
      rcases List.mem_append.mp member with old | inNew
      · exact UInt64.le_trans (exported.within sample old) exported.before
      · exact (selected.within exported' (drawn.of sample inNew).1).2
    · intro timestamp recorded _
      rw [upToDate timestamp recorded]
      show some (c.globalStats.memoryUsage.value timestamp) = some (if timestamp = c.globalStats.memoryUsage.lastTime
        then c.globalStats.memoryUsage.value c.globalStats.memoryUsage.lastTime else _)
      split
      · next same => rw [same]
      · rfl

/-- A size recorded for the last second or a later one keeps the link. -/
theorem update_exported {c : Controller} {points : List (UInt64 × UInt64)} (exported : Exported c points)
    {timestamp size : UInt64} (positive : 0 < timestamp) (bounded : timestamp.toNat < 2 ^ 64 - 1)
    (later : c.globalStats.memoryUsage.lastTime ≤ timestamp) :
    Exported (updateUsage c timestamp size) points := by
  have first := started_update exported.started positive size
  refine ⟨fun none => absurd none first, fun _ => ?_, ?_, ?_, ?_, exported.sorted, exported.within, ?_⟩
  · exact (covers_update exported.started exported.covers (timestamp, size)).mpr fun _ => later
  · show (c.globalStats.memoryUsage.update timestamp size).lastTime.toNat < _
    rcases update_last c.globalStats.memoryUsage timestamp size with last | last
    · rw [last]
      exact bounded
    · rw [last]
      exact exported.bounded
  · intro drawn
    exact (update_mem _ _ _ _).mpr (.inr (exported.drawn drawn))
  · intro sample member
    exact (update_mem _ _ _ _).mpr (.inr (exported.recorded sample member))
  · intro other member within
    have old : other ∈ c.globalStats.memoryUsage.listSizeByTimestamp := by
      rcases (update_mem _ _ _ _).mp member with rfl | old
      · have some_ : c.lastUpdateTime ≠ 0 := by
          intro zero
          rw [show (updateUsage c other size).lastUpdateTime = 0 from zero, ← UInt64.not_lt] at within
          exact within positive
        have drawn := exported.drawn some_
        have before := ((exported.range drawn).within _ drawn).2
        rw [UInt64.le_antisymm within (UInt64.le_trans before later)]
        exact drawn
      · exact old
    show latest points other = some (if other = c.lastUpdateTime then c.lastUpdateValue else
      (c.globalStats.memoryUsage.update timestamp size).value other)
    rw [exported.shown other old within]
    by_cases same : other = c.lastUpdateTime
    · rw [if_pos same, if_pos same]
    · have moved : other ≠ timestamp := by
        rintro rfl
        exact same (UInt64.le_antisymm within (UInt64.le_trans exported.before later))
      rw [if_neg same, if_neg same, update_value, if_neg (not_and_of_not_left _ moved)]

/-! ## Sessions -/

/-- The seconds of the updates are positive, never go back and stay below the largest value
    of a counter. -/
structure Timely (events : List Event) : Prop where
  positive : ∀ call ∈ updates events, 0 < call.1
  ordered : (updates events).Pairwise fun call later => call.1 ≤ later.1
  bounded : ∀ call ∈ updates events, call.1.toNat < 2 ^ 64 - 1

theorem updates_append (first second : List Event) : updates (first ++ second) = updates first ++ updates second := by
  induction first with
  | nil => rfl
  | cons event rest ih =>
    cases event with
    | update timestamp size => simp [updates, ih]
    | tick => simp [updates, ih]

theorem opened_exported {c : Controller} {view : MemoryUsageView} (opened : Opened c view) : Exported c [] := by
  have empty : ∀ timestamp, timestamp ∉ c.globalStats.memoryUsage.listSizeByTimestamp := by
    rw [opened.usage]
    exact fun _ => Finmap.notMem_empty
  refine ⟨fun _ => opened.usage, ?_, ?_, fun some => absurd opened.update some, by simp, List.Pairwise.nil, by simp, ?_⟩
  · intro some
    rw [opened.usage] at some
    exact absurd rfl some
  · rw [opened.usage]
    decide
  · exact fun timestamp recorded => absurd recorded (empty timestamp)

theorem Timely.before {events : List Event} {event : Event} (timely : Timely (events ++ [event])) : Timely events := by
  obtain ⟨positive, ordered, bounded⟩ := timely
  rw [updates_append] at positive ordered bounded
  exact ⟨fun call member => positive call (List.mem_append_left _ member), (List.pairwise_append.mp ordered).1,
    fun call member => bounded call (List.mem_append_left _ member)⟩

/-- Every run ends its ticks and keeps the link. -/
theorem run_exported {c : Controller} {view : MemoryUsageView} (opened : Opened c view) {events : List Event}
    (timely : Timely events) :
    ∃ c' view' points, run step (c, view) events = some (c', view') ∧ view'.lineSeries = points.map point ∧
      Exported c' points ∧ c'.globalStats.memoryUsage = afterUpdates (updates events) := by
  induction events using List.reverseRecOn with
  | nil => exact ⟨c, view, [], rfl, opened.series, opened_exported opened, opened.usage⟩
  | append_singleton events event ih =>
    obtain ⟨c', view', points, ran, series, exported, usage⟩ := ih timely.before
    rw [run_concat, ran, updates_append]
    cases event with
    | update timestamp size =>
      have last : (timestamp, size) ∈ updates (events ++ [.update timestamp size]) := by
        rw [updates_append]
        exact List.mem_append_right _ List.mem_cons_self
      have ordered := timely.ordered
      rw [updates_append] at ordered
      have later : c'.globalStats.memoryUsage.lastTime ≤ timestamp := by
        rw [usage]
        exact afterUpdates_last_le fun call member =>
          (List.pairwise_append.mp ordered).2.2 call member (timestamp, size) List.mem_cons_self
      refine ⟨updateUsage c' timestamp size, view', points, rfl, series,
        update_exported exported (timely.positive _ last) (timely.bounded _ last) later, ?_⟩
      show c'.globalStats.memoryUsage.update timestamp size = afterUpdates (updates events ++ [(timestamp, size)])
      rw [usage, afterUpdates_append]
    | tick =>
      obtain ⟨next, view'', points', ticked, series', exported', _, same⟩ := onTimerUpdate_exported series exported
      refine ⟨next, view'', points', ticked, series', exported', ?_⟩
      rw [same, usage]
      exact congrArg afterUpdates (List.append_nil _).symm

/-! ## Points -/

/-- The size of the last point at a second. -/
def shown (points : List (QReal × QReal)) (timestamp : UInt64) : Option Int :=
  ((points.filter fun point => point.1.val = (timestamp.toNat : Int)).getLast?).map fun point => point.2.val

/-- A double can have the number. -/
def Exact (n : UInt64) : Prop := round 53 n.toNat = n.toNat

instance (n : UInt64) : Decidable (Exact n) := inferInstanceAs (Decidable (_ = _))

theorem exact_of_le {n : UInt64} (small : n.toNat < 2 ^ 53) : Exact n := round_small small

/-- What is recorded was passed to `update`. -/
theorem afterUpdates_recorded {updates : List Update} {timestamp : UInt64}
    (recorded : timestamp ∈ (afterUpdates updates).listSizeByTimestamp) :
    ∃ call ∈ updates, call.1 = timestamp ∧ call.2 = (afterUpdates updates).value timestamp := by
  induction updates using List.reverseRecOn with
  | nil => exact absurd recorded Finmap.notMem_empty
  | append_singleton updates call ih =>
    rw [afterUpdates_append] at recorded ⊢
    rw [update_value]
    by_cases written : timestamp = call.1 ∧ Writes ((afterUpdates updates).value call.1) call.2
    · rw [if_pos written]
      exact ⟨call, by simp, written.1.symm, rfl⟩
    · rw [if_neg written]
      have old : timestamp ∈ (afterUpdates updates).listSizeByTimestamp := by
        rcases (update_mem _ _ _ _).mp recorded with rfl | old
        · by_contra absent
          exact written ⟨rfl, writes_absent absent _⟩
        · exact old
      obtain ⟨first, member, call_eq⟩ := ih old
      exact ⟨first, List.mem_append_left _ member, call_eq⟩

/-- Seconds and sizes below 2^53 are exact. -/
theorem exact_of_small {updates : List Update} (small : ∀ call ∈ updates, call.1.toNat < 2 ^ 53 ∧ call.2.toNat < 2 ^ 53)
    (timestamp : UInt64) (recorded : (afterUpdates updates).contains timestamp = true) :
    Exact timestamp ∧ Exact ((afterUpdates updates).value timestamp) := by
  obtain ⟨call, member, rfl, size⟩ := afterUpdates_recorded ((contains_iff _ _).mp recorded)
  rw [← size]
  exact ⟨exact_of_le (small call member).1, exact_of_le (small call member).2⟩

theorem qreal_val (n : UInt64) : (qreal n.toNat).val = round 53 n.toNat := roundInt_ofNat 53 n.toNat

theorem qreal_exact {n : UInt64} (exact : Exact n) : (qreal n.toNat).val = n.toNat := by
  rw [qreal_val, exact]

/-- Whatever is a `qreal` is exact. -/
theorem exact_of_qreal {n : UInt64} {x : QReal} (same : x.val = n.toNat) : Exact n := by
  have rounded := x.property
  rw [same, roundInt_ofNat] at rounded
  exact Int.ofNat_inj.mp rounded

/-- What is not before a second as a number is not before it as a `qreal`. -/
theorem Sorted.points {samples : List (UInt64 × UInt64)} (sorted : Sorted samples) :
    (samples.map point).Pairwise fun first later => first.1.val ≤ later.1.val := by
  rw [List.pairwise_map]
  refine List.Pairwise.imp ?_ sorted
  intro first later le
  show (qreal first.1.toNat).val ≤ (qreal later.1.toNat).val
  rw [qreal_val, qreal_val]
  exact Int.ofNat_le.mpr (round_mono (by decide) (UInt64.le_iff_toNat_le.mp le))

/-- Where the seconds are exact, the points at one are those of its samples. -/
theorem shown_latest {samples : List (UInt64 × UInt64)} (timestamp : UInt64)
    (all : ∀ sample ∈ samples, Exact sample.1) :
    shown (samples.map point) timestamp = (latest samples timestamp).map fun size => (qreal size.toNat).val := by
  have same : samples.filter ((fun point : QReal × QReal => decide (point.1.val = (timestamp.toNat : Int))) ∘ point) =
      samples.filter fun sample => sample.1 = timestamp := by
    refine List.filter_congr fun sample member => ?_
    have value : (point sample).1.val = sample.1.toNat := qreal_exact (all sample member)
    simp [value, UInt64.toNat_inj]
  rw [shown, List.filter_map, same, List.getLast?_map, latest, Option.map_map, Option.map_map]
  rfl

/-- Up to date samples give the recorded sizes exactly where these and their seconds are
    exact. -/
theorem UpToDate.shown_iff {c : Controller} {samples : List (UInt64 × UInt64)} (upToDate : UpToDate c samples)
    (exported : Exported c samples) :
    (∀ timestamp, c.globalStats.memoryUsage.contains timestamp = true →
        shown (samples.map point) timestamp = some ((c.globalStats.memoryUsage.value timestamp).toNat : Int)) ↔
      ∀ timestamp, c.globalStats.memoryUsage.contains timestamp = true →
        Exact timestamp ∧ Exact (c.globalStats.memoryUsage.value timestamp) := by
  constructor
  · intro all timestamp recorded
    obtain ⟨last, isLast, size⟩ := Option.map_eq_some_iff.mp (all timestamp recorded)
    have member := List.mem_of_getLast? isLast
    exact ⟨exact_of_qreal (of_decide_eq_true (List.mem_filter.mp member).2), exact_of_qreal size⟩
  · intro exact timestamp recorded
    have size := (exact timestamp recorded).2
    rw [shown_latest timestamp fun sample member =>
      (exact sample.1 ((contains_iff _ _).mpr (exported.recorded sample member))).1,
      upToDate timestamp ((contains_iff _ _).mp recorded), Option.map_some, qreal_exact size]

/-- In a session whose updates come in order of their seconds, every tick ends, and after it
    the timestamps of the points drawn so far never go back; the last point at each recorded
    second has the value now recorded for it if and only if all recorded seconds and values
    are numbers that a double can have. -/
theorem tick_draws_iff {c : Controller} {view : MemoryUsageView} (opened : Opened c view) {events : List Event}
    (timely : Timely events) :
    ∃ c' view', run step (c, view) (events ++ [.tick]) = some (c', view') ∧
      c'.globalStats.memoryUsage = afterUpdates (updates events) ∧
      (view'.lineSeries.Pairwise fun point later => point.1.val ≤ later.1.val) ∧
      ((∀ timestamp, c'.globalStats.memoryUsage.contains timestamp = true →
          shown view'.lineSeries timestamp = some ((c'.globalStats.memoryUsage.value timestamp).toNat : Int)) ↔
        ∀ timestamp, (afterUpdates (updates events)).contains timestamp = true →
          Exact timestamp ∧ Exact ((afterUpdates (updates events)).value timestamp)) := by
  obtain ⟨c', view', points, ran, series, exported, usage⟩ := run_exported opened timely
  obtain ⟨next, view'', points', ticked, series', exported', upToDate, same⟩ := onTimerUpdate_exported series exported
  refine ⟨next, view'', ?_, ?_, ?_, ?_⟩
  · rw [run_concat, ran]
    exact ticked
  · rw [same, usage]
  · rw [series']
    exact exported'.sorted.points
  · rw [series', upToDate.shown_iff exported', same, usage]

/-- The value of the second 5 changes after it was drawn. -/
theorem tick_draws_iff_changed :
    ∃ c view, run step (Controller.fresh, ⟨[], none⟩)
        [.update 5 7, .tick, .update 5 9, .update 8 0, .tick, .update 8 3, .tick] = some (c, view) ∧
      shown view.lineSeries 5 = some 9 ∧ shown view.lineSeries 8 = some 3 := by
  have timely : Timely [.update 5 7, .tick, .update 5 9, .update 8 0, .tick, .update 8 3] :=
    ⟨by simp [updates], by simp [updates], by simp [updates]⟩
  obtain ⟨c, view, ran, usage, _, iff⟩ := tick_draws_iff (fresh_opened none) timely
  have drawn := iff.mpr (exact_of_small (by simp [updates]))
  refine ⟨c, view, ran, ?_, ?_⟩
  · rw [drawn 5 (by rw [usage]; decide +kernel), usage]
    decide +kernel
  · rw [drawn 8 (by rw [usage]; decide +kernel), usage]
    decide +kernel

/-- An odd size of 54 bits is drawn as the even one below it. -/
theorem large_size_rounded :
    ∃ c view, run step (Controller.fresh, ⟨[], none⟩) [.update 5 9007199254740993, .tick] = some (c, view) ∧
      c.globalStats.memoryUsage.contains 5 = true ∧ c.globalStats.memoryUsage.value 5 = 9007199254740993 ∧
      shown view.lineSeries 5 = some 9007199254740992 := by
  let holds (s : Controller × MemoryUsageView) : Bool :=
    s.1.globalStats.memoryUsage.contains 5 && s.1.globalStats.memoryUsage.value 5 = 9007199254740993 &&
      shown s.2.lineSeries 5 = some 9007199254740992
  obtain ⟨⟨c, view⟩, ran, held⟩ : ∃ s, run step (Controller.fresh, ⟨[], none⟩) [.update 5 9007199254740993, .tick] =
      some s ∧ holds s = true := (Option.any_eq_true _ _).mp (by decide +kernel)
  simp only [holds, Bool.and_eq_true, decide_eq_true_eq] at held
  exact ⟨c, view, ran, held.1.1, held.1.2, held.2⟩

end Aleakd.Chart
