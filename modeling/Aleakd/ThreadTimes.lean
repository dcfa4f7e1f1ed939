import Aleakd.ListView
import Aleakd.Rows
import Aleakd.ThreadCredits

/-!
The entry of the thread table that a block is credited to, against the times of the
entry. Where the messages come in the order of their times, the entries of one thread
id are alive one after the other, and a block is credited to the entry that was alive
when it was allocated: the one whose times the search is given.
-/
namespace Aleakd.ThreadTimes
open Aleakd.Messages Aleakd.Operations Aleakd.OperationList Aleakd.Stats Aleakd.Threads Aleakd.ApplicationWindow
open Aleakd.Framing Aleakd.ListSums Aleakd.SessionTotals Aleakd.Search Aleakd.ListView Aleakd.ThreadSessions
open Aleakd.ThreadTables Aleakd.Sessions Aleakd.ThreadTotals Aleakd.ThreadSums Aleakd.ThreadCredits

/-! ## Times -/

/-- The microseconds since the Epoch. -/
def stamp (tv : Timeval) : Nat := tv.tvSec.toInt.toNat * 10 ^ 6 + tv.tvUsec.toInt.toNat

theorem timerLt_iff {a b : Timeval} (proper : Proper a) (proper' : Proper b) :
    timerLt a b = true ↔ stamp a < stamp b := by
  obtain ⟨sec, usec, below⟩ := proper
  obtain ⟨sec', usec', below'⟩ := proper'
  unfold timerLt stamp
  split
  · next same =>
    rw [decide_eq_true_eq, Int64.lt_iff_toInt_lt, same]
    omega
  · next apart =>
    rw [← Int64.toInt_inj] at apart
    rw [decide_eq_true_eq, Int64.lt_iff_toInt_lt]
    omega

theorem isSet_iff {tv : Timeval} (proper : Proper tv) : Timeval.isSet tv = true ↔ 0 < stamp tv := by
  obtain ⟨sec, usec, below⟩ := proper
  have zero : (0 : Int64).toInt = 0 := rfl
  rw [Timeval.isSet, Bool.or_eq_true, decide_eq_true_eq, decide_eq_true_eq, ne_eq, ne_eq, ← Int64.toInt_inj,
    ← Int64.toInt_inj, zero, stamp]
  omega

theorem zero_proper : Proper ⟨0, 0⟩ := ⟨by decide, by decide, by decide⟩

/-- A time as `gettimeofday` gives it, in the unsigned fields of a header. -/
def Timely (message : Message) : Prop :=
  message.header.timeSec.toNat < 2 ^ 63 ∧ message.header.timeUsec.toNat < 10 ^ 6

theorem toInt_toInt64 {x : UInt64} (small : x.toNat < 2 ^ 63) : x.toInt64.toInt = x.toNat := by
  show x.toBitVec.toInt = x.toNat
  rw [BitVec.toInt_eq_toNat_of_lt]
  · rfl
  · show 2 * x.toNat < 2 ^ 64
    omega

theorem timely_proper {message : Message} (timely : Timely message) :
    Proper (ServerMsgHeaderV1.tvOperation message.header) := by
  obtain ⟨sec, usec⟩ := timely
  have second := toInt_toInt64 sec
  have micro := toInt_toInt64 (x := message.header.timeUsec) (by omega)
  constructor
  case sec =>
    show 0 ≤ message.header.timeSec.toInt64.toInt
    omega
  case usec =>
    show 0 ≤ message.header.timeUsec.toInt64.toInt
    omega
  case below =>
    show message.header.timeUsec.toInt64.toInt < 10 ^ 6
    omega

/-! ## Entries and their times -/

/-- The time lies between the creation and the termination of the entry. -/
def Within (infos : ThreadInfos) (tv : Timeval) : Prop :=
  stamp infos.tvCreation ≤ stamp tv ∧ (infos.isTerminated = true → stamp tv ≤ stamp infos.tvTermination)

/-- Thread id and time of an operation. -/
def key (operation : MemoryOperation) : UInt64 × Timeval := (operation.callerThreadId, operation.tvOperation)

/-- What holds of the entries before a time: a block is credited to the entry of its
    thread id that its time lies within. -/
structure Dated (entries : List ThreadInfos) (blocks : List ((UInt64 × Timeval) × Option Nat)) (bound : Nat) : Prop where
  known : ∀ infos ∈ entries, infos.threadId ≠ 0
  created : ∀ infos ∈ entries, Proper infos.tvCreation ∧ stamp infos.tvCreation < bound
  terminated : ∀ infos ∈ entries, infos.isTerminated = true →
    Proper infos.tvTermination ∧ 0 < stamp infos.tvTermination ∧ stamp infos.tvTermination < bound
  running : ∀ infos ∈ entries, infos.isTerminated = false → infos.tvTermination = ⟨0, 0⟩
  credited : ∀ threadId tv m, ((threadId, tv), some m) ∈ blocks → Proper tv ∧ stamp tv < bound ∧
    (∃ own, entries[m]? = some own ∧ own.threadId = threadId) ∧
    ∀ k infos, entries[k]? = some infos → infos.threadId = threadId → (k = m ↔ Within infos tv)

/-- What holds of one entry before a time. -/
structure EntryDated (infos : ThreadInfos) (bound : Nat) : Prop where
  known : infos.threadId ≠ 0
  created : Proper infos.tvCreation ∧ stamp infos.tvCreation < bound
  terminated : infos.isTerminated = true →
    Proper infos.tvTermination ∧ 0 < stamp infos.tvTermination ∧ stamp infos.tvTermination < bound
  running : infos.isTerminated = false → infos.tvTermination = ⟨0, 0⟩

theorem Dated.entry {entries : List ThreadInfos} {blocks : List ((UInt64 × Timeval) × Option Nat)} {bound : Nat}
    (dated : Dated entries blocks bound) {infos : ThreadInfos} (member : infos ∈ entries) : EntryDated infos bound :=
  ⟨dated.known infos member, dated.created infos member, dated.terminated infos member, dated.running infos member⟩

theorem dated_of_entries {entries : List ThreadInfos} {blocks : List ((UInt64 × Timeval) × Option Nat)} {bound : Nat}
    (each : ∀ infos ∈ entries, EntryDated infos bound)
    (credited : ∀ threadId tv m, ((threadId, tv), some m) ∈ blocks → Proper tv ∧ stamp tv < bound ∧
      (∃ own, entries[m]? = some own ∧ own.threadId = threadId) ∧
      ∀ k infos, entries[k]? = some infos → infos.threadId = threadId → (k = m ↔ Within infos tv)) :
    Dated entries blocks bound :=
  ⟨fun infos member => (each infos member).known, fun infos member => (each infos member).created,
    fun infos member => (each infos member).terminated, fun infos member => (each infos member).running, credited⟩

theorem EntryDated.mono {infos : ThreadInfos} {bound later : Nat} (dated : EntryDated infos bound)
    (le : bound ≤ later) : EntryDated infos later := by
  refine ⟨dated.known, ?_, fun gone => ?_, dated.running⟩
  · exact dated.created.imp_right fun before => Nat.lt_of_lt_of_le before le
  · exact (dated.terminated gone).imp_right fun ⟨set, before⟩ => ⟨set, Nat.lt_of_lt_of_le before le⟩

theorem dated_mono {entries : List ThreadInfos} {blocks : List ((UInt64 × Timeval) × Option Nat)} {bound later : Nat}
    (dated : Dated entries blocks bound) (le : bound ≤ later) : Dated entries blocks later :=
  dated_of_entries (fun _ member => (dated.entry member).mono le) fun threadId tv m member =>
    (dated.credited threadId tv m member).imp_right fun ⟨before, rest⟩ => ⟨Nat.lt_of_lt_of_le before le, rest⟩

/-- An entry keeps its place and its thread id where another one changes. -/
theorem modify_own {entries : List ThreadInfos} (i : Nat) {change : ThreadInfos → ThreadInfos}
    (keeps : ∀ infos, (change infos).threadId = infos.threadId) {m : Nat} {own : ThreadInfos} {threadId : UInt64}
    (found : entries[m]? = some own) (id : own.threadId = threadId) :
    ∃ own', (entries.modify i change)[m]? = some own' ∧ own'.threadId = threadId := by
  by_cases here : i = m
  · exact ⟨change own, by simp [found, here], by rw [keeps, id]⟩
  · exact ⟨own, by simp [found, here], id⟩

/-- A change that the times do not see. -/
theorem modify_dated {entries : List ThreadInfos} {blocks : List ((UInt64 × Timeval) × Option Nat)} {bound : Nat}
    (dated : Dated entries blocks bound) (i : Nat) {change : ThreadInfos → ThreadInfos}
    (keeps : ∀ infos, (change infos).threadId = infos.threadId ∧ (change infos).isTerminated = infos.isTerminated ∧
      (change infos).tvCreation = infos.tvCreation ∧ (change infos).tvTermination = infos.tvTermination) :
    Dated (entries.modify i change) blocks bound := by
  have origin : ∀ {k : Nat} {infos : ThreadInfos}, (entries.modify i change)[k]? = some infos →
      ∃ before, entries[k]? = some before ∧ infos.threadId = before.threadId ∧
        infos.isTerminated = before.isTerminated ∧ infos.tvCreation = before.tvCreation ∧
        infos.tvTermination = before.tvTermination := by
    intro k infos found
    obtain ⟨before, object, rfl⟩ := modify_origin found
    refine ⟨before, object, ?_⟩
    split
    · exact keeps before
    · exact ⟨rfl, rfl, rfl, rfl⟩
  refine dated_of_entries ?_ ?_
  · intro infos member
    obtain ⟨k, found⟩ := List.mem_iff_getElem?.mp member
    obtain ⟨before, object, id, gone, creation, termination⟩ := origin found
    have old := dated.entry (List.mem_of_getElem? object)
    refine ⟨?_, ?_, ?_, ?_⟩
    · rw [id]
      exact old.known
    · rw [creation]
      exact old.created
    · rw [gone, termination]
      exact old.terminated
    · rw [gone, termination]
      exact old.running
  · intro threadId tv m member
    obtain ⟨proper, early, ⟨own, found, id⟩, exact⟩ := dated.credited threadId tv m member
    refine ⟨proper, early, modify_own i (fun infos => (keeps infos).1) found id, ?_⟩
    intro k infos object same
    obtain ⟨before, old, id', gone, creation, termination⟩ := origin object
    rw [exact k before old (id'.symm.trans same), Within, Within, gone, creation, termination]

/-- The entry of a thread id that is taken by a new thread. -/
theorem retire_dated {entries : List ThreadInfos} {blocks : List ((UInt64 × Timeval) × Option Nat)} {bound i : Nat}
    (dated : Dated entries blocks bound) {infos : ThreadInfos} (found : entries[i]? = some infos)
    (alive : infos.isTerminated = false) {tv : Timeval} (proper : Proper tv) (later : bound ≤ stamp tv) :
    Dated (entries.modify i (ThreadInfos.terminate tv)) blocks (stamp tv + 1) := by
  have first := dated.entry (List.mem_of_getElem? found)
  have started := first.created.2
  refine dated_of_entries ?_ ?_
  · intro other member
    obtain ⟨k, object⟩ := List.mem_iff_getElem?.mp member
    obtain ⟨before, old, rfl⟩ := modify_origin object
    by_cases here : i = k
    · subst here
      rw [found] at old
      cases old
      rw [if_pos rfl]
      refine ⟨first.known, (first.mono (by omega)).created, fun _ => ⟨proper, ?_, Nat.lt_succ_self _⟩, ?_⟩
      · show 0 < stamp tv
        omega
      · intro running
        cases running
    · rw [if_neg here]
      exact (dated.entry (List.mem_of_getElem? old)).mono (by omega)
  · intro threadId t m member
    obtain ⟨proper', early, ⟨own, object, id⟩, exact⟩ := dated.credited threadId t m member
    have sameId : ∀ infos : ThreadInfos, (infos.terminate tv).threadId = infos.threadId := fun _ => rfl
    refine ⟨proper', by omega, modify_own i sameId object id, ?_⟩
    intro k other object' same
    obtain ⟨before, old, rfl⟩ := modify_origin object'
    by_cases here : i = k
    · subst here
      rw [found] at old
      cases old
      rw [if_pos rfl] at same ⊢
      rw [exact i infos found same, Within, Within]
      -- it was running, and the time is earlier than its end
      refine and_congr_right fun _ => ?_
      simp only [alive, Bool.false_eq_true, false_implies, ThreadInfos.terminate, true_iff, forall_const]
      omega
    · rw [if_neg here] at same ⊢
      exact exact k before old same

/-- A new entry, later than all blocks. -/
theorem append_dated {entries : List ThreadInfos} {blocks : List ((UInt64 × Timeval) × Option Nat)} {threadId : UInt64}
    {tv : Timeval} (dated : Dated entries blocks (stamp tv + 1))
    (older : ∀ threadId t m, ((threadId, t), some m) ∈ blocks → stamp t < stamp tv) (known : threadId ≠ 0)
    (proper : Proper tv) (first : Bool) :
    Dated (entries ++ [ThreadInfos.make threadId tv first]) blocks (stamp tv + 1) := by
  refine dated_of_entries ?_ ?_
  · intro infos member
    rcases List.mem_append.mp member with old | new
    · exact dated.entry old
    · rw [List.mem_singleton.mp new]
      refine ⟨known, ⟨proper, Nat.lt_succ_self _⟩, fun gone => ?_, fun _ => rfl⟩
      cases gone
  · intro other t m member
    obtain ⟨proper', early, ⟨own, object, id⟩, exact⟩ := dated.credited other t m member
    have inside := (List.getElem?_eq_some_iff.mp object).1
    refine ⟨proper', early, ⟨own, by rw [List.getElem?_append_left inside, object], id⟩, ?_⟩
    intro k infos object' same
    rcases append_origin object' with old | ⟨rfl, rfl⟩
    · exact exact k infos old same
    · have before := older other t m member
      refine iff_of_false (by omega) ?_
      rintro ⟨started, _⟩
      have begun : stamp tv ≤ stamp t := started
      omega

/-- A block, credited to the entry of its thread id that is running. -/
theorem credit_dated {entries : List ThreadInfos} {blocks : List ((UInt64 × Timeval) × Option Nat)} {tv : Timeval}
    (dated : Dated entries blocks (stamp tv + 1)) (proper : Proper tv) {m : Nat} {own : ThreadInfos}
    (found : entries[m]? = some own) (alive : own.isTerminated = false)
    (only : ∀ k infos, entries[k]? = some infos → infos.threadId = own.threadId → infos.isTerminated = false → k = m)
    (gone : ∀ infos ∈ entries, infos.isTerminated = true → stamp infos.tvTermination < stamp tv) :
    Dated entries (blocks ++ [((own.threadId, tv), some m)]) (stamp tv + 1) := by
  refine ⟨dated.known, dated.created, dated.terminated, dated.running, ?_⟩
  intro threadId t k member
  rcases List.mem_append.mp member with old | new
  · exact dated.credited threadId t k old
  · cases List.mem_singleton.mp new
    refine ⟨proper, Nat.lt_succ_self _, ⟨own, found, rfl⟩, ?_⟩
    intro k infos object same
    have started := (dated.created infos (List.mem_of_getElem? object)).2
    constructor
    · rintro rfl
      rw [found] at object
      cases object
      refine ⟨by omega, fun terminated => ?_⟩
      rw [alive] at terminated
      cases terminated
    · rintro ⟨_, before⟩
      cases terminated : infos.isTerminated with
      | false => exact only k infos object same terminated
      | true =>
        have ended := gone infos (List.mem_of_getElem? object) terminated
        have late := before terminated
        omega

/-- An operation without a block. -/
theorem skip_dated {entries : List ThreadInfos} {blocks : List ((UInt64 × Timeval) × Option Nat)} {bound : Nat}
    (dated : Dated entries blocks bound) (block : UInt64 × Timeval) :
    Dated entries (blocks ++ [(block, none)]) bound where
  known := dated.known
  created := dated.created
  terminated := dated.terminated
  running := dated.running
  credited threadId tv m member := by
    rcases List.mem_append.mp member with old | new
    · exact dated.credited threadId tv m old
    · cases List.mem_singleton.mp new

/-! ## The functions of the controller -/

/-- The entries that are running are those in which their ids are alive. -/
def Running (entries : List ThreadInfos) (current : UInt64 → Option Nat) : Prop :=
  ∀ k infos, entries[k]? = some infos → infos.isTerminated = false → current infos.threadId = some k

/-- A session whose entries are right about the times before a bound. -/
structure Recorded (s : Session) (blocks : List ((UInt64 × Timeval) × Option Nat)) (bound : Nat) : Prop where
  sane : Sane s
  running : Running s.entries s.current
  dated : Dated s.entries blocks bound

theorem modify_running {entries : List ThreadInfos} {current : UInt64 → Option Nat} (running : Running entries current)
    (i : Nat) {change : ThreadInfos → ThreadInfos}
    (keeps : ∀ infos, (change infos).threadId = infos.threadId ∧
      ((change infos).isTerminated = false → infos.isTerminated = false)) :
    Running (entries.modify i change) current := by
  intro k infos found alive
  obtain ⟨before, object, rfl⟩ := modify_origin found
  by_cases here : i = k
  · rw [if_pos here] at alive ⊢
    rw [(keeps before).1]
    exact running k before object ((keeps before).2 alive)
  · rw [if_neg here] at alive ⊢
    exact running k before object alive

theorem append_running {entries : List ThreadInfos} {current : UInt64 → Option Nat} (running : Running entries current)
    {threadId : UInt64} (gone : ∀ infos ∈ entries, infos.threadId = threadId → infos.isTerminated = true) (tv : Timeval)
    (first : Bool) :
    Running (entries ++ [ThreadInfos.make threadId tv first])
      (Function.update current threadId (some entries.length)) := by
  intro k infos found alive
  rcases append_origin found with old | ⟨rfl, rfl⟩
  · have other : infos.threadId ≠ threadId := by
      intro same
      rw [gone infos (List.mem_of_getElem? old) same] at alive
      cases alive
    rw [Function.update_of_ne other]
    exact running k infos old alive
  · rw [ThreadInfos.make_threadId, Function.update_self]

/-- A change of one entry that the times do not see. -/
theorem modify_recorded {s : Session} {blocks : List ((UInt64 × Timeval) × Option Nat)} {bound : Nat}
    (recorded : Recorded s blocks bound) (k : Option Nat) {change : ThreadInfos → ThreadInfos}
    (keeps : ∀ infos, (change infos).threadId = infos.threadId ∧ (change infos).isTerminated = infos.isTerminated ∧
      (change infos).tvCreation = infos.tvCreation ∧ (change infos).tvTermination = infos.tvTermination) :
    Recorded (s.modify k change) blocks bound := by
  cases k with
  | none => exact recorded
  | some k =>
    refine ⟨modify_sane recorded.sane _ (fun infos => (keeps infos).1) fun infos => (keeps infos).2.1, ?_,
      modify_dated recorded.dated k keeps⟩
    exact modify_running recorded.running k fun infos => ⟨(keeps infos).1, fun alive => (keeps infos).2.1 ▸ alive⟩

/-- A new entry of a thread id that is not alive. -/
theorem append_recorded {s : Session} {blocks : List ((UInt64 × Timeval) × Option Nat)} {bound : Nat}
    (recorded : Recorded s blocks bound) {threadId : UInt64} (none : s.current threadId = none) (known : threadId ≠ 0)
    {tv : Timeval} (proper : Proper tv) (later : bound ≤ stamp tv) :
    Recorded (s.append threadId tv).1 blocks (stamp tv + 1) := by
  have gone : ∀ infos ∈ s.entries, infos.threadId = threadId → infos.isTerminated = true := by
    rintro infos member rfl
    obtain ⟨k, found⟩ := List.mem_iff_getElem?.mp member
    by_contra alive
    have current := recorded.running k infos found (Bool.eq_false_iff.mpr alive)
    rw [none] at current
    cases current
  refine ⟨append_sane recorded.sane.notStale (fun other k _ => recorded.sane.current other k) tv,
    append_running recorded.running gone tv _, ?_⟩
  refine append_dated (dated_mono recorded.dated (by omega)) ?_ known proper _
  intro other t m member
  have early := (recorded.dated.credited other t m member).2.1
  omega

/-- The entry that a thread id has, or gets: the one that is running. -/
theorem getThreadInfos_recorded {s : Session} {blocks : List ((UInt64 × Timeval) × Option Nat)} {bound : Nat}
    (recorded : Recorded s blocks bound) {threadId : UInt64} (known : threadId ≠ 0) {tv : Timeval} (proper : Proper tv)
    (later : bound ≤ stamp tv) :
    Recorded (s.getThreadInfos threadId false tv).1 blocks (stamp tv + 1) ∧
      (∃ k own, (s.getThreadInfos threadId false tv).2 = some k ∧
        (s.getThreadInfos threadId false tv).1.entries[k]? = some own ∧ own.threadId = threadId ∧
        own.isTerminated = false ∧ (s.getThreadInfos threadId false tv).1.current threadId = some k) ∧
      ∀ infos ∈ (s.getThreadInfos threadId false tv).1.entries, infos.isTerminated = true →
        stamp infos.tvTermination < stamp tv := by
  have gone : ∀ infos ∈ s.entries, infos.isTerminated = true → stamp infos.tvTermination < stamp tv := by
    intro infos member terminated
    have ended := (recorded.dated.terminated infos member terminated).2.2
    omega
  unfold Session.getThreadInfos
  cases current : s.current threadId with
  | some k =>
    obtain ⟨own, found, id, alive⟩ := recorded.sane.current threadId k current
    exact ⟨⟨recorded.sane, recorded.running, dated_mono recorded.dated (by omega)⟩,
      ⟨k, own, rfl, found, id, alive, current⟩, gone⟩
  | none =>
    simp only [recorded.sane.notStale, Bool.false_eq_true, false_and, if_false]
    refine ⟨append_recorded recorded current known proper later,
      ⟨_, _, rfl, List.getElem?_concat_length, rfl, rfl, Function.update_self ..⟩, ?_⟩
    intro infos member terminated
    rcases List.mem_append.mp member with old | new
    · exact gone infos old terminated
    · rw [List.mem_singleton.mp new] at terminated
      cases terminated

theorem applyOperation_times (operation : ThreadOperation) (infos : ThreadInfos) :
    (infos.applyOperation operation).threadId = infos.threadId ∧
      (infos.applyOperation operation).isTerminated = infos.isTerminated ∧
      (infos.applyOperation operation).tvCreation = infos.tvCreation ∧
      (infos.applyOperation operation).tvTermination = infos.tvTermination := by
  unfold ThreadInfos.applyOperation
  split <;> split <;> exact ⟨rfl, rfl, rfl, rfl⟩

/-- The message of a new thread ends the entry of its id, if there is one. -/
theorem create_recorded {s : Session} {blocks : List ((UInt64 × Timeval) × Option Nat)} {bound : Nat}
    (recorded : Recorded s blocks bound) {operation : ThreadOperation} (create : operation.msgCode = .pthreadCreate)
    (known : operation.threadId ≠ 0) (proper : Proper operation.tvOperation)
    (later : bound ≤ stamp operation.tvOperation) :
    Recorded (s.updateThreadInfos operation) blocks (stamp operation.tvOperation + 1) := by
  have sane := (updateThreadInfos_charge recorded.sane operation).1
  obtain ⟨retired, same, result⟩ := updateThreadInfos_create s create
  cases current : s.current operation.threadId with
  | none =>
    rw [current] at same
    subst same
    rw [result]
    exact modify_recorded (append_recorded recorded current known proper later) _ (applyOperation_times operation)
  | some i =>
    obtain ⟨infos, found, id, alive⟩ := recorded.sane.current operation.threadId i current
    rw [current] at same
    have entries : retired.entries = s.entries.modify i (ThreadInfos.terminate operation.tvOperation) := by
      rw [same]
      rfl
    have ended := retire_dated recorded.dated found alive proper later
    have gone : ∀ other ∈ retired.entries, other.threadId = operation.threadId → other.isTerminated = true := by
      intro other member mine
      rw [entries] at member
      obtain ⟨k, object⟩ := List.mem_iff_getElem?.mp member
      obtain ⟨before, old, rfl⟩ := modify_origin object
      by_cases here : i = k
      · rw [if_pos here]
        rfl
      · rw [if_neg here] at mine ⊢
        by_contra running
        have current' := recorded.running k before old (Bool.eq_false_iff.mpr running)
        rw [mine, current] at current'
        exact here (Option.some.inj current')
    have running : Running retired.entries retired.current := by
      have stays : retired.current = s.current := by rw [same, Session.modify_current]
      rw [entries, stays]
      exact modify_running recorded.running i fun infos => ⟨rfl, fun alive => by cases alive⟩
    have times := applyOperation_times operation
    have dated : Dated (retired.append operation.threadId operation.tvOperation).1.entries blocks
        (stamp operation.tvOperation + 1) := by
      refine append_dated (entries ▸ ended) ?_ known proper _
      intro other t m member
      have early := (recorded.dated.credited other t m member).2.1
      omega
    refine ⟨sane, ?_, ?_⟩
    · rw [result]
      exact modify_running (append_running running gone operation.tvOperation _) _ fun infos =>
        ⟨(times infos).1, fun alive => (times infos).2.1 ▸ alive⟩
    · rw [result]
      exact modify_dated dated _ times

theorem updateThreadInfos_recorded {s : Session} {blocks : List ((UInt64 × Timeval) × Option Nat)} {bound : Nat}
    (recorded : Recorded s blocks bound) {operation : ThreadOperation} (known : operation.threadId ≠ 0)
    (proper : Proper operation.tvOperation) (later : bound ≤ stamp operation.tvOperation) :
    Recorded (s.updateThreadInfos operation) blocks (stamp operation.tvOperation + 1) := by
  by_cases create : operation.msgCode = .pthreadCreate
  · exact create_recorded recorded create known proper later
  · obtain ⟨recorded', _⟩ := getThreadInfos_recorded recorded known proper later
    rw [Session.updateThreadInfos, decide_eq_false create]
    exact modify_recorded recorded' _ (applyOperation_times operation)

/-- A free changes one entry at most, and none of its times. -/
theorem afterFree_recorded {s : Session} {blocks : List ((UInt64 × Timeval) × Option Nat)} {bound : Nat}
    (recorded : Recorded s blocks bound) {freed : Option MemoryOperation}
    (alive : ∀ operation, freed = some operation → s.alive operation.callerThreadId = true) (tv : Timeval) :
    Recorded (s.afterFree freed tv) blocks bound := by
  cases freed with
  | none => exact recorded
  | some freed =>
    obtain ⟨k, result⟩ := Session.updateThreadInfosAddFree_alive (alive freed rfl) freed.msgNum freed.allocSize tv
    rw [Session.afterFree, result]
    exact modify_recorded recorded k fun infos => ⟨rfl, rfl, rfl, rfl⟩

/-- An allocation is credited to the entry of its thread id that is running. -/
theorem addAlloc_recorded {s : Session} {blocks : List ((UInt64 × Timeval) × Option Nat)} {bound : Nat}
    (recorded : Recorded s blocks bound) {threadId : UInt64} (known : threadId ≠ 0) {tv : Timeval} (proper : Proper tv)
    (later : bound ≤ stamp tv) (msgNum : UInt32) (size : UInt64) :
    Recorded (s.updateThreadInfosAddAlloc threadId msgNum size tv)
      (blocks ++ [((threadId, tv), (s.getThreadInfos threadId false tv).2)]) (stamp tv + 1) := by
  obtain ⟨recorded', ⟨k, own, place, found, id, alive, current⟩, gone⟩ :=
    getThreadInfos_recorded recorded known proper later
  subst id
  rw [place, Session.updateThreadInfosAddAlloc]
  refine modify_recorded ⟨recorded'.sane, recorded'.running, credit_dated recorded'.dated proper found alive ?_ gone⟩ _
    fun infos => ⟨rfl, rfl, rfl, rfl⟩
  intro j infos object same running
  have current' := recorded'.running j infos object running
  rw [same, current] at current'
  exact (Option.some.inj current').symm

/-! ## Messages -/

/-- The controller and the credits of its operations, after messages before a time. -/
structure Traced (s : Credited) (bound : Nat) : Prop where
  shaped : Shaped 0 s.controller.threads
  stands : Stands s.controller (session 0 s.controller.threads)
  credits : s.credits.map Option.isSome = s.controller.operations.listMemoryOperation.map allocates
  recorded : Recorded (session 0 s.controller.threads)
    ((s.controller.operations.listMemoryOperation.map key).zip s.credits) bound

theorem fresh_traced : Traced ⟨Controller.fresh, []⟩ 0 where
  shaped := empty_shaped
  stands := fresh_stands
  credits := rfl
  recorded := by
    refine ⟨empty_sane, ?_, ?_⟩
    · intro k infos found
      cases found
    · constructor <;> simp [session, Controller.fresh, ThreadTable.empty, OperationLists.empty]

theorem addMemoryOperation_traced {s : Credited} {bound : Nat} (traced : Traced s bound) {operation : MemoryOperation}
    (allocates' : allocates operation = decide (operation.allocPtr ≠ 0))
    (known : operation.allocPtr ≠ 0 → operation.callerThreadId ≠ 0) (proper : Proper operation.tvOperation)
    (later : bound ≤ stamp operation.tvOperation) :
    Traced ⟨s.controller.addMemoryOperation operation, s.credits ++ [creditOf s.controller operation]⟩
      (stamp operation.tvOperation + 1) := by
  have stands := handle_stands traced.stands (.memoryOperation operation)
  obtain ⟨shaped, session'⟩ := addMemoryOperation_session traced.shaped operation
    (s.controller.operations.addMemoryOperation operation).2
  have size : (s.controller.operations.listMemoryOperation.map key).length = s.credits.length := by
    have lengths := congrArg List.length traced.credits
    rw [List.length_map, List.length_map] at lengths
    rw [List.length_map, lengths]
  have first := afterFree_recorded traced.recorded (freedBy_alive traced.stands (.memoryOperation operation))
    operation.tvOperation
  constructor
  case shaped => exact shaped
  case stands =>
    show Stands (s.controller.handle (.memoryOperation operation)) (session 0 (s.controller.threads.addMemoryOperation
      operation (s.controller.operations.addMemoryOperation operation).2))
    rw [session']
    exact stands
  case credits => exact credits_append traced.credits allocates'
  case recorded =>
    show Recorded (session 0 (s.controller.threads.addMemoryOperation operation
        (s.controller.operations.addMemoryOperation operation).2))
      (((s.controller.addMemoryOperation operation).operations.listMemoryOperation.map key).zip
        (s.credits ++ [creditOf s.controller operation])) _
    rw [session', Controller.addMemoryOperation_list, List.map_append, free_map (fun _ => rfl), List.zip_append size,
      Session.addMemoryOperation, creditOf_session traced.shaped]
    by_cases given : operation.allocPtr = 0
    · rw [if_neg (not_not.mpr given), if_neg (not_not.mpr given)]
      exact ⟨first.sane, first.running, skip_dated (dated_mono first.dated (by omega)) _⟩
    · rw [if_pos given, if_pos given]
      exact addAlloc_recorded first (known given) proper later operation.msgNum operation.allocSize

/-- The thread that the message is about has an id. -/
def Known : Message → Prop
  | .memory header _ => header.threadId ≠ 0
  | .thread _ data => data.threadId ≠ 0
  | .app _ | .backtrace _ _ | .symbolInfos _ _ => True

theorem handle_traced {s : Credited} {bound : Nat} (traced : Traced s bound) {message : Message}
    (built : FromWrapper message) (known : Known message) (timely : Timely message)
    (later : bound ≤ stamp (ServerMsgHeaderV1.tvOperation message.header)) :
    Traced (s.handle message) (stamp (ServerMsgHeaderV1.tvOperation message.header) + 1) := by
  have proper := timely_proper timely
  cases message with
  | app | backtrace | symbolInfos => exact built.elim
  | memory header data =>
    obtain ⟨_, _, allocates', _⟩ := memory_operation built
    exact addMemoryOperation_traced traced allocates' (fun _ => known) proper later
  | thread header data =>
    obtain ⟨operation, call, threadId, tv⟩ : ∃ operation, handlerCall (.thread header data) = .threadOperation operation ∧
        operation.threadId = data.threadId ∧ operation.tvOperation = ServerMsgHeaderV1.tvOperation header :=
      ⟨_, rfl, rfl, rfl⟩
    obtain ⟨shaped, session'⟩ := updateThreadInfos_session traced.shaped operation
    have stands := handle_stands traced.stands (.threadOperation operation)
    have recorded := updateThreadInfos_recorded traced.recorded
      (show operation.threadId ≠ 0 by rw [threadId]; exact known) (by rw [tv]; exact proper) (by rw [tv]; exact later)
    rw [tv, ← session'] at recorded
    show Traced ⟨s.controller.handle (handlerCall (.thread header data)), s.credits⟩ _
    rw [call]
    refine ⟨shaped, ?_, traced.credits, recorded⟩
    show Stands _ (session 0 (s.controller.threads.updateThreadInfos operation))
    rw [session']
    exact stands

theorem credited_traced {messages : List Message} (built : ∀ message ∈ messages, FromWrapper message)
    (known : ∀ message ∈ messages, Known message) (timely : ∀ message ∈ messages, Timely message)
    (increasing : messages.Pairwise fun first second =>
      timerLt (ServerMsgHeaderV1.tvOperation first.header) (ServerMsgHeaderV1.tvOperation second.header) = true) :
    ∃ bound, Traced (credited messages) bound ∧
      (bound = 0 ∨ ∃ message ∈ messages, bound = stamp (ServerMsgHeaderV1.tvOperation message.header) + 1) := by
  induction messages using List.reverseRecOn with
  | nil => exact ⟨0, fresh_traced, .inl rfl⟩
  | append_singleton messages message ih =>
    obtain ⟨increasing', _, apart⟩ := List.pairwise_append.mp increasing
    obtain ⟨bound, traced, reached⟩ := ih (fun other member => built other (List.mem_append_left _ member))
      (fun other member => known other (List.mem_append_left _ member))
      (fun other member => timely other (List.mem_append_left _ member)) increasing'
    have last : message ∈ messages ++ [message] := by simp
    have later : bound ≤ stamp (ServerMsgHeaderV1.tvOperation message.header) := by
      rcases reached with rfl | ⟨other, member, rfl⟩
      · exact Nat.zero_le _
      · have proper := timely_proper (timely other (List.mem_append_left _ member))
        exact (timerLt_iff proper (timely_proper (timely message last))).mp (apart other member message (by simp))
    refine ⟨_, ?_, .inr ⟨message, last, rfl⟩⟩
    rw [credited_append]
    exact handle_traced traced (built message last) (known message last) (timely message last) later

/-! ## Opening a thread -/

/-- What the search of an opened thread asks for: its id and its times. -/
theorem opened_criteria {c : Controller} {row i : Nat} {infos : ThreadInfos}
    (listed : c.threads.listThreadInfos[row]? = some i) (object : c.threads.objects[i]? = some infos)
    (creation : Proper infos.tvCreation) (termination : Proper infos.tvTermination) (view : MemoryOperationListView) :
    (onThreadInfosDoubleClicked c row view).criteria =
      ⟨infos.threadId, infos.tvCreation, infos.tvTermination, view.notFreeOnlyCheckBox⟩ := by
  have opened : onThreadInfosDoubleClicked c row view =
      { view with
        timeStampMinLineEdit := timevalToText infos.tvCreation
        timeStampMaxLineEdit := timevalToText infos.tvTermination
        threadIdComboBox := ⟨none, number infos.threadId.toNat⟩ } := by
    rw [onThreadInfosDoubleClicked, listed, Option.bind_some, object]
  rw [opened, MemoryOperationListView.criteria, textToTimeval_timevalToText creation,
    textToTimeval_timevalToText termination]
  simp only [toULong_number infos.threadId.toNat_lt, UInt64.ofNat_toNat]

/-- The search for the id and the times of an entry accepts what lies within them. -/
theorem accepts_within {entries : List ThreadInfos} {blocks : List ((UInt64 × Timeval) × Option Nat)} {bound : Nat}
    (dated : Dated entries blocks bound) {infos : ThreadInfos} (member : infos ∈ entries) {operation : MemoryOperation}
    (proper : Proper operation.tvOperation) :
    (⟨infos.threadId, infos.tvCreation, infos.tvTermination, false⟩ : Criteria).accepts operation = true ↔
      operation.callerThreadId = infos.threadId ∧ Within infos operation.tvOperation := by
  have positive : 0 < infos.threadId := by
    have known := dated.known infos member
    rw [UInt64.lt_iff_toNat_lt]
    rw [ne_eq, ← UInt64.toNat_inj] at known
    exact Nat.pos_of_ne_zero known
  obtain ⟨creation, _⟩ := dated.created infos member
  have lower : ¬ (Timeval.isSet infos.tvCreation = true ∧ timerLt operation.tvOperation infos.tvCreation = true) ↔
      stamp infos.tvCreation ≤ stamp operation.tvOperation := by
    rw [isSet_iff creation, timerLt_iff proper creation]
    omega
  have upper : ¬ (Timeval.isSet infos.tvTermination = true ∧ timerGt operation.tvOperation infos.tvTermination = true) ↔
      (infos.isTerminated = true → stamp operation.tvOperation ≤ stamp infos.tvTermination) := by
    cases terminated : infos.isTerminated with
    | false =>
      rw [dated.running infos member terminated]
      simp [Timeval.isSet]
    | true =>
      obtain ⟨termination, set, _⟩ := dated.terminated infos member terminated
      rw [isSet_iff termination, timerGt, timerLt_iff termination proper, forall_prop_of_true rfl]
      omega
  rw [Within, ← lower, ← upper, accepts_iff]
  simp [positive]

/-- For messages of the wrappers about threads with ids, in the order of their times:
    whatever row of the list of threads is opened, the search with the box for operations
    not freed unchecked lists an operation that allocates if and only if it was credited
    to the entry in that row. -/
theorem opened_lists_credited (messages : List Message) (built : ∀ message ∈ messages, FromWrapper message)
    (known : ∀ message ∈ messages, Known message) (timely : ∀ message ∈ messages, Timely message)
    (increasing : messages.Pairwise fun first second =>
      timerLt (ServerMsgHeaderV1.tvOperation first.header) (ServerMsgHeaderV1.tvOperation second.header) = true)
    (row k : Nat) (listed : (afterStream messages).threads.listThreadInfos[row]? = some k)
    (view : MemoryOperationListView) (unchecked : view.notFreeOnlyCheckBox = false) :
    let c := afterStream messages
    let searched := onFilterButtonClicked c (onThreadInfosDoubleClicked c row view).criteria
    ∀ (i : Nat) operation, c.operations.listMemoryOperation[i]? = some operation → allocates operation = true →
      (i ∈ searched.listFilterMemoryOperation ↔ (credited messages).credits[i]? = some (some k)) := by
  obtain ⟨bound, traced, _⟩ := credited_traced built known timely increasing
  rw [← credited_controller] at listed
  rw [← credited_controller]
  generalize credited messages = s at traced listed
  intro c searched i operation object allocates'
  have dated : Dated c.threads.objects _ bound := traced.recorded.dated
  obtain ⟨infos, entry⟩ : ∃ infos, c.threads.objects[k]? = some infos := by
    have inside := List.mem_of_getElem? listed
    rw [traced.shaped.listed, Nat.sub_zero, ← List.range_eq_range', List.mem_range] at inside
    exact ⟨_, List.getElem?_eq_getElem inside⟩
  have member := List.mem_of_getElem? entry
  have termination : Proper infos.tvTermination := by
    cases terminated : infos.isTerminated with
    | false =>
      rw [dated.running infos member terminated]
      exact zero_proper
    | true => exact (dated.terminated infos member terminated).1
  -- the operation has a credit, at its own position
  obtain ⟨m, credit⟩ := credit_of_allocates traced.credits object allocates'
  have block : ((c.operations.listMemoryOperation.map key).zip s.credits)[i]? = some (key operation, some m) :=
    List.getElem?_zip_eq_some.mpr ⟨by rw [List.getElem?_map, object]; rfl, credit⟩
  obtain ⟨proper, _, ⟨own, found, id⟩, exact⟩ := dated.credited _ _ m (List.mem_of_getElem? block)
  obtain ⟨_, positions⟩ := search_spec (onThreadInfosDoubleClicked c row view).criteria c.operations.listMemoryOperation
    (reset_totalled c.searchStats)
  have inside := (List.getElem?_eq_some_iff.mp object).1
  have accepted : i ∈ searched.listFilterMemoryOperation ↔
      (onThreadInfosDoubleClicked c row view).criteria.accepts operation = true := by
    show i ∈ (search (onThreadInfosDoubleClicked c row view).criteria c.operations.listMemoryOperation
      c.searchStats.reset).2 ↔ _
    rw [positions, List.mem_filter, List.mem_range, object, Option.any_some, and_iff_right inside]
  rw [accepted, opened_criteria listed entry (dated.created infos member).1 termination view, unchecked,
    accepts_within dated member proper, credit]
  constructor
  · rintro ⟨same, within⟩
    rw [(exact k infos entry same.symm).mpr within]
  · intro same
    cases same
    have mine : infos.threadId = operation.callerThreadId := by
      have equal : c.threads.objects[k]? = some own := found
      rw [entry] at equal
      cases equal
      exact id
    exact ⟨mine.symm, (exact k infos entry mine).mp rfl⟩

/-- A thread allocates, its id is recycled, and the new thread allocates. -/
def reopened : List Message :=
  [.memory ⟨1, 0, 1, 1, 11⟩ ⟨10, 4096, 1, 0⟩, .thread ⟨1, 5, 1, 2, 31⟩ ⟨7, List.Vector.replicate 24 0⟩,
    .memory ⟨1, 6, 7, 3, 13⟩ ⟨100, 8192, 2, 0⟩, .thread ⟨2, 0, 1, 4, 31⟩ ⟨7, List.Vector.replicate 24 0⟩,
    .memory ⟨2, 70, 7, 5, 14⟩ ⟨20, 12288, 3, 4096⟩]

/-- The first of the two threads shows its block. -/
theorem opened_lists_credited_recycled : 1 ∈ (onFilterButtonClicked (afterStream reopened)
    (onThreadInfosDoubleClicked (afterStream reopened) 1 ⟨[], [], ⟨some 1, []⟩, false⟩).criteria).listFilterMemoryOperation := by
  refine (opened_lists_credited reopened ?_ ?_ ?_ (by decide) 1 1 (by decide +kernel) ⟨[], [], ⟨some 1, []⟩, false⟩ rfl 1
    (memoryOperation ⟨1, 6, 7, 3, 13⟩ ⟨100, 8192, 2, 0⟩) (by decide +kernel) (by decide)).mpr (by decide +kernel)
  all_goals
    intro message member
    simp only [reopened, List.mem_cons, List.not_mem_nil, or_false] at member
  · rcases member with rfl | rfl | rfl | rfl | rfl
    · exact ⟨.malloc, by decide, rfl, by decide⟩
    · exact List.mem_cons_self
    · exact ⟨.calloc, by decide, rfl, by decide⟩
    · exact List.mem_cons_self
    · exact ⟨.realloc, by decide, rfl, by decide⟩
  · rcases member with rfl | rfl | rfl | rfl | rfl <;> unfold Known <;> decide
  · rcases member with rfl | rfl | rfl | rfl | rfl <;> unfold Timely <;> decide

/-! ## The rows of the threads -/

/-- For the same messages: the row of a thread is grey if and only if it shows when the
    thread has terminated. -/
theorem row_grey_iff (fromUtf8 : List UInt8 → List Char) {messages : List Message}
    (built : ∀ message ∈ messages, FromWrapper message) (known : ∀ message ∈ messages, Known message)
    (timely : ∀ message ∈ messages, Timely message)
    (increasing : messages.Pairwise fun first second =>
      timerLt (ServerMsgHeaderV1.tvOperation first.header) (ServerMsgHeaderV1.tvOperation second.header) = true)
    {infos : ThreadInfos} (member : infos ∈ (afterStream messages).threads.objects) :
    Rows.threadInfosColor infos = some Rows.grey ↔ Rows.threadInfosText fromUtf8 infos .timeTermination ≠ [] := by
  obtain ⟨bound, traced, _⟩ := credited_traced built known timely increasing
  rw [← credited_controller] at member
  have dated := traced.recorded.dated
  cases terminated : infos.isTerminated with
  | false =>
    have unset : infos.tvTermination = ⟨0, 0⟩ := dated.running infos member terminated
    simp [Rows.threadInfosColor, Rows.threadInfosText, terminated, unset, Timeval.isSet]
  | true =>
    obtain ⟨termination, after, _⟩ := dated.terminated infos member terminated
    have set := (isSet_iff termination).mpr after
    simp [Rows.threadInfosColor, Rows.threadInfosText, terminated, set, Rows.timeText]

end Aleakd.ThreadTimes
