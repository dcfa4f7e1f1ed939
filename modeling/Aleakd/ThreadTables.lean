import Aleakd.ThreadSessions
import Mathlib.Data.List.Find

/-!
The session that a thread table stands for, and that every function on the table
does in it what the function on sessions does.
-/
namespace Aleakd.ThreadTables
open Aleakd.Messages Aleakd.Operations Aleakd.Threads Aleakd.ThreadSessions

/-- The position in the session of the object at `i`, where the objects of the
    session begin at `base`. -/
def place (base i : Nat) : Option Nat := if base ≤ i then some (i - base) else none

/-- The session of a table. -/
def session (base : Nat) (t : ThreadTable) : Session where
  entries := t.objects.drop base
  current threadId := (getById t.objects t.listThreadInfosAlive threadId).bind (place base)
  stale threadId := (getById t.objects t.listThreadInfosAlive threadId).any fun i => i < base

/-- What holds of every table: the list shows the objects from `base` on; an id is
    alive in one object at most; and no entry has the id of a stale object. -/
structure Shaped (base : Nat) (t : ThreadTable) : Prop where
  within : base ≤ t.objects.length
  listed : t.listThreadInfos = List.range' base (t.objects.length - base)
  inside : ∀ i ∈ t.listThreadInfosAlive, i < t.objects.length
  single : ∀ threadId, ∀ i ∈ t.listThreadInfosAlive, ∀ j ∈ t.listThreadInfosAlive,
    hasId t.objects threadId i → hasId t.objects threadId j → i = j
  apart : ∀ threadId, ∀ i ∈ t.listThreadInfosAlive, i < base → hasId t.objects threadId i →
    ∀ j, base ≤ j → ¬ hasId t.objects threadId j

theorem empty_shaped : Shaped 0 ThreadTable.empty where
  within := Nat.zero_le _
  listed := rfl
  inside := by simp [ThreadTable.empty]
  single := by simp [ThreadTable.empty]
  apart := by simp [ThreadTable.empty]

theorem empty_session : session 0 ThreadTable.empty = Session.empty := rfl

theorem filterMap_range' (objects later : List ThreadInfos) :
    (List.range' objects.length later.length).filterMap (fun i => (objects ++ later)[i]?) = later := by
  induction later generalizing objects with
  | nil => rfl
  | cons infos later ih =>
    have next := ih (objects ++ [infos])
    rw [List.append_assoc, List.singleton_append, List.length_append, List.length_singleton] at next
    rw [List.length_cons, List.range'_succ, List.filterMap_cons, next]
    simp

/-- What the list shows. -/
theorem entries_eq {base : Nat} {t : ThreadTable} (shaped : Shaped base t) : t.entries = (session base t).entries := by
  have whole := filterMap_range' (t.objects.take base) (t.objects.drop base)
  rw [List.take_append_drop, List.length_take, List.length_drop, Nat.min_eq_left shaped.within] at whole
  rw [ThreadTable.entries, shaped.listed, whole]
  rfl

/-! ## Looking up objects -/

theorem hasId_append {objects : List ThreadInfos} {infos : ThreadInfos} {threadId : UInt64} {i : Nat} :
    hasId (objects ++ [infos]) threadId i =
      if i = objects.length then decide (infos.threadId = threadId) else hasId objects threadId i := by
  unfold hasId
  rcases Nat.lt_trichotomy i objects.length with inside | atEnd | beyond
  · rw [List.getElem?_append_left inside, if_neg (Nat.ne_of_lt inside)]
  · subst atEnd
    simp
  · rw [if_neg (Nat.ne_of_gt beyond), List.getElem?_eq_none (Nat.le_of_lt beyond), List.getElem?_eq_none (by simp; omega)]

/-- Changes that leave the id alone. -/
theorem hasId_modify {objects : List ThreadInfos} {change : ThreadInfos → ThreadInfos}
    (keeps : ∀ infos, (change infos).threadId = infos.threadId) (threadId : UInt64) (i j : Nat) :
    hasId (objects.modify i change) threadId j = hasId objects threadId j := by
  unfold hasId
  rw [List.getElem?_modify]
  cases objects[j]? with
  | none => rfl
  | some infos =>
    by_cases here : i = j
    · simp [here, keeps]
    · simp [here]

theorem getById_some {objects : List ThreadInfos} {list : List Nat} {threadId : UInt64} {i : Nat}
    (found : getById objects list threadId = some i) : i ∈ list ∧ hasId objects threadId i = true :=
  ⟨List.mem_of_find?_eq_some found, List.find?_some found⟩

theorem getById_none {objects : List ThreadInfos} {list : List Nat} {threadId : UInt64} :
    getById objects list threadId = none ↔ ∀ i ∈ list, hasId objects threadId i = false := by
  simp [getById]

theorem getById_append {objects : List ThreadInfos} {list : List Nat} (inside : ∀ i ∈ list, i < objects.length)
    (infos : ThreadInfos) (threadId : UInt64) :
    getById (objects ++ [infos]) (list ++ [objects.length]) threadId =
      (getById objects list threadId).or (if infos.threadId = threadId then some objects.length else none) := by
  have before : list.find? (hasId (objects ++ [infos]) threadId) = getById objects list threadId := by
    apply List.find?_congr
    intro i member
    rw [hasId_append, if_neg (Nat.ne_of_lt (inside i member))]
  rw [getById, List.find?_append, before, List.find?_singleton, hasId_append, if_pos rfl]
  by_cases same : infos.threadId = threadId <;> simp [same]

theorem getById_modify {objects : List ThreadInfos} {change : ThreadInfos → ThreadInfos}
    (keeps : ∀ infos, (change infos).threadId = infos.threadId) (i : Nat) (list : List Nat) (threadId : UInt64) :
    getById (objects.modify i change) list threadId = getById objects list threadId := by
  apply List.find?_congr
  intro j _
  rw [hasId_modify keeps]

theorem getById_removeById {objects : List ThreadInfos} {list : List Nat} (threadId other : UInt64) :
    getById objects (removeById objects list threadId) other =
      if other = threadId then none else getById objects list other := by
  by_cases same : other = threadId
  · subst same
    rw [if_pos rfl, getById_none]
    intro i member
    simpa using (List.mem_filter.mp member).2
  · rw [if_neg same, getById, removeById, List.find?_filter]
    apply List.find?_congr
    intro i _
    cases hasOther : hasId objects other i with
    | false => simp
    | true =>
      have not : hasId objects threadId i = false := by
        unfold hasId at hasOther ⊢
        cases object : objects[i]? with
        | none => rfl
        | some infos =>
          rw [object] at hasOther
          simp only [Option.any_some, decide_eq_true_eq] at hasOther
          simpa [hasOther] using same
      simp [not]

/-- An id is alive in the session exactly when `m_listThreadInfosAlive` has it. -/
theorem session_alive (base : Nat) (t : ThreadTable) (threadId : UInt64) :
    (session base t).alive threadId = (getById t.objects t.listThreadInfosAlive threadId).isSome := by
  cases found : getById t.objects t.listThreadInfosAlive threadId with
  | none => simp [Session.alive, session, found]
  | some i =>
    by_cases inside : base ≤ i
    · simp [Session.alive, session, found, place, inside]
    · simp [Session.alive, session, found, place, inside, Nat.not_le.mp inside]

/-! ## Each function, in the session -/

/-- A change that leaves the id alone is made at the place in the session. -/
theorem modify_session {base : Nat} {t : ThreadTable} {change : ThreadInfos → ThreadInfos}
    (keeps : ∀ infos, (change infos).threadId = infos.threadId) (i : Nat) :
    session base (t.modify i change) = (session base t).modify (place base i) change := by
  by_cases inside : base ≤ i
  · simp [session, ThreadTable.modify, Session.modify, place, inside, getById_modify keeps,
      List.drop_modify_of_ge _ _ _ _ inside]
  · simp [session, ThreadTable.modify, Session.modify, place, inside, getById_modify keeps,
      List.drop_modify_of_lt _ _ _ _ (Nat.not_le.mp inside)]

theorem modify_shaped {base : Nat} {t : ThreadTable} {change : ThreadInfos → ThreadInfos}
    (keeps : ∀ infos, (change infos).threadId = infos.threadId) (i : Nat) (shaped : Shaped base t) :
    Shaped base (t.modify i change) where
  within := by simpa [ThreadTable.modify] using shaped.within
  listed := by simpa [ThreadTable.modify] using shaped.listed
  inside := by simpa [ThreadTable.modify] using shaped.inside
  single := by simpa [ThreadTable.modify, hasId_modify keeps] using shaped.single
  apart := by simpa [ThreadTable.modify, hasId_modify keeps] using shaped.apart

/-- The recycled thread's object is terminated and no longer alive. -/
def retire (t : ThreadTable) (i : Nat) (threadId : UInt64) (tvOperation : Timeval) : ThreadTable :=
  { t with
    objects := t.objects.modify i (ThreadInfos.terminate tvOperation)
    listThreadInfosAlive := removeById t.objects t.listThreadInfosAlive threadId }

theorem retire_shaped {base : Nat} {t : ThreadTable} (shaped : Shaped base t) (i : Nat) (threadId : UInt64)
    (tvOperation : Timeval) : Shaped base (retire t i threadId tvOperation) := by
  have fewer : ∀ j ∈ removeById t.objects t.listThreadInfosAlive threadId, j ∈ t.listThreadInfosAlive :=
    fun j member => (List.mem_filter.mp member).1
  have changed : Shaped base (t.modify i (ThreadInfos.terminate tvOperation)) :=
    modify_shaped (ThreadInfos.terminate_threadId tvOperation) i shaped
  exact ⟨changed.within, changed.listed, fun j member => changed.inside j (fewer j member),
    fun id j member k member' => changed.single id j (fewer j member) k (fewer k member'),
    fun id j member => changed.apart id j (fewer j member)⟩

theorem retire_getById {t : ThreadTable} (i : Nat) (threadId other : UInt64) (tvOperation : Timeval) :
    getById (retire t i threadId tvOperation).objects (retire t i threadId tvOperation).listThreadInfosAlive other =
      if other = threadId then none else getById t.objects t.listThreadInfosAlive other := by
  rw [retire, getById_modify (ThreadInfos.terminate_threadId tvOperation), getById_removeById]

/-- The objects with an id after a new one for an id that is not alive. -/
theorem append_hasId {base : Nat} {t : ThreadTable} (shaped : Shaped base t) {threadId : UInt64}
    (notAlive : getById t.objects t.listThreadInfosAlive threadId = none) {tvOperation : Timeval} {id : UInt64} {i : Nat}
    (member : i ∈ (t.append threadId tvOperation).1.listThreadInfosAlive)
    (has : hasId (t.append threadId tvOperation).1.objects id i) :
    (i ∈ t.listThreadInfosAlive ∧ hasId t.objects id i ∧ threadId ≠ id) ∨ i = t.objects.length ∧ threadId = id := by
  rw [ThreadTable.append, hasId_append] at has
  rcases List.mem_append.mp member with alive | new
  · left
    rw [if_neg (Nat.ne_of_lt (shaped.inside i alive))] at has
    refine ⟨alive, has, ?_⟩
    rintro rfl
    rw [getById_none.mp notAlive i alive] at has
    cases has
  · right
    have here := List.mem_singleton.mp new
    rw [if_pos here] at has
    exact ⟨here, of_decide_eq_true has⟩

theorem append_shaped {base : Nat} {t : ThreadTable} (shaped : Shaped base t) {threadId : UInt64}
    (notAlive : getById t.objects t.listThreadInfosAlive threadId = none) (tvOperation : Timeval) :
    Shaped base (t.append threadId tvOperation).1 := by
  have within := shaped.within
  constructor
  case within =>
    simp only [ThreadTable.append, List.length_append, List.length_singleton]
    omega
  case listed =>
    simp only [ThreadTable.append, List.length_append, List.length_singleton, shaped.listed]
    rw [Nat.sub_add_comm within, List.range'_concat]
    congr 2
    omega
  case inside =>
    intro i member
    simp only [ThreadTable.append, List.length_append, List.length_singleton]
    rcases List.mem_append.mp member with alive | new
    · exact Nat.lt_succ_of_lt (shaped.inside i alive)
    · rw [List.mem_singleton.mp new]
      exact Nat.lt_succ_self _
  case single =>
    intro id i member j member' hasI hasJ
    rcases append_hasId shaped notAlive member hasI with ⟨alive, hasI, other⟩ | ⟨rfl, same⟩
    · rcases append_hasId shaped notAlive member' hasJ with ⟨alive', hasJ, _⟩ | ⟨_, same⟩
      · exact shaped.single id i alive j alive' hasI hasJ
      · exact absurd same other
    · rcases append_hasId shaped notAlive member' hasJ with ⟨_, _, other⟩ | ⟨rfl, _⟩
      · exact absurd same other
      · rfl
  case apart =>
    intro id i member below hasI j above hasJ
    rcases append_hasId shaped notAlive member hasI with ⟨alive, hasI, other⟩ | ⟨rfl, _⟩
    · rw [ThreadTable.append, hasId_append] at hasJ
      split at hasJ
      · exact other (of_decide_eq_true hasJ)
      · exact shaped.apart id i alive below hasI j above hasJ
    · exact absurd within (Nat.not_le.mpr below)

/-- A new object for an id that is not alive. -/
theorem append_session {base : Nat} {t : ThreadTable} (shaped : Shaped base t) {threadId : UInt64}
    (notAlive : getById t.objects t.listThreadInfosAlive threadId = none) (tvOperation : Timeval) :
    session base (t.append threadId tvOperation).1 = ((session base t).append threadId tvOperation).1 ∧
      place base (t.append threadId tvOperation).2 = ((session base t).append threadId tvOperation).2 := by
  have within := shaped.within
  refine ⟨?_, ?_⟩
  · have emptyList : t.listThreadInfos.isEmpty = (t.objects.drop base).isEmpty := by
      rw [Bool.eq_iff_iff, List.isEmpty_iff, List.isEmpty_iff, shaped.listed, List.range'_eq_nil_iff,
        List.drop_eq_nil_iff]
      omega
    simp only [session, ThreadTable.append, Session.append, getById_append shaped.inside]
    congr 1
    · rw [List.drop_append_of_le_length within, emptyList]
    · funext id
      by_cases same : id = threadId
      · subst same
        simp [notAlive, place, within]
      · simp [same, Ne.symm same]
    · funext id
      by_cases same : id = threadId
      · subst same
        simp [notAlive, within]
      · simp [same, Ne.symm same]
  · simp [place, ThreadTable.append, Session.append, session, within]

theorem retire_session {base : Nat} {t : ThreadTable} (i : Nat) (threadId : UInt64) (tvOperation : Timeval) :
    session base (retire t i threadId tvOperation) =
      { (session base t).modify (place base i) (ThreadInfos.terminate tvOperation) with
        current := Function.update (session base t).current threadId none
        stale := Function.update (session base t).stale threadId false } := by
  have changed : session base (t.modify i (ThreadInfos.terminate tvOperation)) =
      (session base t).modify (place base i) (ThreadInfos.terminate tvOperation) :=
    modify_session (ThreadInfos.terminate_threadId tvOperation) i
  have entries : (session base (retire t i threadId tvOperation)).entries =
      ((session base t).modify (place base i) (ThreadInfos.terminate tvOperation)).entries := by
    rw [← changed]
    rfl
  have current : (session base (retire t i threadId tvOperation)).current =
      Function.update (session base t).current threadId none := by
    funext id
    simp only [session, retire_getById]
    by_cases same : id = threadId
    · subst same
      simp
    · simp [same]
  have stale : (session base (retire t i threadId tvOperation)).stale =
      Function.update (session base t).stale threadId false := by
    funext id
    simp only [session, retire_getById]
    by_cases same : id = threadId
    · subst same
      simp
    · simp [same]
  show Session.mk (session base (retire t i threadId tvOperation)).entries
    (session base (retire t i threadId tvOperation)).current
    (session base (retire t i threadId tvOperation)).stale = _
  rw [entries, current, stale]

/-- `getThreadInfos`, in the session. -/
theorem getThreadInfos_session {base : Nat} {t : ThreadTable} (shaped : Shaped base t) (threadId : UInt64)
    (threadCreation : Bool) (tvOperation : Timeval) :
    Shaped base (t.getThreadInfos threadId threadCreation tvOperation).1 ∧
      session base (t.getThreadInfos threadId threadCreation tvOperation).1 =
        ((session base t).getThreadInfos threadId threadCreation tvOperation).1 ∧
      place base (t.getThreadInfos threadId threadCreation tvOperation).2 =
        ((session base t).getThreadInfos threadId threadCreation tvOperation).2 := by
  cases alive : getById t.objects t.listThreadInfosAlive threadId with
  | none =>
    have current : (session base t).current threadId = none := by simp [session, alive]
    have stale : (session base t).stale threadId = false := by simp [session, alive]
    simp only [ThreadTable.getThreadInfos, alive, Session.getThreadInfos, current, stale, Bool.false_eq_true, false_and,
      if_false]
    exact ⟨append_shaped shaped alive tvOperation, append_session shaped alive tvOperation⟩
  | some i =>
    have current : (session base t).current threadId = place base i := by simp [session, alive]
    have stale : (session base t).stale threadId = decide (i < base) := by simp [session, alive]
    cases threadCreation with
    | false =>
      simp only [ThreadTable.getThreadInfos, alive, Bool.false_eq_true, if_false, Session.getThreadInfos, current, stale]
      by_cases inside : base ≤ i
      · simp [place, inside, shaped]
      · simp [place, inside, Nat.not_le.mp inside, shaped]
    | true =>
      have gone : getById (retire t i threadId tvOperation).objects
          (retire t i threadId tvOperation).listThreadInfosAlive threadId = none := by
        rw [retire_getById, if_pos rfl]
      have retired := retire_shaped shaped i threadId tvOperation
      have shaped' := append_shaped retired gone tvOperation
      obtain ⟨session', place'⟩ := append_session retired gone tvOperation
      have result : t.getThreadInfos threadId true tvOperation =
          (retire t i threadId tvOperation).append threadId tvOperation := by
        simp [ThreadTable.getThreadInfos, alive, retire]
      rw [result, session', place', retire_session]
      refine ⟨shaped', ?_⟩
      simp only [Session.getThreadInfos, current, stale]
      by_cases inside : base ≤ i
      · simp [place, inside, Session.append, Session.modify]
      · simp [place, inside, Session.append, Session.modify]

theorem updateThreadInfos_session {base : Nat} {t : ThreadTable} (shaped : Shaped base t)
    (operation : ThreadOperation) :
    Shaped base (t.updateThreadInfos operation) ∧
      session base (t.updateThreadInfos operation) = (session base t).updateThreadInfos operation := by
  obtain ⟨shaped', session', place'⟩ := getThreadInfos_session shaped operation.threadId
    (operation.msgCode = .pthreadCreate) operation.tvOperation
  have keeps := ThreadInfos.applyOperation_threadId operation
  refine ⟨modify_shaped keeps _ shaped', ?_⟩
  rw [ThreadTable.updateThreadInfos, modify_session keeps, session', place', Session.updateThreadInfos]

theorem updateThreadInfosAddAlloc_session {base : Nat} {t : ThreadTable} (shaped : Shaped base t) (threadId : UInt64)
    (msgNum : UInt32) (size : UInt64) (tvOperation : Timeval) :
    Shaped base (t.updateThreadInfosAddAlloc threadId msgNum size tvOperation) ∧
      session base (t.updateThreadInfosAddAlloc threadId msgNum size tvOperation) =
        (session base t).updateThreadInfosAddAlloc threadId msgNum size tvOperation := by
  obtain ⟨shaped', session', place'⟩ := getThreadInfos_session shaped threadId false tvOperation
  have keeps := ThreadInfos.addAlloc_threadId msgNum size
  refine ⟨modify_shaped keeps _ shaped', ?_⟩
  rw [ThreadTable.updateThreadInfosAddAlloc, modify_session keeps, session', place',
    Session.updateThreadInfosAddAlloc]

/-! ## Frees -/

theorem hasIdAndMsgNum_eq (objects : List ThreadInfos) (threadId : UInt64) (msgNum : UInt32) (i : Nat) :
    hasIdAndMsgNum objects threadId msgNum i = objects[i]?.any (inRange threadId msgNum) := rfl

theorem inRange_hasId {objects : List ThreadInfos} {threadId : UInt64} {msgNum : UInt32} {i : Nat}
    (found : objects[i]?.any (inRange threadId msgNum) = true) : hasId objects threadId i = true := by
  unfold hasId
  cases object : objects[i]? with
  | none =>
    rw [object] at found
    cases found
  | some infos =>
    rw [object] at found
    simp only [Option.any_some, inRange, Bool.and_eq_true] at found
    exact found.1.1

/-- Among the alive objects only the one of the id can be found by its range. -/
theorem getByIdAndMsgNum_alive {base : Nat} {t : ThreadTable} (shaped : Shaped base t) (threadId : UInt64)
    (msgNum : UInt32) :
    getByIdAndMsgNum t.objects t.listThreadInfosAlive threadId msgNum =
      (getById t.objects t.listThreadInfosAlive threadId).filter fun i => t.objects[i]?.any (inRange threadId msgNum) := by
  cases found : getByIdAndMsgNum t.objects t.listThreadInfosAlive threadId msgNum with
  | none =>
    have fails := List.find?_eq_none.mp found
    cases alive : getById t.objects t.listThreadInfosAlive threadId with
    | none => rfl
    | some i =>
      have not := fails i (getById_some alive).1
      rw [hasIdAndMsgNum_eq] at not
      simp [Option.filter, not]
  | some i =>
    have member := List.mem_of_find?_eq_some found
    have range := List.find?_some found
    rw [hasIdAndMsgNum_eq] at range
    have has := inRange_hasId range
    cases alive : getById t.objects t.listThreadInfosAlive threadId with
    | none =>
      rw [getById_none.mp alive i member] at has
      cases has
    | some j =>
      obtain ⟨member', has'⟩ := getById_some alive
      have same := shaped.single threadId i member j member' has has'
      subst same
      simp [Option.filter, range]

theorem find?_range' (test : ThreadInfos → Bool) (objects later : List ThreadInfos) :
    (List.range' objects.length later.length).find? (fun i => (objects ++ later)[i]?.any test) =
      (later.findIdx? test).map fun k => objects.length + k := by
  induction later generalizing objects with
  | nil => rfl
  | cons infos later ih =>
    have next := ih (objects ++ [infos])
    rw [List.append_assoc, List.singleton_append, List.length_append, List.length_singleton] at next
    rw [List.length_cons, List.range'_succ, List.find?_cons, next, List.findIdx?_cons]
    have here : (objects ++ infos :: later)[objects.length]? = some infos := by simp
    rw [here, Option.any_some]
    cases test infos with
    | true => simp
    | false =>
      cases later.findIdx? test with
      | none => rfl
      | some k =>
        show some (objects.length + 1 + k) = some (objects.length + (k + 1))
        rw [Nat.add_assoc, Nat.add_comm 1 k]

/-- In the list, the first entry of the session is found. -/
theorem getByIdAndMsgNum_listed {base : Nat} {t : ThreadTable} (shaped : Shaped base t) (threadId : UInt64)
    (msgNum : UInt32) :
    getByIdAndMsgNum t.objects t.listThreadInfos threadId msgNum =
      ((session base t).entries.findIdx? (inRange threadId msgNum)).map fun k => base + k := by
  have whole := find?_range' (inRange threadId msgNum) (t.objects.take base) (t.objects.drop base)
  rw [List.take_append_drop, List.length_take, List.length_drop, Nat.min_eq_left shaped.within] at whole
  rw [shaped.listed]
  exact whole

/-- No entry has an id that is stale. -/
theorem getByIdAndMsgNum_stale {base : Nat} {t : ThreadTable} (shaped : Shaped base t) {threadId : UInt64} {i : Nat}
    (alive : getById t.objects t.listThreadInfosAlive threadId = some i) (below : i < base) (msgNum : UInt32) :
    getByIdAndMsgNum t.objects t.listThreadInfos threadId msgNum = none := by
  obtain ⟨member, has⟩ := getById_some alive
  apply List.find?_eq_none.mpr
  intro j listed range
  rw [shaped.listed] at listed
  rw [hasIdAndMsgNum_eq] at range
  exact shaped.apart threadId i member below has j (List.left_le_of_mem_range' listed) (inRange_hasId range)

theorem getThreadInfosForMsgNum_session {base : Nat} {t : ThreadTable} (shaped : Shaped base t) {threadId : UInt64}
    (notStale : (session base t).stale threadId = false) (msgNum : UInt32) :
    t.getThreadInfosForMsgNum threadId msgNum =
      ((session base t).getThreadInfosForMsgNum threadId msgNum).map fun k => base + k := by
  rw [ThreadTable.getThreadInfosForMsgNum, getByIdAndMsgNum_alive shaped, getByIdAndMsgNum_listed shaped,
    Session.getThreadInfosForMsgNum]
  cases alive : getById t.objects t.listThreadInfosAlive threadId with
  | none =>
    have current : (session base t).current threadId = none := by simp [session, alive]
    simp [current]
  | some i =>
    have inside : base ≤ i := by simpa [session, alive] using notStale
    have current : (session base t).current threadId = some (i - base) := by simp [session, alive, place, inside]
    have object : (session base t).entries[i - base]? = t.objects[i]? := by
      rw [session, List.getElem?_drop, Nat.add_sub_cancel' inside]
    rw [current, Option.any_some, object]
    by_cases range : t.objects[i]?.any (inRange threadId msgNum) = true
    · simp [Option.filter, range, inside]
    · simp [Option.filter, range]

theorem updateThreadInfosAddFree_session {base : Nat} {t : ThreadTable} (shaped : Shaped base t) (threadId : UInt64)
    (allocMsgNum : UInt32) (size : UInt64) (tvOperation : Timeval) :
    Shaped base (t.updateThreadInfosAddFree threadId allocMsgNum size tvOperation) ∧
      session base (t.updateThreadInfosAddFree threadId allocMsgNum size tvOperation) =
        (session base t).updateThreadInfosAddFree threadId allocMsgNum size tvOperation := by
  have keeps := ThreadInfos.addFree_threadId size
  by_cases notStale : (session base t).stale threadId = false
  · have found := getThreadInfosForMsgNum_session shaped notStale allocMsgNum
    rw [ThreadTable.updateThreadInfosAddFree, Session.updateThreadInfosAddFree, found, notStale]
    cases (session base t).getThreadInfosForMsgNum threadId allocMsgNum with
    | some k => exact ⟨modify_shaped keeps _ shaped, by simp [modify_session keeps, place]⟩
    | none =>
      obtain ⟨shaped', session', place'⟩ := getThreadInfos_session shaped threadId false tvOperation
      refine ⟨modify_shaped keeps _ shaped', ?_⟩
      simp [modify_session keeps, session', place']
  · -- the object of the earlier session takes the free, by either search
    obtain ⟨i, alive, below⟩ : ∃ i, getById t.objects t.listThreadInfosAlive threadId = some i ∧ i < base := by
      simpa [session, Option.any_eq_true] using notStale
    have result : t.updateThreadInfosAddFree threadId allocMsgNum size tvOperation =
        t.modify i (ThreadInfos.addFree size) := by
      rw [ThreadTable.updateThreadInfosAddFree, ThreadTable.getThreadInfosForMsgNum, getByIdAndMsgNum_alive shaped,
        alive, getByIdAndMsgNum_stale shaped alive below]
      by_cases range : t.objects[i]?.any (inRange threadId allocMsgNum) = true
      · simp [Option.filter, range]
      · simp [Option.filter, range, ThreadTable.getThreadInfos, alive]
    have nowhere : place base i = none := if_neg (Nat.not_le.mpr below)
    rw [result, modify_session keeps, nowhere, Session.updateThreadInfosAddFree, if_pos (by simpa using notStale)]
    exact ⟨modify_shaped keeps _ shaped, rfl⟩

/-! ## Memory operations and new sessions -/

theorem addMemoryOperation_session {base : Nat} {t : ThreadTable} (shaped : Shaped base t)
    (operation : MemoryOperation) (freed : Option MemoryOperation) :
    Shaped base (t.addMemoryOperation operation freed) ∧
      session base (t.addMemoryOperation operation freed) = (session base t).addMemoryOperation operation freed := by
  have second : ∀ t', Shaped base t' →
      Shaped base (if operation.allocPtr ≠ 0 then t'.updateThreadInfosAddAlloc operation.callerThreadId
          operation.msgNum operation.allocSize operation.tvOperation else t') ∧
        session base (if operation.allocPtr ≠ 0 then t'.updateThreadInfosAddAlloc operation.callerThreadId
          operation.msgNum operation.allocSize operation.tvOperation else t') =
        if operation.allocPtr ≠ 0 then (session base t').updateThreadInfosAddAlloc operation.callerThreadId
          operation.msgNum operation.allocSize operation.tvOperation else session base t' := by
    intro t' shaped'
    by_cases alloc : operation.allocPtr ≠ 0
    · rw [if_pos alloc, if_pos alloc]
      exact updateThreadInfosAddAlloc_session shaped' _ _ _ _
    · rw [if_neg alloc, if_neg alloc]
      exact ⟨shaped', rfl⟩
  cases freed with
  | none => exact second t shaped
  | some freed =>
    obtain ⟨shaped', session'⟩ := updateThreadInfosAddFree_session shaped freed.callerThreadId freed.msgNum
      freed.allocSize operation.tvOperation
    have result := second _ shaped'
    rw [session'] at result
    exact result

/-- With the list cleared, all objects belong to earlier sessions. -/
theorem clear_session {base : Nat} {t : ThreadTable} (shaped : Shaped base t) :
    Shaped t.objects.length { t with listThreadInfos := [] } ∧
      session t.objects.length { t with listThreadInfos := [] } = (session base t).clear := by
  refine ⟨?_, ?_⟩
  · constructor
    case within => exact Nat.le_refl _
    case listed => simp
    case inside => exact shaped.inside
    case single => exact shaped.single
    case apart =>
      intro id i member below hasI j above hasJ
      rw [hasId, List.getElem?_eq_none above] at hasJ
      cases hasJ
  · have alive : ∀ id i, getById t.objects t.listThreadInfosAlive id = some i → i < t.objects.length :=
      fun id i found => shaped.inside i (getById_some found).1
    simp only [session, Session.clear, List.drop_length]
    congr 1
    · funext id
      cases found : getById t.objects t.listThreadInfosAlive id with
      | none => rfl
      | some i => simp [place, Nat.not_le.mpr (alive id i found)]
    · funext id
      refine Eq.trans ?_ (session_alive base t id).symm
      cases found : getById t.objects t.listThreadInfosAlive id with
      | none => rfl
      | some i => simp [alive id i found]

end Aleakd.ThreadTables
