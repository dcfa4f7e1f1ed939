import Aleakd.Sessions
import Aleakd.ThreadSystem
import Aleakd.ThreadTotals

/-!
What the server shows of the threads of a captured program, in every state of every
interleaving: a created thread has one entry, with the blocks that it has
allocated and that are not freed, unless a message of its own comes before the one
that announces it.
-/
namespace Aleakd.ThreadIdentity
open Aleakd.Messages Aleakd.Operations Aleakd.OperationList Aleakd.Threads Aleakd.ApplicationWindow Aleakd.Framing
open Aleakd.Wrapper Aleakd.Ledger Aleakd.ServerLedger Aleakd.Runs Aleakd.Sessions Aleakd.ThreadSessions
open Aleakd.ThreadTotals Aleakd.ThreadSystem

/-- The server after messages. -/
def server (messages : List Message) : Controller := Controller.fresh.handleAll (messages.map handlerCall)

/-- The thread has a message about a block that it allocated. -/
def Allocated (messages : List Message) (threadId : UInt64) : Prop :=
  ∃ header data, .memory header data ∈ messages ∧ data.allocPtr ≠ 0 ∧ header.threadId = threadId

/-- Bytes and number of the blocks of a thread that are not freed. -/
def unfreed (threadId : UInt64) (live : Finmap fun _ : UInt64 => Block) : Nat × Nat :=
  worth (fun thread size => if thread = threadId then (size.toNat, 1) else 0) live

/-- The server has one entry for the thread, which is not terminated and has the bytes
    and the number of its unfreed blocks. -/
def Accounted (messages : List Message) (threadId : UInt64) : Prop :=
  ∃ a infos, told messages = some a ∧
    (server messages).threads.entries.filter (fun infos => infos.threadId = threadId) = [infos] ∧
    infos.isTerminated = false ∧
    (infos.currentSize.toNat, infos.currentAllocCount.toNat) = unfreed threadId a.live

/-- No message about a block that the thread allocated comes before the message that
    announces the thread. -/
def Ordered (messages : List Message) (threadId : UInt64) : Prop :=
  ∀ earlier header data later, messages = earlier ++ .thread header data :: later → data.threadId = threadId →
    ¬ Allocated earlier threadId

/-- The counters of an entry have room for the blocks of the thread. -/
def Fits (messages : List Message) (threadId : UInt64) : Prop :=
  ∀ a, told messages = some a → (unfreed threadId a.live).1 < 2 ^ 64 ∧ (unfreed threadId a.live).2 < 2 ^ 32

/-! ## The sums -/

/-- Counting in 64 and in 32 bits. -/
def wrap : Nat × Nat →+ UInt64 × UInt32 where
  toFun amount := (UInt64.ofNat amount.1, UInt32.ofNat amount.2)
  map_zero' := rfl
  map_add' := by
    rintro ⟨bytes, number⟩ ⟨bytes', number'⟩
    simp

theorem wrap_apply (amount : Nat × Nat) : wrap amount = (UInt64.ofNat amount.1, UInt32.ofNat amount.2) := rfl

theorem wrap_unfreed (threadId : UInt64) (live : Finmap fun _ : UInt64 => Block) :
    wrap (unfreed threadId live) =
      worth (fun thread size => if thread = threadId then (size, (1 : UInt32)) else 0) live := by
  rw [unfreed, worth, total_hom]
  have same : ∀ thread size : UInt64, wrap (if thread = threadId then (size.toNat, 1) else 0) =
      if thread = threadId then (size, (1 : UInt32)) else 0 := by
    intro thread size
    split
    · rw [wrap_apply, UInt64.ofNat_toNat]
      rfl
    · rfl
  simp only [same]
  rfl

/-- The server after messages of the kinds that threads append: it agrees with the
    allocator, and the entries of each thread id add up to its unfreed blocks. -/
theorem handleAll_sums {messages : List Message} (kinds : Kinds messages)
    {c : Controller} {s : Session} {a final : Allocator} (agrees : Agrees c.operations a) (stands : Stands c s)
    (sane : Sane s) (sums : ∀ threadId, charge s threadId = wrap (unfreed threadId a.live))
    (ran : run Allocator.step a (operationsOf messages) = some final) :
    ∃ s', Stands (c.handleAll (messages.map handlerCall)) s' ∧ Sane s' ∧
      ∀ threadId, charge s' threadId = wrap (unfreed threadId final.live) := by
  induction messages generalizing c s a with
  | nil =>
    cases ran
    exact ⟨s, stands, sane, sums⟩
  | cons message rest ih =>
    have kinds' : Kinds rest := fun later member => kinds later (List.mem_cons_of_mem message member)
    rcases kinds message List.mem_cons_self with ⟨header, data, rfl, _⟩ | ⟨header, data, rfl⟩
    · have stands' := handle_stands stands (handlerCall (.thread header data))
      obtain ⟨sane', sums'⟩ := handle_charge sane none (handlerCall (.thread header data)) (by simp [handlerCall])
        (fun _ => rfl)
      refine ih kinds' agrees stands' sane' ?_ ran
      intro threadId
      refine (sums' threadId).trans ?_
      rw [sums]
      simp [costOf, handlerCall]
    · obtain ⟨next, stepped, ran'⟩ := run_cons_some.mp ran
      have stands' := handle_stands stands (handlerCall (.memory header data))
      obtain ⟨sane', sums'⟩ := handle_charge sane (freedBy c.operations (handlerCall (.memory header data)))
        (handlerCall (.memory header data)) (by simp [handlerCall]) (fun other => absurd rfl (other _))
      obtain ⟨agrees', worths⟩ := addMemoryOperation_agrees agrees rfl stepped
      refine ih kinds' agrees' stands' sane' ?_ ran'
      intro threadId
      rw [sums', sums, wrap_unfreed, wrap_unfreed, worths]
      have freed : ((freedBy c.operations (handlerCall (.memory header data))).map (cost threadId)).getD 0 =
          ((c.operations.addMemoryOperation (received (header, data))).2.map fun operation =>
            if operation.callerThreadId = threadId then (operation.allocSize, (1 : UInt32)) else 0).getD 0 := rfl
      have added : costOf threadId (handlerCall (.memory header data)) =
          if (received (header, data)).allocPtr ≠ 0 then
            if (received (header, data)).callerThreadId = threadId then
              ((received (header, data)).allocSize, (1 : UInt32)) else 0
          else 0 := rfl
      rw [freed, added]
      abel

theorem empty_sums (threadId : UInt64) :
    charge Session.empty threadId = wrap (unfreed threadId Allocator.empty.live) := rfl

/-! ## The entries -/

theorem entriesMade_alive (threadId : UInt64) (calls : List Callback) :
    entriesMade threadId true calls =
      calls.countP fun call => decide (subject call = some threadId) && creates call := by
  induction calls with
  | nil => rfl
  | cons call rest ih =>
    rw [entriesMade, Bool.true_or, ih, List.countP_cons, Nat.add_comm]
    congr 1
    by_cases about : subject call = some threadId <;> simp [about]

/-- A thread id that is seen has one entry exactly when no call about it comes before
    one that creates it. -/
theorem entriesMade_eq_one {threadId : UInt64} {calls : List Callback} (seen : Seen calls threadId) :
    entriesMade threadId false calls = 1 ↔ ∀ earlier call later, calls = earlier ++ call :: later →
      subject call = some threadId → creates call = true → ¬ Seen earlier threadId := by
  induction calls with
  | nil =>
    obtain ⟨call, member, _⟩ := seen
    cases member
  | cons first rest ih =>
    by_cases about : subject first = some threadId
    · -- the first call makes the entry, so no later one may create the thread
      have one : entriesMade threadId false (first :: rest) = 1 + entriesMade threadId true rest := by
        simp [entriesMade, about]
      rw [one, entriesMade_alive, Nat.add_eq_left, List.countP_eq_zero]
      constructor
      · intro never earlier call later split about' created seen'
        rcases earlier with _ | ⟨head, earlier⟩
        · obtain ⟨_, member, _⟩ := seen'
          cases member
        · rw [List.cons_append, List.cons.injEq] at split
          exact never call (by simp [split.2]) (by simp [about', created])
      · intro before call member created
        obtain ⟨earlier, later, split⟩ := List.append_of_mem member
        simp only [Bool.and_eq_true, decide_eq_true_eq] at created
        refine before (first :: earlier) call later (by rw [split, List.cons_append]) created.1 created.2 ?_
        exact ⟨first, List.mem_cons_self, about⟩
    · have seen' : Seen rest threadId := by
        obtain ⟨call, member, about'⟩ := seen
        rcases List.mem_cons.mp member with rfl | member
        · exact absurd about' about
        · exact ⟨call, member, about'⟩
      have same : entriesMade threadId false (first :: rest) = entriesMade threadId false rest := by
        simp [entriesMade, about]
      rw [same, ih seen']
      constructor
      · intro before earlier call later split about' created
        rcases earlier with _ | ⟨head, earlier⟩
        · rw [List.nil_append, List.cons.injEq] at split
          rw [← split.1] at about'
          exact absurd about' about
        · rw [List.cons_append, List.cons.injEq] at split
          rintro ⟨other, member, about''⟩
          rcases List.mem_cons.mp member with rfl | member
          · rw [split.1] at about
            exact about about''
          · exact before earlier call later split.2 about' created ⟨other, member, about''⟩
      · intro before earlier call later split about' created
        rintro ⟨other, member, about''⟩
        exact before (first :: earlier) call later (by rw [split, List.cons_append]) about' created
          ⟨other, List.mem_cons_of_mem first member, about''⟩

/-! ## Messages and calls -/

theorem seen_iff {messages : List Message} (kinds : Kinds messages) (threadId : UInt64) :
    Seen (messages.map handlerCall) threadId ↔ Allocated messages threadId ∨ threadId ∈ announced messages := by
  constructor
  · rintro ⟨call, called, about⟩
    obtain ⟨message, member, rfl⟩ := List.mem_map.mp called
    rcases kinds message member with ⟨header, data, rfl, _⟩ | ⟨header, data, rfl⟩
    · right
      exact List.mem_filterMap.mpr ⟨.thread header data, member, about⟩
    · left
      have both : data.allocPtr ≠ 0 ∧ header.threadId = threadId := by
        simpa [subject, handlerCall] using about
      exact ⟨header, data, member, both.1, both.2⟩
  · rintro (⟨header, data, member, given, rfl⟩ | member)
    · refine ⟨_, List.mem_map_of_mem member, ?_⟩
      simp [subject, handlerCall, given]
    · obtain ⟨message, member, about⟩ := List.mem_filterMap.mp member
      refine ⟨_, List.mem_map_of_mem member, ?_⟩
      cases message with
      | thread header data => exact about
      | app | memory | backtrace | symbolInfos => cases about

theorem creates_thread (header : ServerMsgHeaderV1) (data : ServerMsgThreadDataV1)
    (code : header.msgCode = MsgCode.pthreadCreate.byte) : creates (handlerCall (.thread header data)) = true := by
  have known : MsgCode.ofByte header.msgCode = .pthreadCreate := by
    rw [code]
    decide
  exact decide_eq_true known

/-- Where each thread is announced once, only its blocks can come before. -/
theorem ordered_iff {messages : List Message} (kinds : Kinds messages) (once : (announced messages).Nodup)
    (threadId : UInt64) :
    (∀ earlier call later, messages.map handlerCall = earlier ++ call :: later → subject call = some threadId →
      creates call = true → ¬ Seen earlier threadId) ↔ Ordered messages threadId := by
  constructor
  · rintro before earlier header data later rfl about allocated
    have code : header.msgCode = MsgCode.pthreadCreate.byte := by
      rcases kinds (.thread header data) (by simp) with ⟨_, _, same, code⟩ | ⟨_, _, same⟩
      · cases same
        exact code
      · cases same
    have kinds' : Kinds earlier := fun message member => kinds message (List.mem_append_left _ member)
    refine before (earlier.map handlerCall) (handlerCall (.thread header data)) (later.map handlerCall) (by simp)
      (by rw [← about]; rfl) (creates_thread header data code) ?_
    exact (seen_iff kinds' threadId).mpr (.inl allocated)
  · intro ordered earlier call later split about created seen
    obtain ⟨before, rest, rfl, rfl, split'⟩ := List.map_eq_append_iff.mp split
    obtain ⟨message, after, rfl, rfl, rfl⟩ := List.map_eq_cons_iff.mp split'
    have kinds' : Kinds before := fun message member => kinds message (List.mem_append_left _ member)
    rcases kinds message (by simp) with ⟨header, data, rfl, _⟩ | ⟨header, data, rfl⟩
    · have same : data.threadId = threadId := Option.some.inj about
      rcases (seen_iff kinds' threadId).mp seen with allocated | again
      · exact ordered before header data after rfl same allocated
      · have twice : (announced before ++ data.threadId :: announced after).Nodup := by
          simpa [announced] using once
        rw [same] at twice
        exact (List.nodup_middle.mp twice).notMem (List.mem_append_left _ again)
    · cases created

/-! ## Every run -/

/-- A thread with a block is accounted for exactly when its messages are ordered and
    its blocks fit the counters. -/
theorem accounted_iff {s : System} (inv : Inv s) {threadId : UInt64} (allocated : Allocated s.stream threadId) :
    Accounted s.stream threadId ↔ Ordered s.stream threadId ∧ Fits s.stream threadId := by
  obtain ⟨a, tells, _⟩ := inv.ledger
  obtain ⟨s', stands, sane, sums⟩ := handleAll_sums inv.kinds empty_agrees fresh_stands empty_sane empty_sums tells
  have seen : Seen (s.stream.map handlerCall) threadId := (seen_iff inv.kinds threadId).mpr (.inl allocated)
  have session : Callback.newConnection ∉ s.stream.map handlerCall := by
    intro member
    obtain ⟨message, member, same⟩ := List.mem_map.mp member
    rcases inv.kinds message member with ⟨_, _, rfl, _⟩ | ⟨_, _, rfl⟩ <;> cases same
  have alive : s'.alive threadId = true := by
    obtain ⟨s'', stands', alive⟩ := handleAll_alive fresh_stands (s.stream.map handlerCall)
    rw [(stands_same stands stands').1, alive]
    exact .inr seen
  have count : s'.count threadId = entriesMade threadId false (s.stream.map handlerCall) := by
    obtain ⟨s'', stands', count⟩ := handleAll_count fresh_stands session threadId
    rw [(stands_same stands stands').2, count]
    exact Nat.zero_add _
  have entries : (server s.stream).threads.entries = s'.entries := stands_entries stands
  rw [← ordered_iff inv.kinds inv.once, ← entriesMade_eq_one seen, ← count]
  constructor
  · rintro ⟨a', infos, tells', single, _, exact'⟩
    refine ⟨?_, ?_⟩
    · rw [Session.count, List.countP_eq_length_filter, ← entries, single, List.length_singleton]
    · intro a'' tells''
      rw [tells'] at tells''
      cases tells''
      rw [← exact']
      exact ⟨UInt64.toNat_lt _, UInt32.toNat_lt _⟩
  · rintro ⟨single, fits⟩
    obtain ⟨infos, filtered, running, sum⟩ := single_entry sane alive single
    refine ⟨a, infos, tells, by rw [entries, filtered], running, ?_⟩
    obtain ⟨size, number⟩ := Prod.mk.inj (sum.trans (sums threadId))
    obtain ⟨bytes, blocks⟩ := fits a tells
    rw [size, number, UInt64.toNat_ofNat', UInt32.toNat_ofNat', Nat.mod_eq_of_lt bytes, Nat.mod_eq_of_lt blocks]

/-- In every state of every interleaving: the server accounts for the created threads
    that have allocated if and only if, for each of them, no message about a block that
    it allocated comes before the message that announces it, and its unfreed blocks
    have less than 2^64 bytes and are fewer than 2^32. -/
theorem identity_iff (main : UInt64) (counters : Counters) (events : List Event) (s : System)
    (ran : run step (System.initial main counters) events = some s) :
    (∀ threadId ∈ s.created, Allocated s.stream threadId → Accounted s.stream threadId) ↔
      ∀ threadId ∈ s.created, Allocated s.stream threadId → Ordered s.stream threadId ∧ Fits s.stream threadId := by
  have inv := run_inv ran
  constructor
  · intro accounted threadId created allocated
    exact (accounted_iff inv allocated).mp (accounted threadId created allocated)
  · intro condition threadId created allocated
    exact (accounted_iff inv allocated).mpr (condition threadId created allocated)

/-- A message that announces a thread before all others. -/
theorem ordered_of_first {header : ServerMsgHeaderV1} {data : ServerMsgThreadDataV1} {rest : List Message}
    (only : announced rest = []) {threadId : UInt64} : Ordered (.thread header data :: rest) threadId := by
  rintro earlier header' data' later split _ ⟨_, _, member, _⟩
  rcases earlier with _ | ⟨first, earlier⟩
  · cases member
  · rw [List.cons_append, List.cons.injEq] at split
    rw [split.2] at only
    simp [announced] at only

/-- Thread 1 creates thread 2, which allocates twice, the second time while thread 1
    allocates, and frees the first block. -/
def announcedFirst : List Event :=
  [.create 1 2, .number 1 1 0, .append 1, .alloc .malloc 2 1 0 100 4096, .append 2, .alloc .calloc 1 2 0 8 8192,
    .alloc .malloc 2 2 0 50 12288, .append 2, .append 1, .free 2 3 0 4096, .append 2]

theorem announcedFirst_accounted :
    ∃ s, run step (System.initial 1 ⟨0, 0⟩) announcedFirst = some s ∧ 2 ∈ s.created ∧ Accounted s.stream 2 := by
  refine ⟨_, rfl, List.mem_singleton.mpr rfl, ?_⟩
  refine (identity_iff 1 ⟨0, 0⟩ announcedFirst _ rfl).mpr ?_ 2 (List.mem_singleton.mpr rfl) ?_
  · intro threadId created _
    rw [List.mem_singleton.mp created]
    refine ⟨?_, ?_⟩
    · exact ordered_of_first (by decide +kernel)
    · intro a tells
      cases Option.some.inj (tells.symm.trans rfl)
      decide +kernel
  · exact ⟨_, _, List.mem_cons_of_mem _ List.mem_cons_self, by decide, rfl⟩

/-- Thread 2 runs and allocates before thread 1 reports that it has created it. -/
def allocatedFirst : List Event :=
  [.create 1 2, .alloc .malloc 2 1 0 100 4096, .append 2, .number 1 1 0, .append 1]

theorem allocatedFirst_recycled :
    ¬ ∀ main counters events s, run step (System.initial main counters) events = some s → Complete s →
      ∀ threadId ∈ s.created, Allocated s.stream threadId → Accounted s.stream threadId := by
  intro claim
  have complete : ∀ s, run step (System.initial 1 ⟨0, 0⟩) allocatedFirst = some s → Complete s := by
    rintro s ⟨⟩
    intro threadId
    by_cases first : threadId = 1
    · subst first
      rfl
    · by_cases second : threadId = 2
      · subst second
        rfl
      · simp [first, second, System.initial]
  obtain ⟨a, infos, _, single, _⟩ := claim 1 ⟨0, 0⟩ allocatedFirst _ rfl (complete _ rfl) 2 (List.mem_singleton.mpr rfl)
    ⟨_, _, List.mem_cons_self, by decide, rfl⟩
  have one := congrArg List.length single
  rw [List.length_singleton] at one
  revert one
  -- the announcement terminates the entry and makes another one
  decide +kernel

end Aleakd.ThreadIdentity
