import Aleakd.Backtraces

/-!
The symbols of the addresses. `backtrace_send` sends the symbol of an address only when
the address is not in a cache of limited size, which all threads share; the server keeps
the first symbol that it gets for an address. In the end each address of a backtrace
has its symbol, though a thread may leave it to another one that has not sent it yet.
-/
namespace Aleakd.Symbols
open Aleakd.Messages Aleakd.Operations Aleakd.ApplicationWindow Aleakd.Framing Aleakd.SessionTotals Aleakd.Wrapper
open Aleakd.Runs Aleakd.Parties Aleakd.Backtraces

/-! ## The cache of addresses -/

/-- An entry of `g_listAddr` and of `g_listAddrCount`. -/
structure CachedAddr where
  addr : UInt64
  count : Int32
deriving DecidableEq

/-- The arrays as `backtrace_init` leaves them. The number of their entries,
    `BACKTRACE_ADDR_CACHE_COUNT`, is a parameter here. -/
def backtraceInit (cacheCount : Nat) : List CachedAddr := List.replicate cacheCount ⟨0, 0⟩

/-- What the loop over the entries ends with. -/
inductive Scan where
  | found (i : Nat)
  | full (posMin : Nat)

/-- The loop, from the `i`th entry on, with `iPosMin` and `iValMin`. -/
def scan (addr : UInt64) : List CachedAddr → Nat → Nat → Int32 → Scan
  | [], _, posMin, _ => .full posMin
  | entry :: rest, i, posMin, valMin =>
    if entry.addr = addr then .found i
    else if entry.count < valMin then scan addr rest (i + 1) i entry.count
    else scan addr rest (i + 1) posMin valMin

def backtraceCheckAddr (cache : List CachedAddr) (addr : UInt64) : List CachedAddr × Bool :=
  match scan addr cache 0 0 Int32.maxValue with
  | .found i => (cache.modify i fun entry => { entry with count := entry.count + 1 }, true)
  | .full posMin => (cache.set posMin ⟨addr, 1⟩, false)

theorem scan_found {addr : UInt64} {cache : List CachedAddr} {start posMin i : Nat} {valMin : Int32}
    (found : scan addr cache start posMin valMin = .found i) : ∃ entry ∈ cache, entry.addr = addr := by
  induction cache generalizing start posMin valMin with
  | nil => cases found
  | cons entry rest ih =>
    rw [scan] at found
    split at found
    · next here => exact ⟨entry, List.mem_cons_self, here⟩
    · split at found
      · obtain ⟨other, member, there⟩ := ih found
        exact ⟨other, List.mem_cons_of_mem entry member, there⟩
      · obtain ⟨other, member, there⟩ := ih found
        exact ⟨other, List.mem_cons_of_mem entry member, there⟩

/-- What a check says, and what is cached after it. -/
theorem backtraceCheckAddr_spec (cache : List CachedAddr) (addr : UInt64) :
    ((backtraceCheckAddr cache addr).2 = true → ∃ entry ∈ cache, entry.addr = addr) ∧
      ∀ entry ∈ (backtraceCheckAddr cache addr).1, (∃ before ∈ cache, before.addr = entry.addr) ∨
        (backtraceCheckAddr cache addr).2 = false ∧ entry.addr = addr := by
  unfold backtraceCheckAddr
  split
  · next i found =>
    refine ⟨fun _ => scan_found found, ?_⟩
    intro entry member
    obtain ⟨k, there⟩ := List.mem_iff_getElem?.mp member
    obtain ⟨before, object, rfl⟩ := ListSums.modify_origin there
    refine .inl ⟨before, List.mem_of_getElem? object, ?_⟩
    split <;> rfl
  · next posMin _ =>
    refine ⟨fun hit => Bool.noConfusion hit, ?_⟩
    intro entry member
    rcases List.mem_or_eq_of_mem_set member with old | rfl
    · exact .inl ⟨entry, old, rfl⟩
    · exact .inr ⟨rfl, rfl⟩

/-! ## What the server keeps -/

/-- The symbols of the messages. -/
def symbolInfosOf (messages : List Message) : List SymbolInfos :=
  messages.filterMap fun message =>
    match handlerCall message with
    | .symbolInfos symbolInfos => some symbolInfos
    | _ => none

/-- The first symbol of the messages for an address. -/
def firstSymbolInfos (messages : List Message) (addr : UInt64) : Option SymbolInfos :=
  (symbolInfosOf messages).find? fun symbolInfos => symbolInfos.addr = addr

theorem symbolInfosOf_append (messages : List Message) (message : Message) :
    symbolInfosOf (messages ++ [message]) = symbolInfosOf messages ++ symbolInfosOf [message] :=
  List.filterMap_append

/-- In one session, the server keeps the first symbol for each address. -/
theorem lookup_first {messages : List Message} (session : ∀ message ∈ messages, handlerCall message ≠ .newConnection)
    (addr : UInt64) : (afterStream messages).listSymbolInfos.lookup addr = firstSymbolInfos messages addr := by
  induction messages using List.reverseRecOn with
  | nil => rfl
  | append_singleton messages message ih =>
    have before := ih fun message member => session message (List.mem_append_left _ member)
    have here := session message (by simp)
    rw [afterStream_append, firstSymbolInfos, symbolInfosOf_append, List.find?_append]
    rw [firstSymbolInfos] at before
    rw [← before]
    unfold symbolInfosOf
    rw [List.filterMap_cons, List.filterMap_nil]
    cases call : handlerCall message with
    | newConnection => exact absurd call here
    | memoryOperation | threadOperation | backtrace => exact (Option.or_none).symm
    | symbolInfos symbolInfos =>
      show Finmap.lookup addr (if _ then _ else _) = _
      have last : [symbolInfos].find? (fun symbolInfos => symbolInfos.addr = addr) =
          if symbolInfos.addr = addr then some symbolInfos else none := by
        rw [List.find?_singleton]
        simp
      rw [last]
      by_cases same : symbolInfos.addr = addr
      · rw [if_pos same, same]
        split
        · next known =>
          obtain ⟨first, found⟩ := Option.isSome_iff_exists.mp (Finmap.lookup_isSome.mpr known)
          rw [found]
          rfl
        · next unknown => rw [Finmap.lookup_insert, Finmap.lookup_eq_none.mpr unknown, Option.none_or]
      · rw [if_neg same, Option.or_none]
        split
        · rfl
        · exact Finmap.lookup_insert_of_ne _ fun equal => same equal.symm

/-! ## The threads -/

/-- What a thread is in the middle of, in `backtrace_send`. -/
inductive Task where
  /-- the backtrace message, still to be appended -/
  | backtrace (listAddr : Addresses) (header : ServerMsgHeaderV1) (data : ServerMsgBacktraceDataV1)
  /-- the addresses that are still to be checked -/
  | checks (listAddr : List UInt64)
  /-- the address was not cached, and its symbol is to be sent -/
  | resolve (addr : UInt64) (listAddr : List UInt64)
  /-- the symbol message, still to be appended -/
  | symbolInfos (header : ServerMsgHeaderV1) (data : ServerMsgSymbolInfosDataV1) (listAddr : List UInt64)

structure System where
  counters : Counters
  cache : List CachedAddr
  tasks : UInt64 → Option Task
  /-- the messages, as they were appended -/
  stream : List Message

def System.initial (cacheCount : Nat) (counters : Counters) : System where
  counters
  cache := backtraceInit cacheCount
  tasks _ := none
  stream := []

inductive Event where
  /-- a message of a memory operation, as it comes before each backtrace -/
  | memory (header : ServerMsgHeaderV1) (data : ServerMsgMemoryDataV1)
  | backtraceSend (thread timeSec timeUsec : UInt64) (listAddr : Addresses) (originMsgNum : UInt32)
  | check (thread : UInt64)
  /-- the symbol message is made, from what `backtrace_get_infos` gives -/
  | symbolInfos (thread timeSec timeUsec : UInt64) (infos : ServerMsgSymbolInfosDataV1)
  | append (thread : UInt64)
  | finish (thread : UInt64)

def step (s : System) : Event → Option System
  | .memory header data => some { s with stream := s.stream ++ [.memory header data] }
  | .backtraceSend thread timeSec timeUsec listAddr originMsgNum =>
    match s.tasks thread with
    | none =>
      if 0 ∈ listAddr.val then none
      else
        let (counters, header, data) := backtraceMessage listAddr originMsgNum s.counters ⟨timeSec, timeUsec, thread⟩
        some { s with
          counters
          tasks := Function.update s.tasks thread (some (.backtrace listAddr header data)) }
    | _ => none
  | .check thread =>
    match s.tasks thread with
    | some (.checks (addr :: listAddr)) =>
      match backtraceCheckAddr s.cache addr with
      | (cache, true) => some { s with cache, tasks := Function.update s.tasks thread (some (.checks listAddr)) }
      | (cache, false) => some { s with cache, tasks := Function.update s.tasks thread (some (.resolve addr listAddr)) }
    | _ => none
  | .symbolInfos thread timeSec timeUsec infos =>
    match s.tasks thread with
    | some (.resolve addr listAddr) =>
      let (counters, header, _) := servercommMsgSymbolinfosInitV1 s.counters ⟨timeSec, timeUsec, thread⟩
      some { s with
        counters
        tasks := Function.update s.tasks thread (some (.symbolInfos header { infos with addr } listAddr)) }
    | _ => none
  | .append thread =>
    match s.tasks thread with
    | some (.backtrace listAddr header data) =>
      some { s with
        tasks := Function.update s.tasks thread (some (.checks listAddr.val))
        stream := s.stream ++ [.backtrace header data] }
    | some (.symbolInfos header data listAddr) =>
      some { s with
        tasks := Function.update s.tasks thread (some (.checks listAddr))
        stream := s.stream ++ [.symbolInfos header data] }
    | _ => none
  | .finish thread =>
    match s.tasks thread with
    | some (.checks []) => some { s with tasks := Function.update s.tasks thread none }
    | _ => none

/-- Every call has returned. -/
def Complete (s : System) : Prop := ∀ thread, s.tasks thread = none

/-- The addresses of the backtraces. -/
def addressesOf (messages : List Message) : List UInt64 := (backtracesOf messages).flatMap Backtrace.listAddr

/-! ## What holds in every run -/

/-- The address whose symbol a thread is to send. -/
def Task.pending : Task → Option UInt64
  | .resolve addr _ => some addr
  | .symbolInfos _ data _ => some data.addr
  | .backtrace .. | .checks _ => none

/-- The addresses that a thread is still to check. -/
def Task.remaining : Task → List UInt64
  | .backtrace listAddr _ _ => listAddr.val
  | .checks listAddr | .resolve _ listAddr | .symbolInfos _ _ listAddr => listAddr

def remaining (task : Option Task) : List UInt64 := task.elim [] Task.remaining

/-- The symbol of an address is sent, or some thread is to send it. -/
def Known (s : System) (addr : UInt64) : Prop :=
  (∃ symbolInfos ∈ symbolInfosOf s.stream, symbolInfos.addr = addr) ∨
    ∃ thread, held Task.pending s.tasks thread = some addr

structure Inv (s : System) : Prop where
  cached : ∀ entry ∈ s.cache, entry.addr = 0 ∨ Known s entry.addr
  -- an address of a backtrace that is not known yet is still to be checked
  sent : ∀ addr ∈ addressesOf s.stream, Known s addr ∨ ∃ thread, addr ∈ remaining (s.tasks thread)
  nonNull : ∀ thread, 0 ∉ remaining (s.tasks thread)
  truthful : ∀ thread listAddr header data, s.tasks thread = some (.backtrace listAddr header data) →
    data.listAddr.val.take data.backtraceSize.toNat = listAddr.val
  session : ∀ message ∈ s.stream, handlerCall message ≠ .newConnection

theorem initial_inv (cacheCount : Nat) (counters : Counters) : Inv (System.initial cacheCount counters) where
  cached := by
    intro entry member
    rw [(List.mem_replicate.mp member).2]
    exact .inl rfl
  sent := by
    intro addr member
    cases member
  nonNull := by
    intro thread member
    cases member
  truthful := by
    intro thread listAddr header data busy
    cases busy
  session := by
    intro message member
    cases member

/-- A message that does not begin a session is appended. -/
theorem append_session {stream : List Message} {message last : Message} (continues : handlerCall last ≠ .newConnection)
    (member : message ∈ stream ++ [last]) : message ∈ stream ∨ handlerCall message ≠ .newConnection := by
  rcases List.mem_append.mp member with old | new
  · exact .inl old
  · rw [List.mem_singleton.mp new]
    exact .inr continues

/-- What is known stays known when a thread goes on with the symbol that it is to send,
    or has sent it. -/
theorem known_update {s next : System} {thread : UInt64} {new : Option Task}
    (tasks : next.tasks = Function.update s.tasks thread new)
    (symbols : ∀ symbolInfos ∈ symbolInfosOf s.stream, symbolInfos ∈ symbolInfosOf next.stream)
    (pending : ∀ addr, held Task.pending s.tasks thread = some addr →
      new.bind Task.pending = some addr ∨ ∃ symbolInfos ∈ symbolInfosOf next.stream, symbolInfos.addr = addr)
    {addr : UInt64} (known : Known s addr) : Known next addr := by
  rcases known with ⟨symbolInfos, member, here⟩ | ⟨other, has⟩
  · exact .inl ⟨symbolInfos, symbols symbolInfos member, here⟩
  · by_cases same : other = thread
    · subst same
      rcases pending addr has with goes | sent
      · exact .inr ⟨other, by rw [tasks, held_update, Function.update_self]; exact goes⟩
      · exact .inl sent
    · exact .inr ⟨other, by rw [tasks, held_update, Function.update_of_ne same]; exact has⟩

/-- What a step of a thread has to keep. -/
theorem moved_inv {s next : System} {thread : UInt64} {new : Option Task} (inv : Inv s)
    (tasks : next.tasks = Function.update s.tasks thread new) (known : ∀ addr, Known s addr → Known next addr)
    (cached : ∀ entry ∈ next.cache, (∃ before ∈ s.cache, before.addr = entry.addr) ∨ Known next entry.addr)
    (sent : ∀ addr ∈ addressesOf next.stream, addr ∈ addressesOf s.stream ∨ addr ∈ remaining new)
    (left : ∀ addr ∈ remaining (s.tasks thread), Known next addr ∨ addr ∈ remaining new) (nonNull : 0 ∉ remaining new)
    (truthful : ∀ listAddr header data, new = some (.backtrace listAddr header data) →
      data.listAddr.val.take data.backtraceSize.toNat = listAddr.val)
    (session : ∀ message ∈ next.stream, message ∈ s.stream ∨ handlerCall message ≠ .newConnection) : Inv next := by
  have here : next.tasks thread = new := by rw [tasks, Function.update_self]
  refine ⟨?_, ?_, ?_, ?_, ?_⟩
  · intro entry member
    rcases cached entry member with ⟨before, old, same⟩ | isKnown
    · rw [← same]
      exact (inv.cached before old).imp_right (known before.addr)
    · exact .inr isKnown
  · intro addr member
    rcases sent addr member with old | new
    · rcases inv.sent addr old with isKnown | ⟨other, still⟩
      · exact .inl (known addr isKnown)
      · by_cases same : other = thread
        · subst same
          exact (left addr still).imp_right fun still => ⟨other, by rwa [here]⟩
        · exact .inr ⟨other, by rwa [tasks, Function.update_of_ne same]⟩
    · exact .inr ⟨thread, by rwa [here]⟩
  · intro other
    by_cases same : other = thread
    · rwa [same, here]
    · rw [tasks, Function.update_of_ne same]
      exact inv.nonNull other
  · intro other listAddr header data busy
    rw [tasks] at busy
    rcases update_some busy with ⟨_, new⟩ | ⟨_, busy⟩
    · exact truthful listAddr header data new
    · exact inv.truthful other listAddr header data busy
  · intro message member
    rcases session message member with old | new
    · exact inv.session message old
    · exact new

/-- Any other message may come in between. -/
theorem memory_inv {s : System} (inv : Inv s) (header : ServerMsgHeaderV1) (data : ServerMsgMemoryDataV1) :
    Inv { s with stream := s.stream ++ [.memory header data] } := by
  have symbols : symbolInfosOf (s.stream ++ [.memory header data]) = symbolInfosOf s.stream := by
    rw [symbolInfosOf_append]
    exact List.append_nil _
  have addresses : addressesOf (s.stream ++ [.memory header data]) = addressesOf s.stream := by
    rw [addressesOf, backtracesOf_append]
    exact congrArg _ (List.append_nil _)
  have known : ∀ addr, Known s addr → Known { s with stream := s.stream ++ [.memory header data] } addr := by
    intro addr isKnown
    rwa [Known, symbols]
  refine ⟨?_, ?_, inv.nonNull, inv.truthful, ?_⟩
  · intro entry member
    exact (inv.cached entry member).imp_right (known entry.addr)
  · rw [addresses]
    intro addr member
    exact (inv.sent addr member).imp_left (known addr)
  · intro message member
    exact (append_session Callback.noConfusion member).elim (inv.session message) id

/-- A thread has made a backtrace message. -/
theorem backtraceSend_inv {s : System} (inv : Inv s) {thread : UInt64} (idle : s.tasks thread = none)
    {listAddr : Addresses} (nonNull : 0 ∉ listAddr.val) {header : ServerMsgHeaderV1} {data : ServerMsgBacktraceDataV1}
    (holds : data.listAddr.val.take data.backtraceSize.toNat = listAddr.val) (counters : Counters) :
    Inv { s with
      counters
      tasks := Function.update s.tasks thread (some (.backtrace listAddr header data)) } := by
  refine moved_inv inv rfl ?_ (fun entry member => .inl ⟨entry, member, rfl⟩) (fun _ member => .inl member) ?_
    nonNull ?_ fun _ member => .inl member
  · intro addr isKnown
    refine known_update rfl ?_ ?_ isKnown
    · exact fun _ member => member
    · intro other has
      rw [held, idle] at has
      cases has
  · rw [idle]
    intro addr member
    cases member
  · rintro listAddr header data ⟨⟩
    exact holds

/-- The thread checks an address: it is known, or the thread is to send its symbol. -/
theorem check_inv {s : System} (inv : Inv s) {thread addr : UInt64} {listAddr : List UInt64}
    (busy : s.tasks thread = some (.checks (addr :: listAddr))) {cache : List CachedAddr} {hit : Bool} {new : Task}
    (checked : backtraceCheckAddr s.cache addr = (cache, hit)) (remains : new.remaining = listAddr)
    (pending : new.pending = if hit then none else some addr) (going : ∀ listAddr header data,
      new ≠ .backtrace listAddr header data) :
    Inv { s with cache, tasks := Function.update s.tasks thread (some new) } := by
  obtain ⟨hits, entries⟩ := backtraceCheckAddr_spec s.cache addr
  rw [checked] at hits entries
  have known : ∀ other, Known s other →
      Known { s with cache, tasks := Function.update s.tasks thread (some new) } other := by
    intro other isKnown
    refine known_update rfl ?_ ?_ isKnown
    · exact fun _ member => member
    · intro other has
      rw [held, busy] at has
      cases has
  have nonNull := inv.nonNull thread
  rw [busy] at nonNull
  have here : Known { s with cache, tasks := Function.update s.tasks thread (some new) } addr := by
    cases hit with
    | true =>
      obtain ⟨entry, member, same⟩ := hits rfl
      rcases inv.cached entry member with zero | isKnown
      · rw [same] at zero
        exact absurd (zero ▸ List.mem_cons_self) nonNull
      · rw [same] at isKnown
        exact known addr isKnown
    | false =>
      refine .inr ⟨thread, ?_⟩
      rw [held_update, Function.update_self]
      exact pending
  refine moved_inv inv rfl known ?_ (fun _ member => .inl member) ?_ ?_ ?_ (fun _ member => .inl member)
  · intro entry member
    rcases entries entry member with old | ⟨_, same⟩
    · exact .inl old
    · rw [same]
      exact .inr here
  · rw [busy]
    intro other member
    rcases List.mem_cons.mp member with rfl | later
    · exact .inl here
    · exact .inr (by rwa [remaining, Option.elim_some, remains])
  · rw [remaining, Option.elim_some, remains]
    exact fun member => nonNull (List.mem_cons_of_mem addr member)
  · intro listAddr header data same
    exact absurd (Option.some.inj same) (going listAddr header data)

/-- The backtrace message is appended, and its addresses are to be checked. -/
theorem backtrace_inv {s : System} (inv : Inv s) {thread : UInt64} {listAddr : Addresses} {header : ServerMsgHeaderV1}
    {data : ServerMsgBacktraceDataV1} (busy : s.tasks thread = some (.backtrace listAddr header data)) :
    Inv { s with
      tasks := Function.update s.tasks thread (some (.checks listAddr.val))
      stream := s.stream ++ [.backtrace header data] } := by
  have symbols : symbolInfosOf (s.stream ++ [.backtrace header data]) = symbolInfosOf s.stream := by
    rw [symbolInfosOf_append]
    exact List.append_nil _
  have addresses : addressesOf (s.stream ++ [.backtrace header data]) = addressesOf s.stream ++ listAddr.val := by
    rw [addressesOf, backtracesOf_append, List.flatMap_append, ← inv.truthful thread listAddr header data busy]
    exact congrArg _ (List.append_nil _)
  have nonNull := inv.nonNull thread
  rw [busy] at nonNull
  refine moved_inv inv rfl ?_ (fun entry member => .inl ⟨entry, member, rfl⟩) ?_ ?_ nonNull ?_ ?_
  · intro addr isKnown
    refine known_update rfl ?_ ?_ isKnown
    · exact fun _ member => symbols ▸ member
    · intro other has
      rw [held, busy] at has
      cases has
  · rw [addresses]
    intro addr member
    exact List.mem_append.mp member
  · rw [busy]
    intro addr member
    exact .inr member
  · rintro listAddr header data ⟨⟩
  · exact fun message member => append_session Callback.noConfusion member

/-- The symbol message is appended, and the address is known for good. -/
theorem symbolInfos_inv {s : System} (inv : Inv s) {thread : UInt64} {header : ServerMsgHeaderV1}
    {data : ServerMsgSymbolInfosDataV1} {listAddr : List UInt64}
    (busy : s.tasks thread = some (.symbolInfos header data listAddr)) :
    Inv { s with
      tasks := Function.update s.tasks thread (some (.checks listAddr))
      stream := s.stream ++ [.symbolInfos header data] } := by
  have addresses : addressesOf (s.stream ++ [.symbolInfos header data]) = addressesOf s.stream := by
    rw [addressesOf, backtracesOf_append]
    exact congrArg _ (List.append_nil _)
  have nonNull := inv.nonNull thread
  rw [busy] at nonNull
  refine moved_inv inv rfl ?_ (fun entry member => .inl ⟨entry, member, rfl⟩) ?_ ?_ nonNull ?_ ?_
  · intro addr isKnown
    refine known_update rfl ?_ ?_ isKnown
    · intro symbolInfos member
      rw [symbolInfosOf_append]
      exact List.mem_append_left _ member
    · intro addr has
      rw [held, busy] at has
      cases has
      rw [symbolInfosOf_append]
      exact .inr ⟨_, List.mem_append_right _ List.mem_cons_self, rfl⟩
  · rw [addresses]
    exact fun addr member => .inl member
  · rw [busy]
    intro addr member
    exact .inr member
  · rintro listAddr header data ⟨⟩
  · exact fun message member => append_session Callback.noConfusion member

/-- A thread goes on with the addresses and the symbol that it has. -/
theorem onward_inv {s : System} (inv : Inv s) {thread : UInt64} {new : Option Task} (counters : Counters)
    (pending : new.bind Task.pending = held Task.pending s.tasks thread)
    (remains : remaining new = remaining (s.tasks thread))
    (going : ∀ listAddr header data, new ≠ some (.backtrace listAddr header data)) :
    Inv { s with counters, tasks := Function.update s.tasks thread new } := by
  have nonNull := inv.nonNull thread
  refine moved_inv inv rfl ?_ (fun entry member => .inl ⟨entry, member, rfl⟩) (fun _ member => .inl member) ?_ ?_ ?_
    fun _ member => .inl member
  · intro addr isKnown
    refine known_update rfl ?_ ?_ isKnown
    · exact fun _ member => member
    · intro addr has
      exact .inl (pending.trans has)
  · rw [remains]
    exact fun addr member => .inr member
  · rwa [remains]
  · intro listAddr header data same
    exact absurd same (going listAddr header data)

theorem step_inv {s next : System} {event : Event} (inv : Inv s) (stepped : step s event = some next) : Inv next := by
  cases event with
  | memory header data =>
    cases stepped
    exact memory_inv inv header data
  | backtraceSend thread timeSec timeUsec listAddr originMsgNum =>
    simp only [step] at stepped
    split at stepped
    · next idle =>
      split at stepped
      · cases stepped
      · next nonNull =>
        cases stepped
        exact backtraceSend_inv inv idle nonNull
          (backtraceMessage_listAddr listAddr originMsgNum s.counters ⟨timeSec, timeUsec, thread⟩).2 _
    · cases stepped
  | check thread =>
    simp only [step] at stepped
    split at stepped
    · next addr listAddr busy =>
      split at stepped
      · next cache checked =>
        cases stepped
        refine check_inv inv busy checked rfl rfl ?_
        rintro listAddr header data ⟨⟩
      · next cache checked =>
        cases stepped
        refine check_inv inv busy checked rfl rfl ?_
        rintro listAddr header data ⟨⟩
    · cases stepped
  | symbolInfos thread timeSec timeUsec infos =>
    simp only [step] at stepped
    split at stepped
    · next addr listAddr busy =>
      cases stepped
      apply onward_inv inv
      · rw [held, busy]
        rfl
      · rw [busy]
        rfl
      · rintro listAddr header data ⟨⟩
    · cases stepped
  | append thread =>
    simp only [step] at stepped
    split at stepped
    · next listAddr header data busy =>
      cases stepped
      exact backtrace_inv inv busy
    · next header data listAddr busy =>
      cases stepped
      exact symbolInfos_inv inv busy
    · cases stepped
  | finish thread =>
    simp only [step] at stepped
    split at stepped
    · next busy =>
      cases stepped
      apply onward_inv inv s.counters
      · rw [held, busy]
        rfl
      · rw [busy]
        rfl
      · rintro listAddr header data ⟨⟩
    · cases stepped

/-- Once every call has returned, the server has a symbol for every address of every
    backtrace, and it is the first one that was sent for that address. -/
theorem symbols_resolve (cacheCount : Nat) (counters : Counters) (events : List Event) (s : System)
    (ran : run step (System.initial cacheCount counters) events = some s) (complete : Complete s) :
    ∀ addr ∈ addressesOf s.stream, ∃ symbolInfos, firstSymbolInfos s.stream addr = some symbolInfos ∧
      (afterStream s.stream).listSymbolInfos.lookup addr = some symbolInfos := by
  have inv : Inv s := run_keeps (fun _ _ _ => step_inv) (initial_inv cacheCount counters) ran
  intro addr member
  have sent : ∃ symbolInfos ∈ symbolInfosOf s.stream, symbolInfos.addr = addr := by
    rcases inv.sent addr member with (sent | ⟨thread, pending⟩) | ⟨thread, still⟩
    · exact sent
    · rw [held, complete thread] at pending
      cases pending
    · rw [complete thread] at still
      cases still
  obtain ⟨symbolInfos, isSent, here⟩ := sent
  have found : (firstSymbolInfos s.stream addr).isSome = true :=
    List.find?_isSome.mpr ⟨symbolInfos, isSent, decide_eq_true here⟩
  obtain ⟨first, isFirst⟩ := Option.isSome_iff_exists.mp found
  exact ⟨first, isFirst, (lookup_first inv.session addr).trans isFirst⟩

/-- What `backtrace_get_infos` gives for an address that is in no object. -/
def unresolved : ServerMsgSymbolInfosDataV1 := ⟨0, List.Vector.replicate 256 0, 0, List.Vector.replicate 96 0, 0⟩

/-- A cache with room for one address. The second thread leaves an address to the first
    one, which has not sent its symbol yet, and has it evicted. -/
def evicted : List Event :=
  [.backtraceSend 1 0 0 ⟨[8], by decide⟩ 1, .append 1, .backtraceSend 2 0 0 ⟨[8, 9], by decide⟩ 2, .append 2,
    .check 1, .check 2, .check 2, .symbolInfos 2 0 0 unresolved, .append 2, .finish 2,
    .symbolInfos 1 0 0 unresolved, .append 1, .finish 1]

theorem evicted_resolve : ∃ s, run step (System.initial 1 ⟨0, 0⟩) evicted = some s ∧
    ∃ symbolInfos, firstSymbolInfos s.stream 8 = some symbolInfos ∧
      (afterStream s.stream).listSymbolInfos.lookup 8 = some symbolInfos := by
  refine ⟨_, rfl, symbols_resolve 1 ⟨0, 0⟩ evicted _ rfl ?_ 8 ?_⟩
  · intro thread
    simp only [System.initial, Function.update_apply]
    split <;> simp_all
  · decide +kernel

end Aleakd.Symbols
