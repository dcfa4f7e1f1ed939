import Aleakd.ThreadCredits

/-!
The peak and the total of an entry of the thread table. What a message frees is taken
off before what it allocates is added, so that the peak of an entry is what its blocks
came to after some message, also where a block grows.
-/
namespace Aleakd.ThreadPeaks
open Aleakd.Messages Aleakd.Operations Aleakd.OperationList Aleakd.Threads Aleakd.ApplicationWindow Aleakd.Framing
open Aleakd.ListSums Aleakd.ThreadSessions Aleakd.ThreadTables Aleakd.ThreadTotals Aleakd.SessionTotals
open Aleakd.ThreadSums Aleakd.ThreadSystem Aleakd.ThreadIdentity Aleakd.ThreadCredits

/-! ## Figures of an entry -/

section figures
variable {A : Type} [Zero A] {figure : ThreadInfos → A} {entries : List ThreadInfos}

/-- A figure of the entry at a position; an entry that is not there has none. -/
def figureAt (figure : ThreadInfos → A) (entries : List ThreadInfos) (k : Nat) : A := (entries[k]?.map figure).getD 0

theorem figureAt_some {k : Nat} {infos : ThreadInfos} (found : entries[k]? = some infos) :
    figureAt figure entries k = figure infos := by
  simp [figureAt, found]

theorem figureAt_modify {i : Nat} {infos : ThreadInfos} (found : entries[i]? = some infos)
    (change : ThreadInfos → ThreadInfos) (k : Nat) :
    figureAt figure (entries.modify i change) k =
      if i = k then figure (change infos) else figureAt figure entries k := by
  by_cases here : i = k
  · subst here
    simp [figureAt, found]
  · simp [figureAt, here]

/-- A new entry without the figure. -/
theorem figureAt_append {infos : ThreadInfos} (nothing : figure infos = 0) (k : Nat) :
    figureAt figure (entries ++ [infos]) k = figureAt figure entries k := by
  rcases Nat.lt_trichotomy k entries.length with inside | rfl | beyond
  · simp [figureAt, List.getElem?_append_left inside]
  · simp [figureAt, nothing]
  · rw [figureAt, figureAt, List.getElem?_eq_none (by simp; omega), List.getElem?_eq_none (Nat.le_of_lt beyond)]

end figures

def peakAt : List ThreadInfos → Nat → Nat := figureAt fun infos => infos.peakSize.toNat

def sizeAt : List ThreadInfos → Nat → Nat := figureAt fun infos => infos.currentSize.toNat

def totalAt : List ThreadInfos → Nat → UInt32 := figureAt ThreadInfos.totalAllocCount

/-- Peaks and totals stay, and no entry holds more. -/
structure Falls (before after : List ThreadInfos) : Prop where
  peak : ∀ k, peakAt after k = peakAt before k
  size : ∀ k, sizeAt after k ≤ sizeAt before k
  total : ∀ k, totalAt after k = totalAt before k

theorem Falls.refl (entries : List ThreadInfos) : Falls entries entries :=
  ⟨fun _ => rfl, fun _ => Nat.le_refl _, fun _ => rfl⟩

theorem Falls.trans {before middle after : List ThreadInfos} (first : Falls before middle) (last : Falls middle after) :
    Falls before after where
  peak k := (last.peak k).trans (first.peak k)
  size k := Nat.le_trans (last.size k) (first.size k)
  total k := (last.total k).trans (first.total k)

theorem modify_falls {entries : List ThreadInfos} {i : Nat} {infos : ThreadInfos} (found : entries[i]? = some infos)
    {change : ThreadInfos → ThreadInfos} (peak : (change infos).peakSize = infos.peakSize)
    (size : (change infos).currentSize.toNat ≤ infos.currentSize.toNat)
    (total : (change infos).totalAllocCount = infos.totalAllocCount) : Falls entries (entries.modify i change) := by
  constructor
  all_goals
    intro k
    by_cases here : i = k
    · subst here
      simp [peakAt, sizeAt, totalAt, figureAt_modify found, figureAt_some found, peak, size, total]
    · simp [peakAt, sizeAt, totalAt, figureAt_modify found, here]

/-- A change of an entry that keeps its figures, if the entry is there. -/
theorem keep_falls (change : ThreadInfos → ThreadInfos)
    (keeps : ∀ infos, (change infos).peakSize = infos.peakSize ∧ (change infos).currentSize = infos.currentSize ∧
      (change infos).totalAllocCount = infos.totalAllocCount) (entries : List ThreadInfos) (i : Nat) :
    Falls entries (entries.modify i change) := by
  cases found : entries[i]? with
  | none =>
    rw [List.modify_eq_self (List.getElem?_eq_none_iff.mp found)]
    exact Falls.refl entries
  | some infos =>
    obtain ⟨peak, size, total⟩ := keeps infos
    exact modify_falls found peak (by rw [size]) total

theorem append_falls (entries : List ThreadInfos) (threadId : UInt64) (tvOperation : Timeval) (first : Bool) :
    Falls entries (entries ++ [ThreadInfos.make threadId tvOperation first]) where
  peak := figureAt_append rfl
  size k := Nat.le_of_eq (figureAt_append rfl k)
  total := figureAt_append rfl

theorem getThreadInfos_falls (s : Session) (threadId : UInt64) (threadCreation : Bool) (tvOperation : Timeval) :
    Falls s.entries (s.getThreadInfos threadId threadCreation tvOperation).1.entries := by
  unfold Session.getThreadInfos
  split
  · next k current =>
    split
    · have retired : Falls s.entries (s.entries.modify k (ThreadInfos.terminate tvOperation)) :=
        keep_falls (ThreadInfos.terminate tvOperation) (fun _ => ⟨rfl, rfl, rfl⟩) s.entries k
      exact retired.trans (append_falls _ _ _ _)
    · exact Falls.refl _
  · split
    · exact Falls.refl _
    · exact append_falls _ _ _ _

/-- A message about a thread changes no figure. -/
theorem updateThreadInfos_falls (s : Session) (operation : ThreadOperation) :
    Falls s.entries (s.updateThreadInfos operation).entries := by
  have keeps : ∀ infos : ThreadInfos, (infos.applyOperation operation).peakSize = infos.peakSize ∧
      (infos.applyOperation operation).currentSize = infos.currentSize ∧
      (infos.applyOperation operation).totalAllocCount = infos.totalAllocCount := by
    intro infos
    unfold ThreadInfos.applyOperation
    split <;> split <;> exact ⟨rfl, rfl, rfl⟩
  have found := getThreadInfos_falls s operation.threadId (operation.msgCode = .pthreadCreate) operation.tvOperation
  unfold Session.updateThreadInfos
  generalize s.getThreadInfos operation.threadId (operation.msgCode = .pthreadCreate) operation.tvOperation = result
    at found ⊢
  obtain ⟨s', _ | k⟩ := result
  · exact found
  · exact found.trans (keep_falls _ keeps _ k)

/-! ## Frees and allocations -/

/-- An allocation raises the peak of one entry to what it holds then, and its total by
    one. -/
structure Rises (k : Nat) (before after : List ThreadInfos) : Prop where
  peak : ∀ j, peakAt after j = if k = j then max (peakAt before j) (sizeAt after j) else peakAt before j
  size : ∀ j, k ≠ j → sizeAt after j = sizeAt before j
  total : ∀ j, totalAt after j = totalAt before j + if k = j then 1 else 0

theorem addAlloc_rises {entries : List ThreadInfos} {k : Nat} {infos : ThreadInfos} (found : entries[k]? = some infos)
    (msgNum : UInt32) (size : UInt64) : Rises k entries (entries.modify k (ThreadInfos.addAlloc msgNum size)) := by
  constructor
  case peak =>
    intro j
    rw [peakAt, sizeAt, figureAt_modify found, figureAt_modify found]
    by_cases here : k = j
    · subst here
      rw [if_pos rfl, if_pos rfl, if_pos rfl, figureAt_some found]
      simp only [ThreadInfos.addAlloc]
      split
      · next more => exact (Nat.max_eq_right (Nat.le_of_lt (UInt64.lt_iff_toNat_lt.mp more))).symm
      · next less => exact (Nat.max_eq_left (Nat.not_lt.mp fun more => less (UInt64.lt_iff_toNat_lt.mpr more))).symm
    · rw [if_neg here, if_neg here]
  case size =>
    intro j other
    rw [sizeAt, figureAt_modify found, if_neg other]
  case total =>
    intro j
    rw [totalAt, figureAt_modify found]
    by_cases here : k = j
    · subst here
      rw [if_pos rfl, if_pos rfl, figureAt_some found]
      rfl
    · rw [if_neg here, if_neg here, UInt32.add_zero]

/-- A free takes the size of a block off the entry that holds it. -/
theorem afterFree_falls {s : Session} {pairs : List (MemoryOperation × Option Nat)} {bound i k : Nat}
    (exact : Exact s pairs bound) {freed : MemoryOperation} (pair : pairs[i]? = some (freed, some k))
    (holds : freed.allocSize.toNat ≤ sizeAt s.entries k) (tvOperation : Timeval) :
    Falls s.entries (s.afterFree (some freed) tvOperation).entries := by
  have credit := getThreadInfosForMsgNum_credit exact.ranged (List.mem_of_getElem? pair)
  have result : s.afterFree (some freed) tvOperation = s.modify (some k) (ThreadInfos.addFree freed.allocSize) := by
    simp [Session.afterFree, Session.updateThreadInfosAddFree, exact.sane.notStale, credit]
  obtain ⟨infos, found, _⟩ := exact.ranged.credited freed k (List.mem_of_getElem? pair)
  rw [sizeAt, figureAt_some found] at holds
  rw [result]
  refine modify_falls found rfl ?_ rfl
  show (infos.currentSize - freed.allocSize).toNat ≤ _
  rw [UInt64.toNat_sub_of_le _ _ (UInt64.le_iff_toNat_le.mpr holds)]
  exact Nat.sub_le _ _

/-! ## Sessions -/

/-- The entries have reached the heights, and count all that was credited to them. -/
structure Peaking (entries : List ThreadInfos) (credits : List (Option Nat)) (high : Nat → Nat) : Prop where
  peak : ∀ k, peakAt entries k = high k
  below : ∀ k, sizeAt entries k ≤ high k
  total : ∀ k, totalAt entries k = UInt32.ofNat (credits.count (some k))

theorem Falls.peaking {before after : List ThreadInfos} (falls : Falls before after) {credits : List (Option Nat)}
    {high : Nat → Nat} (peaking : Peaking before credits high) :
    Peaking after credits fun k => max (high k) (sizeAt after k) where
  peak k := by
    have within := Nat.le_trans (falls.size k) (peaking.below k)
    rw [falls.peak, peaking.peak, Nat.max_eq_left within]
  below k := Nat.le_max_right _ _
  total k := by rw [falls.total, peaking.total]

/-- What is taken off first does not hide what is added. -/
theorem Rises.peaking {before middle after : List ThreadInfos} {i : Nat} (falls : Falls before middle)
    (rises : Rises i middle after) {credits : List (Option Nat)} {high : Nat → Nat}
    (peaking : Peaking before credits high) :
    Peaking after (credits ++ [some i]) fun k => max (high k) (sizeAt after k) where
  peak k := by
    rw [rises.peak, falls.peak, peaking.peak]
    by_cases here : i = k
    · rw [if_pos here]
    · have within := Nat.le_trans (falls.size k) (peaking.below k)
      rw [if_neg here, rises.size k here, Nat.max_eq_left within]
  below k := Nat.le_max_right _ _
  total k := by
    rw [rises.total, falls.total, peaking.total, List.count_append, List.count_singleton]
    by_cases here : i = k <;> simp [here]

/-- The entries of a session. -/
def entriesOf (s : Credited) : List ThreadInfos := (session 0 s.controller.threads).entries

/-- All that the operations of a session allocated fits the counters of an entry. -/
structure Fits (operations : List MemoryOperation) : Prop where
  bytes : (operations.map fun operation => operation.allocSize.toNat).sum < 2 ^ 64
  number : operations.countP allocates < 2 ^ 32

/-- The bytes that are credited to an entry and not freed. -/
def held (k : Nat) (s : Credited) : Nat :=
  ((creditedTo k (s.controller.operations.listMemoryOperation.zip s.credits)).map fun operation =>
    operation.allocSize.toNat).sum

theorem sizeAt_held {s : Credited} {bound : Nat} (following : Following s bound)
    (fits : Fits s.controller.operations.listMemoryOperation) (k : Nat) : sizeAt (entriesOf s) k = held k s := by
  have entries : entriesOf s = s.controller.threads.objects := rfl
  rw [entries, sizeAt]
  cases found : s.controller.threads.objects[k]? with
  | some infos =>
    rw [figureAt_some found]
    exact (entry_exact following fits.bytes fits.number found).1
  | none =>
    have nothing : creditedTo k (s.controller.operations.listMemoryOperation.zip s.credits) = [] := by
      rw [creditedTo, List.map_eq_nil_iff, List.filter_eq_nil_iff]
      rintro ⟨operation, credit⟩ member test
      simp only [Bool.and_eq_true, decide_eq_true_eq] at test
      obtain ⟨_, rfl⟩ := test
      obtain ⟨infos, object, _⟩ := following.exact.ranged.credited operation k member
      exact absurd (found.symm.trans object) (by simp)
    simp [figureAt, found, held, nothing]

/-- The first half of a memory operation. -/
theorem free_falls {s : Credited} {bound : Nat} (following : Following s bound)
    (fits : Fits s.controller.operations.listMemoryOperation) (operation : MemoryOperation) :
    Falls (entriesOf s) ((session 0 s.controller.threads).afterFree
      (s.controller.operations.addMemoryOperation operation).2 operation.tvOperation).entries := by
  have allocates' : ∀ freed, (s.controller.operations.free operation.freePtr).2 = some freed →
      allocates freed = true := fun _ => freed_allocates following.kept
  show Falls (entriesOf s) ((session 0 s.controller.threads).afterFree
    (s.controller.operations.free operation.freePtr).2 operation.tvOperation).entries
  have effect := free_effect s.controller.operations operation.freePtr
  generalize s.controller.operations.free operation.freePtr = result at effect allocates' ⊢
  cases effect with
  | nothing => exact Falls.refl _
  | marked i left freed given member found pointer notFreed =>
    obtain ⟨k, credit⟩ := credit_of_allocates following.credits found (allocates' freed rfl)
    have pair : (s.controller.operations.listMemoryOperation.zip s.credits)[i]? = some (freed, some k) :=
      List.getElem?_zip_eq_some.mpr ⟨found, credit⟩
    have own : freed ∈ creditedTo k (s.controller.operations.listMemoryOperation.zip s.credits) := by
      refine List.mem_map.mpr ⟨_, List.mem_filter.mpr ⟨List.mem_of_getElem? pair, ?_⟩, rfl⟩
      simp [notFreed]
    refine afterFree_falls following.exact pair ?_ operation.tvOperation
    show freed.allocSize.toNat ≤ sizeAt (entriesOf s) k
    rw [sizeAt_held following fits]
    exact List.single_le_sum (fun _ _ => Nat.zero_le _) _ (List.mem_map_of_mem own)

/-- A memory operation: what it frees goes first, then its entry gets what it allocates. -/
theorem addMemoryOperation_peaking {s : Credited} {bound : Nat} (following : Following s bound)
    (fits : Fits s.controller.operations.listMemoryOperation) {high : Nat → Nat}
    (peaking : Peaking (entriesOf s) s.credits high) (operation : MemoryOperation) :
    let s' : Credited := ⟨s.controller.addMemoryOperation operation, s.credits ++ [creditOf s.controller operation]⟩
    Peaking (entriesOf s') s'.credits fun k => max (high k) (sizeAt (entriesOf s') k) := by
  intro s'
  have falls := free_falls following fits operation
  have first := free_following following operation
  obtain ⟨_, session'⟩ := addMemoryOperation_session following.shaped operation
    (s.controller.operations.addMemoryOperation operation).2
  have entries : entriesOf s' = ((session 0 s.controller.threads).addMemoryOperation operation
      (s.controller.operations.addMemoryOperation operation).2).entries := congrArg Session.entries session'
  show Peaking (entriesOf s') (s.credits ++ [creditOf s.controller operation]) _
  rw [entries, Session.addMemoryOperation, creditOf_session following.shaped]
  generalize (session 0 s.controller.threads).afterFree (s.controller.operations.addMemoryOperation operation).2
    operation.tvOperation = freed at falls first ⊢
  by_cases given : operation.allocPtr = 0
  · rw [if_neg (not_not.mpr given), if_neg (not_not.mpr given)]
    obtain ⟨peak, below, total⟩ := falls.peaking peaking
    exact ⟨peak, below, fun k => by simp [total k]⟩
  · rw [if_pos given, if_pos given]
    obtain ⟨_, k, infos, place, found, _⟩ := getThreadInfos_exact first operation.callerThreadId operation.tvOperation
    have result : freed.updateThreadInfosAddAlloc operation.callerThreadId operation.msgNum operation.allocSize
        operation.tvOperation = (freed.getThreadInfos operation.callerThreadId false operation.tvOperation).1.modify
          (some k) (ThreadInfos.addAlloc operation.msgNum operation.allocSize) := by
      rw [Session.updateThreadInfosAddAlloc, ← place]
    rw [result, place]
    have looked := getThreadInfos_falls freed operation.callerThreadId false operation.tvOperation
    exact (addAlloc_rises found operation.msgNum operation.allocSize).peaking (falls.trans looked) peaking

/-! ## Every session -/

theorem handle_peaking {s : Credited} {bound : Nat} (following : Following s bound)
    (fits : Fits s.controller.operations.listMemoryOperation) {high : Nat → Nat}
    (peaking : Peaking (entriesOf s) s.credits high) {message : Message} (built : FromWrapper message) :
    Peaking (entriesOf (s.handle message)) (s.handle message).credits fun k =>
      max (high k) (sizeAt (entriesOf (s.handle message)) k) := by
  cases message with
  | app | backtrace | symbolInfos => exact built.elim
  | memory header data => exact addMemoryOperation_peaking following fits peaking (memoryOperation header data)
  | thread header data =>
    obtain ⟨operation, call⟩ : ∃ operation, handlerCall (.thread header data) = .threadOperation operation := ⟨_, rfl⟩
    have entries : entriesOf (s.handle (.thread header data)) =
        ((session 0 s.controller.threads).updateThreadInfos operation).entries := by
      rw [← (updateThreadInfos_session following.shaped operation).2]
      show (session 0 (s.controller.handle (handlerCall (.thread header data))).threads).entries = _
      rw [call]
      rfl
    show Peaking _ s.credits _
    rw [entries]
    exact (updateThreadInfos_falls _ operation).peaking peaking

theorem fits_earlier {messages : List Message} {message : Message} (fits : Fits (operationsOf (messages ++ [message]))) :
    Fits (operationsOf messages) := by
  have part : (operationsOf messages).Sublist (operationsOf (messages ++ [message])) :=
    List.Sublist.filterMap _ (List.sublist_append_left messages [message])
  refine ⟨Nat.lt_of_le_of_lt ?_ fits.bytes, Nat.lt_of_le_of_lt part.countP_le fits.number⟩
  exact (part.map _).sum_le_sum fun _ _ => Nat.zero_le _

/-- The operations of a session fit where those of its messages do. -/
theorem credited_fits {messages : List Message} (built : ∀ message ∈ messages, FromWrapper message)
    (fits : Fits (operationsOf messages)) : Fits (credited messages).controller.operations.listMemoryOperation := by
  rw [credited_controller]
  constructor
  · rw [afterStream_map built fun _ => rfl]
    exact fits.bytes
  · have count := congrArg (List.countP id) (afterStream_map built (f := allocates) fun _ => rfl)
    rw [List.countP_map, List.countP_map] at count
    exact Nat.lt_of_le_of_lt (Nat.le_of_eq count) fits.number

theorem credited_peaking {messages : List Message} (built : ∀ message ∈ messages, FromWrapper message)
    (numbered : messages.Pairwise fun first second => first.header.msgNum < second.header.msgNum)
    (positive : ∀ message ∈ messages, 0 < message.header.msgNum) (fits : Fits (operationsOf messages)) :
    Peaking (entriesOf (credited messages)) (credited messages).credits fun k =>
      (messages.inits.map fun earlier => held k (credited earlier)).foldl max 0 := by
  induction messages using List.reverseRecOn with
  | nil => exact ⟨fun _ => rfl, fun _ => Nat.zero_le _, fun _ => rfl⟩
  | append_singleton messages message ih =>
    have built' : ∀ other ∈ messages, FromWrapper other := fun other member => built other (List.mem_append_left _ member)
    have positive' : ∀ other ∈ messages, 0 < other.header.msgNum :=
      fun other member => positive other (List.mem_append_left _ member)
    have numbered' := (List.pairwise_append.mp numbered).1
    obtain ⟨bound, following, _⟩ := credited_following built' numbered' positive'
    obtain ⟨bound', following', _⟩ := credited_following built numbered positive
    have peaking := handle_peaking following (credited_fits built' (fits_earlier fits))
      (ih built' numbered' positive' (fits_earlier fits)) (built message (by simp))
    rw [← credited_append] at peaking
    convert peaking using 2 with k
    rw [sizeAt_held following' (credited_fits built fits), List.inits_append]
    simp

/-- For messages of the wrappers with increasing numbers: the peak of an entry is the most
    that the blocks credited to it came to after any of the messages, and its total is the
    number of these blocks. -/
theorem thread_peak_exact (messages : List Message) (built : ∀ message ∈ messages, FromWrapper message)
    (numbered : messages.Pairwise fun first second => first.header.msgNum < second.header.msgNum)
    (positive : ∀ message ∈ messages, 0 < message.header.msgNum) (fits : Fits (operationsOf messages)) :
    ∀ k ∈ (afterStream messages).threads.listThreadInfos, ∃ infos, (afterStream messages).threads.objects[k]? = some infos ∧
      infos.peakSize.toNat = (messages.inits.map fun earlier => held k (credited earlier)).foldl max 0 ∧
      infos.totalAllocCount.toNat = (credited messages).credits.count (some k) := by
  obtain ⟨bound, following, _⟩ := credited_following built numbered positive
  obtain ⟨peak, _, total⟩ := credited_peaking built numbered positive fits
  have fits' := credited_fits built fits
  rw [← credited_controller]
  intro k member
  have listed : k < (credited messages).controller.threads.objects.length := by
    rw [following.shaped.listed, Nat.sub_zero, ← List.range_eq_range', List.mem_range] at member
    exact member
  have found := List.getElem?_eq_getElem listed
  refine ⟨_, found, ?_, ?_⟩
  · rw [← peak k]
    symm
    apply figureAt_some
    exact found
  · have fewer : (credited messages).credits.count (some k) < 2 ^ 32 := by
      have credits := congrArg (List.countP id) following.credits
      rw [List.countP_map, List.countP_map] at credits
      refine Nat.lt_of_le_of_lt ?_ fits'.number
      refine Nat.le_trans (List.countP_mono_left ?_) (Nat.le_of_eq credits)
      intro credit _ same
      simp [eq_of_beq same]
    have count : (credited messages).controller.threads.objects[k].totalAllocCount =
        UInt32.ofNat ((credited messages).credits.count (some k)) := (figureAt_some found).symm.trans (total k)
    rw [count, UInt32.toNat_ofNat', Nat.mod_eq_of_lt fewer]

/-- A block of 100 bytes that grows to 150. -/
def grown : List Message := [.memory ⟨1, 0, 1, 1, 11⟩ ⟨100, 4096, 1, 0⟩, .memory ⟨1, 0, 1, 2, 14⟩ ⟨150, 8192, 2, 4096⟩]

/-- Its two sizes do not count together. -/
theorem thread_peak_grown : ∃ infos, (afterStream grown).threads.objects[0]? = some infos ∧
    infos.peakSize.toNat = 150 ∧ infos.totalAllocCount.toNat = 2 := by
  have built : ∀ message ∈ grown, FromWrapper message := by
    intro message member
    simp only [grown, List.mem_cons, List.not_mem_nil, or_false] at member
    rcases member with rfl | rfl
    · exact ⟨.malloc, by decide, rfl, by decide⟩
    · exact ⟨.realloc, by decide, rfl, by decide⟩
  obtain ⟨infos, found, peak, total⟩ := thread_peak_exact grown built (by decide) (by decide)
    ⟨by decide +kernel, by decide +kernel⟩ 0 (by decide +kernel)
  exact ⟨infos, found, peak.trans (by decide +kernel), total.trans (by decide +kernel)⟩

end Aleakd.ThreadPeaks
