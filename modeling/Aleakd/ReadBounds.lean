import Aleakd.Memory
import Aleakd.Reassembly

/-!
The receive buffer of `doReadMsg` is never overrun, whatever the bytes. Here the receiver
is followed for what it does with memory alone: the `memcpy`s out of the buffer, with
signed sizes that are compared with the unsigned `sizeof`. What the handler is given does
not matter, nor what a `memcpy` onto an overlapping region leaves behind.
-/
namespace Aleakd.ReadBounds
open Aleakd.Packed Aleakd.Messages Aleakd.Operations Aleakd.Receiver Aleakd.Reassembly Aleakd.Memory

/-- A `memcpy` out of the buffer: where it starts, and how many bytes it copies. -/
structure Copy where
  start : Nat
  size : Nat
deriving DecidableEq

/-- A signed size where it is compared with a `sizeof`. -/
def toSizeT (n : Int) : Nat := (n % 2 ^ 64).toNat

/-- A branch of `doProcessMsgV1` for a message with data, with its result. -/
def doProcessDataCopies (needed size start : Nat) (iMaxSize : Int) : List Copy × Int :=
  let sizeRead := ServerMsgHeaderV1.layout.size
  if toSizeT (iMaxSize - sizeRead) < needed then ([], 0) else ([⟨start + sizeRead, size⟩], sizeRead + size)

def doProcessMsgV1DataCopies (code : UInt8) (start : Nat) (iMaxSize : Int) : List Copy × Int :=
  if code < 10 then ([], ServerMsgHeaderV1.layout.size)
  else if 10 ≤ code ∧ code < 20 then
    doProcessDataCopies ServerMsgMemoryDataV1.layout.size ServerMsgMemoryDataV1.layout.size start iMaxSize
  else if 30 ≤ code ∧ code < 40 then
    doProcessDataCopies ServerMsgThreadDataV1.layout.size ServerMsgThreadDataV1.layout.size start iMaxSize
  else if 40 ≤ code ∧ code < 50 then
    doProcessDataCopies (serverMsgV1 ServerMsgBacktraceDataV1.layout).size ServerMsgBacktraceDataV1.layout.size start
      iMaxSize
  else if 50 ≤ code ∧ code < 60 then
    doProcessDataCopies ServerMsgSymbolInfosDataV1.layout.size ServerMsgSymbolInfosDataV1.layout.size start iMaxSize
  else ([], ServerMsgHeaderV1.layout.size)

/-- `doProcessMsgV1` on `memory` from `start` on. -/
def doProcessMsgV1Copies (memory : List UInt8) (start : Nat) (iMaxSize : Int) : List Copy × Int :=
  if toSizeT iMaxSize < ServerMsgHeaderV1.layout.size then ([], 0)
  else
    let header := ServerMsgHeaderV1.layout.unpack (memory.drop start)
    let (copies, res) := doProcessMsgV1DataCopies header.msgCode start iMaxSize
    (⟨start, ServerMsgHeaderV1.layout.size⟩ :: copies, res)

def doProcessMsgCopies (memory : List UInt8) (start : Nat) (iMaxSize : Int) : List Copy × Int :=
  if toSizeT iMaxSize < uint16.size then ([], 0)
  else
    let msgVersion := uint16.unpack (memory.drop start)
    if msgVersion = 1 then
      let (copies, res) := doProcessMsgV1Copies memory (start + uint16.size) (iMaxSize - uint16.size)
      (⟨start, uint16.size⟩ :: copies, if 0 < res then uint16.size + res else res)
    else ([⟨start, uint16.size⟩], -1)

/-- The loop of `doProcessDataRead`. -/
def doProcessDataReadFromCopies (memory : List UInt8) (iMaxSize : Int) (sizeRead : Nat) : List Copy × Int :=
  if sizeRead < iMaxSize then
    match doProcessMsgCopies memory sizeRead (iMaxSize - sizeRead) with
    | (copies, res) =>
      if 0 < res then
        let (later, final) := doProcessDataReadFromCopies memory iMaxSize (sizeRead + res.toNat)
        (copies ++ later, final)
      else if res = 0 then (copies, sizeRead)
      else (copies, res)
  else ([], sizeRead)
termination_by (iMaxSize - sizeRead).toNat
decreasing_by omega

def doProcessDataReadCopies (memory : List UInt8) (iMaxSize : Int) : List Copy × Int :=
  doProcessDataReadFromCopies memory iMaxSize 0

/-! ## Where the copies lie -/

theorem toSizeT_of_nonneg {n : Int} (nonneg : 0 ≤ n) (small : n < 2 ^ 64) : (toSizeT n : Int) = n := by
  rw [toSizeT, Int.emod_eq_of_lt nonneg small, Int.toNat_of_nonneg nonneg]

theorem toSizeT_natCast {n : Nat} (small : n < 2 ^ 64) : toSizeT n = n := by
  have size : (toSizeT n : Int) = n := toSizeT_of_nonneg (by omega) (by omega)
  omega

/-- The copies lie in the `iMaxSize` bytes from `start` on, the result counts no more than
    these, and it is 0 only where they are fewer than `waits`. -/
structure Inside (start : Nat) (iMaxSize waits : Int) (result : List Copy × Int) : Prop where
  copies : ∀ copy ∈ result.1, start ≤ copy.start ∧ copy.start + copy.size ≤ start + iMaxSize
  atMost : result.2 ≤ iMaxSize
  waiting : result.2 = 0 → iMaxSize < waits

theorem doProcessDataCopies_inside {needed size start : Nat} {iMaxSize : Int} (whole : size ≤ needed)
    (small : needed ≤ 436) (header : 29 ≤ iMaxSize) (fits : iMaxSize < 2 ^ 63) :
    Inside start iMaxSize 465 (doProcessDataCopies needed size start iMaxSize) := by
  have sizeRead := ServerMsgHeaderV1.layout_size
  have available : (toSizeT (iMaxSize - ServerMsgHeaderV1.layout.size) : Int) = iMaxSize - 29 :=
    toSizeT_of_nonneg (by omega) (by omega)
  rw [doProcessDataCopies]
  by_cases short : toSizeT (iMaxSize - ServerMsgHeaderV1.layout.size) < needed
  · rw [if_pos short]
    refine ⟨by simp, ?_, fun _ => by omega⟩
    show (0 : Int) ≤ iMaxSize
    omega
  · rw [if_neg short]
    refine ⟨?_, ?_, ?_⟩
    · intro copy member
      rw [List.mem_singleton.mp member]
      show start ≤ start + ServerMsgHeaderV1.layout.size ∧
        ((start + ServerMsgHeaderV1.layout.size : Nat) : Int) + (size : Int) ≤ start + iMaxSize
      omega
    · show (ServerMsgHeaderV1.layout.size : Int) + size ≤ iMaxSize
      omega
    · intro none
      have counted : (ServerMsgHeaderV1.layout.size : Int) + size = 0 := none
      omega

/-- The code in a header selects the same branch on both sides. -/
inductive CopiesBranch (header : ServerMsgHeaderV1) : Prop where
  | headerOnly (calls : List Callback)
      (same : ∀ pBuffer, doProcessMsgV1Data header pBuffer = some (calls, (ServerMsgHeaderV1.layout.size : Int)))
      (copied : ∀ start iMaxSize, doProcessMsgV1DataCopies header.msgCode start iMaxSize =
        ([], (ServerMsgHeaderV1.layout.size : Int)))
  | data {Data : Type} (layout : Layout Data) (needed : Nat) (callback : Data → Option Callback)
      (whole : layout.size ≤ needed) (small : needed ≤ 436)
      (same : ∀ pBuffer, doProcessMsgV1Data header pBuffer = doProcessData layout needed callback pBuffer)
      (copied : ∀ start iMaxSize, doProcessMsgV1DataCopies header.msgCode start iMaxSize =
        doProcessDataCopies needed layout.size start iMaxSize)

theorem copiesBranch (header : ServerMsgHeaderV1) : CopiesBranch header := by
  by_cases app : header.msgCode < 10
  · refine .headerOnly (if header.msgCode = MsgCode.init.byte then [.newConnection] else []) (fun _ => ?_) fun _ _ => ?_
    · simp only [doProcessMsgV1Data, if_pos app]
    · simp only [doProcessMsgV1DataCopies, if_pos app]
  by_cases memory : 10 ≤ header.msgCode ∧ header.msgCode < 20
  · refine .data ServerMsgMemoryDataV1.layout ServerMsgMemoryDataV1.layout.size
      (fun data => some (.memoryOperation (memoryOperation header data))) (Nat.le_refl _) (by decide) (fun _ => ?_)
      fun _ _ => ?_
    · simp only [doProcessMsgV1Data, if_neg app, if_pos memory]
    · simp only [doProcessMsgV1DataCopies, if_neg app, if_pos memory]
  by_cases thread : 30 ≤ header.msgCode ∧ header.msgCode < 40
  · refine .data ServerMsgThreadDataV1.layout ServerMsgThreadDataV1.layout.size
      (fun data => (threadOperation header data).map .threadOperation) (Nat.le_refl _) (by simp) (fun _ => ?_)
      fun _ _ => ?_
    · simp only [doProcessMsgV1Data, if_neg app, if_neg memory, if_pos thread]
    · simp only [doProcessMsgV1DataCopies, if_neg app, if_neg memory, if_pos thread]
  by_cases code : 40 ≤ header.msgCode ∧ header.msgCode < 50
  · refine .data ServerMsgBacktraceDataV1.layout (serverMsgV1 ServerMsgBacktraceDataV1.layout).size
      (fun data => (backtrace data).map .backtrace) (by simp) (by simp) (fun _ => ?_) fun _ _ => ?_
    · simp only [doProcessMsgV1Data, if_neg app, if_neg memory, if_neg thread, if_pos code]
    · simp only [doProcessMsgV1DataCopies, if_neg app, if_neg memory, if_neg thread, if_pos code]
  by_cases code' : 50 ≤ header.msgCode ∧ header.msgCode < 60
  · refine .data ServerMsgSymbolInfosDataV1.layout ServerMsgSymbolInfosDataV1.layout.size
      (fun data => (symbolInfos data).map .symbolInfos) (Nat.le_refl _) (by simp) (fun _ => ?_) fun _ _ => ?_
    · simp only [doProcessMsgV1Data, if_neg app, if_neg memory, if_neg thread, if_neg code, if_pos code']
    · simp only [doProcessMsgV1DataCopies, if_neg app, if_neg memory, if_neg thread, if_neg code, if_pos code']
  refine .headerOnly [] (fun _ => ?_) fun _ _ => ?_
  · simp only [doProcessMsgV1Data, if_neg app, if_neg memory, if_neg thread, if_neg code, if_neg code']
  · simp only [doProcessMsgV1DataCopies, if_neg app, if_neg memory, if_neg thread, if_neg code, if_neg code']

theorem doProcessMsgV1DataCopies_inside (header : ServerMsgHeaderV1) {start : Nat} {iMaxSize : Int}
    (read : 29 ≤ iMaxSize) (fits : iMaxSize < 2 ^ 63) :
    Inside start iMaxSize 465 (doProcessMsgV1DataCopies header.msgCode start iMaxSize) := by
  cases copiesBranch header with
  | headerOnly calls same copied =>
    rw [copied]
    exact ⟨by simp, read, fun none => absurd none (by decide)⟩
  | data layout needed callback whole small same copied =>
    rw [copied]
    exact doProcessDataCopies_inside whole small read fits

theorem doProcessMsgV1Copies_inside (memory : List UInt8) {start : Nat} {iMaxSize : Int} (nonneg : 0 ≤ iMaxSize)
    (fits : iMaxSize < 2 ^ 63) : Inside start iMaxSize 465 (doProcessMsgV1Copies memory start iMaxSize) := by
  have sizeRead := ServerMsgHeaderV1.layout_size
  have available := toSizeT_of_nonneg nonneg (by omega)
  rw [doProcessMsgV1Copies]
  by_cases short : toSizeT iMaxSize < ServerMsgHeaderV1.layout.size
  · rw [if_pos short]
    exact ⟨by simp, nonneg, fun _ => by omega⟩
  · rw [if_neg short]
    have data : Inside start iMaxSize 465 (doProcessMsgV1DataCopies
        (ServerMsgHeaderV1.layout.unpack (memory.drop start)).msgCode start iMaxSize) :=
      doProcessMsgV1DataCopies_inside _ (by omega) fits
    refine ⟨?_, data.atMost, data.waiting⟩
    intro copy member
    rcases List.mem_cons.mp member with rfl | member
    · show start ≤ start ∧ (start : Int) + (ServerMsgHeaderV1.layout.size : Int) ≤ start + iMaxSize
      omega
    · exact data.copies copy member

theorem doProcessMsgCopies_inside (memory : List UInt8) {start : Nat} {iMaxSize : Int} (nonneg : 0 ≤ iMaxSize)
    (fits : iMaxSize < 2 ^ 63) : Inside start iMaxSize 467 (doProcessMsgCopies memory start iMaxSize) := by
  have sizeRead : uint16.size = 2 := rfl
  have available := toSizeT_of_nonneg nonneg (by omega)
  rw [doProcessMsgCopies]
  by_cases short : toSizeT iMaxSize < uint16.size
  · rw [if_pos short]
    exact ⟨by simp, nonneg, fun _ => by omega⟩
  · rw [if_neg short]
    have version : (start : Int) + (uint16.size : Int) ≤ start + iMaxSize := by omega
    by_cases first : uint16.unpack (memory.drop start) = 1
    · have data : Inside (start + uint16.size) (iMaxSize - uint16.size) 465
          (doProcessMsgV1Copies memory (start + uint16.size) (iMaxSize - uint16.size)) :=
        doProcessMsgV1Copies_inside memory (by omega) (by omega)
      have atMost := data.atMost
      have waiting := data.waiting
      simp only [first, if_true]
      refine ⟨?_, ?_, ?_⟩
      · intro copy member
        rcases List.mem_cons.mp member with rfl | member
        · exact ⟨Nat.le_refl _, version⟩
        · have inside := data.copies copy member
          omega
      · show (if 0 < _ then _ else _) ≤ iMaxSize
        split <;> omega
      · intro none
        have counted : (if 0 < (doProcessMsgV1Copies memory (start + uint16.size) (iMaxSize - uint16.size)).2 then
          _ else _) = (0 : Int) := none
        split at counted <;> omega
    · simp only [first, if_false]
      refine ⟨?_, ?_, ?_⟩
      · intro copy member
        rw [List.mem_singleton.mp member]
        exact ⟨Nat.le_refl _, version⟩
      · show (-1 : Int) ≤ iMaxSize
        omega
      · intro none
        have rejected : (-1 : Int) = 0 := none
        omega

/-- The copies of a whole loop lie in the buffer, and it stops with less than the largest
    message needs, or rejects one. -/
structure Finished (iMaxSize : Int) (result : List Copy × Int) : Prop where
  copies : ∀ copy ∈ result.1, copy.start + copy.size ≤ iMaxSize
  atMost : result.2 ≤ iMaxSize
  left : 0 ≤ result.2 → iMaxSize - result.2 < 467

theorem doProcessDataReadFromCopies_finished (memory : List UInt8) {iMaxSize : Int} {sizeRead : Nat}
    (within : sizeRead ≤ iMaxSize) (fits : iMaxSize < 2 ^ 63) :
    Finished iMaxSize (doProcessDataReadFromCopies memory iMaxSize sizeRead) := by
  have inside : ∀ {sizeRead : Nat}, sizeRead < iMaxSize → Inside sizeRead (iMaxSize - sizeRead) 467
      (doProcessMsgCopies memory sizeRead (iMaxSize - sizeRead)) :=
    fun more => doProcessMsgCopies_inside memory (by omega) (by omega)
  have first : ∀ {sizeRead : Nat} {copies : List Copy} {res : Int}, sizeRead < iMaxSize →
      doProcessMsgCopies memory sizeRead (iMaxSize - sizeRead) = (copies, res) →
      (∀ copy ∈ copies, copy.start + copy.size ≤ iMaxSize) ∧ sizeRead + res ≤ iMaxSize ∧
        (res = 0 → iMaxSize - sizeRead < 467) := by
    intro sizeRead copies res more handled
    obtain ⟨copied, atMost, waiting⟩ := handled ▸ inside more
    refine ⟨fun copy member => ?_, by simp only at atMost; omega, waiting⟩
    have bounds := copied copy member
    omega
  fun_induction doProcessDataReadFromCopies memory iMaxSize sizeRead with
  | case1 sizeRead more copies res handled positive later final goesOn ih =>
    obtain ⟨copied, atMost, _⟩ := first more handled
    have rest := ih (by omega)
    rw [goesOn] at rest
    refine ⟨fun copy member => ?_, rest.atMost, rest.left⟩
    rcases List.mem_append.mp member with member | member
    · exact copied copy member
    · exact rest.copies copy member
  | case2 sizeRead more copies handled =>
    obtain ⟨copied, _, waiting⟩ := first more handled
    exact ⟨copied, within, fun _ => waiting rfl⟩
  | case3 sizeRead more copies res handled notPositive notZero =>
    obtain ⟨copied, _, _⟩ := first more handled
    refine ⟨copied, ?_, fun counted => ?_⟩
    · show res ≤ iMaxSize
      omega
    · have counted' : 0 ≤ res := counted
      omega
  | case4 sizeRead done =>
    refine ⟨by simp, within, fun _ => ?_⟩
    show iMaxSize - (sizeRead : Int) < 467
    omega

/-! ## The same results -/

theorem doProcessDataCopies_result {Data : Type} {layout : Layout Data} {needed : Nat}
    {callback : Data → Option Callback} {pBuffer : List UInt8} {calls : List Callback} {res : Int}
    (fits : pBuffer.length < 2 ^ 63) (handled : doProcessData layout needed callback pBuffer = some (calls, res))
    (start : Nat) :
    (doProcessDataCopies needed layout.size start (ServerMsgHeaderV1.layout.size + pBuffer.length)).2 = res := by
  have available : (ServerMsgHeaderV1.layout.size + pBuffer.length - ServerMsgHeaderV1.layout.size : Int) =
      pBuffer.length := by omega
  rw [doProcessDataCopies, available, toSizeT_natCast (by omega)]
  cases doProcessData_iff.mp handled with
  | waits short => rw [if_pos short]
  | handles enough => rw [if_neg (Nat.not_lt.mpr enough)]

theorem doProcessMsgV1DataCopies_result {header : ServerMsgHeaderV1} {pBuffer : List UInt8} {calls : List Callback}
    {res : Int} (fits : pBuffer.length < 2 ^ 63) (handled : doProcessMsgV1Data header pBuffer = some (calls, res))
    (start : Nat) :
    (doProcessMsgV1DataCopies header.msgCode start (ServerMsgHeaderV1.layout.size + pBuffer.length)).2 = res := by
  cases copiesBranch header with
  | headerOnly calls' same copied =>
    rw [same] at handled
    cases handled
    rw [copied]
  | data layout needed callback whole small same copied =>
    rw [same] at handled
    rw [copied]
    exact doProcessDataCopies_result fits handled start

/-- What a structure reads from memory is what it reads from the bytes in front. -/
theorem unpack_eq_of_read {α : Type} {l : Layout α} (own : l.ReadsOwn) {pBuffer rest memory : List UInt8} {a : α}
    {start : Nat} (front : memory.drop start = pBuffer ++ rest) (found : l.read pBuffer = some a) :
    l.unpack (memory.drop start) = a := by
  have whole := Layout.size_le_of_read found
  rw [Layout.read, if_pos whole] at found
  rw [front, own pBuffer rest whole]
  exact Option.some.inj found

theorem drop_front {pBuffer rest memory : List UInt8} {start : Nat} (front : memory.drop start = pBuffer ++ rest)
    {n : Nat} (within : n ≤ pBuffer.length) : memory.drop (start + n) = pBuffer.drop n ++ rest := by
  rw [← List.drop_drop, front, List.drop_append_of_le_length within]

theorem doProcessMsgV1Copies_result {memory pBuffer rest : List UInt8} {start : Nat} {calls : List Callback}
    {res : Int} (fits : pBuffer.length < 2 ^ 63) (front : memory.drop start = pBuffer ++ rest)
    (handled : doProcessMsgV1 pBuffer = some (calls, res)) :
    (doProcessMsgV1Copies memory start pBuffer.length).2 = res := by
  rw [doProcessMsgV1Copies, toSizeT_natCast (by omega)]
  cases doProcessMsgV1_iff.mp handled with
  | waits short => rw [if_pos short]
  | handles found handled =>
    have enough := Layout.size_le_of_read found
    rw [if_neg (Nat.not_lt.mpr enough), unpack_eq_of_read ServerMsgHeaderV1.layout_readsOwn front found]
    have data := doProcessMsgV1DataCopies_result (by rw [List.length_drop]; omega) handled start
    have whole : (ServerMsgHeaderV1.layout.size : Int) + (pBuffer.drop ServerMsgHeaderV1.layout.size).length =
        pBuffer.length := by
      rw [List.length_drop]
      omega
    rw [whole] at data
    exact data

theorem doProcessMsgCopies_result {memory pBuffer rest : List UInt8} {start : Nat} {calls : List Callback}
    {res : Int} (fits : pBuffer.length < 2 ^ 63) (front : memory.drop start = pBuffer ++ rest)
    (handled : doProcessMsg pBuffer = some (calls, res)) :
    (doProcessMsgCopies memory start pBuffer.length).2 = res := by
  rw [doProcessMsgCopies, toSizeT_natCast (by omega)]
  cases doProcessMsg_iff.mp handled with
  | waits short => rw [if_pos short]
  | handles found handled' =>
    have enough := Layout.size_le_of_read found
    have data := doProcessMsgV1Copies_result (by rw [List.length_drop]; omega) (drop_front front enough) handled'
    have size : ((pBuffer.drop uint16.size).length : Int) = pBuffer.length - uint16.size := by
      rw [List.length_drop]
      omega
    rw [size] at data
    rw [if_neg (Nat.not_lt.mpr enough), unpack_eq_of_read uint16_readsOwn front found]
    simp only [if_true, data]
  | rejects found other =>
    rw [if_neg (Nat.not_lt.mpr (Layout.size_le_of_read found)), unpack_eq_of_read uint16_readsOwn front found]
    simp only [other, if_false]

/-- Where the receiver has a result, it is the one that its copies go with. -/
theorem doProcessDataReadFromCopies_result {memory pBuffer rest : List UInt8} {sizeRead : Nat}
    {calls : List Callback} {res : Int} (fits : pBuffer.length < 2 ^ 63)
    (front : memory.drop sizeRead = pBuffer ++ rest)
    (handled : doProcessDataReadFrom sizeRead pBuffer = some (calls, res)) :
    (doProcessDataReadFromCopies memory (sizeRead + pBuffer.length) sizeRead).2 = res := by
  -- one message, seen from both sides
  have first : ∀ {sizeRead : Nat} {pBuffer : List UInt8} {calls : List Callback} {res : Int},
      pBuffer.length < 2 ^ 63 → memory.drop sizeRead = pBuffer ++ rest → pBuffer ≠ [] →
      doProcessMsg pBuffer = some (calls, res) →
      (sizeRead : Int) < sizeRead + pBuffer.length ∧
        ∃ copies, doProcessMsgCopies memory sizeRead (sizeRead + pBuffer.length - sizeRead) = (copies, res) := by
    intro sizeRead pBuffer calls res fits front some_ handled
    have positive := List.length_pos_of_ne_nil some_
    have available : ((sizeRead : Int) + pBuffer.length - sizeRead) = pBuffer.length := by omega
    refine ⟨by omega, (doProcessMsgCopies memory sizeRead pBuffer.length).1, ?_⟩
    rw [available, ← doProcessMsgCopies_result fits front handled]
  fun_induction doProcessDataReadFrom sizeRead pBuffer generalizing calls res with
  | case1 sizeRead =>
    cases handled
    rw [doProcessDataReadFromCopies, if_neg (by simp)]
  | case2 => cases handled
  | case3 sizeRead pBuffer some_ calls' n handledFirst positive _ ih =>
    simp only [Option.map_eq_some_iff] at handled
    obtain ⟨⟨later, final⟩, handled, same⟩ := handled
    cases same
    obtain ⟨more, copies, copied⟩ := first fits front some_ handledFirst
    have within := doProcessMsg_le handledFirst positive
    have goesOn := ih (by rw [List.length_drop]; omega) (drop_front front within) handled
    have total : ((sizeRead + n.toNat : Nat) : Int) + (pBuffer.drop n.toNat).length = sizeRead + pBuffer.length := by
      rw [List.length_drop]
      omega
    rw [total] at goesOn
    rw [doProcessDataReadFromCopies, if_pos more, copied]
    simp only [if_pos positive]
    exact goesOn
  | case4 => cases handled
  | case5 sizeRead pBuffer some_ calls' handledFirst =>
    cases handled
    obtain ⟨more, copies, copied⟩ := first fits front some_ handledFirst
    rw [doProcessDataReadFromCopies, if_pos more, copied]
    rfl
  | case6 sizeRead pBuffer some_ calls' res' handledFirst notPositive notZero =>
    cases handled
    obtain ⟨more, copies, copied⟩ := first fits front some_ handledFirst
    rw [doProcessDataReadFromCopies, if_pos more, copied]
    simp only [if_neg notPositive, if_neg notZero]

/-! ## The loop of `doReadMsg` -/

/-- The buffer of `doReadMsg`, and how many bytes of it are in use. -/
structure ReadBuffer where
  content : List.Vector UInt8 readBufferSize
  bufferReadSize : Nat

/-- `memcpy(pBuffer, pBuffer + processed, remaining)`, which may leave anything where the
    regions overlap. -/
def Moved (content : List.Vector UInt8 readBufferSize) (processed remaining : Nat)
    (after : List.Vector UInt8 readBufferSize) : Prop :=
  remaining ≤ processed → memcpy content 0 ((content.val.drop processed).take remaining) = some after

/-- What is copied fits at the start of the buffer. -/
theorem exists_shifted (content : List.Vector UInt8 readBufferSize) (processed remaining : Nat) :
    ∃ after, memcpy content 0 ((content.val.drop processed).take remaining) = some after := by
  have fits : ((content.val.drop processed).take remaining).length ≤ readBufferSize := by
    have size : content.val.length = readBufferSize := content.property
    rw [List.length_take, List.length_drop, size]
    omega
  obtain ⟨after, copied, _⟩ := memcpy_start content fits
  exact ⟨after, copied⟩

/-- It always leaves something, and inside the buffer. -/
theorem exists_moved (content : List.Vector UInt8 readBufferSize) (processed remaining : Nat) :
    ∃ after, Moved content processed remaining after := by
  obtain ⟨after, copied⟩ := exists_shifted content processed remaining
  exact ⟨after, fun _ => copied⟩

/-- One round of the loop that is followed by another: a read that fails, or one whose bytes
    are put behind those in use and of which something is processed. -/
inductive Step : ReadBuffer → Read → ReadBuffer → Prop where
  | error (s : ReadBuffer) : Step s .error s
  | data {s : ReadBuffer} {bytes : List UInt8} {atMost : bytes.length ≤ 4096}
      {filled after : List.Vector UInt8 readBufferSize} {processed : Int} (some : bytes ≠ [])
      (read : memcpy s.content s.bufferReadSize bytes = .some filled)
      (handled : (doProcessDataReadCopies filled.val (s.bufferReadSize + bytes.length)).2 = processed)
      (positive : 0 < processed)
      (moved : Moved filled processed.toNat (s.bufferReadSize + bytes.length - processed.toNat) after) :
      Step s (.data bytes atMost) ⟨after, s.bufferReadSize + bytes.length - processed.toNat⟩

/-- Rounds one after the other. -/
inductive Rounds : ReadBuffer → List Read → ReadBuffer → Prop where
  | nil (s : ReadBuffer) : Rounds s [] s
  | cons {s next final : ReadBuffer} {read : Read} {reads : List Read} (step : Step s read next)
      (later : Rounds next reads final) : Rounds s (read :: reads) final

/-- The bytes in use. -/
def ReadBuffer.held (s : ReadBuffer) : List UInt8 := s.content.val.take s.bufferReadSize

/-- What fits is read into the buffer, and copied from inside of it. -/
theorem read_inside (s : ReadBuffer) {bytes : List UInt8} (small : s.bufferReadSize ≤ 466)
    (atMost : bytes.length ≤ 4096) :
    ∃ filled, memcpy s.content s.bufferReadSize bytes = some filled ∧
      Finished (s.bufferReadSize + bytes.length)
        (doProcessDataReadCopies filled.val (s.bufferReadSize + bytes.length)) := by
  have room : s.bufferReadSize + bytes.length ≤ readBufferSize := by
    rw [readBufferSize]
    omega
  obtain ⟨filled, read⟩ := memcpy_fits s.content room
  exact ⟨filled, read, doProcessDataReadFromCopies_finished filled.val (by omega) (by omega)⟩

/-- A round leaves less than the largest message needs. -/
theorem step_small {s next : ReadBuffer} {read : Read} (small : s.bufferReadSize ≤ 466) (step : Step s read next) :
    next.bufferReadSize ≤ 466 := by
  cases step with
  | error => exact small
  | @data bytes atMost filled after processed some read handled positive moved =>
    obtain ⟨filled', read', finished⟩ := read_inside s small atMost
    rw [read] at read'
    cases read'
    have left := finished.left
    rw [handled] at left
    show s.bufferReadSize + bytes.length - processed.toNat ≤ 466
    omega

theorem rounds_small {s final : ReadBuffer} {reads : List Read} (small : s.bufferReadSize ≤ 466)
    (rounds : Rounds s reads final) : final.bufferReadSize ≤ 466 := by
  induction rounds with
  | nil => exact small
  | cons step _ ih => exact ih (step_small small step)

theorem held_filled {s : ReadBuffer} {bytes : List UInt8} {filled : List.Vector UInt8 readBufferSize}
    (read : memcpy s.content s.bufferReadSize bytes = some filled) :
    filled.val.take (s.bufferReadSize + bytes.length) = s.held ++ bytes := memcpy_take read

theorem held_append_length {s : ReadBuffer} (small : s.bufferReadSize ≤ 466) (bytes : List UInt8) :
    (s.held ++ bytes).length = s.bufferReadSize + bytes.length := by
  have size : s.content.val.length = 8192 := s.content.property
  rw [List.length_append, ReadBuffer.held, List.length_take]
  omega

theorem doProcessDataReadCopies_result {s : ReadBuffer} {bytes : List UInt8}
    {filled : List.Vector UInt8 readBufferSize} {calls : List Callback} {processed : Int}
    (small : s.bufferReadSize ≤ 466) (atMost : bytes.length ≤ 4096)
    (read : memcpy s.content s.bufferReadSize bytes = some filled)
    (handled : doProcessDataRead (s.held ++ bytes) = some (calls, processed)) :
    (doProcessDataReadCopies filled.val (s.bufferReadSize + bytes.length)).2 = processed := by
  have length := held_append_length small bytes
  have front : filled.val.drop 0 = (s.held ++ bytes) ++ filled.val.drop (s.bufferReadSize + bytes.length) := by
    rw [← held_filled read, List.take_append_drop]
    rfl
  have result := doProcessDataReadFromCopies_result (by omega) front handled
  rw [length, Nat.cast_zero, Int.zero_add, Nat.cast_add] at result
  exact result

/-- Where the regions do not overlap, the bytes that are still in use come to the start. -/
theorem held_moved {s : ReadBuffer} {bytes : List UInt8} {filled after : List.Vector UInt8 readBufferSize}
    {processed : Nat} (small : s.bufferReadSize ≤ 466) (read : memcpy s.content s.bufferReadSize bytes = some filled)
    (moved : memcpy filled 0 ((filled.val.drop processed).take (s.bufferReadSize + bytes.length - processed)) =
      some after) :
    (ReadBuffer.mk after (s.bufferReadSize + bytes.length - processed)).held = (s.held ++ bytes).drop processed := by
  have kept : (filled.val.drop processed).take (s.bufferReadSize + bytes.length - processed) =
      (s.held ++ bytes).drop processed := by
    rw [← held_filled read, List.drop_take]
  have size : ((s.held ++ bytes).drop processed).length = s.bufferReadSize + bytes.length - processed := by
    rw [List.length_drop, held_append_length small]
  rw [kept] at moved
  have front := memcpy_take moved
  rwa [size, Nat.zero_add, List.take_zero, List.nil_append] at front

/-- What `doReadMsg` does with a read, where that is defined, is such a round or the last
    one of the call. -/
theorem doReadMsg_round {s : ReadBuffer} (small : s.bufferReadSize ≤ 466) {read : Read} {reads left : List Read}
    {calls : List Callback} (called : doReadMsg (read :: reads) s.held = some (calls, left)) :
    left = reads ∨ ∃ next later, Step s read next ∧ doReadMsg reads next.held = some (later, left) := by
  cases read with
  | error => exact .inr ⟨s, calls, .error s, called⟩
  | data bytes atMost =>
    simp only [doReadMsg] at called
    split at called
    · cases called
      exact .inl rfl
    · next some_ =>
      split at called
      · obtain ⟨⟨calls', processed⟩, handled, called⟩ := Option.bind_eq_some_iff.mp called
        obtain ⟨filled, read, _⟩ := read_inside s small atMost
        have result := doProcessDataReadCopies_result small atMost read handled
        by_cases positive : 0 < processed
        · simp only [if_pos positive] at called
          obtain ⟨remaining, shifted, called⟩ := Option.bind_eq_some_iff.mp called
          obtain ⟨⟨later, left'⟩, called', same⟩ := Option.bind_eq_some_iff.mp called
          cases same
          have length := held_append_length small bytes
          unfold shift at shifted
          rw [length] at shifted
          split at shifted
          · next apart =>
            cases shifted
            obtain ⟨after, moved⟩ := exists_moved filled processed.toNat
              (s.bufferReadSize + bytes.length - processed.toNat)
            refine .inr ⟨_, later, .data some_ read result positive moved, ?_⟩
            rw [held_moved small read (moved apart)]
            exact called'
          · cases shifted
        · simp only [if_neg positive] at called
          cases called
          exact .inl rfl
      · cases called

/-- Before each read of `doReadMsg` at most 466 bytes are in use, so the read fits in the
    buffer; and the copies made of what is then in use start and end in it. -/
theorem reads_inside {content : List.Vector UInt8 readBufferSize} {reads : List Read} {s : ReadBuffer}
    (rounds : Rounds ⟨content, 0⟩ reads s) :
    s.bufferReadSize ≤ 466 ∧
      ∀ bytes : List UInt8, bytes.length ≤ 4096 →
        s.bufferReadSize + bytes.length ≤ readBufferSize ∧
        ∃ filled, memcpy s.content s.bufferReadSize bytes = some filled ∧
          ∀ copy ∈ (doProcessDataReadCopies filled.val (s.bufferReadSize + bytes.length)).1,
            copy.start + copy.size ≤ s.bufferReadSize + bytes.length := by
  have small := rounds_small (Nat.zero_le _) rounds
  refine ⟨small, fun bytes atMost => ?_⟩
  obtain ⟨filled, read, finished⟩ := read_inside s small atMost
  refine ⟨?_, filled, read, fun copy member => ?_⟩
  · rw [readBufferSize]
    omega
  · have inside := finished.copies copy member
    omega

theorem firstMessages_take : ((encodeAll firstMessages).take 40).length ≤ 4096 :=
  le_trans (List.length_take_le _ _) (by decide)

/-- A first read of 40 bytes, of which the application message is processed. -/
theorem reads_inside_cut :
    ∃ s, Rounds ⟨List.Vector.replicate readBufferSize 0, 0⟩
        [.data ((encodeAll firstMessages).take 40) firstMessages_take] s ∧ s.bufferReadSize = 9 ∧
      ∀ bytes : List UInt8, bytes.length ≤ 4096 → s.bufferReadSize + bytes.length ≤ readBufferSize := by
  let start : ReadBuffer := ⟨List.Vector.replicate readBufferSize 0, 0⟩
  have length : ((encodeAll firstMessages).take 40).length = 40 := by decide +kernel
  have processed : (doProcessDataRead ((encodeAll firstMessages).take 40)).map Prod.snd = some 31 := by decide +kernel
  obtain ⟨⟨calls, _⟩, handled, rfl⟩ := Option.map_eq_some_iff.mp processed
  have small : start.bufferReadSize ≤ 466 := Nat.zero_le _
  obtain ⟨filled, read, _⟩ := read_inside start small firstMessages_take
  have result := doProcessDataReadCopies_result small firstMessages_take read handled
  have fits : ((filled.val.drop 31).take (0 + ((encodeAll firstMessages).take 40).length - 31)).length ≤
      readBufferSize := by
    rw [length]
    exact le_trans (List.length_take_le _ _) (by decide)
  obtain ⟨after, moved, _⟩ := memcpy_start filled fits
  have some_ : (encodeAll firstMessages).take 40 ≠ [] := by
    apply List.ne_nil_of_length_pos
    rw [length]
    decide
  have rounds : Rounds start [.data ((encodeAll firstMessages).take 40) firstMessages_take] _ :=
    .cons (.data some_ read result (by decide) fun _ => moved) (.nil _)
  refine ⟨_, rounds, ?_, fun bytes short => ((reads_inside rounds).2 bytes short).1⟩
  show 0 + ((encodeAll firstMessages).take 40).length - 31 = 9
  rw [length]

end Aleakd.ReadBounds
