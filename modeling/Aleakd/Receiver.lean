import Aleakd.Operations

/-!
The receiving side, `server/Server/MemOpRcptServer.cpp`. Each function gets the
bytes that its buffer holds and returns the calls it makes to the handler with
its result; it has no result (`none`) where the behaviour of the source is not
defined: a `memcpy` that reads past the buffer, a C string or an array read past
its field, an `int` that overflows, a `memcpy` onto an overlapping region.
-/
namespace Aleakd.Receiver
open Aleakd.Packed Aleakd.Messages Aleakd.Operations

/-- What a function of the receiver does: the handler calls, and its result. -/
abbrev Outcome := Option (List Callback × Int)

/-- A branch of `doProcessMsgV1`, for a message with data: it waits for `needed`
    bytes of it, copies the data and calls the handler. -/
def doProcessData {Data : Type} (layout : Layout Data) (needed : Nat) (callback : Data → Option Callback)
    (pBuffer : List UInt8) : Outcome :=
  if pBuffer.length < needed then some ([], 0)
  else do
    let data ← layout.read pBuffer
    let call ← callback data
    return ([call], ServerMsgHeaderV1.layout.size + layout.size)

/-- `doProcessMsgV1` once it has the header, on the bytes after it. The ranges of
    codes are disjoint, so the tests follow each other here. -/
def doProcessMsgV1Data (header : ServerMsgHeaderV1) (pBuffer : List UInt8) : Outcome :=
  let code := header.msgCode
  if code < 10 then
    some (if code = MsgCode.init.byte then [.newConnection] else [], ServerMsgHeaderV1.layout.size)
  else if 10 ≤ code ∧ code < 20 then
    doProcessData ServerMsgMemoryDataV1.layout ServerMsgMemoryDataV1.layout.size
      (fun data => some (.memoryOperation (memoryOperation header data))) pBuffer
  else if 30 ≤ code ∧ code < 40 then
    doProcessData ServerMsgThreadDataV1.layout ServerMsgThreadDataV1.layout.size
      (fun data => (threadOperation header data).map .threadOperation) pBuffer
  else if 40 ≤ code ∧ code < 50 then
    -- the size asked for is that of the whole message, of which only the data is still to come
    doProcessData ServerMsgBacktraceDataV1.layout (serverMsgV1 ServerMsgBacktraceDataV1.layout).size
      (fun data => (backtrace data).map .backtrace) pBuffer
  else if 50 ≤ code ∧ code < 60 then
    doProcessData ServerMsgSymbolInfosDataV1.layout ServerMsgSymbolInfosDataV1.layout.size
      (fun data => (symbolInfos data).map .symbolInfos) pBuffer
  else
    some ([], ServerMsgHeaderV1.layout.size)

def doProcessMsgV1 (pBuffer : List UInt8) : Outcome :=
  if pBuffer.length < ServerMsgHeaderV1.layout.size then some ([], 0)
  else do
    let header ← ServerMsgHeaderV1.layout.read pBuffer
    doProcessMsgV1Data header (pBuffer.drop ServerMsgHeaderV1.layout.size)

def doProcessMsg (pBuffer : List UInt8) : Outcome :=
  if pBuffer.length < uint16.size then some ([], 0)
  else do
    let msgVersion ← uint16.read pBuffer
    if msgVersion = 1 then
      let (calls, res) ← doProcessMsgV1 (pBuffer.drop uint16.size)
      return (calls, if 0 < res then uint16.size + res else res)
    else
      return ([], -1)

/-! ### The results -/

/-- What a branch for a message with data does. -/
inductive DataHandled {Data : Type} (layout : Layout Data) (needed : Nat) (callback : Data → Option Callback)
    (pBuffer : List UInt8) : List Callback → Int → Prop where
  | waits (short : pBuffer.length < needed) : DataHandled layout needed callback pBuffer [] 0
  | handles {data : Data} {call : Callback} (enough : needed ≤ pBuffer.length)
      (found : layout.read pBuffer = some data) (called : callback data = some call) :
      DataHandled layout needed callback pBuffer [call] (ServerMsgHeaderV1.layout.size + layout.size)

theorem doProcessData_iff {Data : Type} {layout : Layout Data} {needed : Nat} {callback : Data → Option Callback}
    {pBuffer : List UInt8} {calls : List Callback} {res : Int} :
    doProcessData layout needed callback pBuffer = some (calls, res) ↔
      DataHandled layout needed callback pBuffer calls res := by
  unfold doProcessData
  constructor
  · intro handled
    split at handled
    · next short =>
      cases handled
      exact .waits short
    · next enough =>
      obtain ⟨data, found, handled⟩ := Option.bind_eq_some_iff.mp handled
      obtain ⟨call, called, same⟩ := Option.bind_eq_some_iff.mp handled
      cases same
      exact .handles (Nat.not_lt.mp enough) found called
  · intro handled
    cases handled with
    | waits short => rw [if_pos short]
    | handles enough found called =>
      rw [if_neg (Nat.not_lt.mpr enough), found]
      simp [called]

/-- What `doProcessMsgV1` does. -/
inductive V1Handled (pBuffer : List UInt8) : List Callback → Int → Prop where
  | waits (short : pBuffer.length < ServerMsgHeaderV1.layout.size) : V1Handled pBuffer [] 0
  | handles {header : ServerMsgHeaderV1} {calls : List Callback} {res : Int}
      (found : ServerMsgHeaderV1.layout.read pBuffer = some header)
      (handled : doProcessMsgV1Data header (pBuffer.drop ServerMsgHeaderV1.layout.size) = some (calls, res)) :
      V1Handled pBuffer calls res

theorem doProcessMsgV1_iff {pBuffer : List UInt8} {calls : List Callback} {res : Int} :
    doProcessMsgV1 pBuffer = some (calls, res) ↔ V1Handled pBuffer calls res := by
  unfold doProcessMsgV1
  constructor
  · intro handled
    split at handled
    · next short =>
      cases handled
      exact .waits short
    · obtain ⟨header, found, handled⟩ := Option.bind_eq_some_iff.mp handled
      exact .handles found handled
  · intro handled
    cases handled with
    | waits short => rw [if_pos short]
    | handles found handled =>
      rw [if_neg (Nat.not_lt.mpr (Layout.size_le_of_read found)), found]
      exact handled

/-- What `doProcessMsg` does. -/
inductive MsgHandled (pBuffer : List UInt8) : List Callback → Int → Prop where
  | waits (short : pBuffer.length < uint16.size) : MsgHandled pBuffer [] 0
  | handles {calls : List Callback} {res : Int} (found : uint16.read pBuffer = some 1)
      (handled : doProcessMsgV1 (pBuffer.drop uint16.size) = some (calls, res)) :
      MsgHandled pBuffer calls (if 0 < res then uint16.size + res else res)
  | rejects {msgVersion : UInt16} (found : uint16.read pBuffer = some msgVersion) (other : msgVersion ≠ 1) :
      MsgHandled pBuffer [] (-1)

theorem doProcessMsg_iff {pBuffer : List UInt8} {calls : List Callback} {res : Int} :
    doProcessMsg pBuffer = some (calls, res) ↔ MsgHandled pBuffer calls res := by
  unfold doProcessMsg
  constructor
  · intro handled
    split at handled
    · next short =>
      cases handled
      exact .waits short
    · obtain ⟨msgVersion, found, handled⟩ := Option.bind_eq_some_iff.mp handled
      by_cases first : msgVersion = 1
      · rw [if_pos first] at handled
        obtain ⟨⟨calls', res'⟩, handled', same⟩ := Option.bind_eq_some_iff.mp handled
        cases same
        exact .handles (first ▸ found) handled'
      · rw [if_neg first] at handled
        cases handled
        exact .rejects found first
  · intro handled
    cases handled with
    | waits short => rw [if_pos short]
    | handles found handled =>
      rw [if_neg (Nat.not_lt.mpr (Layout.size_le_of_read found)), found]
      simp [handled]
    | rejects found other =>
      rw [if_neg (Nat.not_lt.mpr (Layout.size_le_of_read found)), found]
      exact if_neg other

/-- The loop of `doProcessDataRead`, after `sizeRead` bytes; the counter is an `int`. -/
def doProcessDataReadFrom (sizeRead : Nat) (pBuffer : List UInt8) : Outcome :=
  if pBuffer = [] then some ([], sizeRead)
  else
    match doProcessMsg pBuffer with
    | none => none
    | some (calls, res) =>
      if 0 < res then
        if sizeRead + res.toNat < 2 ^ 31 then
          (doProcessDataReadFrom (sizeRead + res.toNat) (pBuffer.drop res.toNat)).map fun (later, final) =>
            (calls ++ later, final)
        else none
      else if res = 0 then some (calls, sizeRead)
      else some (calls, res)
termination_by pBuffer.length
decreasing_by
  have some : 0 < pBuffer.length := List.length_pos_of_ne_nil ‹_›
  simp only [List.length_drop]
  omega

def doProcessDataRead (pBuffer : List UInt8) : Outcome := doProcessDataReadFrom 0 pBuffer

/-! ## Reading from the device -/

/-- What one `pIODevice->read(…, 4096)` gives: bytes, none of them where the call
    is to end, or -1. -/
inductive Read where
  | data (bytes : List UInt8) (atMost : bytes.length ≤ 4096)
  | error

def Read.bytes : Read → List UInt8
  | .data bytes _ => bytes
  | .error => []

/-- The bytes that a sequence of reads delivers. -/
def delivered (reads : List Read) : List UInt8 := reads.flatMap Read.bytes

/-- The size of the buffer of `doReadMsg`. -/
def readBufferSize : Nat := 8192

/-- `memcpy(pBuffer, pBuffer + processed, remaining)`. -/
def shift (pBuffer : List UInt8) (processed : Nat) : Option (List UInt8) :=
  if pBuffer.length - processed ≤ processed then some (pBuffer.drop processed) else none

/-- `doReadMsg`, given what each `read` will give and what the local buffer holds.
    It returns the handler calls and the reads that are left for later calls. -/
def doReadMsg : List Read → List UInt8 → Option (List Callback × List Read)
  | [], _ => some ([], [])
  | .error :: reads, pBuffer => doReadMsg reads pBuffer
  | .data bytes _ :: reads, pBuffer =>
    if bytes = [] then some ([], reads)
    else if (pBuffer ++ bytes).length ≤ readBufferSize then do
      let (calls, processed) ← doProcessDataRead (pBuffer ++ bytes)
      if 0 < processed then
        let remaining ← shift (pBuffer ++ bytes) processed.toNat
        let (later, left) ← doReadMsg reads remaining
        return (calls ++ later, left)
      else
        return (calls, reads)
    else none

/-- Every call of `doReadMsg` uses up a read. -/
theorem doReadMsg_left {reads left : List Read} {pBuffer : List UInt8} {calls : List Callback}
    (called : doReadMsg reads pBuffer = some (calls,left)) (some : reads ≠ []) : left.length < reads.length := by
  induction reads generalizing pBuffer calls with
  | nil => exact absurd rfl some
  | cons read rest ih =>
    have later : ∀ {buffer : List UInt8} {calls' : List Callback}, doReadMsg rest buffer = .some (calls',left) →
        left.length < (read :: rest).length := by
      intro buffer calls' called'
      by_cases none : rest = []
      · subst none
        cases called'
        exact Nat.zero_lt_succ _
      · exact Nat.lt_succ_of_lt (ih called' none)
    cases read with
    | error => exact later called
    | data bytes atMost =>
      simp only [doReadMsg] at called
      split at called
      · cases called
        exact Nat.lt_succ_self _
      · split at called
        · simp only [Option.bind_eq_bind, Option.bind_eq_some_iff] at called
          obtain ⟨⟨calls', processed⟩, _, called⟩ := called
          split at called
          · simp only [Option.bind_eq_some_iff] at called
            obtain ⟨remaining, _, ⟨calls'', left'⟩, called', same⟩ := called
            cases same
            exact later called'
          · cases called
            exact Nat.lt_succ_self _
        · cases called

/-- The calls of `doReadMsg` over a whole connection, one after the other for as
    long as the device gives something; each starts with an empty buffer. -/
def connection (reads : List Read) : Option (List Callback) :=
  if reads = [] then some []
  else
    match _ : doReadMsg reads [] with
    | none => none
    | some (calls, left) => (connection left).map fun later => calls ++ later
termination_by reads.length
decreasing_by exact doReadMsg_left ‹_› ‹_›

end Aleakd.Receiver
