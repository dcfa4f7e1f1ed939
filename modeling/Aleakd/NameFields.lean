import Aleakd.ByteMemory
import Aleakd.Framing
import Aleakd.ThreadCalls

/-!
The names in the messages, as the bytes that they are in memory. `backtrace_send` copies as
many bytes as the names of the object and of the symbol have; `pthread_setname_np` and
`prctl` copy as many as the field has. Neither copies a NUL.
-/
namespace Aleakd.NameFields
open Aleakd.Packed Aleakd.Messages Aleakd.Operations Aleakd.Receiver Aleakd.Framing Aleakd.Wrapper
open Aleakd.ThreadCalls Aleakd.ByteMemory

/-- The memory from the start of a message on, and what is behind it. -/
abbrev Bytes := Nat → UInt8

/-- A copy of a name into its field. -/
structure NameCopy where
  start : Nat
  size : Nat
  before : Bytes
  copied : List UInt8

def NameCopy.after (copy : NameCopy) : Bytes := store copy.before copy.start copy.copied

/-- What a function has made of its message when it sends it. -/
structure Filled where
  copies : List NameCopy
  memory : Bytes
  /-- `sizeof` of the message -/
  size : Nat

def Filled.sent (filled : Filled) : List UInt8 := load filled.memory 0 filled.size

/-! ## The functions -/

/-- `msg_version`, and `servercomm_msg_header_init_v1` with what it puts into the header. -/
def servercommMsgHeaderInitV1 (memory : Bytes) (header : ServerMsgHeaderV1) : Bytes :=
  store (store memory 0 (uint16.pack aleakdMsgVersion)) 2 (ServerMsgHeaderV1.layout.pack header)

def servercommMsgThreadInitV1 (memory : Bytes) (header : ServerMsgHeaderV1) : Bytes :=
  let memory := servercommMsgHeaderInitV1 memory header
  let memory := store memory 31 (uint64.pack 0)
  store memory 39 (List.replicate 24 0)

def servercommMsgSymbolinfosInitV1 (memory : Bytes) (header : ServerMsgHeaderV1) : Bytes :=
  let memory := servercommMsgHeaderInitV1 memory header
  let memory := store memory 30 [MsgCode.symbolinfos.byte]
  let memory := store memory 295 (uint64.pack 0)
  let memory := store memory 39 (List.replicate 256 0)
  let memory := store memory 399 (uint64.pack 0)
  store memory 303 (List.replicate 96 0)

/-- What `memcpy` copies of a name of `dladdr`; `iLen` is an `int`. -/
def copied : Option CString → List UInt8
  | none => []
  | some name =>
    let len := (Int32.ofNat name.val.length).toInt
    if 0 < len then name.val.take len.toNat else []

/-- The symbol message of `backtrace_send`, with what `backtrace_get_infos` gives. -/
def backtraceSend (addr : UInt64) (fname : Option CString) (fbase : UInt64) (sfname : Option CString) (saddr : UInt64)
    (memory : Bytes) (header : ServerMsgHeaderV1) : Filled :=
  let memory := servercommMsgSymbolinfosInitV1 memory header
  let memory := store memory 31 (uint64.pack addr)
  let objectName : NameCopy := ⟨39, 256, memory, copied fname⟩
  let memory := store objectName.after 295 (uint64.pack fbase)
  let symbolName : NameCopy := ⟨303, 96, memory, copied sfname⟩
  let memory := store symbolName.after 399 (uint64.pack saddr)
  ⟨[objectName, symbolName], memory, 407⟩

/-- The message of a new thread name. -/
def setThreadName (threadId : UInt64) (name : CString) (memory : Bytes) (header : ServerMsgHeaderV1) : Filled :=
  let memory := servercommMsgThreadInitV1 memory header
  let memory := store memory 30 [MsgCode.pthreadSetName.byte]
  let memory := store memory 31 (uint64.pack threadId)
  let threadName : NameCopy := ⟨39, 24, memory, name.val.take (min name.val.length 24)⟩
  ⟨[threadName], threadName.after, 63⟩

/-- Where a name is copied into a message. -/
inductive Sender where
  | backtraceSend (addr : UInt64) (fname : Option CString) (fbase : UInt64) (sfname : Option CString) (saddr : UInt64)
  | pthreadSetnameNp (thread : UInt64) (name : CString)
  | prctl (name : CString)

def Sender.fill : Sender → Bytes → ServerMsgHeaderV1 → Filled
  | .backtraceSend addr fname fbase sfname saddr, memory, header =>
    NameFields.backtraceSend addr fname fbase sfname saddr memory header
  | .pthreadSetnameNp thread name, memory, header => setThreadName thread name memory header
  | .prctl name, memory, header => setThreadName header.threadId name memory header

/-- The other fields of a thread message, where they are and what is assigned to them. -/
def threadAssigned (header : ServerMsgHeaderV1) (threadId : UInt64) : List (Nat × List UInt8) :=
  [(0, uint16.pack aleakdMsgVersion),
    (2, ServerMsgHeaderV1.layout.pack { header with msgCode := MsgCode.pthreadSetName.byte }),
    (31, uint64.pack threadId)]

def Sender.assigned (header : ServerMsgHeaderV1) : Sender → List (Nat × List UInt8)
  | .backtraceSend addr _ fbase _ saddr =>
    [(0, uint16.pack aleakdMsgVersion),
      (2, ServerMsgHeaderV1.layout.pack { header with msgCode := MsgCode.symbolinfos.byte }),
      (31, uint64.pack addr), (295, uint64.pack fbase), (399, uint64.pack saddr)]
  | .pthreadSetnameNp thread _ => threadAssigned header thread
  | .prctl _ => threadAssigned header header.threadId

/-- The name, or none. -/
def nameOf (name : Option CString) : List UInt8 := name.elim [] Subtype.val

/-- What the server is to make of a new thread name, as long as it fits. -/
def renamed (header : ServerMsgHeaderV1) (threadId : UInt64) (name : CString) : Callback :=
  .threadOperation {
    tvOperation := ⟨header.timeSec.toInt64, header.timeUsec.toInt64⟩
    msgNum := header.msgNum
    msgCode := .pthreadSetName
    callerThreadId := header.threadId
    threadId
    threadName := name.val.take 23 }

def Sender.decoded (header : ServerMsgHeaderV1) : Sender → Callback
  | .backtraceSend addr fname fbase sfname saddr => .symbolInfos {
      addr
      objectName := (nameOf fname).take 255
      objectAddr := fbase
      symbolName := (nameOf sfname).take 95
      symbolAddr := saddr }
  | .pthreadSetnameNp thread name => renamed header thread name
  | .prctl name => renamed header header.threadId name

/-- The names are encoded within their fields. -/
structure Encoded (sender : Sender) (memory : Bytes) (header : ServerMsgHeaderV1) : Prop where
  inside : ∀ copy ∈ (sender.fill memory header).copies, ∀ i, i < copy.start ∨ copy.start + copy.size ≤ i →
    copy.after i = copy.before i
  terminated : ∀ copy ∈ (sender.fill memory header).copies, 0 ∈ load copy.after copy.start copy.size
  assigned : ∀ field ∈ sender.assigned header, load (sender.fill memory header).memory field.1 field.2.length = field.2
  decoded : ∀ rest, doProcessMsg ((sender.fill memory header).sent ++ rest) =
    some ([sender.decoded header], ((sender.fill memory header).size : Int))

/-- A name that `backtrace_send` copies is shorter than its field, as the `int` that its length
    is taken for; a name that is longer looks as if it just fitted. -/
def NameFits (most : Nat) : Option CString → Prop
  | none => True
  | some name => name.val.length % 2 ^ 32 = min name.val.length most

/-- The names fit. -/
def Sender.Fits : Sender → Prop
  | .backtraceSend _ fname _ sfname _ => NameFits 255 fname ∧ NameFits 95 sfname
  | .pthreadSetnameNp _ name => name.val.length < 24
  | .prctl name => name.val.length < 24

/-! ## The copies -/

theorem copied_nonzero (name : Option CString) : 0 ∉ copied name := by
  cases name with
  | none => exact List.not_mem_nil
  | some name =>
    rw [copied]
    split
    · exact fun member => name.property (List.mem_of_mem_take member)
    · exact List.not_mem_nil

/-- All of the name is copied that fits, exactly when its length as an `int` is that. -/
theorem copied_iff {most : Nat} (positive : 0 < most) (small : most < 2 ^ 31) (name : Option CString) :
    copied name = (nameOf name).take most ↔ NameFits most name := by
  cases name with
  | none => exact iff_of_true List.take_nil.symm trivial
  | some name =>
    have len : (Int32.ofNat name.val.length).toInt =
        if name.val.length % 2 ^ 32 < 2 ^ 31 then ((name.val.length % 2 ^ 32 : Nat) : Int)
        else (name.val.length % 2 ^ 32 : Nat) - 2 ^ 32 := by
      rw [Int32.toInt_ofNat', Int.bmod_def, Int32.size]
      split <;> split <;> omega
    have front : copied (some name) =
        name.val.take (if name.val.length % 2 ^ 32 < 2 ^ 31 then name.val.length % 2 ^ 32 else 0) := by
      rw [copied, len]
      by_cases wraps : name.val.length % 2 ^ 32 < 2 ^ 31
      · rw [if_pos wraps, if_pos wraps, Int.toNat_natCast]
        by_cases none : name.val.length % 2 ^ 32 = 0
        · rw [none]
          rfl
        · rw [if_pos (by omega)]
      · rw [if_neg wraps, if_neg wraps, if_neg (by omega), List.take_zero]
    have length : nameOf (some name) = name.val := rfl
    rw [front, length, NameFits, List.take_eq_take_iff]
    split <;> omega

/-- A field is only terminated when fewer bytes are copied than it has. -/
theorem copy_short {copy : NameCopy} (nonzero : 0 ∉ copy.copied) (terminated : 0 ∈ load copy.after copy.start copy.size) :
    copy.copied.length < copy.size := by
  by_contra long
  obtain ⟨k, inside, zero⟩ := mem_load.mp terminated
  have within : k < copy.copied.length := by omega
  rw [NameCopy.after, store_inside copy.before copy.start within] at zero
  exact nonzero (zero ▸ List.getElem_mem within)

/-- And then nothing else is changed. -/
theorem copy_inside {copy : NameCopy} (short : copy.copied.length < copy.size) (i : Nat)
    (outside : i < copy.start ∨ copy.start + copy.size ≤ i) : copy.after i = copy.before i :=
  store_outside copy.before (by omega)

/-! ## The message as it is sent -/

theorem congr_append {first second first' second' : List UInt8} (same : first = first') (same' : second = second') :
    first ++ second = first' ++ second' := by
  rw [same, same']

theorem header_load {memory : Bytes} {header : ServerMsgHeaderV1} {code : UInt8}
    (front : load memory 2 28 = (ServerMsgHeaderV1.layout.pack header).take 28) (last : load memory 30 1 = [code]) :
    load memory 2 29 = ServerMsgHeaderV1.layout.pack { header with msgCode := code } := by
  have split : ∀ h : ServerMsgHeaderV1, ServerMsgHeaderV1.layout.pack h =
      (uint64.pack h.timeSec ++ uint64.pack h.timeUsec ++ uint64.pack h.threadId ++ uint32.pack h.msgNum) ++
        [h.msgCode] := by
    intro h
    simp only [List.append_assoc]
    rfl
  have length : (uint64.pack header.timeSec ++ uint64.pack header.timeUsec ++ uint64.pack header.threadId ++
      uint32.pack header.msgNum).length = 28 := by
    simp only [List.length_append, Layout.length_pack]
    rfl
  have whole : load memory 2 29 = load memory 2 28 ++ load memory 30 1 := load_append memory 2 28 1
  rw [whole, front, last, split header, split { header with msgCode := code }, List.take_left' length]

theorem uint64_length (x : UInt64) : (uint64.pack x).length = 8 := uint64.length_pack x

/-- The version and the header as they are filled first, but for the code. -/
theorem headerInit_loads (memory : Bytes) (header : ServerMsgHeaderV1) :
    load (servercommMsgHeaderInitV1 memory header) 0 2 = uint16.pack aleakdMsgVersion ∧
      load (servercommMsgHeaderInitV1 memory header) 2 28 = (ServerMsgHeaderV1.layout.pack header).take 28 := by
  have size : (ServerMsgHeaderV1.layout.pack header).length = 29 := ServerMsgHeaderV1.layout.length_pack _
  refine ⟨?_, load_store_within _ 2 (by omega : 0 + 28 ≤ (ServerMsgHeaderV1.layout.pack header).length)⟩
  have before : 0 + 2 ≤ 2 := by decide
  exact (load_store_apart _ (.inl before)).trans (load_store_same memory 0 (uint16.length_pack _))

section SymbolInfos
variable (addr fbase saddr : UInt64) {fname sfname : Option CString}

theorem backtraceSend_loads (memory : Bytes) (header : ServerMsgHeaderV1) (object : (copied fname).length < 256)
    (symbol : (copied sfname).length < 96) :
    (∀ field ∈ (Sender.backtraceSend addr fname fbase sfname saddr).assigned header,
        load (backtraceSend addr fname fbase sfname saddr memory header).memory field.1 field.2.length = field.2) ∧
      load (backtraceSend addr fname fbase sfname saddr memory header).memory 39 256 =
        copied fname ++ List.replicate (256 - (copied fname).length) 0 ∧
      load (backtraceSend addr fname fbase sfname saddr memory header).memory 303 96 =
        copied sfname ++ List.replicate (96 - (copied sfname).length) 0 := by
  obtain ⟨version, front⟩ := headerInit_loads memory header
  have lengthAddr := uint64_length addr
  have lengthBase := uint64_length fbase
  have lengthSaddr := uint64_length saddr
  have lengthZero := uint64_length 0
  have lengthObject : (List.replicate 256 (0 : UInt8)).length = 256 := List.length_replicate
  have lengthSymbol : (List.replicate 96 (0 : UInt8)).length = 96 := List.length_replicate
  have lengthCode : [MsgCode.symbolinfos.byte].length = 1 := rfl
  simp only [backtraceSend, servercommMsgSymbolinfosInitV1, NameCopy.after, Sender.assigned,
    List.forall_mem_cons]
  refine ⟨⟨?_, ?_, ?_, ?_, ?_, ?_⟩, ?_, ?_⟩
  · show load _ 0 2 = _
    simp (disch := omega) only [load_store_apart]
    exact version
  · rw [ServerMsgHeaderV1.layout.length_pack]
    refine header_load ?_ ?_
    · simp (disch := omega) only [load_store_apart]
      exact front
    · simp (disch := omega) only [load_store_apart, load_store_same]
  · rw [lengthAddr]
    simp (disch := omega) only [load_store_apart, load_store_same]
  · rw [lengthBase]
    simp (disch := omega) only [load_store_apart, load_store_same]
  · rw [lengthSaddr]
    simp (disch := omega) only [load_store_same]
  · intro field none
    cases none
  · simp (disch := omega) only [load_store_apart]
    refine load_store_front 0 ?_ object.le
    simp (disch := omega) only [load_store_apart, load_store_same]
  · simp (disch := omega) only [load_store_apart]
    refine load_store_front 0 ?_ symbol.le
    simp (disch := omega) only [load_store_apart, load_store_same]

/-- A field of so many bytes, with a name in front. -/
def padded (n : Nat) (name : List UInt8) (fits : name.length ≤ n) : List.Vector UInt8 n :=
  ⟨name ++ List.replicate (n - name.length) 0, by
    rw [List.length_append, List.length_replicate]
    omega⟩

theorem padded_zero {n : Nat} {name : List UInt8} (short : name.length < n) : 0 ∈ (padded n name short.le).val :=
  List.mem_append_right _ (List.mem_replicate.mpr ⟨by omega, rfl⟩)

/-- It is the symbol message with the names in the fields. -/
theorem backtraceSend_sent (memory : Bytes) (header : ServerMsgHeaderV1) (object : (copied fname).length < 256)
    (symbol : (copied sfname).length < 96) :
    (backtraceSend addr fname fbase sfname saddr memory header).sent =
      (Message.symbolInfos { header with msgCode := MsgCode.symbolinfos.byte }
        ⟨addr, padded 256 (copied fname) object.le, fbase, padded 96 (copied sfname) symbol.le, saddr⟩).encode := by
  obtain ⟨assigned, objectName, symbolName⟩ := backtraceSend_loads addr fbase saddr memory header object symbol
  simp only [Sender.assigned, List.forall_mem_cons, Layout.length_pack] at assigned
  obtain ⟨version, headed, first, base, last, _⟩ := assigned
  have fields : (backtraceSend addr fname fbase sfname saddr memory header).sent =
      load (backtraceSend addr fname fbase sfname saddr memory header).memory 0
        (2 + (29 + (8 + (256 + (8 + (96 + 8)))))) := rfl
  rw [fields, load_append, load_append, load_append, load_append, load_append, load_append, encode_eq, Message.body]
  refine congr_append version (congr_append headed ?_)
  refine congr_append first (congr_append ?_ (congr_append base (congr_append ?_ last)))
  · rw [array_uint8_pack]
    exact objectName
  · rw [array_uint8_pack]
    exact symbolName

/-- The server makes of it what was copied of the names. -/
theorem backtraceSend_handled (memory : Bytes) (header : ServerMsgHeaderV1) (object : (copied fname).length < 256)
    (symbol : (copied sfname).length < 96) (rest : List UInt8) :
    doProcessMsg ((backtraceSend addr fname fbase sfname saddr memory header).sent ++ rest) =
      some ([.symbolInfos ⟨addr, copied fname, fbase, copied sfname, saddr⟩], (407 : Int)) := by
  have handled := doProcessMsg_handles ⟨.symbolInfos { header with msgCode := MsgCode.symbolinfos.byte }
    ⟨addr, padded 256 (copied fname) object.le, fbase, padded 96 (copied sfname) symbol.le, saddr⟩,
    rfl, padded_zero object, padded_zero symbol⟩ rest (Nat.le_add_right _ _)
  rw [backtraceSend_sent addr fbase saddr memory header object symbol, handled]
  simp only [handlerCall, padded, takeWhile_padded (copied_nonzero _)]
  rfl

end SymbolInfos

/-! ### The thread message -/

theorem setThreadName_loads (threadId : UInt64) (name : CString) (memory : Bytes) (header : ServerMsgHeaderV1) :
    (∀ field ∈ threadAssigned header threadId,
        load (setThreadName threadId name memory header).memory field.1 field.2.length = field.2) ∧
      load (setThreadName threadId name memory header).memory 39 24 =
        (copyThreadName (List.Vector.replicate 24 0) name).val := by
  obtain ⟨version, front⟩ := headerInit_loads memory header
  have lengthId := uint64_length threadId
  have lengthZero := uint64_length 0
  have lengthField : (List.replicate 24 (0 : UInt8)).length = 24 := List.length_replicate
  have lengthCode : [MsgCode.pthreadSetName.byte].length = 1 := rfl
  have lengthName : (name.val.take (min name.val.length 24)).length = min name.val.length 24 := by
    rw [List.length_take]
    omega
  simp only [setThreadName, servercommMsgThreadInitV1, NameCopy.after, threadAssigned,
    List.forall_mem_cons]
  refine ⟨⟨?_, ?_, ?_, ?_⟩, ?_⟩
  · show load _ 0 2 = _
    simp (disch := omega) only [load_store_apart]
    exact version
  · rw [ServerMsgHeaderV1.layout.length_pack]
    refine header_load ?_ ?_
    · simp (disch := omega) only [load_store_apart]
      exact front
    · simp (disch := omega) only [load_store_apart, load_store_same]
  · rw [lengthId]
    simp (disch := omega) only [load_store_apart, load_store_same]
  · intro field none
    cases none
  · refine (load_store_front 0 ?_ ?_).trans ?_
    · simp (disch := omega) only [load_store_apart, load_store_same]
    · omega
    · show _ = name.val.take _ ++ List.drop _ (List.replicate 24 0)
      rw [List.drop_replicate, lengthName]

/-- It is the message that the record of it stands for, whatever the name. -/
theorem setThreadName_sent (threadId : UInt64) (name : CString) (memory : Bytes) (header : ServerMsgHeaderV1) :
    (setThreadName threadId name memory header).sent =
      (Message.thread { header with msgCode := MsgCode.pthreadSetName.byte }
        ⟨threadId, copyThreadName (List.Vector.replicate 24 0) name⟩).encode := by
  obtain ⟨assigned, threadName⟩ := setThreadName_loads threadId name memory header
  simp only [threadAssigned, List.forall_mem_cons, Layout.length_pack] at assigned
  obtain ⟨version, headed, id_, _⟩ := assigned
  have fields : (setThreadName threadId name memory header).sent =
      load (setThreadName threadId name memory header).memory 0 (2 + (29 + (8 + 24))) := rfl
  rw [fields, load_append, load_append, load_append, encode_eq, Message.body]
  refine congr_append version (congr_append headed (congr_append id_ ?_))
  rw [array_uint8_pack]
  exact threadName

theorem setThreadName_handled (threadId : UInt64) {name : CString} (short : name.val.length < 24) (memory : Bytes)
    (header : ServerMsgHeaderV1) (rest : List UInt8) :
    doProcessMsg ((setThreadName threadId name memory header).sent ++ rest) =
      some ([renamed header threadId name], (63 : Int)) := by
  have ends : cString (copyThreadName (List.Vector.replicate 24 0) name).val = some name.val := by
    rw [cString_copyThreadName, if_pos short]
  have zero : 0 ∈ (copyThreadName (List.Vector.replicate 24 0) name).val := by
    by_contra none
    rw [cString, if_neg none] at ends
    cases ends
  have known : MsgCode.pthreadSetName.byte ∈ [MsgCode.pthreadCreate, MsgCode.pthreadSetName].map MsgCode.byte := by
    decide
  have handled := doProcessMsg_handles ⟨.thread { header with msgCode := MsgCode.pthreadSetName.byte }
    ⟨threadId, copyThreadName (List.Vector.replicate 24 0) name⟩, known, zero⟩ rest (Nat.le_add_right _ _)
  rw [cString_some zero] at ends
  have all : name.val.take 23 = name.val := List.take_of_length_le (by omega)
  have code : MsgCode.ofByte MsgCode.pthreadSetName.byte = .pthreadSetName := by decide
  rw [setThreadName_sent, handled]
  simp only [handlerCall, Option.some.inj ends, code, renamed, all]
  rfl

/-! ## All of them -/

/-- Nothing is stored into a name field behind its copy. -/
theorem copies_sent (sender : Sender) (memory : Bytes) (header : ServerMsgHeaderV1) :
    ∀ copy ∈ (sender.fill memory header).copies,
      load (sender.fill memory header).memory copy.start copy.size = load copy.after copy.start copy.size := by
  have thread : ∀ threadId name, ∀ copy ∈ (setThreadName threadId name memory header).copies,
      load (setThreadName threadId name memory header).memory copy.start copy.size =
        load copy.after copy.start copy.size := by
    intro threadId name copy member
    rw [List.mem_singleton.mp member]
    rfl
  cases sender with
  | backtraceSend addr fname fbase sfname saddr =>
    have lengthBase := uint64_length fbase
    have lengthSaddr := uint64_length saddr
    simp only [Sender.fill, backtraceSend, List.forall_mem_cons]
    refine ⟨?_, ?_, fun copy none => ?_⟩
    · simp (disch := omega) only [NameCopy.after, load_store_apart]
    · simp (disch := omega) only [NameCopy.after, load_store_apart]
    · cases none
  | pthreadSetnameNp thread' name => exact thread thread' name
  | prctl name => exact thread header.threadId name

/-- A new thread name is encoded within its field exactly when it is shorter. -/
theorem setThreadName_encoded_iff {sender : Sender} {threadId : UInt64} {name : CString} {memory : Bytes}
    {header : ServerMsgHeaderV1} (fill : sender.fill memory header = setThreadName threadId name memory header)
    (assigned : sender.assigned header = threadAssigned header threadId)
    (decoded : sender.decoded header = renamed header threadId name) :
    Encoded sender memory header ↔ name.val.length < 24 := by
  obtain ⟨fields, threadName⟩ := setThreadName_loads threadId name memory header
  have length : (name.val.take (min name.val.length 24)).length = min name.val.length 24 := by
    rw [List.length_take]
    omega
  constructor
  · intro encoded
    have terminated := encoded.terminated
    rw [fill] at terminated
    have short : (name.val.take (min name.val.length 24)).length < 24 :=
      copy_short (fun zero => name.property (List.mem_of_mem_take zero)) (terminated _ List.mem_cons_self)
    omega
  · intro short
    refine ⟨?_, ?_, ?_, ?_⟩
    · rw [fill]
      intro copy member
      rw [List.mem_singleton.mp member]
      exact copy_inside (show _ < 24 by rw [length]; omega)
    · intro copy member
      rw [← copies_sent sender memory header copy member]
      rw [fill] at member ⊢
      rw [List.mem_singleton.mp member]
      have ends := cString_copyThreadName name
      rw [if_pos short] at ends
      by_contra none
      rw [cString, if_neg (threadName ▸ none)] at ends
      cases ends
    · rw [fill, assigned]
      exact fields
    · intro rest
      rw [fill, decoded]
      exact setThreadName_handled threadId short memory header rest

/-- Fewer bytes are copied than the fields have. -/
theorem encoded_short {addr fbase saddr : UInt64} {fname sfname : Option CString} {memory : Bytes}
    {header : ServerMsgHeaderV1} (encoded : Encoded (.backtraceSend addr fname fbase sfname saddr) memory header) :
    (copied fname).length < 256 ∧ (copied sfname).length < 96 :=
  ⟨copy_short (copied_nonzero fname) (encoded.terminated _ List.mem_cons_self),
    copy_short (copied_nonzero sfname) (encoded.terminated _ (List.mem_cons_of_mem _ List.mem_cons_self))⟩

theorem backtraceSend_encoded_iff (addr fbase saddr : UInt64) (fname sfname : Option CString) (memory : Bytes)
    (header : ServerMsgHeaderV1) :
    Encoded (.backtraceSend addr fname fbase sfname saddr) memory header ↔ NameFits 255 fname ∧ NameFits 95 sfname := by
  rw [← copied_iff (by decide) (by decide) fname, ← copied_iff (by decide) (by decide) sfname]
  constructor
  · intro encoded
    obtain ⟨object, symbol⟩ := encoded_short encoded
    have handled := backtraceSend_handled addr fbase saddr memory header object symbol []
    have decoded := encoded.decoded []
    rw [Sender.fill, handled] at decoded
    simp only [Sender.decoded, Option.some.injEq, Prod.mk.injEq, List.cons.injEq, Callback.symbolInfos.injEq,
      SymbolInfos.mk.injEq] at decoded
    exact ⟨decoded.1.1.2.1, decoded.1.1.2.2.2.1⟩
  · rintro ⟨objectName, symbolName⟩
    have object : (copied fname).length < 256 := by
      rw [objectName, List.length_take]
      omega
    have symbol : (copied sfname).length < 96 := by
      rw [symbolName, List.length_take]
      omega
    obtain ⟨fields, objectField, symbolField⟩ := backtraceSend_loads addr fbase saddr memory header object symbol
    have copies := copies_sent (.backtraceSend addr fname fbase sfname saddr) memory header
    refine ⟨?_, ?_, fields, fun rest => ?_⟩
    · refine List.forall_mem_cons.mpr ⟨copy_inside object, List.forall_mem_cons.mpr ⟨copy_inside symbol, ?_⟩⟩
      exact fun copy none => absurd none List.not_mem_nil
    · intro copy member
      rw [← copies copy member]
      revert copy
      refine List.forall_mem_cons.mpr ⟨?_, List.forall_mem_cons.mpr ⟨?_, fun copy none => absurd none List.not_mem_nil⟩⟩
      · exact (congrArg (0 ∈ ·) objectField).mpr (padded_zero object)
      · exact (congrArg (0 ∈ ·) symbolField).mpr (padded_zero symbol)
    · rw [Sender.decoded, ← objectName, ← symbolName]
      exact backtraceSend_handled addr fbase saddr memory header object symbol rest

/-- The names are encoded within their fields, and nothing else is touched, exactly when they
    fit. -/
theorem encoded_iff (sender : Sender) (memory : Bytes) (header : ServerMsgHeaderV1) :
    Encoded sender memory header ↔ sender.Fits := by
  cases sender with
  | backtraceSend addr fname fbase sfname saddr => exact backtraceSend_encoded_iff addr fbase saddr fname sfname memory header
  | pthreadSetnameNp thread name => exact setThreadName_encoded_iff rfl rfl rfl
  | prctl name => exact setThreadName_encoded_iff rfl rfl rfl

/-- A mangled symbol name of 120 bytes. -/
def mangled : CString := ⟨List.replicate 120 90, fun member => absurd (List.eq_of_mem_replicate member) (by decide)⟩

/-- It is copied whole, and the field of 96 bytes holds no NUL. -/
theorem long_symbol_overruns : ¬ ∀ (sender : Sender) (memory : Bytes) (header : ServerMsgHeaderV1),
    Encoded sender memory header := by
  intro claim
  have encoded := claim (.backtraceSend 1 none 2 (some mangled) 3) (fun _ => 0) ⟨0, 0, 0, 0, 0⟩
  have short := (encoded_short encoded).2
  have long : (copied (some mangled)).length = 120 := by decide +kernel
  omega

/-! ## The records of the messages -/

/-- What `pthread_setname_np` sends are the bytes of its record. -/
theorem pthreadSetnameNp_record {res : Int32} {thread : UInt64} {name : CString} {c after : Counters} {moment : Moment}
    {message : ServerMsgHeaderV1 × ServerMsgThreadDataV1} (memory : Bytes)
    (sends : Wrapper.pthreadSetnameNp res thread name c moment = (after, some message)) :
    ((Sender.pthreadSetnameNp thread name).fill memory (Wrapper.servercommMsgHeaderInitV1 c moment).2).sent =
      (Message.thread message.1 message.2).encode := by
  unfold Wrapper.pthreadSetnameNp at sends
  split at sends
  · cases sends
    exact setThreadName_sent ..
  · cases sends

theorem prctl_record {option res : Int32} {name : CString} {c after : Counters} {moment : Moment}
    {message : ServerMsgHeaderV1 × ServerMsgThreadDataV1} (memory : Bytes)
    (sends : Wrapper.prctl option res name c moment = (after, some message)) :
    ((Sender.prctl name).fill memory (Wrapper.servercommMsgHeaderInitV1 c moment).2).sent =
      (Message.thread message.1 message.2).encode := by
  unfold Wrapper.prctl at sends
  split at sends
  · cases sends
    exact setThreadName_sent ..
  · cases sends

end Aleakd.NameFields
