import Aleakd.Packed
import Aleakd.ServerComm

/-!
The message format that library and server share: the codes of
`shared/global-const.h` and the packed structures of `shared/server-msg.h`.
-/
namespace Aleakd.Messages
open Aleakd.Packed Aleakd.ServerComm

/-- `ALeakD_MsgCode`. The server also casts bytes to it that it does not name. -/
inductive MsgCode where
  | unknown
  | init
  | dispose
  | malloc
  | free
  | calloc
  | realloc
  | posixMemalign
  | alignedAlloc
  | memalign
  | valloc
  | pvalloc
  | pthreadCreate
  | pthreadSetName
  | backtrace
  | symbolinfos
  | other (byte : UInt8)
deriving DecidableEq

def MsgCode.byte : MsgCode → UInt8
  | .unknown => 0
  | .init => 1
  | .dispose => 2
  | .malloc => 11
  | .free => 12
  | .calloc => 13
  | .realloc => 14
  | .posixMemalign => 15
  | .alignedAlloc => 16
  | .memalign => 17
  | .valloc => 18
  | .pvalloc => 19
  | .pthreadCreate => 31
  | .pthreadSetName => 32
  | .backtrace => 41
  | .symbolinfos => 51
  | .other byte => byte

/-- The codes that the enumeration names. -/
def MsgCode.named : List MsgCode :=
  [.unknown, .init, .dispose, .malloc, .free, .calloc, .realloc, .posixMemalign, .alignedAlloc, .memalign, .valloc,
    .pvalloc, .pthreadCreate, .pthreadSetName, .backtrace, .symbolinfos]

/-- `(ALeakD_MsgCode) byte`. -/
def MsgCode.ofByte (byte : UInt8) : MsgCode :=
  (MsgCode.named.find? fun code => code.byte = byte).getD (.other byte)

/-- The codes of the nine allocation functions. -/
def MsgCode.memory : List MsgCode :=
  [.malloc, .free, .calloc, .realloc, .posixMemalign, .alignedAlloc, .memalign, .valloc, .pvalloc]

theorem MsgCode.ofByte_byte {code : MsgCode} (known : code ∈ MsgCode.named) : MsgCode.ofByte code.byte = code := by
  revert code
  decide

theorem MsgCode.byte_ofByte (byte : UInt8) : (MsgCode.ofByte byte).byte = byte := by
  unfold MsgCode.ofByte
  cases found : MsgCode.named.find? fun code => code.byte = byte with
  | none => rfl
  | some code => simpa using List.find?_some found

/-! ## The packed structures -/

/-- `ALEAKD_MSG_VERSION` -/
def aleakdMsgVersion : UInt16 := 1

/-- `BACKTRACE_MAX_SIZE` -/
def backtraceMaxSize : Nat := 50

structure ServerMsgHeaderV1 where
  timeSec : UInt64
  timeUsec : UInt64
  threadId : UInt64
  msgNum : UInt32
  msgCode : UInt8
deriving DecidableEq

structure ServerMsgMemoryDataV1 where
  allocSize : UInt64
  allocPtr : UInt64
  allocNum : UInt32
  freePtr : UInt64
deriving DecidableEq

structure ServerMsgThreadDataV1 where
  threadId : UInt64
  threadName : List.Vector UInt8 24

structure ServerMsgBacktraceDataV1 where
  originMsgNum : UInt32
  backtraceSize : UInt8
  listAddr : List.Vector UInt64 backtraceMaxSize

structure ServerMsgSymbolInfosDataV1 where
  addr : UInt64
  objectName : List.Vector UInt8 256
  objectAddr : UInt64
  symbolName : List.Vector UInt8 96
  symbolAddr : UInt64

def ServerMsgHeaderV1.layout : Layout ServerMsgHeaderV1 :=
  (uint64.pair (uint64.pair (uint64.pair (uint32.pair uint8)))).via
    (fun h => (h.timeSec, h.timeUsec, h.threadId, h.msgNum, h.msgCode))
    (fun (timeSec, timeUsec, threadId, msgNum, msgCode) => ⟨timeSec, timeUsec, threadId, msgNum, msgCode⟩)
    (fun _ => rfl)

def ServerMsgMemoryDataV1.layout : Layout ServerMsgMemoryDataV1 :=
  (uint64.pair (uint64.pair (uint32.pair uint64))).via
    (fun d => (d.allocSize, d.allocPtr, d.allocNum, d.freePtr))
    (fun (allocSize, allocPtr, allocNum, freePtr) => ⟨allocSize, allocPtr, allocNum, freePtr⟩)
    (fun _ => rfl)

def ServerMsgThreadDataV1.layout : Layout ServerMsgThreadDataV1 :=
  (uint64.pair (uint8.array 24)).via (fun d => (d.threadId, d.threadName))
    (fun (threadId, threadName) => ⟨threadId, threadName⟩) (fun _ => rfl)

def ServerMsgBacktraceDataV1.layout : Layout ServerMsgBacktraceDataV1 :=
  (uint32.pair (uint8.pair (uint64.array backtraceMaxSize))).via
    (fun d => (d.originMsgNum, d.backtraceSize, d.listAddr))
    (fun (originMsgNum, backtraceSize, listAddr) => ⟨originMsgNum, backtraceSize, listAddr⟩)
    (fun _ => rfl)

def ServerMsgSymbolInfosDataV1.layout : Layout ServerMsgSymbolInfosDataV1 :=
  (uint64.pair ((uint8.array 256).pair (uint64.pair ((uint8.array 96).pair uint64)))).via
    (fun d => (d.addr, d.objectName, d.objectAddr, d.symbolName, d.symbolAddr))
    (fun (addr, objectName, objectAddr, symbolName, symbolAddr) =>
      ⟨addr, objectName, objectAddr, symbolName, symbolAddr⟩)
    (fun _ => rfl)

/-- The structures `ServerMsg…V1`: the version, the header, then the data. -/
def serverMsgV1 {Data : Type} (data : Layout Data) : Layout (UInt16 × ServerMsgHeaderV1 × Data) :=
  uint16.pair (ServerMsgHeaderV1.layout.pair data)

def serverMsgAppV1 : Layout (UInt16 × ServerMsgHeaderV1) := uint16.pair ServerMsgHeaderV1.layout

@[simp] theorem ServerMsgHeaderV1.layout_size : ServerMsgHeaderV1.layout.size = 29 := rfl

@[simp] theorem ServerMsgMemoryDataV1.layout_size : ServerMsgMemoryDataV1.layout.size = 28 := rfl

@[simp] theorem ServerMsgThreadDataV1.layout_size : ServerMsgThreadDataV1.layout.size = 32 := by
  simp [ServerMsgThreadDataV1.layout, Layout.via, Layout.pair, uint8, uint64]

@[simp] theorem ServerMsgBacktraceDataV1.layout_size : ServerMsgBacktraceDataV1.layout.size = 405 := by
  simp [ServerMsgBacktraceDataV1.layout, Layout.via, Layout.pair, uint8, uint32, uint64, backtraceMaxSize]

@[simp] theorem ServerMsgSymbolInfosDataV1.layout_size : ServerMsgSymbolInfosDataV1.layout.size = 376 := by
  simp [ServerMsgSymbolInfosDataV1.layout, Layout.via, Layout.pair, uint8, uint64]

@[simp] theorem serverMsgV1_size {Data : Type} (data : Layout Data) : (serverMsgV1 data).size = 31 + data.size := by
  simp [serverMsgV1, Layout.pair, uint16]
  omega

@[simp] theorem serverMsgAppV1_size : serverMsgAppV1.size = 31 := rfl

theorem ServerMsgHeaderV1.layout_readsOwn : ServerMsgHeaderV1.layout.ReadsOwn :=
  Layout.via_readsOwn (Layout.pair_readsOwn uint64_readsOwn (Layout.pair_readsOwn uint64_readsOwn
    (Layout.pair_readsOwn uint64_readsOwn (Layout.pair_readsOwn uint32_readsOwn uint8_readsOwn)))) _ _ _

theorem ServerMsgMemoryDataV1.layout_readsOwn : ServerMsgMemoryDataV1.layout.ReadsOwn :=
  Layout.via_readsOwn (Layout.pair_readsOwn uint64_readsOwn (Layout.pair_readsOwn uint64_readsOwn
    (Layout.pair_readsOwn uint32_readsOwn uint64_readsOwn))) _ _ _

theorem ServerMsgThreadDataV1.layout_readsOwn : ServerMsgThreadDataV1.layout.ReadsOwn :=
  Layout.via_readsOwn (Layout.pair_readsOwn uint64_readsOwn (Layout.array_readsOwn uint8_readsOwn 24)) _ _ _

theorem ServerMsgBacktraceDataV1.layout_readsOwn : ServerMsgBacktraceDataV1.layout.ReadsOwn :=
  Layout.via_readsOwn (Layout.pair_readsOwn uint32_readsOwn
    (Layout.pair_readsOwn uint8_readsOwn (Layout.array_readsOwn uint64_readsOwn backtraceMaxSize))) _ _ _

theorem ServerMsgSymbolInfosDataV1.layout_readsOwn : ServerMsgSymbolInfosDataV1.layout.ReadsOwn :=
  Layout.via_readsOwn (Layout.pair_readsOwn uint64_readsOwn
    (Layout.pair_readsOwn (Layout.array_readsOwn uint8_readsOwn 256) (Layout.pair_readsOwn uint64_readsOwn
      (Layout.pair_readsOwn (Layout.array_readsOwn uint8_readsOwn 96) uint64_readsOwn)))) _ _ _

/-! ## Messages -/

inductive Message where
  | app (header : ServerMsgHeaderV1)
  | memory (header : ServerMsgHeaderV1) (data : ServerMsgMemoryDataV1)
  | thread (header : ServerMsgHeaderV1) (data : ServerMsgThreadDataV1)
  | backtrace (header : ServerMsgHeaderV1) (data : ServerMsgBacktraceDataV1)
  | symbolInfos (header : ServerMsgHeaderV1) (data : ServerMsgSymbolInfosDataV1)

/-- A memory message: its header and its data. -/
abbrev MemoryMessage := ServerMsgHeaderV1 × ServerMsgMemoryDataV1

def Message.header : Message → ServerMsgHeaderV1
  | .app header | .memory header _ | .thread header _ | .backtrace header _ | .symbolInfos header _ => header

/-- The bytes that the library sends for a message. -/
def Message.encode : Message → List UInt8
  | .app header => serverMsgAppV1.pack (aleakdMsgVersion, header)
  | .memory header data => (serverMsgV1 ServerMsgMemoryDataV1.layout).pack (aleakdMsgVersion, header, data)
  | .thread header data => (serverMsgV1 ServerMsgThreadDataV1.layout).pack (aleakdMsgVersion, header, data)
  | .backtrace header data => (serverMsgV1 ServerMsgBacktraceDataV1.layout).pack (aleakdMsgVersion, header, data)
  | .symbolInfos header data => (serverMsgV1 ServerMsgSymbolInfosDataV1.layout).pack (aleakdMsgVersion, header, data)

/-- The messages that the library builds: the code fits the structure, a name ends
    inside its field, and a backtrace has at most as many addresses as it has
    room for. -/
def Message.Built : Message → Prop
  | .app header => header.msgCode = MsgCode.init.byte
  | .memory header _ => header.msgCode ∈ MsgCode.memory.map MsgCode.byte
  | .thread header data =>
    header.msgCode ∈ [MsgCode.pthreadCreate, MsgCode.pthreadSetName].map MsgCode.byte ∧ 0 ∈ data.threadName.val
  | .backtrace header data => header.msgCode = MsgCode.backtrace.byte ∧ data.backtraceSize.toNat ≤ backtraceMaxSize
  | .symbolInfos header data =>
    header.msgCode = MsgCode.symbolinfos.byte ∧ 0 ∈ data.objectName.val ∧ 0 ∈ data.symbolName.val

instance Message.Built.decidable : (m : Message) → Decidable m.Built
  | .app header => inferInstanceAs (Decidable (header.msgCode = MsgCode.init.byte))
  | .memory header _ => inferInstanceAs (Decidable (header.msgCode ∈ MsgCode.memory.map MsgCode.byte))
  | .thread header data => inferInstanceAs (Decidable
      (header.msgCode ∈ [MsgCode.pthreadCreate, MsgCode.pthreadSetName].map MsgCode.byte ∧ 0 ∈ data.threadName.val))
  | .backtrace header data => inferInstanceAs (Decidable
      (header.msgCode = MsgCode.backtrace.byte ∧ data.backtraceSize.toNat ≤ backtraceMaxSize))
  | .symbolInfos header data => inferInstanceAs (Decidable
      (header.msgCode = MsgCode.symbolinfos.byte ∧ 0 ∈ data.objectName.val ∧ 0 ∈ data.symbolName.val))

/-- A message as the library builds it. -/
structure LibraryMessage where
  message : Message
  built : message.Built

def Message.size : Message → Nat
  | .app _ => 31
  | .memory _ _ => 59
  | .thread _ _ => 63
  | .backtrace _ _ => 436
  | .symbolInfos _ _ => 407

@[simp] theorem Message.encode_length (m : Message) : m.encode.length = m.size := by
  cases m <;> simp [Message.encode, Message.size]

theorem Message.size_pos (m : Message) : 0 < m.size := by
  cases m <;> simp [Message.size]

/-- A message, as a packet of the transport. -/
def Message.packet (m : Message) : Packet where
  bytes := m.encode
  sized := by cases m <;> simp [Message.size, messageSizes]

/-- The bytes of a sequence of messages. -/
def encodeAll (messages : List LibraryMessage) : List UInt8 := messages.flatMap fun m => m.message.encode

@[simp] theorem encodeAll_nil : encodeAll [] = [] := rfl

@[simp] theorem encodeAll_cons (m : LibraryMessage) (rest : List LibraryMessage) :
    encodeAll (m :: rest) = m.message.encode ++ encodeAll rest := rfl

@[simp] theorem encodeAll_append (first second : List LibraryMessage) :
    encodeAll (first ++ second) = encodeAll first ++ encodeAll second := by
  simp [encodeAll]

/-- What the transport puts on the wire for a sequence of messages. -/
theorem encodeAll_eq_concat (messages : List LibraryMessage) :
    encodeAll messages = concat (messages.map fun m => m.message.packet) := by
  induction messages with
  | nil => rfl
  | cons m rest ih => simp [ih, Message.packet]

end Aleakd.Messages
