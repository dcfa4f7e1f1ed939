import Aleakd.Messages

/-!
What the server decodes from the messages and hands to its handler: the objects
of `server/Model`, as they are when the handler receives them. A name is kept as
the bytes of the C string that the `QString` is made from.
-/
namespace Aleakd.Operations
open Aleakd.Messages

structure Timeval where
  tvSec : Int64
  tvUsec : Int64
deriving DecidableEq

structure Backtrace where
  originMsgNum : Int32
  listAddr : List UInt64
deriving DecidableEq

structure MemoryOperation where
  tvOperation : Timeval
  msgNum : UInt32
  msgCode : MsgCode
  callerThreadId : UInt64
  allocSize : UInt64
  allocPtr : UInt64
  allocNum : UInt32
  freePtr : UInt64
  freed : Bool
  backTrace : Option Backtrace
deriving DecidableEq

structure ThreadOperation where
  tvOperation : Timeval
  msgNum : UInt32
  msgCode : MsgCode
  callerThreadId : UInt64
  threadId : UInt64
  threadName : List UInt8
deriving DecidableEq

structure SymbolInfos where
  addr : UInt64
  objectName : List UInt8
  objectAddr : UInt64
  symbolName : List UInt8
  symbolAddr : UInt64
deriving DecidableEq

/-- One call of `IMemOpRcptServerHandler`. -/
inductive Callback where
  | newConnection
  | memoryOperation (operation : MemoryOperation)
  | threadOperation (operation : ThreadOperation)
  | backtrace (backtrace : Backtrace)
  | symbolInfos (symbolInfos : SymbolInfos)
deriving DecidableEq

/-- `tv_sec` and `tv_usec` from the unsigned fields of a header. -/
def ServerMsgHeaderV1.tvOperation (header : ServerMsgHeaderV1) : Timeval :=
  ⟨header.timeSec.toInt64, header.timeUsec.toInt64⟩

/-- `MemoryOperation::MemoryOperation` and the assignments of `doProcessMsgV1`. -/
def memoryOperation (header : ServerMsgHeaderV1) (data : ServerMsgMemoryDataV1) : MemoryOperation where
  tvOperation := ServerMsgHeaderV1.tvOperation header
  msgNum := header.msgNum
  msgCode := MsgCode.ofByte header.msgCode
  callerThreadId := header.threadId
  allocSize := data.allocSize
  allocPtr := data.allocPtr
  allocNum := data.allocNum
  freePtr := data.freePtr
  freed := false
  backTrace := none

/-- The C string at the start of a field; `none` when the field holds no NUL, so
    that reading it goes past its end. -/
def cString (field : List UInt8) : Option (List UInt8) :=
  if 0 ∈ field then some (field.takeWhile (· ≠ 0)) else none

/-- A name in a field is followed by NULs, which are not part of it. -/
theorem takeWhile_padded {name : List UInt8} (nonzero : 0 ∉ name) (k : Nat) :
    (name ++ List.replicate k 0).takeWhile (· ≠ 0) = name := by
  rw [List.takeWhile_append_of_pos]
  · cases k <;> simp [List.replicate_succ]
  · exact fun byte member => decide_eq_true fun zero => nonzero (zero ▸ member)

def threadOperation (header : ServerMsgHeaderV1) (data : ServerMsgThreadDataV1) : Option ThreadOperation := do
  return {
    tvOperation := ServerMsgHeaderV1.tvOperation header
    msgNum := header.msgNum
    msgCode := MsgCode.ofByte header.msgCode
    callerThreadId := header.threadId
    threadId := data.threadId
    threadName := ← cString data.threadName.val }

/-- `none` when the size is beyond the array, so that the loop reads past its end. -/
def backtrace (data : ServerMsgBacktraceDataV1) : Option Backtrace :=
  if data.backtraceSize.toNat ≤ backtraceMaxSize then
    some ⟨data.originMsgNum.toInt32, data.listAddr.val.take data.backtraceSize.toNat⟩
  else none

def symbolInfos (data : ServerMsgSymbolInfosDataV1) : Option SymbolInfos := do
  return {
    addr := data.addr
    objectAddr := data.objectAddr
    objectName := ← cString data.objectName.val
    symbolAddr := data.symbolAddr
    symbolName := ← cString data.symbolName.val }

end Aleakd.Operations
