import Aleakd.Messages

/-!
The functions of `lib/wrapper.c` after initialisation: the memory message that each
allocation function sends, from its arguments and from what the real function
returned, and the messages of the thread functions and of a backtrace.
-/
namespace Aleakd.Wrapper
open Aleakd.Messages

/-- What a header is made from: the clock and the calling thread. -/
structure Moment where
  timeSec : UInt64
  timeUsec : UInt64
  threadId : UInt64
deriving DecidableEq

/-- `g_iMsgNum` and `g_iAllocNumber`. -/
structure Counters where
  msgNum : UInt32
  allocNumber : UInt64
deriving DecidableEq

def aleakdDataIncrAllocNumber (c : Counters) : Counters := { c with allocNumber := c.allocNumber + 1 }

/-- The number as the wrappers keep it, in an `int`, and put it into a message. -/
def aleakdDataGetAllocNumber (c : Counters) : UInt32 := c.allocNumber.toUInt32

def servercommMsgHeaderInitV1 (c : Counters) (moment : Moment) : Counters × ServerMsgHeaderV1 :=
  let c := { c with msgNum := c.msgNum + 1 }
  (c, {
    timeSec := moment.timeSec
    timeUsec := moment.timeUsec
    threadId := moment.threadId
    msgNum := c.msgNum
    msgCode := MsgCode.init.byte })

def servercommMsgMemoryInitV1 (c : Counters) (moment : Moment) : Counters × MemoryMessage :=
  let (c, header) := servercommMsgHeaderInitV1 c moment
  (c, header, { allocSize := 0, allocPtr := 0, allocNum := 0, freePtr := 0 })

def servercommMsgThreadInitV1 (c : Counters) (moment : Moment) : Counters × ServerMsgHeaderV1 × ServerMsgThreadDataV1 :=
  let (c, header) := servercommMsgHeaderInitV1 c moment
  (c, header, { threadId := 0, threadName := List.Vector.replicate 24 0 })

/-- What the allocation functions do about their message, once the real function has
    returned. -/
def allocation (code : MsgCode) (succeeded : Bool) (p size ptr : UInt64) (c : Counters) (moment : Moment) :
    Counters × Option MemoryMessage :=
  let c := aleakdDataIncrAllocNumber c
  let allocNum := aleakdDataGetAllocNumber c
  if succeeded then
    let (c, header, data) := servercommMsgMemoryInitV1 c moment
    (c, some ({ header with msgCode := code.byte },
      { data with allocNum, allocPtr := p, allocSize := size, freePtr := ptr }))
  else (c, none)

/-- `malloc`, where `real_malloc` returned `p`. -/
def malloc (size p : UInt64) : Counters → Moment → Counters × Option MemoryMessage :=
  allocation .malloc (p ≠ 0) p size 0

/-- `calloc`, which does not look at `num`. -/
def calloc (_num size p : UInt64) : Counters → Moment → Counters × Option MemoryMessage :=
  allocation .calloc (p ≠ 0) p size 0

def realloc (ptr size p : UInt64) : Counters → Moment → Counters × Option MemoryMessage :=
  allocation .realloc (p ≠ 0) p size ptr

/-- `free`, whose message goes out before `real_free` is called. -/
def free (ptr : UInt64) (c : Counters) (moment : Moment) : Counters × Option MemoryMessage :=
  if ptr ≠ 0 then
    let (c, header, data) := servercommMsgMemoryInitV1 c moment
    (c, some ({ header with msgCode := MsgCode.free.byte }, { data with freePtr := ptr }))
  else (c, none)

/-- `posix_memalign`, where `real_posix_memalign` returned `ret` and left `memptr`. -/
def posixMemalign (_alignment size : UInt64) (ret : Int32) (memptr : UInt64) :
    Counters → Moment → Counters × Option MemoryMessage :=
  allocation .posixMemalign (ret = 0) memptr size 0

def alignedAlloc (_alignment size p : UInt64) : Counters → Moment → Counters × Option MemoryMessage :=
  allocation .alignedAlloc (p ≠ 0) p size 0

def memalign (_alignment size p : UInt64) : Counters → Moment → Counters × Option MemoryMessage :=
  allocation .memalign (p ≠ 0) p size 0

def valloc (size p : UInt64) : Counters → Moment → Counters × Option MemoryMessage :=
  allocation .valloc (p ≠ 0) p size 0

def pvalloc (size p : UInt64) : Counters → Moment → Counters × Option MemoryMessage :=
  allocation .pvalloc (p ≠ 0) p size 0

/-- The part of `pthread_create` after the real function, with the new thread's id. -/
def pthreadCreate (thread : UInt64) (c : Counters) (moment : Moment) :
    Counters × ServerMsgHeaderV1 × ServerMsgThreadDataV1 :=
  let (c, header, data) := servercommMsgThreadInitV1 c moment
  (c, { header with msgCode := MsgCode.pthreadCreate.byte }, { data with threadId := thread })

/-- A C string, without the NUL at its end. -/
abbrev CString := { bytes : List UInt8 // 0 ∉ bytes }

/-- `strncpy` of as many bytes as the name has, or the array; it copies no NUL. -/
def copyThreadName (threadName : List.Vector UInt8 24) (name : CString) : List.Vector UInt8 24 :=
  let maxLen := min name.val.length 24
  ⟨name.val.take maxLen ++ threadName.val.drop maxLen, by
    have size := threadName.property
    rw [List.length_append, List.length_take, List.length_drop]
    omega⟩

/-- `pthread_setname_np`, where `real_pthread_setname_np` returned `res`. -/
def pthreadSetnameNp (_res : Int32) (thread : UInt64) (name : CString) (c : Counters) (moment : Moment) :
    Counters × Option (ServerMsgHeaderV1 × ServerMsgThreadDataV1) :=
  if thread ≠ 0 then
    let (c, header, data) := servercommMsgThreadInitV1 c moment
    (c, some ({ header with msgCode := MsgCode.pthreadSetName.byte },
      { data with threadId := thread, threadName := copyThreadName data.threadName name }))
  else (c, none)

/-- `PR_SET_NAME` -/
def prSetName : Int32 := 15

/-- `prctl`, where `real_prctl` returned `res`; `name` is the string at `x[0]`, which only
    `PR_SET_NAME` reads. -/
def prctl (option res : Int32) (name : CString) (c : Counters) (moment : Moment) :
    Counters × Option (ServerMsgHeaderV1 × ServerMsgThreadDataV1) :=
  if res ≥ 0 ∧ option = prSetName then
    let (c, header, data) := servercommMsgThreadInitV1 c moment
    (c, some ({ header with msgCode := MsgCode.pthreadSetName.byte },
      { data with threadId := header.threadId, threadName := copyThreadName data.threadName name }))
  else (c, none)

/-! ## Backtraces -/

/-- What `backtrace` returns: at most as many addresses as the array has room for. -/
abbrev Addresses := { listAddr : List UInt64 // listAddr.length ≤ backtraceMaxSize }

def servercommMsgBacktraceInitV1 (c : Counters) (moment : Moment) :
    Counters × ServerMsgHeaderV1 × ServerMsgBacktraceDataV1 :=
  let (c, header) := servercommMsgHeaderInitV1 c moment
  (c, { header with msgCode := MsgCode.backtrace.byte },
    { originMsgNum := 0, backtraceSize := 0, listAddr := List.Vector.replicate backtraceMaxSize 0 })

def servercommMsgBacktraceMake (data : ServerMsgBacktraceDataV1) (listBackTraceAddr : Addresses) :
    ServerMsgBacktraceDataV1 :=
  { data with
    backtraceSize := UInt8.ofNat listBackTraceAddr.val.length
    listAddr := ⟨listBackTraceAddr.val ++ data.listAddr.val.drop listBackTraceAddr.val.length, by
      have fits := listBackTraceAddr.property
      have size := data.listAddr.property
      rw [List.length_append, List.length_drop]
      omega⟩ }

/-- The first lines of `backtrace_send`: the backtrace message. -/
def backtraceMessage (listBacktraceAddr : Addresses) (originMsgNum : UInt32) (c : Counters) (moment : Moment) :
    Counters × ServerMsgHeaderV1 × ServerMsgBacktraceDataV1 :=
  let (c, header, data) := servercommMsgBacktraceInitV1 c moment
  (c, header, servercommMsgBacktraceMake { data with originMsgNum } listBacktraceAddr)

/-- `addr` is not set here in the source, but by `backtrace_send`. -/
def servercommMsgSymbolinfosInitV1 (c : Counters) (moment : Moment) :
    Counters × ServerMsgHeaderV1 × ServerMsgSymbolInfosDataV1 :=
  let (c, header) := servercommMsgHeaderInitV1 c moment
  (c, { header with msgCode := MsgCode.symbolinfos.byte },
    { addr := 0
      objectName := List.Vector.replicate 256 0
      objectAddr := 0
      symbolName := List.Vector.replicate 96 0
      symbolAddr := 0 })

/-- The message holds the addresses. -/
theorem backtraceMessage_listAddr (listBacktraceAddr : Addresses) (originMsgNum : UInt32) (c : Counters)
    (moment : Moment) :
    let data := (backtraceMessage listBacktraceAddr originMsgNum c moment).2.2
    data.originMsgNum = originMsgNum ∧ data.listAddr.val.take data.backtraceSize.toNat = listBacktraceAddr.val := by
  refine ⟨rfl, ?_⟩
  have fits := listBacktraceAddr.property
  have size : (UInt8.ofNat listBacktraceAddr.val.length).toNat = listBacktraceAddr.val.length := by
    rw [UInt8.toNat_ofNat', Nat.mod_eq_of_lt (Nat.lt_of_le_of_lt fits (by decide))]
  show List.take (UInt8.ofNat listBacktraceAddr.val.length).toNat (listBacktraceAddr.val ++ _) = _
  rw [size, List.take_left]

end Aleakd.Wrapper
