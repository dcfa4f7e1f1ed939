import Aleakd.Receiver

/-!
What the server reads back from the bytes of messages that the library built:
`doProcessDataRead` on any number of whole messages and the beginning of a
further one.
-/
namespace Aleakd.Framing
open Aleakd.Packed Aleakd.Messages Aleakd.Operations Aleakd.Receiver

/-- The handler call with the values of a message. -/
def handlerCall : Message → Callback
  | .app _ => .newConnection
  | .memory header data => .memoryOperation {
      tvOperation := ⟨header.timeSec.toInt64, header.timeUsec.toInt64⟩
      msgNum := header.msgNum
      msgCode := MsgCode.ofByte header.msgCode
      callerThreadId := header.threadId
      allocSize := data.allocSize
      allocPtr := data.allocPtr
      allocNum := data.allocNum
      freePtr := data.freePtr
      freed := false
      backTrace := none }
  | .thread header data => .threadOperation {
      tvOperation := ⟨header.timeSec.toInt64, header.timeUsec.toInt64⟩
      msgNum := header.msgNum
      msgCode := MsgCode.ofByte header.msgCode
      callerThreadId := header.threadId
      threadId := data.threadId
      threadName := data.threadName.val.takeWhile (· ≠ 0) }
  | .backtrace _ data =>
    .backtrace ⟨data.originMsgNum.toInt32, data.listAddr.val.take data.backtraceSize.toNat⟩
  | .symbolInfos _ data => .symbolInfos {
      addr := data.addr
      objectName := data.objectName.val.takeWhile (· ≠ 0)
      objectAddr := data.objectAddr
      symbolName := data.symbolName.val.takeWhile (· ≠ 0)
      symbolAddr := data.symbolAddr }

/-- How many bytes the server wants to see, from the start of a message, before it
    handles it. A backtrace has to be followed by 31 more. -/
def Message.needed : Message → Nat
  | .backtrace _ _ => 467
  | m => m.size

theorem Message.size_le_needed (m : Message) : m.size ≤ Message.needed m := by
  cases m <;> simp [Message.needed, Message.size]

theorem Message.needed_le (m : Message) : Message.needed m ≤ m.size + 31 := by
  cases m <;> simp [Message.needed, Message.size]

/-! ## One message -/

/-- The bytes of a message after its header. -/
def Message.body : Message → List UInt8
  | .app _ => []
  | .memory _ data => ServerMsgMemoryDataV1.layout.pack data
  | .thread _ data => ServerMsgThreadDataV1.layout.pack data
  | .backtrace _ data => ServerMsgBacktraceDataV1.layout.pack data
  | .symbolInfos _ data => ServerMsgSymbolInfosDataV1.layout.pack data

theorem encode_eq (m : Message) :
    m.encode = uint16.pack aleakdMsgVersion ++ (ServerMsgHeaderV1.layout.pack m.header ++ Message.body m) := by
  cases m <;> simp only [Message.encode, Message.body, Message.header, serverMsgAppV1, serverMsgV1,
    Layout.pair_pack, List.append_nil]

/-- With a whole header in front, the code decides. -/
theorem doProcessMsg_header (header : ServerMsgHeaderV1) (tail : List UInt8) :
    doProcessMsg (uint16.pack aleakdMsgVersion ++ (ServerMsgHeaderV1.layout.pack header ++ tail)) =
      (doProcessMsgV1Data header tail).map fun (calls, res) => (calls, if 0 < res then 2 + res else res) := by
  have version : ¬ (uint16.pack aleakdMsgVersion ++ (ServerMsgHeaderV1.layout.pack header ++ tail)).length <
      uint16.size := by
    simp
  have whole : ¬ (ServerMsgHeaderV1.layout.pack header ++ tail).length < ServerMsgHeaderV1.layout.size := by simp
  have first : aleakdMsgVersion = 1 := rfl
  simp only [doProcessMsg, version, if_false, Layout.read_pack, Layout.drop_pack, doProcessMsgV1, whole,
    Option.bind_eq_bind, Option.bind_some, if_pos first]
  cases doProcessMsgV1Data header tail <;> rfl

theorem doProcessData_handles {Data : Type} {layout : Layout Data} {needed : Nat} {callback : Data → Option Callback}
    {data : Data} {call : Callback} {rest : List UInt8} (enough : needed ≤ layout.size + rest.length)
    (called : callback data = some call) :
    doProcessData layout needed callback (layout.pack data ++ rest) =
      some ([call], (29 : Int) + (layout.pack data).length) := by
  have room : ¬ (layout.pack data ++ rest).length < needed := by
    rw [List.length_append, Layout.length_pack]
    omega
  simp only [doProcessData, room, if_false, Layout.read_pack, Layout.length_pack]
  simp [called]

theorem doProcessData_waits {Data : Type} {layout : Layout Data} {needed : Nat} {callback : Data → Option Callback}
    {pBuffer : List UInt8} (short : pBuffer.length < needed) :
    doProcessData layout needed callback pBuffer = some ([], 0) := by
  simp [doProcessData, short]

theorem cString_some {field : List UInt8} (ends : 0 ∈ field) : cString field = some (field.takeWhile (· ≠ 0)) := by
  simp [cString, ends]

/-- The codes of the memory messages lie in the range that the server tests for. -/
theorem memory_code {code : UInt8} (known : code ∈ MsgCode.memory.map MsgCode.byte) :
    ¬ code < 10 ∧ 10 ≤ code ∧ code < 20 := by
  obtain ⟨named, inside, rfl⟩ := List.mem_map.mp known
  revert named
  decide

theorem thread_code {code : UInt8}
    (known : code ∈ [MsgCode.pthreadCreate, MsgCode.pthreadSetName].map MsgCode.byte) :
    ¬ code < 10 ∧ ¬ (10 ≤ code ∧ code < 20) ∧ 30 ≤ code ∧ code < 40 := by
  obtain ⟨named, inside, rfl⟩ := List.mem_map.mp known
  revert named
  decide

theorem backtrace_code :
    let code := MsgCode.backtrace.byte
    ¬ code < 10 ∧ ¬ (10 ≤ code ∧ code < 20) ∧ ¬ (30 ≤ code ∧ code < 40) ∧ 40 ≤ code ∧ code < 50 := by
  decide

theorem symbolinfos_code :
    let code := MsgCode.symbolinfos.byte
    ¬ code < 10 ∧ ¬ (10 ≤ code ∧ code < 20) ∧ ¬ (30 ≤ code ∧ code < 40) ∧ ¬ (40 ≤ code ∧ code < 50) ∧
      50 ≤ code ∧ code < 60 := by
  decide

/-- The server handles a message once it sees what it needs of it. -/
theorem data_handles {m : Message} (built : m.Built) (rest : List UInt8)
    (enough : Message.needed m ≤ m.size + rest.length) :
    doProcessMsgV1Data m.header (Message.body m ++ rest) =
      some ([handlerCall m], (29 : Int) + (Message.body m).length) := by
  cases m with
  | app header =>
    have code : header.msgCode = 1 := built
    simp [doProcessMsgV1Data, Message.header, Message.body, handlerCall, code, MsgCode.byte]
  | memory header data =>
    obtain ⟨notApp, low, high⟩ := memory_code built
    simp only [doProcessMsgV1Data, Message.header, Message.body, notApp, low, high, if_false, if_true, and_self]
    exact doProcessData_handles (Nat.le_add_right ..) rfl
  | thread header data =>
    obtain ⟨code, name⟩ := built
    obtain ⟨notApp, notMemory, low, high⟩ := thread_code code
    simp only [doProcessMsgV1Data, Message.header, Message.body, notApp, notMemory, low, high, if_false, if_true,
      and_self]
    apply doProcessData_handles (Nat.le_add_right ..)
    simp [threadOperation, cString_some name, handlerCall, ServerMsgHeaderV1.tvOperation]
  | backtrace header data =>
    obtain ⟨code, fits⟩ := built
    have room : 436 ≤ 405 + rest.length := by
      simp only [Message.needed, Message.size] at enough
      omega
    simp only [doProcessMsgV1Data, Message.header, Message.body, code, backtrace_code, if_false, if_true, and_self]
    apply doProcessData_handles (by simpa using room)
    simp [Operations.backtrace, fits, handlerCall]
  | symbolInfos header data =>
    obtain ⟨code, objectName, symbolName⟩ := built
    simp only [doProcessMsgV1Data, Message.header, Message.body, code, symbolinfos_code, if_false, if_true, and_self]
    apply doProcessData_handles (Nat.le_add_right ..)
    simp [Operations.symbolInfos, cString_some objectName, cString_some symbolName, handlerCall]

/-- It waits as long as it does not. -/
theorem data_waits {m : Message} (built : m.Built) {pBuffer : List UInt8}
    (short : 31 + pBuffer.length < Message.needed m) :
    doProcessMsgV1Data m.header pBuffer = some ([], 0) := by
  cases m with
  | app header =>
    simp only [Message.needed, Message.size] at short
    omega
  | memory header data =>
    obtain ⟨notApp, low, high⟩ := memory_code built
    simp only [doProcessMsgV1Data, Message.header, notApp, low, high, if_false, if_true, and_self]
    apply doProcessData_waits
    simp only [Message.needed, Message.size, ServerMsgMemoryDataV1.layout_size] at short ⊢
    omega
  | thread header data =>
    obtain ⟨notApp, notMemory, low, high⟩ := thread_code built.1
    simp only [doProcessMsgV1Data, Message.header, notApp, notMemory, low, high, if_false, if_true, and_self]
    apply doProcessData_waits
    simp only [Message.needed, Message.size, ServerMsgThreadDataV1.layout_size] at short ⊢
    omega
  | backtrace header data =>
    simp only [doProcessMsgV1Data, Message.header, built.1, backtrace_code, if_false, if_true, and_self]
    apply doProcessData_waits
    simp only [Message.needed, serverMsgV1_size, ServerMsgBacktraceDataV1.layout_size] at short ⊢
    omega
  | symbolInfos header data =>
    simp only [doProcessMsgV1Data, Message.header, built.1, symbolinfos_code, if_false, if_true, and_self]
    apply doProcessData_waits
    simp only [Message.needed, Message.size, ServerMsgSymbolInfosDataV1.layout_size] at short ⊢
    omega

theorem size_eq (m : Message) : m.size = 31 + (Message.body m).length := by
  cases m <;> simp [Message.size, Message.body]

theorem doProcessMsg_handles (m : LibraryMessage) (rest : List UInt8)
    (enough : Message.needed m.message ≤ m.message.size + rest.length) :
    doProcessMsg (m.message.encode ++ rest) = some ([handlerCall m.message], (m.message.size : Int)) := by
  rw [encode_eq, List.append_assoc, List.append_assoc, doProcessMsg_header, data_handles m.built rest enough,
    size_eq m.message]
  have positive : (0 : Int) < 29 + (Message.body m.message).length := by omega
  simp only [Option.map_some, if_pos positive, Option.some.injEq, Prod.mk.injEq, true_and]
  omega

theorem doProcessMsg_waits (m : LibraryMessage) (rest : List UInt8) {k : Nat} (short : k < Message.needed m.message) :
    doProcessMsg ((m.message.encode ++ rest).take k) = some ([], 0) := by
  have version : uint16.size = 2 := rfl
  rw [encode_eq, List.append_assoc, List.append_assoc]
  by_cases noVersion : k < 2
  · have few : ((uint16.pack aleakdMsgVersion ++ (ServerMsgHeaderV1.layout.pack m.message.header ++
        (Message.body m.message ++ rest))).take k).length < uint16.size := by
      rw [List.length_take, version]
      omega
    simp only [doProcessMsg, if_pos few]
  · rw [uint16.take_pack _ _ (by omega), version]
    by_cases noHeader : k < 31
    · have few : ((ServerMsgHeaderV1.layout.pack m.message.header ++
          (Message.body m.message ++ rest)).take (k - 2)).length < ServerMsgHeaderV1.layout.size := by
        rw [List.length_take, ServerMsgHeaderV1.layout_size]
        omega
      have enough : ¬ (uint16.pack aleakdMsgVersion ++ (ServerMsgHeaderV1.layout.pack m.message.header ++
          (Message.body m.message ++ rest)).take (k - 2)).length < uint16.size := by
        simp
      have first : aleakdMsgVersion = 1 := rfl
      simp only [doProcessMsg, enough, if_false, Layout.read_pack, Layout.drop_pack, doProcessMsgV1, if_pos few,
        Option.bind_eq_bind, Option.bind_some, if_pos first]
      rfl
    · rw [ServerMsgHeaderV1.layout.take_pack _ _ (by simp; omega), doProcessMsg_header, data_waits m.built]
      · rfl
      · rw [List.length_take, ServerMsgHeaderV1.layout_size]
        omega

/-! ## Sequences of messages -/

/-- The messages that the server has handled when it has seen the first `n` bytes. -/
def complete : List LibraryMessage → Nat → List LibraryMessage
  | [], _ => []
  | m :: rest, n => if Message.needed m.message ≤ n then m :: complete rest (n - m.message.size) else []

/-- How many bytes these messages have. -/
def settled (messages : List LibraryMessage) (n : Nat) : Nat := (encodeAll (complete messages n)).length

def handlerCalls (messages : List LibraryMessage) : List Callback := messages.map fun m => handlerCall m.message

theorem settled_cons {m : LibraryMessage} {rest : List LibraryMessage} {n : Nat}
    (enough : Message.needed m.message ≤ n) :
    settled (m :: rest) n = m.message.size + settled rest (n - m.message.size) := by
  simp [settled, complete, enough]

/-- The messages that are complete are the first ones. -/
theorem complete_isPrefix (messages : List LibraryMessage) (n : Nat) : complete messages n <+: messages := by
  induction messages generalizing n with
  | nil => exact List.prefix_refl _
  | cons m rest ih =>
    unfold complete
    split
    · rw [List.cons_prefix_cons]
      exact ⟨rfl, ih _⟩
    · exact List.nil_prefix

/-- The server handles the messages that are complete, and keeps the rest, as long
    as an `int` can count the bytes. -/
theorem doProcessDataReadFrom_take (messages : List LibraryMessage) (n sizeRead : Nat)
    (inside : n ≤ (encodeAll messages).length) (start : sizeRead < 2 ^ 31) :
    doProcessDataReadFrom sizeRead ((encodeAll messages).take n) =
      if sizeRead + settled messages n < 2 ^ 31 then
        some (handlerCalls (complete messages n), (sizeRead : Int) + settled messages n)
      else none := by
  induction messages generalizing n sizeRead with
  | nil => simpa [doProcessDataReadFrom, complete, handlerCalls, settled] using start
  | cons m rest ih =>
    by_cases enough : Message.needed m.message ≤ n
    · have whole : m.message.size ≤ n := le_trans (Message.size_le_needed _) enough
      have size := m.message.size_pos
      have cut : (encodeAll (m :: rest)).take n = m.message.encode ++ (encodeAll rest).take (n - m.message.size) := by
        rw [encodeAll_cons, List.take_append, Message.encode_length,
          List.take_of_length_le (by rw [Message.encode_length]; exact whole)]
      have some : m.message.encode ++ (encodeAll rest).take (n - m.message.size) ≠ [] := by
        rw [← List.length_pos_iff, List.length_append, Message.encode_length]
        omega
      have tail : n - m.message.size ≤ (encodeAll rest).length := by
        simp only [encodeAll_cons, List.length_append, Message.encode_length] at inside
        omega
      have handled := doProcessMsg_handles m ((encodeAll rest).take (n - m.message.size)) (by
        rw [List.length_take]
        omega)
      have positive : (0 : Int) < m.message.size := by omega
      have skip : (m.message.encode ++ (encodeAll rest).take (n - m.message.size)).drop m.message.size =
          (encodeAll rest).take (n - m.message.size) := by
        rw [← Message.encode_length, List.drop_left]
      rw [cut, doProcessDataReadFrom, if_neg some, handled, settled_cons enough]
      simp only [if_pos positive, Int.toNat_natCast, skip]
      by_cases fits : sizeRead + m.message.size < 2 ^ 31
      · rw [if_pos fits, ih _ _ tail fits, Nat.add_assoc]
        split
        · simp only [Option.map_some, handlerCalls, complete, if_pos enough, List.map_cons, List.singleton_append,
            Nat.cast_add, Int.add_assoc]
        · rfl
      · rw [if_neg fits, if_neg (by omega)]
    · have nothing : complete (m :: rest) n = [] := by simp [complete, enough]
      have waits := doProcessMsg_waits m (encodeAll rest) (Nat.not_le.mp enough)
      have count : settled (m :: rest) n = 0 := by simp [settled, nothing]
      rw [doProcessDataReadFrom, encodeAll_cons, waits, nothing, count]
      simpa [handlerCalls] using start

/-- The same for a buffer that holds a whole sequence. -/
theorem doProcessDataRead_encodeAll (messages : List LibraryMessage) :
    doProcessDataRead (encodeAll messages) =
      if settled messages (encodeAll messages).length < 2 ^ 31 then
        some (handlerCalls (complete messages (encodeAll messages).length),
          (settled messages (encodeAll messages).length : Int))
      else none := by
  have result := doProcessDataReadFrom_take messages (encodeAll messages).length 0 (le_refl _) (by decide)
  rw [List.take_length] at result
  simpa [doProcessDataRead] using result

/-! ## Whole sequences -/

/-- The last message is a backtrace. -/
def EndsInBacktrace (messages : List LibraryMessage) : Prop :=
  ∃ m ∈ messages.getLast?, ∃ header data, m.message = .backtrace header data

theorem needed_le_size_iff (m : Message) : Message.needed m ≤ m.size ↔ ¬ ∃ header data, m = .backtrace header data := by
  cases m <;> simp [Message.needed, Message.size]

/-- All messages are handled, unless the last one is a backtrace. -/
theorem complete_all_iff (messages : List LibraryMessage) :
    complete messages (encodeAll messages).length = messages ↔ ¬ EndsInBacktrace messages := by
  induction messages with
  | nil => simp [complete, EndsInBacktrace]
  | cons m rest ih =>
    cases rest with
    | nil =>
      simp only [complete, encodeAll_cons, encodeAll_nil, List.append_nil, Message.encode_length, EndsInBacktrace,
        List.getLast?_singleton, Option.mem_def, Option.some.injEq, exists_eq_left']
      rw [← needed_le_size_iff]
      by_cases enough : Message.needed m.message ≤ m.message.size
      · simp [enough]
      · simp [enough]
    | cons next rest =>
      have bound := Message.needed_le m.message
      have smallest : 31 ≤ (encodeAll (next :: rest)).length := by
        rw [encodeAll_cons, List.length_append, Message.encode_length, size_eq]
        omega
      have enough : Message.needed m.message ≤ (encodeAll (m :: next :: rest)).length := by
        rw [encodeAll_cons, List.length_append, Message.encode_length]
        omega
      have remains : (encodeAll (m :: next :: rest)).length - m.message.size = (encodeAll (next :: rest)).length := by
        rw [encodeAll_cons, List.length_append, Message.encode_length]
        omega
      have last : EndsInBacktrace (m :: next :: rest) ↔ EndsInBacktrace (next :: rest) := by
        simp [EndsInBacktrace, List.getLast?_cons_cons]
      rw [complete, if_pos enough, remains, List.cons.injEq, ih, last]
      exact and_iff_right rfl

/-- The round trip: in one buffer, all messages reach the handler, once each and in
    order, and all bytes are used, exactly when the last message is not a
    backtrace and an `int` can count the bytes. -/
theorem round_trip_iff (messages : List LibraryMessage) :
    doProcessDataRead (encodeAll messages) = some (handlerCalls messages, ((encodeAll messages).length : Int)) ↔
      ¬ EndsInBacktrace messages ∧ (encodeAll messages).length < 2 ^ 31 := by
  rw [doProcessDataRead_encodeAll, ← complete_all_iff]
  constructor
  · intro processed
    split at processed
    · next fits =>
      simp only [Option.some.injEq, Prod.mk.injEq] at processed
      have same := congrArg List.length processed.1
      simp only [handlerCalls, List.length_map] at same
      exact ⟨(complete_isPrefix messages _).eq_of_length same, by omega⟩
    · cases processed
  · rintro ⟨all, fits⟩
    have count : settled messages (encodeAll messages).length = (encodeAll messages).length := by rw [settled, all]
    rw [count, if_pos fits, all]

/-- A buffer that holds a backtrace message and nothing else. -/
theorem last_backtrace_left :
    ¬ ∀ messages : List LibraryMessage, doProcessDataRead (encodeAll messages) =
      some (handlerCalls messages, ((encodeAll messages).length : Int)) := by
  intro claim
  have result := claim [⟨.backtrace ⟨1, 2, 3, 4, 41⟩ ⟨3, 1, List.Vector.replicate 50 5⟩, by decide⟩]
  revert result
  decide +kernel

end Aleakd.Framing
