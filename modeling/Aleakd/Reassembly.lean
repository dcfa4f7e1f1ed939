import Aleakd.Framing

/-!
How the way in which the device cuts a stream of messages into reads shows in
what the handler is told. The server keeps what is left of a read in a buffer
that is local to one call of `doReadMsg`, and it gives up that buffer when a
read completes no message.
-/
namespace Aleakd.Reassembly
open Aleakd.Packed Aleakd.Messages Aleakd.Operations Aleakd.Receiver Aleakd.Framing

/-! ## A connection from the middle of a call -/

/-- The handler calls of the rest of a connection, while `doReadMsg` holds `pBuffer`. -/
def resume (reads : List Read) (pBuffer : List UInt8) : Option (List Callback) :=
  (doReadMsg reads pBuffer).bind fun (calls, left) => (connection left).map fun later => calls ++ later

theorem connection_nil : connection [] = some [] := by
  rw [connection, if_pos rfl]

theorem resume_nil (pBuffer : List UInt8) : resume [] pBuffer = some [] := by
  simp [resume, doReadMsg, connection_nil]

theorem connection_eq_resume (reads : List Read) : connection reads = resume reads [] := by
  rw [connection]
  split
  · next nothing => rw [nothing, resume_nil]
  · split
    · next stuck => simp [resume, stuck]
    · next calls left called => simp [resume, called]

/-- A call ends with the read of nothing, and takes its buffer with it. -/
theorem resume_end (reads : List Read) (pBuffer : List UInt8) {atMost : ([] : List UInt8).length ≤ 4096} :
    resume (.data [] atMost :: reads) pBuffer = resume reads [] := by
  rw [← connection_eq_resume, resume, doReadMsg, if_pos rfl, Option.bind_some]
  simp

theorem resume_data {bytes : List UInt8} {atMost : bytes.length ≤ 4096} {reads : List Read} {pBuffer : List UInt8}
    {calls : List Callback} {processed : Int} (some : bytes ≠ [])
    (room : (pBuffer ++ bytes).length ≤ readBufferSize)
    (handled : doProcessDataRead (pBuffer ++ bytes) = .some (calls,processed)) :
    resume (.data bytes atMost :: reads) pBuffer =
      if 0 < processed then
        (shift (pBuffer ++ bytes) processed.toNat).bind fun remaining =>
          (resume reads remaining).map fun later => calls ++ later
      else (resume reads []).map fun later => calls ++ later := by
  rw [resume, doReadMsg, if_neg some, if_pos room, handled]
  by_cases positive : 0 < processed
  · simp only [Option.bind_eq_bind, Option.bind_some, if_pos positive]
    cases shift (pBuffer ++ bytes) processed.toNat with
    | none => rfl
    | some remaining =>
      simp only [Option.bind_some, resume]
      cases doReadMsg reads remaining with
      | none => rfl
      | some result =>
        obtain ⟨later, left⟩ := result
        simp only [Option.bind_some, Option.pure_def, Option.map_map]
        cases connection left <;> simp
  · simp only [Option.bind_eq_bind, Option.bind_some, if_neg positive, Option.pure_def, connection_eq_resume]

theorem resume_data_some {bytes : List UInt8} {atMost : bytes.length ≤ 4096} {reads : List Read}
    {pBuffer : List UInt8} {all : List Callback} (some : bytes ≠ [])
    (resumed : resume (.data bytes atMost :: reads) pBuffer = .some all) :
    ∃ calls processed later, doProcessDataRead (pBuffer ++ bytes) = .some (calls,processed) ∧
      all = calls ++ later ∧
      ((0 < processed ∧ ∃ remaining, shift (pBuffer ++ bytes) processed.toNat = .some remaining ∧
          resume reads remaining = .some later) ∨
        (¬ 0 < processed ∧ resume reads [] = .some later)) := by
  by_cases room : (pBuffer ++ bytes).length ≤ readBufferSize
  · cases handled : doProcessDataRead (pBuffer ++ bytes) with
    | none =>
      rw [resume, doReadMsg, if_neg some, if_pos room, handled] at resumed
      cases resumed
    | some result =>
      obtain ⟨calls, processed⟩ := result
      rw [resume_data some room handled] at resumed
      by_cases positive : 0 < processed
      · simp only [if_pos positive, Option.bind_eq_some_iff, Option.map_eq_some_iff] at resumed
        obtain ⟨remaining, shifted, later, resumed, rfl⟩ := resumed
        exact ⟨calls, processed, later, rfl, rfl, .inl ⟨positive, remaining, shifted, resumed⟩⟩
      · simp only [if_neg positive, Option.map_eq_some_iff] at resumed
        obtain ⟨later, resumed, rfl⟩ := resumed
        exact ⟨calls, processed, later, rfl, rfl, .inr ⟨positive, resumed⟩⟩
  · rw [resume, doReadMsg, if_neg some, if_neg room] at resumed
    cases resumed

/-! ## What is still to come -/

/-- The messages that are not complete in the first `n` bytes. -/
def waiting : List LibraryMessage → Nat → List LibraryMessage
  | [], _ => []
  | m :: rest, n => if Message.needed m.message ≤ n then waiting rest (n - m.message.size) else m :: rest

theorem complete_append_waiting (messages : List LibraryMessage) (n : Nat) :
    complete messages n ++ waiting messages n = messages := by
  induction messages generalizing n with
  | nil => rfl
  | cons m rest ih =>
    unfold complete waiting
    split
    · rw [List.cons_append, ih]
    · rfl

theorem settled_add_waiting (messages : List LibraryMessage) (n : Nat) :
    settled messages n + (encodeAll (waiting messages n)).length = (encodeAll messages).length := by
  have split := congrArg (fun messages => (encodeAll messages).length) (complete_append_waiting messages n)
  simpa [settled] using split

theorem settled_le_self (messages : List LibraryMessage) (n : Nat) : settled messages n ≤ n := by
  induction messages generalizing n with
  | nil => exact Nat.zero_le _
  | cons m rest ih =>
    by_cases enough : Message.needed m.message ≤ n
    · have := Message.size_le_needed m.message
      have := ih (n - m.message.size)
      rw [settled_cons enough]
      omega
    · simp [settled, complete, enough]

/-- More bytes complete more messages. -/
theorem complete_add (messages : List LibraryMessage) {p q : Nat} (order : p ≤ q) :
    complete messages q =
      complete messages p ++ complete (waiting messages p) (q - settled messages p) := by
  induction messages generalizing p q with
  | nil => rfl
  | cons m rest ih =>
    by_cases enough : Message.needed m.message ≤ p
    · have enough' : Message.needed m.message ≤ q := le_trans enough order
      have shift : q - (m.message.size + settled rest (p - m.message.size)) =
          q - m.message.size - settled rest (p - m.message.size) := by omega
      have later : p - m.message.size ≤ q - m.message.size := by omega
      rw [settled_cons enough, shift, complete, if_pos enough', complete, if_pos enough, waiting, if_pos enough,
        ih later, List.cons_append]
    · have nothing : complete (m :: rest) p = [] := by simp [complete, enough]
      have zero : settled (m :: rest) p = 0 := by simp [settled, nothing]
      have all : waiting (m :: rest) p = m :: rest := by simp [waiting, enough]
      rw [nothing, zero, all, List.nil_append, Nat.sub_zero]

theorem settled_add (messages : List LibraryMessage) {p q : Nat} (order : p ≤ q) :
    settled messages q = settled messages p + settled (waiting messages p) (q - settled messages p) := by
  rw [settled, complete_add messages order]
  simp [settled]

theorem waiting_add (messages : List LibraryMessage) {p q : Nat} (order : p ≤ q) :
    waiting messages q = waiting (waiting messages p) (q - settled messages p) := by
  have whole := complete_append_waiting messages q
  have first := complete_append_waiting messages p
  have second := complete_append_waiting (waiting messages p) (q - settled messages p)
  rw [complete_add messages order, List.append_assoc] at whole
  rw [← second] at first
  exact List.append_cancel_left (List.append_cancel_left (whole.trans first.symm))

/-- The bytes of the stream that have been read and not been settled. -/
def pending (messages : List LibraryMessage) (p : Nat) : List UInt8 :=
  (encodeAll (waiting messages p)).take (p - settled messages p)

theorem drop_settled (messages : List LibraryMessage) (n : Nat) :
    (encodeAll messages).drop (settled messages n) = encodeAll (waiting messages n) := by
  have split := congrArg encodeAll (complete_append_waiting messages n)
  rw [encodeAll_append] at split
  rw [← split, settled, List.drop_left]

/-- Less than what the server needs of a message is ever pending. -/
theorem pending_short (messages : List LibraryMessage) {p : Nat} (inside : p ≤ (encodeAll messages).length) :
    p - settled messages p < 467 := by
  induction messages generalizing p with
  | nil =>
    simp only [encodeAll_nil, List.length_nil] at inside
    omega
  | cons m rest ih =>
    by_cases enough : Message.needed m.message ≤ p
    · simp only [encodeAll_cons, List.length_append, Message.encode_length] at inside
      have := Message.size_le_needed m.message
      have := ih (p := p - m.message.size) (by omega)
      rw [settled_cons enough]
      omega
    · have bound : Message.needed m.message ≤ 467 := by
        cases m.message <;> simp [Message.needed, Message.size]
      omega

theorem pending_length (messages : List LibraryMessage) {p : Nat} (inside : p ≤ (encodeAll messages).length) :
    (pending messages p).length = p - settled messages p := by
  have := settled_add_waiting messages p
  rw [pending, List.length_take]
  omega

theorem pending_read {messages : List LibraryMessage} {p : Nat} {bytes later : List UInt8}
    (cut : bytes ++ later = (encodeAll messages).drop p) :
    pending messages p ++ bytes =
      (encodeAll (waiting messages p)).take (p + bytes.length - settled messages p) := by
  have order := settled_le_self messages p
  have shift : (encodeAll messages).drop p = (encodeAll (waiting messages p)).drop (p - settled messages p) := by
    rw [← drop_settled, List.drop_drop]
    congr 1
    omega
  have front : bytes = ((encodeAll (waiting messages p)).drop (p - settled messages p)).take bytes.length := by
    rw [← shift, ← cut, List.take_left]
  have total : p + bytes.length - settled messages p = p - settled messages p + bytes.length := by omega
  rw [total, List.take_add, ← front, pending]

/-- What is left of the bytes at hand when the complete messages are gone. -/
theorem pending_drop (messages : List LibraryMessage) {p q : Nat} (order : p ≤ q) :
    ((encodeAll (waiting messages p)).take (q - settled messages p)).drop
        (settled (waiting messages p) (q - settled messages p)) = pending messages q := by
  have count := settled_add messages order
  rw [List.drop_take, drop_settled, ← waiting_add messages order, pending]
  congr 1
  omega

/-- What a read leaves of the bytes at hand, when the messages that it completes are gone. -/
theorem pending_next {messages : List LibraryMessage} {p : Nat} {bytes later : List UInt8}
    (cut : bytes ++ later = (encodeAll messages).drop p) :
    (pending messages p ++ bytes).drop (settled messages (p + bytes.length) - settled messages p) =
      pending messages (p + bytes.length) := by
  have order := Nat.le_add_right p bytes.length
  have count := settled_add messages order
  rw [pending_read cut, ← pending_drop messages order, count, Nat.add_sub_cancel_left]

/-! ## Bytes accounted for -/

/-- The size of the message that a handler call stands for. -/
def weight : Callback → Nat
  | .newConnection => 31
  | .memoryOperation _ => 59
  | .threadOperation _ => 63
  | .backtrace _ => 436
  | .symbolInfos _ => 407

def weights (calls : List Callback) : Nat := (calls.map weight).sum

@[simp] theorem weights_append (first second : List Callback) :
    weights (first ++ second) = weights first + weights second := by
  simp [weights]

theorem weights_handlerCalls (messages : List LibraryMessage) :
    weights (handlerCalls messages) = (encodeAll messages).length := by
  induction messages with
  | nil => rfl
  | cons m rest ih =>
    have first : weight (handlerCall m.message) = m.message.size := by
      cases m.message <;> rfl
    have split : weights (handlerCalls (m :: rest)) =
        weight (handlerCall m.message) + weights (handlerCalls rest) := rfl
    rw [split, first, ih, encodeAll_cons, List.length_append, Message.encode_length]

/-- The handler calls of a branch stand for no more bytes than it reports; the
    version and the header are in front of the `size` bytes that it sees. -/
def AccountedV1 (size : Nat) (calls : List Callback) (res : Int) : Prop :=
  (calls = [] ∧ res = 0) ∨ (weights calls ≤ res + 2 ∧ 0 < res ∧ res ≤ 29 + size)

theorem doProcessData_accounted {Data : Type} {layout : Layout Data} {needed : Nat}
    {callback : Data → Option Callback} {pBuffer : List UInt8} {calls : List Callback} {res : Int}
    (weighs : ∀ data call, callback data = some call → weight call = 31 + layout.size)
    (processed : doProcessData layout needed callback pBuffer = some (calls,res)) :
    AccountedV1 pBuffer.length calls res := by
  cases doProcessData_iff.mp processed with
  | waits => exact .inl ⟨rfl, rfl⟩
  | @handles data call _ copied called =>
    have room := Layout.size_le_of_read copied
    have heavy : weights [call] = 31 + layout.size := by simp [weights, weighs data call called]
    rw [ServerMsgHeaderV1.layout_size]
    right
    omega

/-- What the code in a header selects: only the header is read, or the data of the message
    is too, once `needed` bytes of it are there. -/
inductive DataBranch (header : ServerMsgHeaderV1) : Prop where
  | headerOnly (calls : List Callback) (light : weights calls ≤ 31)
      (same : ∀ pBuffer, doProcessMsgV1Data header pBuffer = some (calls, (ServerMsgHeaderV1.layout.size : Int)))
  | data {Data : Type} (layout : Layout Data) (needed : Nat) (callback : Data → Option Callback)
      (own : layout.ReadsOwn) (weighs : ∀ data call, callback data = some call → weight call = 31 + layout.size)
      (same : ∀ pBuffer, doProcessMsgV1Data header pBuffer = doProcessData layout needed callback pBuffer)

theorem dataBranch (header : ServerMsgHeaderV1) : DataBranch header := by
  by_cases app : header.msgCode < 10
  · refine .headerOnly (if header.msgCode = MsgCode.init.byte then [.newConnection] else []) ?_ fun _ => ?_
    · split <;> decide
    · simp only [doProcessMsgV1Data, if_pos app]
  by_cases memory : 10 ≤ header.msgCode ∧ header.msgCode < 20
  · refine .data ServerMsgMemoryDataV1.layout ServerMsgMemoryDataV1.layout.size
      (fun data => some (.memoryOperation (memoryOperation header data))) ServerMsgMemoryDataV1.layout_readsOwn ?_
      fun _ => ?_
    · intro data call called
      cases called
      rw [weight, ServerMsgMemoryDataV1.layout_size]
    · simp only [doProcessMsgV1Data, if_neg app, if_pos memory]
  by_cases thread : 30 ≤ header.msgCode ∧ header.msgCode < 40
  · refine .data ServerMsgThreadDataV1.layout ServerMsgThreadDataV1.layout.size
      (fun data => (threadOperation header data).map .threadOperation) ServerMsgThreadDataV1.layout_readsOwn ?_
      fun _ => ?_
    · intro data call called
      obtain ⟨operation, _, rfl⟩ := Option.map_eq_some_iff.mp called
      rw [weight, ServerMsgThreadDataV1.layout_size]
    · simp only [doProcessMsgV1Data, if_neg app, if_neg memory, if_pos thread]
  by_cases code : 40 ≤ header.msgCode ∧ header.msgCode < 50
  · refine .data ServerMsgBacktraceDataV1.layout (serverMsgV1 ServerMsgBacktraceDataV1.layout).size
      (fun data => (backtrace data).map .backtrace) ServerMsgBacktraceDataV1.layout_readsOwn ?_ fun _ => ?_
    · intro data call called
      obtain ⟨backtrace, _, rfl⟩ := Option.map_eq_some_iff.mp called
      rw [weight, ServerMsgBacktraceDataV1.layout_size]
    · simp only [doProcessMsgV1Data, if_neg app, if_neg memory, if_neg thread, if_pos code]
  by_cases code' : 50 ≤ header.msgCode ∧ header.msgCode < 60
  · refine .data ServerMsgSymbolInfosDataV1.layout ServerMsgSymbolInfosDataV1.layout.size
      (fun data => (symbolInfos data).map .symbolInfos) ServerMsgSymbolInfosDataV1.layout_readsOwn ?_ fun _ => ?_
    · intro data call called
      obtain ⟨symbolInfos, _, rfl⟩ := Option.map_eq_some_iff.mp called
      rw [weight, ServerMsgSymbolInfosDataV1.layout_size]
    · simp only [doProcessMsgV1Data, if_neg app, if_neg memory, if_neg thread, if_neg code, if_pos code']
  refine .headerOnly [] (Nat.zero_le _) fun _ => ?_
  simp only [doProcessMsgV1Data, if_neg app, if_neg memory, if_neg thread, if_neg code, if_neg code']

theorem doProcessMsgV1Data_accounted {header : ServerMsgHeaderV1} {pBuffer : List UInt8} {calls : List Callback}
    {res : Int} (processed : doProcessMsgV1Data header pBuffer = some (calls,res)) :
    AccountedV1 pBuffer.length calls res := by
  cases dataBranch header with
  | headerOnly calls' light same =>
    rw [same] at processed
    cases processed
    right
    rw [ServerMsgHeaderV1.layout_size]
    omega
  | data layout needed callback own weighs same =>
    rw [same] at processed
    exact doProcessData_accounted weighs processed

theorem doProcessMsgV1_accounted {pBuffer : List UInt8} {calls : List Callback} {res : Int}
    (processed : doProcessMsgV1 pBuffer = some (calls,res)) :
    (calls = [] ∧ res = 0) ∨ (weights calls ≤ res + 2 ∧ 0 < res ∧ res ≤ pBuffer.length) := by
  cases doProcessMsgV1_iff.mp processed with
  | waits => exact .inl ⟨rfl, rfl⟩
  | handles copied processed =>
    have whole := Layout.size_le_of_read copied
    rw [ServerMsgHeaderV1.layout_size] at whole
    rcases doProcessMsgV1Data_accounted processed with nothing | ⟨light, positive, atMost⟩
    · exact .inl nothing
    · rw [ServerMsgHeaderV1.layout_size, List.length_drop] at atMost
      right
      omega

theorem doProcessMsg_accounted {pBuffer : List UInt8} {calls : List Callback} {res : Int}
    (processed : doProcessMsg pBuffer = some (calls,res)) :
    (calls = [] ∧ res ≤ 0) ∨ (weights calls ≤ res ∧ 0 < res ∧ res ≤ pBuffer.length) := by
  have two : uint16.size = 2 := rfl
  cases doProcessMsg_iff.mp processed with
  | waits => exact .inl ⟨rfl, le_refl _⟩
  | handles copied processed' =>
    have whole := Layout.size_le_of_read copied
    rw [two] at whole processed'
    rcases doProcessMsgV1_accounted processed' with ⟨nothing, zero⟩ | ⟨light, positive, atMost⟩
    · left
      simp [nothing, zero]
    · rw [List.length_drop] at atMost
      rw [if_pos positive, two]
      right
      omega
  | rejects => exact .inl ⟨rfl, by decide⟩

theorem doProcessMsg_le {pBuffer : List UInt8} {calls : List Callback} {res : Int}
    (handled : doProcessMsg pBuffer = some (calls, res)) (positive : 0 < res) : res.toNat ≤ pBuffer.length := by
  rcases doProcessMsg_accounted handled with ⟨_, none⟩ | ⟨_, _, atMost⟩ <;> omega

theorem doProcessMsg_quiet {pBuffer : List UInt8} {calls : List Callback} {res : Int}
    (handled : doProcessMsg pBuffer = some (calls, res)) (none : res ≤ 0) : calls = [] := by
  rcases doProcessMsg_accounted handled with ⟨quiet, _⟩ | ⟨_, some, _⟩
  · exact quiet
  · omega

theorem doProcessDataReadFrom_accounted {sizeRead : Nat} {pBuffer : List UInt8} {calls : List Callback} {res : Int}
    (processed : doProcessDataReadFrom sizeRead pBuffer = some (calls,res)) :
    weights calls ≤ pBuffer.length ∧
      (0 < res → sizeRead + weights calls ≤ res ∧ res ≤ sizeRead + pBuffer.length) := by
  fun_induction doProcessDataReadFrom sizeRead pBuffer generalizing calls res with
  | case1 sizeRead =>
    cases processed
    simp [weights]
  | case2 => cases processed
  | case3 sizeRead pBuffer _ first n handled positive _ ih =>
    simp only [Option.map_eq_some_iff] at processed
    obtain ⟨⟨later, final⟩, processed, same⟩ := processed
    simp only [Prod.mk.injEq] at same
    obtain ⟨rfl, rfl⟩ := same
    obtain ⟨light, counted⟩ := ih processed
    rw [List.length_drop] at light counted
    rcases doProcessMsg_accounted handled with ⟨_, notPositive⟩ | ⟨light', _, atMost⟩
    · omega
    · rw [weights_append]
      omega
  | case4 => cases processed
  | case5 sizeRead pBuffer _ calls' handled =>
    cases processed
    rw [doProcessMsg_quiet handled (le_refl 0)]
    simp [weights]
  | case6 sizeRead pBuffer _ calls' res' handled notPositive =>
    cases processed
    rw [doProcessMsg_quiet handled (not_lt.mp notPositive)]
    simp [weights, notPositive]

/-- The handler calls of the rest of a connection stand for no more bytes than are
    held or still to be read. -/
theorem resume_accounted {reads : List Read} {pBuffer : List UInt8} {calls : List Callback}
    (resumed : resume reads pBuffer = some calls) :
    weights calls ≤ pBuffer.length + (delivered reads).length := by
  induction reads generalizing pBuffer calls with
  | nil =>
    rw [resume_nil] at resumed
    cases resumed
    exact Nat.zero_le _
  | cons read reads ih =>
    cases read with
    | error => exact ih resumed
    | data bytes atMost =>
      have total : (delivered (.data bytes atMost :: reads)).length = bytes.length + (delivered reads).length := by
        simp [delivered, Read.bytes]
      rw [total]
      by_cases nothing : bytes = []
      · subst nothing
        rw [resume_end] at resumed
        have := ih resumed
        simp only [List.length_nil] at this ⊢
        omega
      · obtain ⟨first, processed, later, handled, rfl, next⟩ := resume_data_some nothing resumed
        obtain ⟨light, counted⟩ := doProcessDataReadFrom_accounted handled
        rw [List.length_append] at light counted
        rw [weights_append]
        rcases next with ⟨positive, remaining, shifted, resumed⟩ | ⟨_, resumed⟩
        · have held := ih resumed
          have length : remaining.length = (pBuffer ++ bytes).length - processed.toNat := by
            unfold shift at shifted
            split at shifted
            · cases shifted
              exact List.length_drop
            · cases shifted
          rw [length, List.length_append] at held
          omega
        · have held := ih resumed
          rw [List.length_nil] at held
          omega

/-! ## Reads that lose nothing -/

/-- The read keeps what it finds. Where it ends a call, nothing is pending or the
    stream is over; otherwise it completes a message or is the last of the
    stream, and what is left does not overlap the place that it is moved to. -/
def ReadKept (messages : List LibraryMessage) (p : Nat) : Read → Prop
  | .error => True
  | .data bytes _ =>
    let q := p + bytes.length
    if bytes = [] then settled messages p = p ∨ p = (encodeAll messages).length
    else
      if settled messages p < settled messages q then q - settled messages q ≤ settled messages q - settled messages p
      else q = (encodeAll messages).length

/-- Every read of the stream, from byte `p` on, keeps what it finds. -/
def Clean (messages : List LibraryMessage) : Nat → List Read → Prop
  | _, [] => True
  | p, read :: reads => ReadKept messages p read ∧ Clean messages (p + read.bytes.length) reads

instance ReadKept.decidable (messages : List LibraryMessage) (p : Nat) :
    (read : Read) → Decidable (ReadKept messages p read)
  | .error => inferInstanceAs (Decidable True)
  | .data bytes _ => inferInstanceAs (Decidable
      (let q := p + bytes.length
      if bytes = [] then settled messages p = p ∨ p = (encodeAll messages).length
      else
        if settled messages p < settled messages q then
          q - settled messages q ≤ settled messages q - settled messages p
        else q = (encodeAll messages).length))

instance Clean.decidable (messages : List LibraryMessage) : (p : Nat) → (reads : List Read) →
    Decidable (Clean messages p reads)
  | _, [] => inferInstanceAs (Decidable True)
  | p, read :: reads =>
    have := Clean.decidable messages (p + read.bytes.length) reads
    inferInstanceAs (Decidable (ReadKept messages p read ∧ Clean messages (p + read.bytes.length) reads))

/-- The connection tells the handler what the uncut stream would. -/
def Reassembled (messages : List LibraryMessage) (reads : List Read) : Prop :=
  ∃ calls size, doProcessDataRead (encodeAll messages) = some (calls,size) ∧ connection reads = some calls

/-- When the stream is over, nothing more is told. -/
theorem resume_quiet {reads : List Read} (ended : delivered reads = []) (pBuffer : List UInt8) :
    resume reads pBuffer = some [] := by
  induction reads generalizing pBuffer with
  | nil => exact resume_nil pBuffer
  | cons read reads ih =>
    have both : read.bytes = [] ∧ delivered reads = [] := List.append_eq_nil_iff.mp ended
    cases read with
    | error => exact ih both.2 pBuffer
    | data bytes atMost =>
      obtain ⟨rfl, ended⟩ : bytes = [] ∧ delivered reads = [] := both
      rw [resume_end]
      exact ih ended []

/-- What a read does when the buffer holds what is pending: it completes the
    messages that its bytes complete. -/
theorem read_handled {messages : List LibraryMessage} {p : Nat} {bytes later : List UInt8}
    (atMost : bytes.length ≤ 4096) (cut : bytes ++ later = (encodeAll messages).drop p)
    (inside : p + bytes.length ≤ (encodeAll messages).length) :
    (pending messages p ++ bytes).length = p + bytes.length - settled messages p ∧
      (pending messages p ++ bytes).length ≤ readBufferSize ∧
      doProcessDataRead (pending messages p ++ bytes) =
        some (handlerCalls (complete (waiting messages p) (p + bytes.length - settled messages p)),
          ((settled messages (p + bytes.length) - settled messages p : Nat) : Int)) := by
  have start : p ≤ (encodeAll messages).length := by omega
  have short := pending_short messages start
  have order := settled_le_self messages p
  have length : (pending messages p ++ bytes).length = p + bytes.length - settled messages p := by
    rw [List.length_append, pending_length messages start]
    omega
  have available : p + bytes.length - settled messages p ≤ (encodeAll (waiting messages p)).length := by
    have := settled_add_waiting messages p
    omega
  have count := settled_add messages (Nat.le_add_right p bytes.length)
  have few := settled_le_self (waiting messages p) (p + bytes.length - settled messages p)
  refine ⟨length, by rw [length, readBufferSize]; omega, ?_⟩
  rw [pending_read cut, doProcessDataRead, doProcessDataReadFrom_take _ _ 0 available (by decide), count,
    Nat.add_sub_cancel_left, if_pos (by omega)]
  simp

/-- Reads that lose nothing tell the handler about the messages that are complete
    in the whole stream. -/
theorem resume_of_clean {messages : List LibraryMessage} {reads : List Read} {p : Nat}
    (cut : delivered reads = (encodeAll messages).drop p) (inside : p ≤ (encodeAll messages).length)
    (clean : Clean messages p reads) :
    ∃ later, resume reads (pending messages p) = some later ∧
      handlerCalls (complete messages p) ++ later =
        handlerCalls (complete messages (encodeAll messages).length) := by
  induction reads generalizing p with
  | nil =>
    have ended : p = (encodeAll messages).length := by
      have := List.drop_eq_nil_iff.mp cut.symm
      omega
    refine ⟨[], resume_nil _, ?_⟩
    rw [ended, List.append_nil]
  | cons read reads ih =>
    obtain ⟨kept, clean⟩ := clean
    cases read with
    | error => exact ih cut inside clean
    | data bytes atMost =>
      have cut' : bytes ++ delivered reads = (encodeAll messages).drop p := cut
      have rest : delivered reads = (encodeAll messages).drop (p + bytes.length) := by
        rw [← List.drop_drop, ← cut', List.drop_left]
      have inside' : p + bytes.length ≤ (encodeAll messages).length := by
        have := congrArg List.length cut'
        rw [List.length_append, List.length_drop] at this
        omega
      by_cases nothing : bytes = []
      · subst nothing
        rw [resume_end]
        rcases kept with settledAll | ended
        · have empty : pending messages p = [] := by rw [pending, settledAll, Nat.sub_self, List.take_zero]
          have := ih rest inside' clean
          rwa [List.length_nil, Nat.add_zero, empty] at this
        · refine ⟨[], resume_quiet ?_ [], ?_⟩
          · rw [rest, ended, List.length_nil, Nat.add_zero, List.drop_length]
          · rw [ended, List.append_nil]
      · obtain ⟨length, room, handled⟩ := read_handled atMost cut' inside'
        have more := complete_add messages (Nat.le_add_right p bytes.length)
        rw [resume_data nothing room handled]
        simp only [ReadKept, if_neg nothing] at kept
        split at kept
        · next progress =>
          have positive : (0 : Int) < (settled messages (p + bytes.length) - settled messages p : Nat) := by omega
          have shifted : shift (pending messages p ++ bytes)
              (settled messages (p + bytes.length) - settled messages p) =
              some (pending messages (p + bytes.length)) := by
            have count := settled_add messages (Nat.le_add_right p bytes.length)
            rw [shift, length, if_pos (by omega), pending_next cut']
          obtain ⟨later, resumed, all⟩ := ih rest inside' clean
          refine ⟨handlerCalls (complete (waiting messages p) (p + bytes.length - settled messages p)) ++ later,
            ?_, ?_⟩
          · rw [if_pos positive, Int.toNat_natCast, shifted, Option.bind_some, resumed, Option.map_some]
          · rw [← all, more]
            simp [handlerCalls]
        · next stalled =>
          have still : ¬ (0 : Int) < (settled messages (p + bytes.length) - settled messages p : Nat) := by omega
          have ended : delivered reads = [] := by rw [rest, kept, List.drop_length]
          refine ⟨handlerCalls (complete (waiting messages p) (p + bytes.length - settled messages p)) ++ [], ?_, ?_⟩
          · rw [if_neg still, resume_quiet ended, Option.map_some]
          · rw [← kept, more]
            simp [handlerCalls]

/-- Where the handler is told about every message, no read has lost anything: what
    it is told about stands for all the bytes. -/
theorem clean_of_resume {messages : List LibraryMessage} {reads : List Read} {p : Nat} {later : List Callback}
    (cut : delivered reads = (encodeAll messages).drop p) (inside : p ≤ (encodeAll messages).length)
    (resumed : resume reads (pending messages p) = some later)
    (all : handlerCalls (complete messages p) ++ later = handlerCalls messages) : Clean messages p reads := by
  induction reads generalizing p later with
  | nil => trivial
  | cons read reads ih =>
    cases read with
    | error => exact ⟨trivial, ih cut inside resumed all⟩
    | data bytes atMost =>
      have cut' : bytes ++ delivered reads = (encodeAll messages).drop p := cut
      have rest : delivered reads = (encodeAll messages).drop (p + bytes.length) := by
        rw [← List.drop_drop, ← cut', List.drop_left]
      have inside' : p + bytes.length ≤ (encodeAll messages).length := by
        have := congrArg List.length cut'
        rw [List.length_append, List.length_drop] at this
        omega
      have left : (delivered reads).length = (encodeAll messages).length - (p + bytes.length) := by
        rw [rest, List.length_drop]
      have order := settled_le_self messages p
      -- the handler calls to come stand for all bytes that are not settled
      have owed : settled messages p + weights later = (encodeAll messages).length := by
        rw [← weights_handlerCalls messages, ← all, weights_append, weights_handlerCalls, settled]
      by_cases nothing : bytes = []
      · subst nothing
        rw [resume_end] at resumed
        have light := resume_accounted resumed
        rw [List.length_nil] at light left
        have settledAll : settled messages p = p := by omega
        have empty : pending messages p = [] := by rw [pending, settledAll, Nat.sub_self, List.take_zero]
        have held : resume reads (pending messages (p + 0)) = some later := by
          rw [Nat.add_zero, empty]
          exact resumed
        exact ⟨.inl settledAll, ih rest inside' held all⟩
      · obtain ⟨length, room, handled⟩ := read_handled atMost cut' inside'
        have some : 0 < bytes.length := List.length_pos_of_ne_nil nothing
        obtain ⟨calls, processed, later', handled', split, next⟩ := resume_data_some nothing resumed
        rw [handled] at handled'
        obtain ⟨rfl, rfl⟩ := Prod.mk.inj (Option.some.inj handled')
        have more := complete_add messages (Nat.le_add_right p bytes.length)
        have all' : handlerCalls (complete messages (p + bytes.length)) ++ later' = handlerCalls messages := by
          rw [← all, split, more]
          simp [handlerCalls]
        have owed' : settled messages (p + bytes.length) + weights later' = (encodeAll messages).length := by
          rw [← weights_handlerCalls messages, ← all', weights_append, weights_handlerCalls, settled]
        rcases next with ⟨positive, remaining, shifted, resumed'⟩ | ⟨stalled, resumed'⟩
        · have progress : settled messages p < settled messages (p + bytes.length) := by omega
          simp only [shift, Int.toNat_natCast] at shifted
          split at shifted
          · next apart =>
            have moved : remaining = pending messages (p + bytes.length) := by
              cases shifted
              exact pending_next cut'
            rw [moved] at resumed'
            refine ⟨?_, ih rest inside' resumed' all'⟩
            simp only [ReadKept, if_neg nothing, if_pos progress]
            omega
          · cases shifted
        · -- nothing was completed, and the bytes at hand are gone
          have light := resume_accounted resumed'
          have := settled_add messages (Nat.le_add_right p bytes.length)
          rw [List.length_nil] at light
          omega

/-- What the connection tells the handler is what the uncut stream would, as soon
    as an `int` can count the bytes and no read loses anything; and only then,
    unless the stream ends in a backtrace, of which the server never knows. -/
theorem reassembled_iff (messages : List LibraryMessage) (reads : List Read)
    (cut : delivered reads = encodeAll messages) :
    (settled messages (encodeAll messages).length < 2 ^ 31 → Clean messages 0 reads → Reassembled messages reads) ∧
      (¬ EndsInBacktrace messages → Reassembled messages reads →
        settled messages (encodeAll messages).length < 2 ^ 31 ∧ Clean messages 0 reads) := by
  have nothing : complete messages 0 = [] := by
    cases messages with
    | nil => rfl
    | cons m rest =>
      have positive : ¬ Message.needed m.message ≤ 0 := by
        have := m.message.size_pos
        have := Message.size_le_needed m.message
        omega
      simp [complete, positive]
  have start : pending messages 0 = [] := by simp [pending]
  constructor
  · intro counts clean
    obtain ⟨later, resumed, all⟩ := resume_of_clean (p := 0) cut (Nat.zero_le _) clean
    refine ⟨_, _, by rw [doProcessDataRead_encodeAll, if_pos counts], ?_⟩
    rw [connection_eq_resume, ← start, resumed, ← all, nothing]
    rfl
  · rintro other ⟨calls, size, uncut, connected⟩
    have complete := (complete_all_iff messages).mpr other
    rw [doProcessDataRead_encodeAll] at uncut
    split at uncut
    · next counts =>
      cases uncut
      refine ⟨counts, clean_of_resume cut (Nat.zero_le _) (by rw [start, ← connection_eq_resume, connected]) ?_⟩
      rw [nothing, complete]
      rfl
    · cases uncut

/-- The first messages of a session: the application, then an allocation. -/
def firstMessages : List LibraryMessage :=
  [⟨.app ⟨1, 2, 3, 1, 1⟩, by decide⟩, ⟨.memory ⟨1, 2, 3, 2, 11⟩ ⟨100, 4096, 1, 0⟩, by decide⟩]

/-- A read of one message and the beginning of the next, then a read of the rest. -/
theorem reassembled_iff_two_reads :
    Reassembled firstMessages [.data ((encodeAll firstMessages).take 40) (by decide +kernel),
      .data ((encodeAll firstMessages).drop 40) (by decide +kernel), .data [] (by decide)] :=
  (reassembled_iff firstMessages [.data ((encodeAll firstMessages).take 40) (by decide +kernel),
      .data ((encodeAll firstMessages).drop 40) (by decide +kernel), .data [] (by decide)] (by decide +kernel)).1
    (by decide +kernel) (by decide +kernel)

/-- An application message, then a backtrace with a list of addresses that reads like one. -/
def echoedMessages : List LibraryMessage :=
  [⟨.app ⟨0, 0, 0, 0, 1⟩, by decide⟩,
    ⟨.backtrace ⟨0, 0, 0, 0, 41⟩ ⟨0, 4, ⟨[1, 0, 0, 2 ^ 48] ++ List.replicate 46 0, by decide⟩⟩, by decide⟩]

def echoedReads : List Read :=
  [.data ((encodeAll echoedMessages).take 10) (by decide +kernel),
    .data (((encodeAll echoedMessages).drop 10).take 57) (by decide +kernel),
    .data (((encodeAll echoedMessages).drop 67).take 31) (by decide +kernel),
    .data ((encodeAll echoedMessages).drop 98) (by decide +kernel)]

/-- Why a last backtrace is left out: the application message is lost, and the
    addresses make up for it. -/
theorem reassembled_unclean :
    delivered echoedReads = encodeAll echoedMessages ∧ Reassembled echoedMessages echoedReads ∧
      ¬ Clean echoedMessages 0 echoedReads := by
  refine ⟨by decide +kernel, ⟨[.newConnection], 31, ?_, ?_⟩, by decide +kernel⟩
  · decide +kernel
  · decide +kernel

/-- Ten bytes of the first message complete nothing, so they are dropped. -/
theorem short_read_loses :
    ¬ ∀ (messages : List LibraryMessage) (reads : List Read), delivered reads = encodeAll messages →
      Reassembled messages reads := by
  intro claim
  obtain ⟨calls, size, uncut, connected⟩ := claim firstMessages
    [.data ((encodeAll firstMessages).take 10) (by decide +kernel),
      .data ((encodeAll firstMessages).drop 10) (by decide +kernel), .data [] (by decide)] (by decide +kernel)
  have two : (doProcessDataRead (encodeAll firstMessages)).map (fun outcome => outcome.1.length) = some 2 := by
    decide +kernel
  have none : connection [.data ((encodeAll firstMessages).take 10) (by decide +kernel),
      .data ((encodeAll firstMessages).drop 10) (by decide +kernel), .data [] (by decide)] = some [] := by
    decide +kernel
  rw [none] at connected
  cases connected
  rw [uncut] at two
  cases two

end Aleakd.Reassembly
