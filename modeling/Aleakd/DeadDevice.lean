import Aleakd.ReadBounds
import Aleakd.Wire

/-!
Whether `doReadMsg` returns. Its loop goes on as long as `read` does not give 0, and so
also after a failed read; from a device that only fails any more it returns only if the
bytes before that could not be processed.
-/
namespace Aleakd.DeadDevice
open Aleakd.Packed Aleakd.Messages Aleakd.Receiver Aleakd.Memory Aleakd.ReadBounds Aleakd.Wire
open Aleakd.Operations Aleakd.Framing Aleakd.Reassembly

/-! ## What is processed of the bytes at hand -/

/-- The result of `doProcessMsg`, from the bytes. -/
def messageResult (bytes : List UInt8) : Int :=
  if bytes.length < 2 then 0
  else if ¬ Version1 bytes then -1
  else if bytes.length < wanted (code bytes) then 0
  else length (code bytes)

/-- Behind any number of whole messages comes one of another version. -/
inductive Rejected : List UInt8 → Prop where
  | here {bytes : List UInt8} (version : 2 ≤ bytes.length) (other : ¬ Version1 bytes) : Rejected bytes
  | behind {bytes : List UInt8} (whole : Whole bytes) (later : Rejected (bytes.drop (length (code bytes)))) :
      Rejected bytes

/-- No whole message is in front of the bytes, or one of another version is among them. -/
def Refused (bytes : List UInt8) : Prop := ¬ Whole bytes ∨ Rejected bytes

theorem doProcessMsgV1DataCopies_bytes (code : UInt8) (start : Nat) {iMaxSize : Nat} (header : 29 ≤ iMaxSize)
    (fits : iMaxSize < 2 ^ 63) :
    (doProcessMsgV1DataCopies code start iMaxSize).2 =
      if iMaxSize + 2 < wanted code then 0 else (length code : Int) - 2 := by
  have headerSize := ServerMsgHeaderV1.layout_size
  have data : ∀ needed size : Nat, (doProcessDataCopies needed size start iMaxSize).2 =
      if iMaxSize + 2 < needed + 31 then 0 else ((size + 31 : Nat) : Int) - 2 := by
    intro needed size
    have available : (toSizeT (iMaxSize - ServerMsgHeaderV1.layout.size) : Int) = iMaxSize - 29 := by
      rw [headerSize]
      exact toSizeT_of_nonneg (by omega) (by omega)
    rw [doProcessDataCopies]
    by_cases short : toSizeT (iMaxSize - ServerMsgHeaderV1.layout.size) < needed
    · rw [if_pos short, if_pos (by omega)]
    · rw [if_neg short, if_neg (by omega)]
      show (ServerMsgHeaderV1.layout.size : Int) + size = _
      omega
  have only : ((ServerMsgHeaderV1.layout.size : Nat) : Int) =
      if iMaxSize + 2 < 31 then 0 else ((31 : Nat) : Int) - 2 := by
    rw [headerSize, if_neg (by omega)]
    rfl
  unfold doProcessMsgV1DataCopies wanted length
  by_cases app : code < 10
  · have none : ¬ (10 ≤ code ∧ code < 20) ∧ ¬ (30 ≤ code ∧ code < 40) ∧ ¬ (40 ≤ code ∧ code < 50) ∧
        ¬ (50 ≤ code ∧ code < 60) := by grind
    simp only [if_pos app, none, if_false]
    exact only
  by_cases memory : 10 ≤ code ∧ code < 20
  · simp only [if_neg app, if_pos memory]
    exact data 28 28
  by_cases thread : 30 ≤ code ∧ code < 40
  · simp only [if_neg app, if_neg memory, if_pos thread, ServerMsgThreadDataV1.layout_size]
    exact data 32 32
  by_cases backtrace : 40 ≤ code ∧ code < 50
  · simp only [if_neg app, if_neg memory, if_neg thread, if_pos backtrace, serverMsgV1_size,
      ServerMsgBacktraceDataV1.layout_size]
    exact data 436 405
  by_cases symbol : 50 ≤ code ∧ code < 60
  · simp only [if_neg app, if_neg memory, if_neg thread, if_neg backtrace, if_pos symbol,
      ServerMsgSymbolInfosDataV1.layout_size]
    exact data 376 376
  · simp only [if_neg app, if_neg memory, if_neg thread, if_neg backtrace, if_neg symbol]
    exact only

/-- `doProcessMsg` on bytes that lie in the memory. -/
theorem doProcessMsgCopies_bytes {memory bytes rest : List UInt8} {start : Nat} (fits : bytes.length < 2 ^ 63)
    (front : memory.drop start = bytes ++ rest) :
    (doProcessMsgCopies memory start bytes.length).2 = messageResult bytes := by
  have versionSize : uint16.size = 2 := rfl
  have headerSize := ServerMsgHeaderV1.layout_size
  have least := length_positive (code bytes)
  have most := length_le_wanted (code bytes)
  rw [doProcessMsgCopies, toSizeT_natCast (by omega), messageResult, versionSize]
  by_cases noVersion : bytes.length < 2
  · rw [if_pos noVersion, if_pos noVersion]
  rw [if_neg noVersion, if_neg noVersion]
  have version : uint16.unpack (memory.drop start) = uint16.unpack bytes := by
    rw [front]
    exact uint16_readsOwn bytes rest (Nat.not_lt.mp noVersion)
  have isFirst := version_unpack_iff (Nat.not_lt.mp noVersion)
  by_cases first : Version1 bytes
  · have available : (bytes.length : Int) - ((2 : Nat) : Int) = ((bytes.length - 2 : Nat) : Int) := by omega
    simp only [version, isFirst.mpr first, if_true, not_true, if_false, first, available, doProcessMsgV1Copies]
    rw [toSizeT_natCast (by omega), headerSize]
    by_cases noHeader : bytes.length - 2 < 29
    · have short : bytes.length < wanted (code bytes) := by omega
      simp only [if_pos noHeader, if_pos short]
      rfl
    · have header : ServerMsgHeaderV1.layout.unpack (memory.drop (start + 2)) =
          ServerMsgHeaderV1.layout.unpack (bytes.drop uint16.size) := by
        rw [← List.drop_drop, front, List.drop_append_of_le_length (Nat.not_lt.mp noVersion)]
        exact ServerMsgHeaderV1.layout_readsOwn _ rest (by rw [List.length_drop]; omega)
      have sizes : bytes.length - 2 + 2 = bytes.length := by omega
      rw [if_neg noHeader]
      simp only [header, msgCode_unpack]
      rw [doProcessMsgV1DataCopies_bytes (code bytes) _ (Nat.not_lt.mp noHeader) (by omega), sizes]
      by_cases short : bytes.length < wanted (code bytes)
      · rw [if_pos short, if_pos short]
        rfl
      · rw [if_neg short, if_neg short, if_pos (by omega)]
        omega
  · have other : ¬ uint16.unpack bytes = 1 := fun same => first (isFirst.mp same)
    simp only [version, other, if_false, first, not_false_iff, if_true]

/-! ### The whole loop -/

theorem messageResult_whole {bytes : List UInt8} (whole : Whole bytes) :
    messageResult bytes = length (code bytes) := by
  have least := length_positive (code bytes)
  have most := length_le_wanted (code bytes)
  have enough := whole.2
  rw [messageResult, if_neg (by omega), if_neg (not_not.mpr whole.1), if_neg (by omega)]

theorem messageResult_not_whole {bytes : List UInt8} (part : ¬ Whole bytes) :
    messageResult bytes = 0 ∧ ¬ Rejected bytes ∨ messageResult bytes = -1 ∧ Rejected bytes := by
  unfold messageResult
  split
  · next short =>
    refine .inl ⟨rfl, ?_⟩
    rintro (⟨version, _⟩ | ⟨whole, _⟩)
    · omega
    · exact part whole
  · next version =>
    split
    · next other => exact .inr ⟨rfl, .here (Nat.not_lt.mp version) other⟩
    · next first =>
      refine .inl ⟨if_pos (by_contra fun enough => part ⟨not_not.mp first, by omega⟩), ?_⟩
      rintro (⟨_, other⟩ | ⟨whole, _⟩)
      · exact first other
      · exact part whole

theorem rejected_iff_behind {bytes : List UInt8} (whole : Whole bytes) :
    Rejected bytes ↔ Rejected (bytes.drop (length (code bytes))) := by
  constructor
  · rintro (⟨_, other⟩ | ⟨_, later⟩)
    · exact absurd whole.1 other
    · exact later
  · exact .behind whole

/-- The loop of `doProcessDataRead` gives a negative result when it comes to another version,
    and otherwise passes the whole messages. -/
theorem doProcessDataReadFromCopies_bytes {memory bytes rest : List UInt8} {sizeRead : Nat}
    (fits : bytes.length < 2 ^ 63) (front : memory.drop sizeRead = bytes ++ rest) :
    (Rejected bytes → (doProcessDataReadFromCopies memory (sizeRead + bytes.length) sizeRead).2 < 0) ∧
      (¬ Rejected bytes → ∃ n : Nat,
        (doProcessDataReadFromCopies memory (sizeRead + bytes.length) sizeRead).2 = ((sizeRead + n : Nat) : Int) ∧
          (0 < n ↔ Whole bytes)) := by
  induction size : bytes.length using Nat.strong_induction_on generalizing bytes sizeRead with
  | _ size ih =>
    subst size
    rw [doProcessDataReadFromCopies]
    by_cases none : bytes = []
    · subst none
      have end_ : ¬ ((sizeRead : Int) < sizeRead + ([] : List UInt8).length) := by simp
      have part : ¬ Whole [] := by decide
      have accepted : ¬ Rejected [] := by
        rintro (⟨version, _⟩ | ⟨whole, _⟩)
        · exact absurd version (by decide)
        · exact part whole
      rw [if_neg end_]
      exact ⟨fun rejected => absurd rejected accepted, fun _ => ⟨0, rfl, iff_of_false (Nat.lt_irrefl 0) part⟩⟩
    · have some_ := List.length_pos_of_ne_nil none
      have more : (sizeRead : Int) < sizeRead + bytes.length := by omega
      have available : ((sizeRead : Int) + bytes.length - sizeRead) = bytes.length := by omega
      have first := doProcessMsgCopies_bytes fits front
      rw [if_pos more, available]
      by_cases whole : Whole bytes
      · have least := length_positive (code bytes)
        have within : length (code bytes) ≤ bytes.length := le_trans (length_le_wanted _) whole.2
        have later := ih (bytes.drop (length (code bytes))).length (by rw [List.length_drop]; omega)
          (by rw [List.length_drop]; omega) (drop_front front within) rfl
        have total : ((sizeRead + length (code bytes) : Nat) : Int) + (bytes.drop (length (code bytes))).length =
            sizeRead + bytes.length := by
          rw [List.length_drop]
          omega
        rw [messageResult_whole whole] at first
        rw [total] at later
        simp only [first, Int.toNat_natCast]
        rw [if_pos (by omega), rejected_iff_behind whole]
        refine ⟨later.1, fun accepted => ?_⟩
        obtain ⟨n, result, _⟩ := later.2 accepted
        refine ⟨length (code bytes) + n, ?_, iff_of_true (by omega) whole⟩
        rw [result]
        omega
      · rcases messageResult_not_whole whole with ⟨waiting, accepted⟩ | ⟨negative, rejected⟩
        · rw [waiting] at first
          simp only [first, Int.lt_irrefl, if_false, if_true]
          exact ⟨fun rejected => absurd rejected accepted, fun _ => ⟨0, rfl, iff_of_false (Nat.lt_irrefl 0) whole⟩⟩
        · rw [negative] at first
          refine ⟨fun _ => ?_, fun accepted => absurd rejected accepted⟩
          simp only [first]
          rw [if_neg (by decide), if_neg (by decide)]
          show (-1 : Int) < 0
          decide

/-- Nothing of the bytes is processed exactly when they are refused. -/
theorem doProcessDataReadCopies_iff {memory bytes : List UInt8} (fits : bytes.length < 2 ^ 63)
    (front : memory.take bytes.length = bytes) :
    0 < (doProcessDataReadCopies memory bytes.length).2 ↔ ¬ Refused bytes := by
  have start : memory.drop 0 = bytes ++ memory.drop bytes.length :=
    calc memory = memory.take bytes.length ++ memory.drop bytes.length := (List.take_append_drop _ _).symm
      _ = bytes ++ memory.drop bytes.length := by rw [front]
  have both := doProcessDataReadFromCopies_bytes fits start
  rw [Nat.cast_zero, Int.zero_add] at both
  rw [doProcessDataReadCopies, Refused, not_or, not_not]
  by_cases rejected : Rejected bytes
  · have negative := both.1 rejected
    exact iff_of_false (by omega) fun refused => refused.2 rejected
  · obtain ⟨n, result, passed⟩ := both.2 rejected
    rw [result, ← passed]
    constructor
    · intro positive
      exact ⟨by omega, rejected⟩
    · rintro ⟨positive, _⟩
      omega

/-! ## The loop of `doReadMsg` -/

/-- Where the loop stands: before a read, or past its end, or past a read that did not fit. -/
inductive Loop where
  | reading (s : ReadBuffer)
  | returned
  | overrun

section Loop
-- what a `memcpy` of so many bytes from this far on to the start leaves where it overlaps itself
variable (overlapped : List.Vector UInt8 readBufferSize → Nat → Nat → List.Vector UInt8 readBufferSize)

/-- `memcpy(pBuffer, pBuffer + processed, remaining)`. -/
def move (content : List.Vector UInt8 readBufferSize) (processed remaining : Nat) :
    List.Vector UInt8 readBufferSize :=
  if remaining ≤ processed then
    (memcpy content 0 ((content.val.drop processed).take remaining)).getD content
  else overlapped content processed remaining

/-- One round, with the read that it makes. -/
def round (s : ReadBuffer) : Read → Loop
  | .error => .reading s
  | .data bytes _ =>
    if bytes = [] then .returned
    else
      match memcpy s.content s.bufferReadSize bytes with
      | none => .overrun
      | some filled =>
        let processed := (doProcessDataReadCopies filled.val (s.bufferReadSize + bytes.length)).2
        if 0 < processed then
          .reading ⟨move overlapped filled processed.toNat (s.bufferReadSize + bytes.length - processed.toNat),
            s.bufferReadSize + bytes.length - processed.toNat⟩
        else .returned

/-- The loop after its first rounds, on a buffer that holds anything at first. -/
def loopAfter (content : List.Vector UInt8 readBufferSize) (reads : Nat → Read) : Nat → Loop
  | 0 => .reading ⟨content, 0⟩
  | n + 1 =>
    match loopAfter content reads n with
    | .reading s => round overlapped s (reads n)
    | done => done

/-- It comes to its end, after finitely many reads. -/
def Returns (content : List.Vector UInt8 readBufferSize) (reads : Nat → Read) : Prop :=
  ∃ n, loopAfter overlapped content reads n = .returned

/-- The read makes the loop end: it gives 0, or bytes of which nothing can be processed. -/
def Ends (s : ReadBuffer) : Read → Prop
  | .error => False
  | .data bytes _ => bytes = [] ∨ Refused (s.held ++ bytes)

/-! ### One round -/

theorem move_moved (content : List.Vector UInt8 readBufferSize) (processed remaining : Nat) :
    Moved content processed remaining (move overlapped content processed remaining) := by
  intro apart
  obtain ⟨after, copied⟩ := exists_shifted content processed remaining
  rw [move, if_pos apart, copied]
  rfl

/-- A round goes on as a step does, unless the read makes the loop end. -/
theorem round_cases {s : ReadBuffer} (small : s.bufferReadSize ≤ 466) (read : Read) :
    Ends s read ∧ round overlapped s read = .returned ∨
      ¬ Ends s read ∧ ∃ next, round overlapped s read = .reading next ∧ Step s read next := by
  cases read with
  | error => exact .inr ⟨id, s, rfl, .error s⟩
  | data bytes atMost =>
    by_cases none : bytes = []
    · exact .inl ⟨.inl none, if_pos none⟩
    obtain ⟨filled, read, _⟩ := read_inside s small atMost
    have length := held_append_length small bytes
    have front : filled.val.take (s.held ++ bytes).length = s.held ++ bytes := by
      rw [length]
      exact held_filled read
    have processed := doProcessDataReadCopies_iff (by omega) front
    rw [length, Nat.cast_add] at processed
    simp only [round, if_neg none, read]
    by_cases refused : Refused (s.held ++ bytes)
    · exact .inl ⟨.inr refused, if_neg fun positive => processed.mp positive refused⟩
    · have positive := processed.mpr refused
      exact .inr ⟨fun ends => ends.elim none refused, _, if_pos positive,
        .data none read rfl positive (move_moved overlapped _ _ _)⟩

/-! ### The whole call -/

section Call
variable {content : List.Vector UInt8 readBufferSize} {reads : Nat → Read}

theorem loopAfter_next {n : Nat} {s : ReadBuffer} (here : loopAfter overlapped content reads n = .reading s) :
    loopAfter overlapped content reads (n + 1) = round overlapped s (reads n) := by
  rw [loopAfter, here]

/-- Before each read little of the buffer is in use, so that no read goes past its end. -/
theorem loopAfter_cases (n : Nat) :
    loopAfter overlapped content reads n = .returned ∨
      ∃ s, loopAfter overlapped content reads n = .reading s ∧ s.bufferReadSize ≤ 466 := by
  induction n with
  | zero => exact .inr ⟨⟨content, 0⟩, rfl, Nat.zero_le _⟩
  | succ n ih =>
    rcases ih with returned | ⟨s, here, small⟩
    · rw [loopAfter, returned]
      exact .inl rfl
    · rw [loopAfter_next overlapped here]
      rcases round_cases overlapped small (reads n) with ⟨_, returned⟩ | ⟨_, next, goesOn, step⟩
      · exact .inl returned
      · exact .inr ⟨next, goesOn, step_small small step⟩

/-- The call returns from the first read on that makes the loop end. -/
theorem loopAfter_returned_iff (n : Nat) :
    loopAfter overlapped content reads n = .returned ↔
      ∃ k < n, ∃ s, loopAfter overlapped content reads k = .reading s ∧ Ends s (reads k) := by
  induction n with
  | zero =>
    refine iff_of_false Loop.noConfusion ?_
    rintro ⟨k, before, _⟩
    exact Nat.not_lt_zero k before
  | succ n ih =>
    constructor
    · intro returned
      rcases loopAfter_cases overlapped n with before | ⟨s, here, small⟩
      · obtain ⟨k, before, ended⟩ := ih.mp before
        exact ⟨k, Nat.lt_succ_of_lt before, ended⟩
      · rw [loopAfter_next overlapped here] at returned
        rcases round_cases overlapped small (reads n) with ⟨ends, _⟩ | ⟨_, next, goesOn, _⟩
        · exact ⟨n, Nat.lt_succ_self n, s, here, ends⟩
        · rw [goesOn] at returned
          cases returned
    · rintro ⟨k, before, ended⟩
      by_cases earlier : k < n
      · rw [loopAfter, ih.mpr ⟨k, earlier, ended⟩]
      · obtain rfl : k = n := by omega
        obtain ⟨s, here, ends⟩ := ended
        rcases loopAfter_cases overlapped k with returned | ⟨_, here', small⟩
        · rw [returned] at here
          cases here
        · rw [here'] at here
          cases here
          rw [loopAfter_next overlapped here']
          rcases round_cases overlapped small (reads k) with ⟨_, returned⟩ | ⟨goesOn, _⟩
          · exact returned
          · exact absurd ends goesOn

end Call
end Loop

/-! ## A device that gives nothing any more -/

/-- From the `n`th read on the device has no bytes. -/
def ZeroFrom (reads : Nat → Read) (n : Nat) : Prop := ∀ k, n ≤ k → reads k = .data [] (Nat.zero_le _)

/-- From the `n`th read on the reads fail. -/
def ErrorFrom (reads : Nat → Read) (n : Nat) : Prop := ∀ k, n ≤ k → reads k = .error

section Dead
variable (overlapped : List.Vector UInt8 readBufferSize → Nat → Nat → List.Vector UInt8 readBufferSize)

/-- On a device that gives nothing any more, the call returns if that is no failure, or if
    it has returned already. -/
theorem returns_iff (content : List.Vector UInt8 readBufferSize) {reads : Nat → Read} {n : Nat}
    (dead : ZeroFrom reads n ∨ ErrorFrom reads n) :
    Returns overlapped content reads ↔
      ZeroFrom reads n ∨ ∃ k < n, ∃ s, loopAfter overlapped content reads k = .reading s ∧ Ends s (reads k) := by
  constructor
  · rintro ⟨m, returned⟩
    obtain ⟨k, _, s, here, ends⟩ := (loopAfter_returned_iff overlapped m).mp returned
    rcases dead with zero | error
    · exact .inl zero
    · refine .inr ⟨k, ?_, s, here, ends⟩
      by_contra late
      rw [error k (Nat.not_lt.mp late)] at ends
      exact ends
  · rintro (zero | ended)
    · rcases loopAfter_cases overlapped n with returned | ⟨s, there, _⟩
      · exact ⟨n, returned⟩
      · refine ⟨n + 1, (loopAfter_returned_iff overlapped (n + 1)).mpr ⟨n, Nat.lt_succ_self n, s, there, ?_⟩⟩
        rw [zero n (Nat.le_refl n)]
        exact .inl rfl
    · exact ⟨n, (loopAfter_returned_iff overlapped n).mpr ended⟩

end Dead

/-- A device with 40 bytes of a stream and no more. -/
def fortyBytes : Nat → Read
  | 0 => .data ((encodeAll firstMessages).take 40) firstMessages_take
  | _ + 1 => .data [] (Nat.zero_le _)

theorem fortyBytes_zero : ZeroFrom fortyBytes 1 := by
  intro k later
  obtain ⟨k, rfl⟩ := Nat.exists_eq_add_of_le' later
  rfl

/-- A device with 10 bytes of it, of which nothing can be processed, that then fails. -/
def tenBytes : Nat → Read
  | 0 => .data ((encodeAll firstMessages).take 10) ((List.length_take_le _ _).trans (by decide))
  | _ + 1 => .error

theorem tenBytes_error : ErrorFrom tenBytes 1 := by
  intro k later
  obtain ⟨k, rfl⟩ := Nat.exists_eq_add_of_le' later
  rfl

theorem returns_fortyBytes :
    Returns (fun content _ _ => content) (List.Vector.replicate readBufferSize 0) fortyBytes ∧
      Returns (fun content _ _ => content) (List.Vector.replicate readBufferSize 0) tenBytes := by
  refine ⟨(returns_iff _ _ (.inl fortyBytes_zero)).mpr (.inl fortyBytes_zero),
    (returns_iff _ _ (.inr tenBytes_error)).mpr (.inr ⟨0, Nat.one_pos, _, rfl, .inr (.inl ?_)⟩)⟩
  rintro ⟨_, enough⟩
  revert enough
  decide +kernel

/-- A device whose every read fails is read for ever. -/
theorem failing_device_read_on : ¬ ∀ (overlapped : List.Vector UInt8 readBufferSize → Nat → Nat →
    List.Vector UInt8 readBufferSize) (content : List.Vector UInt8 readBufferSize) (reads : Nat → Read) (n : Nat),
    ZeroFrom reads n ∨ ErrorFrom reads n → Returns overlapped content reads := by
  intro claim
  have fails : ErrorFrom (fun _ => .error) 0 := fun _ _ => rfl
  obtain ⟨n, returned⟩ := claim (fun content _ _ => content) (List.Vector.replicate readBufferSize 0) _ 0 (.inr fails)
  obtain ⟨_, _, _, _, ends⟩ := (loopAfter_returned_iff _ n).mp returned
  exact ends

end Aleakd.DeadDevice
