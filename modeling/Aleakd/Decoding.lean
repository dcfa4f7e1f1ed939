import Aleakd.Reassembly
import Aleakd.Wire

/-!
What `doProcessMsg` reads of the structures that it has copied a message to. The count of
a backtrace and the ends of the names come from the wire and are not looked at before, so
that it depends on the bytes whether these reads stay inside the structures.
-/
namespace Aleakd.Decoding
open Aleakd.Packed Aleakd.Messages Aleakd.Operations Aleakd.Receiver Aleakd.Reassembly Aleakd.Wire

/-- A read of a structure in which the bytes decide how far it goes. -/
inductive Access where
  /-- `data.list_addr[i]` -/
  | listAddr (i : Nat)
  /-- the characters that a `QString` is made from -/
  | qString (field : List UInt8)
deriving DecidableEq

/-- The index is one of the array, or the string ends in its field. -/
def Access.Inside : Access → Prop
  | .listAddr i => i < backtraceMaxSize
  | .qString field => 0 ∈ field

instance Access.Inside.decidable : (access : Access) → Decidable access.Inside
  | .listAddr i => inferInstanceAs (Decidable (i < backtraceMaxSize))
  | .qString field => inferInstanceAs (Decidable (0 ∈ field))

/-! ## The accesses of `doProcessMsg` -/

def threadAccesses (data : ServerMsgThreadDataV1) : List Access := [.qString data.threadName.val]

def backtraceAccesses (data : ServerMsgBacktraceDataV1) : List Access :=
  (List.range data.backtraceSize.toNat).map .listAddr

def symbolInfosAccesses (data : ServerMsgSymbolInfosDataV1) : List Access :=
  [.qString data.objectName.val, .qString data.symbolName.val]

/-- A branch of `doProcessMsgV1`, for a message with data. -/
def doProcessDataAccesses {Data : Type} (layout : Layout Data) (needed : Nat) (accesses : Data → List Access)
    (pBuffer : List UInt8) : List Access :=
  if pBuffer.length < needed then [] else accesses (layout.unpack pBuffer)

def doProcessMsgV1DataAccesses (code : UInt8) (pBuffer : List UInt8) : List Access :=
  if code < 10 then []
  else if 10 ≤ code ∧ code < 20 then
    doProcessDataAccesses ServerMsgMemoryDataV1.layout ServerMsgMemoryDataV1.layout.size (fun _ => []) pBuffer
  else if 30 ≤ code ∧ code < 40 then
    doProcessDataAccesses ServerMsgThreadDataV1.layout ServerMsgThreadDataV1.layout.size threadAccesses pBuffer
  else if 40 ≤ code ∧ code < 50 then
    doProcessDataAccesses ServerMsgBacktraceDataV1.layout (serverMsgV1 ServerMsgBacktraceDataV1.layout).size
      backtraceAccesses pBuffer
  else if 50 ≤ code ∧ code < 60 then
    doProcessDataAccesses ServerMsgSymbolInfosDataV1.layout ServerMsgSymbolInfosDataV1.layout.size
      symbolInfosAccesses pBuffer
  else []

def doProcessMsgV1Accesses (pBuffer : List UInt8) : List Access :=
  if pBuffer.length < ServerMsgHeaderV1.layout.size then []
  else
    doProcessMsgV1DataAccesses (ServerMsgHeaderV1.layout.unpack pBuffer).msgCode
      (pBuffer.drop ServerMsgHeaderV1.layout.size)

def doProcessMsgAccesses (pBuffer : List UInt8) : List Access :=
  if pBuffer.length < uint16.size then []
  else if uint16.unpack pBuffer = 1 then doProcessMsgV1Accesses (pBuffer.drop uint16.size)
  else []

/-! ## Where the decoding is defined -/

theorem cString_isSome_iff (field : List UInt8) : (cString field).isSome ↔ 0 ∈ field := by
  unfold cString
  split
  · next ends => exact iff_of_true rfl ends
  · next unterminated => exact iff_of_false Bool.false_ne_true unterminated

theorem threadOperation_isSome_iff (header : ServerMsgHeaderV1) (data : ServerMsgThreadDataV1) :
    (threadOperation header data).isSome ↔ ∀ access ∈ threadAccesses data, access.Inside := by
  have name := cString_isSome_iff data.threadName.val
  simp only [threadOperation, Option.bind_eq_bind, Option.pure_def, threadAccesses, List.forall_mem_singleton,
    Access.Inside, ← name]
  cases cString data.threadName.val <;> simp

theorem backtrace_isSome_iff (data : ServerMsgBacktraceDataV1) :
    (backtrace data).isSome ↔ ∀ access ∈ backtraceAccesses data, access.Inside := by
  unfold backtrace
  constructor
  · intro defined access member
    obtain ⟨i, index, rfl⟩ := List.mem_map.mp member
    split at defined
    · next fits => exact Nat.lt_of_lt_of_le (List.mem_range.mp index) fits
    · cases defined
  · intro inside
    by_cases fits : data.backtraceSize.toNat ≤ backtraceMaxSize
    · rw [if_pos fits]
      rfl
    · -- the first index behind the array is used
      have member : Access.listAddr backtraceMaxSize ∈ backtraceAccesses data :=
        List.mem_map_of_mem (List.mem_range.mpr (Nat.not_le.mp fits))
      exact absurd (inside _ member) (Nat.lt_irrefl _)

theorem symbolInfos_isSome_iff (data : ServerMsgSymbolInfosDataV1) :
    (symbolInfos data).isSome ↔ ∀ access ∈ symbolInfosAccesses data, access.Inside := by
  have objectName := cString_isSome_iff data.objectName.val
  have symbolName := cString_isSome_iff data.symbolName.val
  simp only [symbolInfos, Option.bind_eq_bind, Option.pure_def, symbolInfosAccesses, List.forall_mem_cons,
    List.not_mem_nil, Access.Inside, ← objectName, ← symbolName]
  cases cString data.objectName.val <;> cases cString data.symbolName.val <;> simp

theorem doProcessData_isSome_iff {Data : Type} {layout : Layout Data} {needed : Nat}
    {callback : Data → Option Callback} {accesses : Data → List Access} (whole : layout.size ≤ needed)
    (defined : ∀ data, (callback data).isSome ↔ ∀ access ∈ accesses data, access.Inside) (pBuffer : List UInt8) :
    (doProcessData layout needed callback pBuffer).isSome ↔
      ∀ access ∈ doProcessDataAccesses layout needed accesses pBuffer, access.Inside := by
  unfold doProcessData doProcessDataAccesses
  by_cases short : pBuffer.length < needed
  · rw [if_pos short, if_pos short]
    exact iff_of_true rfl (by simp)
  · have copied : layout.read pBuffer = some (layout.unpack pBuffer) := if_pos (by omega)
    rw [if_neg short, if_neg short, copied, ← defined]
    simp only [Option.bind_eq_bind, Option.bind_some]
    cases callback (layout.unpack pBuffer) <;> simp

theorem doProcessMsgV1Data_isSome_iff (header : ServerMsgHeaderV1) (pBuffer : List UInt8) :
    (doProcessMsgV1Data header pBuffer).isSome ↔
      ∀ access ∈ doProcessMsgV1DataAccesses header.msgCode pBuffer, access.Inside := by
  have mapped : ∀ {α : Type} (make : α → Callback) (decoded : Option α),
      (decoded.map make).isSome = decoded.isSome := fun make decoded => Option.isSome_map
  simp only [doProcessMsgV1Data, doProcessMsgV1DataAccesses]
  split_ifs
  · simp
  · exact iff_of_true rfl (by simp)
  · refine doProcessData_isSome_iff (Nat.le_refl _) (fun data => ?_) pBuffer
    exact iff_of_true rfl (by simp)
  · refine doProcessData_isSome_iff (Nat.le_refl _) (fun data => ?_) pBuffer
    rw [mapped]
    exact threadOperation_isSome_iff header data
  · refine doProcessData_isSome_iff (by rw [serverMsgV1_size]; omega) (fun data => ?_) pBuffer
    rw [mapped]
    exact backtrace_isSome_iff data
  · refine doProcessData_isSome_iff (Nat.le_refl _) (fun data => ?_) pBuffer
    rw [mapped]
    exact symbolInfos_isSome_iff data
  · simp

/-- The decoding has a result exactly when all that it reads of the structures lies in them. -/
theorem doProcessMsg_isSome_iff (pBuffer : List UInt8) :
    (doProcessMsg pBuffer).isSome ↔ ∀ access ∈ doProcessMsgAccesses pBuffer, access.Inside := by
  unfold doProcessMsg doProcessMsgAccesses
  by_cases noVersion : pBuffer.length < uint16.size
  · rw [if_pos noVersion, if_pos noVersion]
    exact iff_of_true rfl (by simp)
  have version : uint16.read pBuffer = some (uint16.unpack pBuffer) := if_pos (Nat.not_lt.mp noVersion)
  rw [if_neg noVersion, if_neg noVersion, version]
  simp only [Option.bind_eq_bind, Option.bind_some]
  by_cases first : uint16.unpack pBuffer = 1
  · rw [if_pos first, if_pos first]
    generalize pBuffer.drop uint16.size = pBuffer
    have bound : ((doProcessMsgV1 pBuffer).bind fun handled =>
        some (handled.1, if 0 < handled.2 then (uint16.size : Int) + handled.2 else handled.2)).isSome =
          (doProcessMsgV1 pBuffer).isSome := by
      cases doProcessMsgV1 pBuffer <;> rfl
    refine (Bool.coe_iff_coe.mpr bound).trans ?_
    unfold doProcessMsgV1 doProcessMsgV1Accesses
    by_cases noHeader : pBuffer.length < ServerMsgHeaderV1.layout.size
    · rw [if_pos noHeader, if_pos noHeader]
      exact iff_of_true rfl (by simp)
    · have header : ServerMsgHeaderV1.layout.read pBuffer = some (ServerMsgHeaderV1.layout.unpack pBuffer) :=
        if_pos (Nat.not_lt.mp noHeader)
      rw [if_neg noHeader, if_neg noHeader, header]
      exact doProcessMsgV1Data_isSome_iff _ _
  · rw [if_neg first, if_neg first]
    exact iff_of_true rfl (by simp)

/-! ## From the bytes -/

/-- The count of a backtrace fits the array, and the names end in their fields. -/
structure Contained (pBuffer : List UInt8) : Prop where
  threadName : 30 ≤ code pBuffer ∧ code pBuffer < 40 → 0 ∈ (pBuffer.drop 39).take 24
  backtraceSize : 40 ≤ code pBuffer ∧ code pBuffer < 50 → (pBuffer.getD 35 0).toNat ≤ backtraceMaxSize
  objectName : 50 ≤ code pBuffer ∧ code pBuffer < 60 → 0 ∈ (pBuffer.drop 39).take 256
  symbolName : 50 ≤ code pBuffer ∧ code pBuffer < 60 → 0 ∈ (pBuffer.drop 303).take 96

theorem threadAccesses_inside_iff {pBuffer : List UInt8} (whole : 63 ≤ pBuffer.length) :
    (∀ access ∈ threadAccesses (ServerMsgThreadDataV1.layout.unpack (pBuffer.drop 31)), access.Inside) ↔
      0 ∈ (pBuffer.drop 39).take 24 := by
  have size : ServerMsgThreadDataV1.layout.size ≤ (pBuffer.drop 31).length := by
    rw [ServerMsgThreadDataV1.layout_size, List.length_drop]
    omega
  simp only [threadAccesses, List.forall_mem_singleton, Access.Inside, threadName_unpack size, List.drop_drop]

theorem backtraceAccesses_inside_iff (pBuffer : List UInt8) :
    (∀ access ∈ backtraceAccesses (ServerMsgBacktraceDataV1.layout.unpack (pBuffer.drop 31)), access.Inside) ↔
      (pBuffer.getD 35 0).toNat ≤ backtraceMaxSize := by
  have place : (pBuffer.drop 31).getD 4 0 = pBuffer.getD 35 0 := by simp
  rw [← backtrace_isSome_iff, backtrace, backtraceSize_unpack, place]
  split
  · next fits => exact iff_of_true rfl fits
  · next beyond => exact iff_of_false Bool.false_ne_true beyond

theorem symbolInfosAccesses_inside_iff {pBuffer : List UInt8} (whole : 407 ≤ pBuffer.length) :
    (∀ access ∈ symbolInfosAccesses (ServerMsgSymbolInfosDataV1.layout.unpack (pBuffer.drop 31)), access.Inside) ↔
      0 ∈ (pBuffer.drop 39).take 256 ∧ 0 ∈ (pBuffer.drop 303).take 96 := by
  have size : ServerMsgSymbolInfosDataV1.layout.size ≤ (pBuffer.drop 31).length := by
    rw [ServerMsgSymbolInfosDataV1.layout_size, List.length_drop]
    omega
  simp only [symbolInfosAccesses, List.forall_mem_cons, List.not_mem_nil, Access.Inside, objectName_unpack size,
    symbolName_unpack size, List.drop_drop, false_imp_iff, implies_true, and_true]

theorem doProcessDataAccesses_inside_iff {Data : Type} (layout : Layout Data) (needed : Nat)
    (accesses : Data → List Access) (pBuffer : List UInt8) :
    (∀ access ∈ doProcessDataAccesses layout needed accesses pBuffer, access.Inside) ↔
      (needed ≤ pBuffer.length → ∀ access ∈ accesses (layout.unpack pBuffer), access.Inside) := by
  unfold doProcessDataAccesses
  by_cases short : pBuffer.length < needed
  · rw [if_pos short]
    exact iff_of_true (by simp) fun enough => absurd enough (Nat.not_le.mpr short)
  · rw [if_neg short]
    exact ⟨fun inside _ => inside, fun inside => inside (Nat.not_lt.mp short)⟩

/-- The accesses behind a header of version 1. -/
theorem dataAccesses_inside_iff (pBuffer : List UInt8) (header : 31 ≤ pBuffer.length) :
    (∀ access ∈ doProcessMsgV1DataAccesses (code pBuffer) (pBuffer.drop 31), access.Inside) ↔
      (wanted (code pBuffer) ≤ pBuffer.length → Contained pBuffer) := by
  have behind : (pBuffer.drop 31).length = pBuffer.length - 31 := List.length_drop
  by_cases thread : 30 ≤ code pBuffer ∧ code pBuffer < 40
  · have bytes : wanted (code pBuffer) = 63 := by rw [wanted, if_neg (by grind), if_pos thread]
    rw [doProcessMsgV1DataAccesses, if_neg (by grind), if_neg (by grind), if_pos thread,
      doProcessDataAccesses_inside_iff, ServerMsgThreadDataV1.layout_size, behind, bytes]
    constructor
    · intro inside enough
      have name := (threadAccesses_inside_iff enough).mp (inside (by omega))
      exact ⟨fun _ => name, by grind, by grind, by grind⟩
    · intro contained enough
      have whole : 63 ≤ pBuffer.length := by omega
      exact (threadAccesses_inside_iff whole).mpr ((contained whole).threadName thread)
  by_cases backtrace : 40 ≤ code pBuffer ∧ code pBuffer < 50
  · have bytes : wanted (code pBuffer) = 467 := by
      rw [wanted, if_neg (by grind), if_neg thread, if_pos backtrace]
    rw [doProcessMsgV1DataAccesses, if_neg (by grind), if_neg (by grind), if_neg thread, if_pos backtrace,
      doProcessDataAccesses_inside_iff, serverMsgV1_size, ServerMsgBacktraceDataV1.layout_size, behind, bytes,
      backtraceAccesses_inside_iff]
    constructor
    · intro inside enough
      have count := inside (by omega)
      exact ⟨by grind, fun _ => count, by grind, by grind⟩
    · intro contained enough
      exact (contained (by omega)).backtraceSize backtrace
  by_cases symbol : 50 ≤ code pBuffer ∧ code pBuffer < 60
  · have bytes : wanted (code pBuffer) = 407 := by
      rw [wanted, if_neg (by grind), if_neg thread, if_neg backtrace, if_pos symbol]
    rw [doProcessMsgV1DataAccesses, if_neg (by grind), if_neg (by grind), if_neg thread, if_neg backtrace,
      if_pos symbol, doProcessDataAccesses_inside_iff, ServerMsgSymbolInfosDataV1.layout_size, behind, bytes]
    constructor
    · intro inside enough
      obtain ⟨objectName, symbolName⟩ := (symbolInfosAccesses_inside_iff enough).mp (inside (by omega))
      exact ⟨by grind, by grind, fun _ => objectName, fun _ => symbolName⟩
    · intro contained enough
      have whole : 407 ≤ pBuffer.length := by omega
      exact (symbolInfosAccesses_inside_iff whole).mpr
        ⟨(contained whole).objectName symbol, (contained whole).symbolName symbol⟩
  · refine iff_of_true ?_ fun _ => ⟨fun yes => absurd yes thread, fun yes => absurd yes backtrace,
      fun yes => absurd yes symbol, fun yes => absurd yes symbol⟩
    unfold doProcessMsgV1DataAccesses
    split_ifs
    · simp
    · rw [doProcessDataAccesses_inside_iff]
      simp
    · simp

/-- The same for whole buffers: it is a matter of some of their bytes. -/
theorem accesses_inside_iff (pBuffer : List UInt8) :
    (∀ access ∈ doProcessMsgAccesses pBuffer, access.Inside) ↔ (Whole pBuffer → Contained pBuffer) := by
  have least : ∀ code, 31 ≤ wanted code := fun code => le_trans (length_positive code) (length_le_wanted code)
  have versionSize : uint16.size = 2 := rfl
  have headerSize := ServerMsgHeaderV1.layout_size
  unfold doProcessMsgAccesses
  by_cases noVersion : pBuffer.length < uint16.size
  · rw [if_pos noVersion]
    refine iff_of_true (by simp) fun whole => ?_
    have enough := le_trans (least _) whole.2
    omega
  rw [if_neg noVersion]
  by_cases first : Version1 pBuffer
  · rw [if_pos ((version_unpack_iff (Nat.not_lt.mp noVersion)).mpr first), doProcessMsgV1Accesses]
    by_cases noHeader : (pBuffer.drop uint16.size).length < ServerMsgHeaderV1.layout.size
    · rw [if_pos noHeader]
      refine iff_of_true (by simp) fun whole => ?_
      have enough := le_trans (least _) whole.2
      rw [List.length_drop] at noHeader
      omega
    · rw [if_neg noHeader, msgCode_unpack, List.drop_drop]
      rw [List.length_drop] at noHeader
      have accesses := dataAccesses_inside_iff pBuffer (by omega)
      exact accesses.trans ⟨fun contained whole => contained whole.2, fun contained enough => contained ⟨first, enough⟩⟩
  · rw [if_neg fun same => first ((version_unpack_iff (Nat.not_lt.mp noVersion)).mp same)]
    exact iff_of_true (by simp) fun whole => absurd whole.1 first

/-! ## What the handler sees -/

theorem doProcessMsgV1Data_own {header : ServerMsgHeaderV1} {pBuffer tail : List UInt8} {calls : List Callback}
    {res : Int} (handled : doProcessMsgV1Data header pBuffer = some (calls, res)) (positive : 0 < res)
    (length : tail.length + (res.toNat - 29) = pBuffer.length) :
    doProcessMsgV1Data header (pBuffer.take (res.toNat - 29) ++ tail) = some (calls, res) := by
  have headerSize := ServerMsgHeaderV1.layout_size
  cases dataBranch header with
  | headerOnly calls' light same =>
    rw [same] at handled ⊢
    exact handled
  | data layout needed callback own weighs same =>
    rw [same] at handled ⊢
    cases doProcessData_iff.mp handled with
    | waits => exact absurd positive (Int.lt_irrefl 0)
    | handles enough found called =>
      have whole := Layout.size_le_of_read found
      have size : ((ServerMsgHeaderV1.layout.size : Int) + layout.size).toNat - 29 = layout.size := by omega
      rw [size] at length ⊢
      refine doProcessData_iff.mpr (.handles ?_ ?_ called)
      · rw [List.length_append, List.length_take]
        omega
      · rw [Layout.read_own own (Nat.le_refl _) whole tail, found]

theorem doProcessMsgV1Data_atLeast {header : ServerMsgHeaderV1} {pBuffer : List UInt8} {calls : List Callback}
    {res : Int} (handled : doProcessMsgV1Data header pBuffer = some (calls, res)) (positive : 0 < res) : 29 ≤ res := by
  have headerSize := ServerMsgHeaderV1.layout_size
  cases dataBranch header with
  | headerOnly calls' light same =>
    rw [same] at handled
    cases handled
    omega
  | data layout needed callback own weighs same =>
    rw [same] at handled
    cases doProcessData_iff.mp handled with
    | waits => exact absurd positive (Int.lt_irrefl 0)
    | handles => omega

theorem doProcessMsgV1_own {pBuffer tail : List UInt8} {calls : List Callback} {res : Int}
    (handled : doProcessMsgV1 pBuffer = some (calls, res)) (positive : 0 < res)
    (length : tail.length + res.toNat = pBuffer.length) :
    doProcessMsgV1 (pBuffer.take res.toNat ++ tail) = some (calls, res) := by
  have headerSize := ServerMsgHeaderV1.layout_size
  cases doProcessMsgV1_iff.mp handled with
  | waits => exact absurd positive (Int.lt_irrefl 0)
  | @handles header calls res found handled =>
    have enough := Layout.size_le_of_read found
    have least := doProcessMsgV1Data_atLeast handled positive
    have front : ServerMsgHeaderV1.layout.size ≤ (pBuffer.take res.toNat).length := by
      rw [List.length_take]
      omega
    have behind : tail.length + (res.toNat - 29) = (pBuffer.drop ServerMsgHeaderV1.layout.size).length := by
      rw [List.length_drop]
      omega
    have again : ServerMsgHeaderV1.layout.read (pBuffer.take res.toNat ++ tail) = some header := by
      rw [Layout.read_own ServerMsgHeaderV1.layout_readsOwn (by omega) (by omega) tail, found]
    refine doProcessMsgV1_iff.mpr (.handles again ?_)
    rw [List.drop_append_of_le_length front, List.drop_take]
    exact doProcessMsgV1Data_own handled positive behind

/-- What the handler is told does not depend on the bytes behind the message. -/
theorem doProcessMsg_own {pBuffer tail : List UInt8} {calls : List Callback} {res : Int}
    (handled : doProcessMsg pBuffer = some (calls, res)) (positive : 0 < res)
    (length : tail.length + res.toNat = pBuffer.length) :
    doProcessMsg (pBuffer.take res.toNat ++ tail) = some (calls, res) := by
  have versionSize : uint16.size = 2 := rfl
  cases doProcessMsg_iff.mp handled with
  | waits => exact absurd positive (Int.lt_irrefl 0)
  | @handles calls res' found handled' =>
    have enough := Layout.size_le_of_read found
    have positive' : 0 < res' := by
      by_contra notPositive
      rw [if_neg notPositive] at positive
      exact notPositive positive
    have size : (if 0 < res' then (uint16.size : Int) + res' else res').toNat = uint16.size + res'.toNat := by
      rw [if_pos positive']
      omega
    rw [size] at length ⊢
    have front : uint16.size ≤ (pBuffer.take (uint16.size + res'.toNat)).length := by
      rw [List.length_take]
      omega
    have behind : tail.length + res'.toNat = (pBuffer.drop uint16.size).length := by
      rw [List.length_drop]
      omega
    refine doProcessMsg_iff.mpr (.handles ?_ ?_)
    · rw [Layout.read_own uint16_readsOwn (by omega) (by omega) tail, found]
    · rw [List.drop_append_of_le_length front, List.drop_take, Nat.add_sub_cancel_left]
      exact doProcessMsgV1_own handled' positive' behind
  | rejects => exact absurd positive (by decide)

/-- The handler is told what the bytes of the message say, or nothing. -/
def SeesOwnBytes (pBuffer : List UInt8) : Prop :=
  ∃ calls res, doProcessMsg pBuffer = some (calls, res) ∧ (res ≤ 0 → calls = []) ∧
    (0 < res → ∀ tail : List UInt8, tail.length + res.toNat = pBuffer.length →
      doProcessMsg (pBuffer.take res.toNat ++ tail) = some (calls, res))

/-- The decoding of a buffer stays inside the decoded structures, and the handler sees only
    bytes of the message, exactly when a complete message in front of the buffer has no
    larger count of addresses than the array, and a NUL in each of its names. -/
theorem decoding_contained_iff (pBuffer : List UInt8) :
    (∀ access ∈ doProcessMsgAccesses pBuffer, access.Inside) ∧ SeesOwnBytes pBuffer ↔
      (Whole pBuffer → Contained pBuffer) := by
  rw [← accesses_inside_iff]
  refine and_iff_left_of_imp fun inside => ?_
  obtain ⟨⟨calls, res⟩, handled⟩ := Option.isSome_iff_exists.mp ((doProcessMsg_isSome_iff pBuffer).mpr inside)
  exact ⟨calls, res, handled, doProcessMsg_quiet handled, fun positive tail length =>
    doProcessMsg_own handled positive length⟩

/-- A name of 24 characters, as the library sends it. -/
def longName : Message := .thread ⟨1, 2, 3, 4, 32⟩ ⟨5, List.Vector.replicate 24 120⟩

theorem long_name_leaves_field :
    ¬ ∀ pBuffer, (∀ access ∈ doProcessMsgAccesses pBuffer, access.Inside) ∧ SeesOwnBytes pBuffer := by
  intro claim
  have used : Access.qString (List.replicate 24 120) ∈ doProcessMsgAccesses longName.encode := by decide +kernel
  have inside := (claim longName.encode).1 _ used
  revert inside
  decide

end Aleakd.Decoding
