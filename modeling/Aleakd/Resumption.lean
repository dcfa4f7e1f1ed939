import Aleakd.Reassembly

/-!
More bytes do not change what the receiver has made of the ones before them: a message
that it has handled is handled in the same way with more behind it, and from a message
boundary it goes on as if the handled bytes had never been there. The bytes are arbitrary,
less those that take the receiver out of its own structures.
-/
namespace Aleakd.Resumption
open Aleakd.Packed Aleakd.Messages Aleakd.Operations Aleakd.Receiver Aleakd.Reassembly

/-! ## Bytes that keep to the structures -/

/-- The data of a message, where it is complete: the count of addresses fits the array, and
    each name ends within its field. -/
structure DataSound (header : ServerMsgHeaderV1) (pBuffer : List UInt8) : Prop where
  thread : 30 ≤ header.msgCode ∧ header.msgCode < 40 →
    ∀ data ∈ ServerMsgThreadDataV1.layout.read pBuffer, 0 ∈ data.threadName.val
  backtrace : 40 ≤ header.msgCode ∧ header.msgCode < 50 →
    ∀ data ∈ ServerMsgBacktraceDataV1.layout.read pBuffer, data.backtraceSize.toNat ≤ backtraceMaxSize
  symbolInfos : 50 ≤ header.msgCode ∧ header.msgCode < 60 →
    ∀ data ∈ ServerMsgSymbolInfosDataV1.layout.read pBuffer, 0 ∈ data.objectName.val ∧ 0 ∈ data.symbolName.val

instance DataSound.decidable (header : ServerMsgHeaderV1) (pBuffer : List UInt8) :
    Decidable (DataSound header pBuffer) :=
  decidable_of_iff
    ((30 ≤ header.msgCode ∧ header.msgCode < 40 →
        ∀ data ∈ ServerMsgThreadDataV1.layout.read pBuffer, 0 ∈ data.threadName.val) ∧
      (40 ≤ header.msgCode ∧ header.msgCode < 50 →
        ∀ data ∈ ServerMsgBacktraceDataV1.layout.read pBuffer, data.backtraceSize.toNat ≤ backtraceMaxSize) ∧
      (50 ≤ header.msgCode ∧ header.msgCode < 60 →
        ∀ data ∈ ServerMsgSymbolInfosDataV1.layout.read pBuffer, 0 ∈ data.objectName.val ∧ 0 ∈ data.symbolName.val))
    ⟨fun ⟨thread, backtrace, symbolInfos⟩ => ⟨thread, backtrace, symbolInfos⟩,
      fun ⟨thread, backtrace, symbolInfos⟩ => ⟨thread, backtrace, symbolInfos⟩⟩

/-- The message in front has sound data, where it is complete. -/
def FrontSound (pBuffer : List UInt8) : Prop :=
  uint16.read pBuffer = some 1 →
    ∀ header ∈ ServerMsgHeaderV1.layout.read (pBuffer.drop uint16.size),
      DataSound header ((pBuffer.drop uint16.size).drop ServerMsgHeaderV1.layout.size)

instance FrontSound.decidable (pBuffer : List UInt8) : Decidable (FrontSound pBuffer) := inferInstanceAs (Decidable
  (uint16.read pBuffer = some 1 →
    ∀ header ∈ ServerMsgHeaderV1.layout.read (pBuffer.drop uint16.size),
      DataSound header ((pBuffer.drop uint16.size).drop ServerMsgHeaderV1.layout.size)))

/-- What is left of a buffer at the boundaries of its messages. -/
inductive Boundary : List UInt8 → List UInt8 → Prop where
  | here (pBuffer : List UInt8) : Boundary pBuffer pBuffer
  | next {pBuffer rest : List UInt8} {calls : List Callback} {res : Int}
      (handled : doProcessMsg pBuffer = some (calls, res)) (positive : 0 < res)
      (later : Boundary (pBuffer.drop res.toNat) rest) : Boundary pBuffer rest

/-- Every complete message of a buffer has sound data. -/
def Sound (pBuffer : List UInt8) : Prop := ∀ rest, Boundary pBuffer rest → FrontSound rest

theorem Sound.front {pBuffer : List UInt8} (sound : Sound pBuffer) : FrontSound pBuffer := sound pBuffer (.here pBuffer)

theorem Sound.drop {pBuffer : List UInt8} (sound : Sound pBuffer) {calls : List Callback} {res : Int}
    (handled : doProcessMsg pBuffer = some (calls, res)) (positive : 0 < res) : Sound (pBuffer.drop res.toNat) :=
  fun rest later => sound rest (.next handled positive later)

/-- A buffer is sound if its first message is and what is behind it is. -/
theorem Sound.next {pBuffer : List UInt8} {res : Int} (front : FrontSound pBuffer)
    (size : (doProcessMsg pBuffer).map Prod.snd = some res) (later : 0 < res → Sound (pBuffer.drop res.toNat)) :
    Sound pBuffer := by
  intro rest boundary
  cases boundary with
  | here => exact front
  | next handled positive after =>
    rw [handled] at size
    cases size
    exact later positive rest after

theorem DataSound.of_append {header : ServerMsgHeaderV1} {pBuffer more : List UInt8}
    (sound : DataSound header (pBuffer ++ more)) : DataSound header pBuffer :=
  ⟨fun code data found => sound.thread code data
      (Layout.read_append ServerMsgThreadDataV1.layout_readsOwn found more),
    fun code data found => sound.backtrace code data
      (Layout.read_append ServerMsgBacktraceDataV1.layout_readsOwn found more),
    fun code data found => sound.symbolInfos code data
      (Layout.read_append ServerMsgSymbolInfosDataV1.layout_readsOwn found more)⟩

/-! ## One message -/

section Data
variable {Data : Type} {layout : Layout Data} {needed : Nat} {callback : Data → Option Callback}

theorem doProcessData_append (own : layout.ReadsOwn) {pBuffer : List UInt8} {calls : List Callback} {res : Int}
    (handled : doProcessData layout needed callback pBuffer = some (calls, res)) (some_ : res ≠ 0)
    (more : List UInt8) : doProcessData layout needed callback (pBuffer ++ more) = some (calls, res) := by
  cases doProcessData_iff.mp handled with
  | waits => exact absurd rfl some_
  | handles enough found called =>
    refine doProcessData_iff.mpr (.handles ?_ (Layout.read_append own found more) called)
    rw [List.length_append]
    omega

theorem doProcessData_defined (fits : layout.size ≤ needed) {pBuffer : List UInt8}
    (sound : ∀ data ∈ layout.read pBuffer, (callback data).isSome) :
    (doProcessData layout needed callback pBuffer).isSome := by
  unfold doProcessData
  split
  · rfl
  · next enough =>
    obtain ⟨data, found⟩ := Option.isSome_iff_exists.mp ((layout.read_isSome_iff pBuffer).mpr (by omega))
    obtain ⟨call, called⟩ := Option.isSome_iff_exists.mp (sound data found)
    simp [found, called]

end Data

theorem doProcessMsgV1Data_append {header : ServerMsgHeaderV1} {pBuffer : List UInt8} {calls : List Callback}
    {res : Int} (handled : doProcessMsgV1Data header pBuffer = some (calls, res)) (some_ : res ≠ 0)
    (more : List UInt8) : doProcessMsgV1Data header (pBuffer ++ more) = some (calls, res) := by
  cases dataBranch header with
  | headerOnly calls' light same =>
    rw [same] at handled ⊢
    exact handled
  | data layout needed callback own weighs same =>
    rw [same] at handled ⊢
    exact doProcessData_append own handled some_ more

theorem doProcessMsgV1Data_defined {header : ServerMsgHeaderV1} {pBuffer : List UInt8}
    (sound : DataSound header pBuffer) : (doProcessMsgV1Data header pBuffer).isSome := by
  simp only [doProcessMsgV1Data]
  split
  · rfl
  · split
    · exact doProcessData_defined (Nat.le_refl _) fun _ _ => rfl
    · split
      · next thread =>
        refine doProcessData_defined (Nat.le_refl _) fun data found => ?_
        simp [threadOperation, cString, sound.thread thread data found]
      · split
        · next code =>
          refine doProcessData_defined (by rw [serverMsgV1_size]; omega) fun data found => ?_
          simp [backtrace, sound.backtrace code data found]
        · split
          · next code =>
            refine doProcessData_defined (Nat.le_refl _) fun data found => ?_
            have names := sound.symbolInfos code data found
            simp [symbolInfos, cString, names.1, names.2]
          · rfl

theorem doProcessMsgV1_append {pBuffer : List UInt8} {calls : List Callback} {res : Int}
    (handled : doProcessMsgV1 pBuffer = some (calls, res)) (some_ : res ≠ 0) (more : List UInt8) :
    doProcessMsgV1 (pBuffer ++ more) = some (calls, res) := by
  cases doProcessMsgV1_iff.mp handled with
  | waits => exact absurd rfl some_
  | handles found handled =>
    refine doProcessMsgV1_iff.mpr (.handles (Layout.read_append ServerMsgHeaderV1.layout_readsOwn found more) ?_)
    rw [List.drop_append_of_le_length (Layout.size_le_of_read found)]
    exact doProcessMsgV1Data_append handled some_ more

/-- A message that is handled or rejected is so with more bytes behind it. -/
theorem doProcessMsg_append {pBuffer : List UInt8} {calls : List Callback} {res : Int}
    (handled : doProcessMsg pBuffer = some (calls, res)) (some_ : res ≠ 0) (more : List UInt8) :
    doProcessMsg (pBuffer ++ more) = some (calls, res) := by
  cases doProcessMsg_iff.mp handled with
  | waits => exact absurd rfl some_
  | @handles calls res' found handled' =>
    have some' : res' ≠ 0 := by
      rintro rfl
      exact some_ (if_neg (by decide))
    refine doProcessMsg_iff.mpr (.handles (Layout.read_append uint16_readsOwn found more) ?_)
    rw [List.drop_append_of_le_length (Layout.size_le_of_read found)]
    exact doProcessMsgV1_append handled' some' more
  | rejects found other => exact doProcessMsg_iff.mpr (.rejects (Layout.read_append uint16_readsOwn found more) other)

theorem doProcessMsg_defined {pBuffer : List UInt8} (sound : FrontSound pBuffer) :
    ∃ calls res, doProcessMsg pBuffer = some (calls, res) := by
  have isSome : (doProcessMsg pBuffer).isSome := by
    unfold doProcessMsg
    split
    · rfl
    · next enough =>
      obtain ⟨msgVersion, found⟩ := Option.isSome_iff_exists.mp ((uint16.read_isSome_iff pBuffer).mpr (by omega))
      rw [found]
      simp only [Option.bind_eq_bind, Option.bind_some]
      split
      · next first =>
        rw [first] at found
        have whole : (doProcessMsgV1 (pBuffer.drop uint16.size)).isSome := by
          unfold doProcessMsgV1
          split
          · rfl
          · next enough' =>
            obtain ⟨header, found'⟩ := Option.isSome_iff_exists.mp
              ((ServerMsgHeaderV1.layout.read_isSome_iff (pBuffer.drop uint16.size)).mpr (by omega))
            rw [found']
            exact doProcessMsgV1Data_defined (sound found header found')
        obtain ⟨⟨calls, res⟩, handled⟩ := Option.isSome_iff_exists.mp whole
        simp [handled]
      · rfl
  obtain ⟨⟨calls, res⟩, handled⟩ := Option.isSome_iff_exists.mp isSome
  exact ⟨calls, res, handled⟩

theorem FrontSound.of_append {pBuffer more : List UInt8} (sound : FrontSound (pBuffer ++ more)) :
    FrontSound pBuffer := by
  intro first header found
  have two : uint16.size ≤ pBuffer.length := (uint16.read_isSome_iff pBuffer).mp (by rw [first]; rfl)
  have whole : ServerMsgHeaderV1.layout.size ≤ (pBuffer.drop uint16.size).length :=
    (ServerMsgHeaderV1.layout.read_isSome_iff _).mp (by rw [found]; rfl)
  have found' := Layout.read_append ServerMsgHeaderV1.layout_readsOwn found more
  have data := sound (Layout.read_append uint16_readsOwn first more) header
    (by rw [List.drop_append_of_le_length two]; exact found')
  rw [List.drop_append_of_le_length two, List.drop_append_of_le_length whole] at data
  exact data.of_append

theorem Sound.of_append {pBuffer more : List UInt8} (sound : Sound (pBuffer ++ more)) : Sound pBuffer := by
  intro rest boundary
  induction boundary with
  | here pBuffer => exact FrontSound.of_append sound.front
  | @next pBuffer rest calls res handled positive _ ih =>
    apply ih
    rw [← List.drop_append_of_le_length (doProcessMsg_le handled positive)]
    exact sound.drop (doProcessMsg_append handled (by omega) more) positive

/-! ## The loop -/

/-- With more bytes the loop does what it did before, and then goes on from the message
    boundary that it had reached. -/
theorem doProcessDataReadFrom_append {sizeRead : Nat} {pBuffer : List UInt8} {calls : List Callback} {res : Int}
    (handled : doProcessDataReadFrom sizeRead pBuffer = some (calls, res)) (counted : 0 ≤ res) (more : List UInt8) :
    sizeRead ≤ res.toNat ∧ res.toNat ≤ sizeRead + pBuffer.length ∧
      doProcessDataReadFrom sizeRead (pBuffer ++ more) =
        (doProcessDataReadFrom res.toNat (pBuffer.drop (res.toNat - sizeRead) ++ more)).map fun (later, final) =>
          (calls ++ later, final) := by
  fun_induction doProcessDataReadFrom sizeRead pBuffer generalizing calls res with
  | case1 sizeRead =>
    cases handled
    simp
  | case2 => cases handled
  | case3 sizeRead pBuffer some_ first n handledFirst positive room ih =>
    simp only [Option.map_eq_some_iff] at handled
    obtain ⟨⟨later, final⟩, handled, same⟩ := handled
    cases same
    obtain ⟨lower, upper, goesOn⟩ := ih handled counted
    have within := doProcessMsg_le handledFirst positive
    rw [List.length_drop] at upper
    refine ⟨by omega, by omega, ?_⟩
    rw [doProcessDataReadFrom, if_neg (by simp [some_]), doProcessMsg_append handledFirst (by omega) more]
    simp only [if_pos positive, if_pos room]
    rw [List.drop_append_of_le_length within, goesOn, List.drop_drop]
    have place : n.toNat + (final.toNat - (sizeRead + n.toNat)) = final.toNat - sizeRead := by omega
    rw [place]
    simp [Option.map_map, Function.comp_def]
  | case4 => cases handled
  | case5 sizeRead pBuffer some_ calls' handledFirst =>
    cases handled
    have quiet := doProcessMsg_quiet handledFirst (Int.le_refl 0)
    simp [quiet]
  | case6 sizeRead pBuffer some_ calls' res' handledFirst notPositive notZero =>
    cases handled
    omega

/-- The loop counts from where it starts. -/
theorem doProcessDataReadFrom_shift (before : Nat) {sizeRead : Nat} {pBuffer : List UInt8} {calls : List Callback}
    {res : Int} (handled : doProcessDataReadFrom (before + sizeRead) pBuffer = some (calls, res)) :
    ∃ res', doProcessDataReadFrom sizeRead pBuffer = some (calls, res') ∧ (0 ≤ res' → res = before + res') := by
  fun_induction doProcessDataReadFrom sizeRead pBuffer generalizing calls res with
  | case1 sizeRead =>
    rw [doProcessDataReadFrom, if_pos rfl] at handled
    cases handled
    exact ⟨_, rfl, fun _ => by omega⟩
  | case2 sizeRead pBuffer some_ stuck =>
    rw [doProcessDataReadFrom, if_neg some_, stuck] at handled
    cases handled
  | case3 sizeRead pBuffer some_ first n handledFirst positive room ih =>
    rw [doProcessDataReadFrom, if_neg some_, handledFirst] at handled
    simp only [if_pos positive] at handled
    split at handled
    · simp only [Option.map_eq_some_iff] at handled
      obtain ⟨⟨later, final⟩, handled, same⟩ := handled
      cases same
      rw [Nat.add_assoc] at handled
      obtain ⟨res', counted, total⟩ := ih handled
      exact ⟨res', by rw [counted]; rfl, total⟩
    · cases handled
  | case4 sizeRead pBuffer some_ first n handledFirst positive overflow =>
    rw [doProcessDataReadFrom, if_neg some_, handledFirst] at handled
    simp only [if_pos positive] at handled
    rw [if_neg (by omega)] at handled
    cases handled
  | case5 sizeRead pBuffer some_ calls' handledFirst =>
    rw [doProcessDataReadFrom, if_neg some_, handledFirst] at handled
    cases handled
    exact ⟨_, rfl, fun _ => by omega⟩
  | case6 sizeRead pBuffer some_ calls' res' handledFirst notPositive notZero =>
    rw [doProcessDataReadFrom, if_neg some_, handledFirst] at handled
    simp only [if_neg notPositive, if_neg notZero] at handled
    cases handled
    exact ⟨_, rfl, fun counted => by omega⟩

/-- The loop has a result as long as an `int` can count the bytes. -/
theorem doProcessDataReadFrom_defined {sizeRead : Nat} {pBuffer : List UInt8} (sound : Sound pBuffer)
    (counts : sizeRead + pBuffer.length < 2 ^ 31) : (doProcessDataReadFrom sizeRead pBuffer).isSome := by
  fun_induction doProcessDataReadFrom sizeRead pBuffer with
  | case1 => rfl
  | case2 sizeRead pBuffer _ stuck =>
    obtain ⟨calls, res, handled⟩ := doProcessMsg_defined sound.front
    rw [stuck] at handled
    cases handled
  | case3 sizeRead pBuffer _ first n handled positive _ ih =>
    have within := doProcessMsg_le handled positive
    have later := ih (sound.drop handled positive) (by rw [List.length_drop]; omega)
    rwa [Option.isSome_map]
  | case4 sizeRead pBuffer _ first n handled positive overflow =>
    have within := doProcessMsg_le handled positive
    omega
  | case5 => rfl
  | case6 => rfl

/-- More bytes change nothing. A message that was handled is handled in the same way, and
    while the receiver waits for more it calls no handler. After the messages that it can
    handle it goes on, with more bytes, as if it started at the boundary behind them; and
    it always has a result where an `int` can count the bytes. -/
theorem more_bytes_resume {pBuffer more : List UInt8} (sound : Sound (pBuffer ++ more)) :
    (∃ calls res, doProcessMsg pBuffer = some (calls, res) ∧
      (0 < res → doProcessMsg (pBuffer ++ more) = some (calls, res)) ∧ (res = 0 → calls = [])) ∧
    (∀ calls res, doProcessDataRead pBuffer = some (calls, res) → 0 ≤ res →
      ∀ calls' res', doProcessDataRead (pBuffer ++ more) = some (calls', res') →
        ∃ later rest, doProcessDataRead (pBuffer.drop res.toNat ++ more) = some (later, rest) ∧
          calls' = calls ++ later ∧ (0 ≤ rest → res' = res + rest)) ∧
    ((pBuffer ++ more).length < 2 ^ 31 →
      (doProcessDataRead pBuffer).isSome ∧ (doProcessDataRead (pBuffer ++ more)).isSome) := by
  refine ⟨?_, ?_, ?_⟩
  · obtain ⟨calls, res, handled⟩ := doProcessMsg_defined (FrontSound.of_append sound.front)
    refine ⟨calls, res, handled, fun positive => doProcessMsg_append handled (by omega) more, fun none => ?_⟩
    exact doProcessMsg_quiet handled (by omega)
  · intro calls res handled counted calls' res' handled'
    obtain ⟨_, _, goesOn⟩ := doProcessDataReadFrom_append handled counted more
    rw [doProcessDataRead, goesOn, Nat.sub_zero] at handled'
    obtain ⟨⟨later, final⟩, resumed, same⟩ := Option.map_eq_some_iff.mp handled'
    cases same
    have resumed' : doProcessDataReadFrom (res.toNat + 0) (pBuffer.drop res.toNat ++ more) = some (later, res') :=
      resumed
    obtain ⟨rest, fromStart, total⟩ := doProcessDataReadFrom_shift res.toNat resumed'
    refine ⟨later, rest, fromStart, rfl, fun positive => ?_⟩
    have sum := total positive
    omega
  · intro counts
    have shorter : pBuffer.length ≤ (pBuffer ++ more).length := by
      rw [List.length_append]
      omega
    exact ⟨doProcessDataReadFrom_defined sound.of_append (by omega), doProcessDataReadFrom_defined sound (by omega)⟩

/-- The first messages of a session, cut behind 40 bytes. -/
theorem more_bytes_resume_cut :
    ∃ calls later, doProcessDataRead ((encodeAll firstMessages).take 40) = some (calls, 31) ∧
      doProcessDataRead (((encodeAll firstMessages).take 40).drop 31 ++ (encodeAll firstMessages).drop 40) =
        some (later, 59) ∧
      doProcessDataRead (encodeAll firstMessages) = some (calls ++ later, 90) := by
  have sound : Sound (encodeAll firstMessages) := by
    refine Sound.next (by decide +kernel) (show (doProcessMsg _).map Prod.snd = some 31 by decide +kernel) fun _ => ?_
    refine Sound.next (by decide +kernel) (show (doProcessMsg _).map Prod.snd = some 59 by decide +kernel) fun _ => ?_
    refine Sound.next (by decide +kernel) (show (doProcessMsg _).map Prod.snd = some 0 by decide +kernel) fun some_ => ?_
    exact absurd some_ (Int.lt_irrefl 0)
  have whole := List.take_append_drop 40 (encodeAll firstMessages)
  rw [← whole] at sound
  have results := more_bytes_resume sound
  rw [whole] at results
  have first : (doProcessDataRead ((encodeAll firstMessages).take 40)).map Prod.snd = some 31 := by decide +kernel
  have all : (doProcessDataRead (encodeAll firstMessages)).map Prod.snd = some 90 := by decide +kernel
  obtain ⟨⟨calls, _⟩, handled, rfl⟩ := Option.map_eq_some_iff.mp first
  obtain ⟨⟨calls', _⟩, handled', rfl⟩ := Option.map_eq_some_iff.mp all
  obtain ⟨later, rest, resumed, rfl, total⟩ := results.2.1 calls 31 handled (by decide) calls' 90 handled'
  have second : (doProcessDataRead (((encodeAll firstMessages).take 40).drop 31 ++
      (encodeAll firstMessages).drop 40)).map Prod.snd = some 59 := by decide +kernel
  rw [show (31 : Int).toNat = 31 from rfl] at resumed
  rw [resumed] at second
  cases second
  exact ⟨calls, later, handled, resumed, handled'⟩

end Aleakd.Resumption
