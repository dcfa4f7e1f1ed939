import Aleakd.Messages

/-!
The messages as the bytes that they are on the wire: where the version, the code and the
fields of each kind lie, whatever the bytes in them.
-/
namespace Aleakd.Wire
open Aleakd.Packed Aleakd.Messages

/-- The byte of the code, behind the version and the rest of the header. -/
def code (pBuffer : List UInt8) : UInt8 := pBuffer.getD 30 0

/-- The bytes of version 1. -/
def Version1 (pBuffer : List UInt8) : Prop := pBuffer.take 2 = [1, 0]

/-- How many bytes the server wants to see, from the start of a message with this code. -/
def wanted (code : UInt8) : Nat :=
  if 10 ≤ code ∧ code < 20 then 59
  else if 30 ≤ code ∧ code < 40 then 63
  else if 40 ≤ code ∧ code < 50 then 467
  else if 50 ≤ code ∧ code < 60 then 407
  else 31

/-- How many of them are the message. -/
def length (code : UInt8) : Nat :=
  if 10 ≤ code ∧ code < 20 then 59
  else if 30 ≤ code ∧ code < 40 then 63
  else if 40 ≤ code ∧ code < 50 then 436
  else if 50 ≤ code ∧ code < 60 then 407
  else 31

/-- A message of version 1 is in front, with all that the server wants to see. -/
def Whole (pBuffer : List UInt8) : Prop := Version1 pBuffer ∧ wanted (code pBuffer) ≤ pBuffer.length

instance (pBuffer : List UInt8) : Decidable (Version1 pBuffer) := inferInstanceAs (Decidable (pBuffer.take 2 = [1, 0]))

instance (pBuffer : List UInt8) : Decidable (Whole pBuffer) :=
  inferInstanceAs (Decidable (Version1 pBuffer ∧ wanted (code pBuffer) ≤ pBuffer.length))

theorem length_le_wanted (code : UInt8) : length code ≤ wanted code := by
  unfold length wanted
  split_ifs <;> decide

theorem length_positive (code : UInt8) : 31 ≤ length code := by
  unfold length
  split_ifs <;> decide

/-! ## The fields -/

theorem version_unpack_iff {pBuffer : List UInt8} (enough : uint16.size ≤ pBuffer.length) :
    uint16.unpack pBuffer = 1 ↔ Version1 pBuffer := by
  match pBuffer, enough with
  | low :: high :: rest, _ =>
    have lowSmall := low.toNat_lt
    have highSmall := high.toNat_lt
    have small : low.toNat + 256 * high.toNat < 2 ^ 16 := by omega
    have value : uint16.unpack (low :: high :: rest) = UInt16.ofNat (low.toNat + 256 * high.toNat) := rfl
    have front : Version1 (low :: high :: rest) ↔ [low, high] = [1, 0] := Iff.rfl
    rw [front, value, ← UInt16.toNat_inj, UInt16.toNat_ofNat_of_lt' small, UInt16.toNat_one]
    simp only [List.cons.injEq, and_true, ← UInt8.toNat_inj, UInt8.toNat_one, UInt8.toNat_zero]
    omega

/-- The code is the last byte of the header, which comes behind the two of the version. -/
theorem msgCode_unpack (pBuffer : List UInt8) :
    (ServerMsgHeaderV1.layout.unpack (pBuffer.drop uint16.size)).msgCode = code pBuffer := by
  show (((((pBuffer.drop 2).drop 8).drop 8).drop 8).drop 4).headD 0 = pBuffer.getD 30 0
  simp

theorem threadName_unpack {bytes : List UInt8} (whole : ServerMsgThreadDataV1.layout.size ≤ bytes.length) :
    (ServerMsgThreadDataV1.layout.unpack bytes).threadName.val = (bytes.drop 8).take 24 := by
  rw [ServerMsgThreadDataV1.layout_size] at whole
  have size : 24 ≤ (bytes.drop 8).length := by rw [List.length_drop]; omega
  exact array_uint8_unpack 24 size

theorem backtraceSize_unpack (bytes : List UInt8) :
    (ServerMsgBacktraceDataV1.layout.unpack bytes).backtraceSize = bytes.getD 4 0 := by
  show (bytes.drop 4).headD 0 = bytes.getD 4 0
  simp

theorem objectName_unpack {bytes : List UInt8} (whole : ServerMsgSymbolInfosDataV1.layout.size ≤ bytes.length) :
    (ServerMsgSymbolInfosDataV1.layout.unpack bytes).objectName.val = (bytes.drop 8).take 256 := by
  rw [ServerMsgSymbolInfosDataV1.layout_size] at whole
  have size : 256 ≤ (bytes.drop 8).length := by rw [List.length_drop]; omega
  exact array_uint8_unpack 256 size

theorem symbolName_unpack {bytes : List UInt8} (whole : ServerMsgSymbolInfosDataV1.layout.size ≤ bytes.length) :
    (ServerMsgSymbolInfosDataV1.layout.unpack bytes).symbolName.val = (bytes.drop 272).take 96 := by
  rw [ServerMsgSymbolInfosDataV1.layout_size] at whole
  have place : ((bytes.drop 8).drop (uint8.array 256).size).drop 8 = bytes.drop 272 := by
    rw [List.drop_drop, List.drop_drop, Layout.array_size]
    rfl
  have size : 96 ≤ (bytes.drop 272).length := by rw [List.length_drop]; omega
  rw [← place] at size ⊢
  exact array_uint8_unpack 96 size

end Aleakd.Wire
