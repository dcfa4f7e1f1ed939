import Mathlib.Data.Vector.Basic
import Mathlib.Data.UInt

/-!
Packed structures in memory: little-endian integers, and structures and arrays
laid out one field after the other with no padding. A layout says how the values
of a type are written and how they are read back from the bytes in front.
-/
namespace Aleakd.Packed
universe u v
variable {α : Type u} {β : Type v}

/-- How the values of a type are kept in `size` bytes. -/
structure Layout (α : Type u) where
  size : Nat
  pack : α → List UInt8
  unpack : List UInt8 → α
  length_pack : ∀ a, (pack a).length = size
  unpack_pack : ∀ a rest, unpack (pack a ++ rest) = a

attribute [simp] Layout.length_pack Layout.unpack_pack

/-- `memcpy` of a structure out of `bytes`; `none` when it reads past their end. -/
def Layout.read (l : Layout α) (bytes : List UInt8) : Option α :=
  if l.size ≤ bytes.length then some (l.unpack bytes) else none

@[simp] theorem Layout.read_pack (l : Layout α) (a : α) (rest : List UInt8) : l.read (l.pack a ++ rest) = some a := by
  simp [Layout.read]

@[simp] theorem Layout.drop_pack (l : Layout α) (a : α) (rest : List UInt8) :
    (l.pack a ++ rest).drop l.size = rest := by
  rw [← l.length_pack a, List.drop_left]

theorem Layout.take_pack (l : Layout α) (a : α) (rest : List UInt8) {k : Nat} (whole : l.size ≤ k) :
    (l.pack a ++ rest).take k = l.pack a ++ rest.take (k - l.size) := by
  rw [List.take_append, l.length_pack, List.take_of_length_le (by rw [l.length_pack]; exact whole)]

theorem Layout.read_isSome_iff (l : Layout α) (bytes : List UInt8) : (l.read bytes).isSome ↔ l.size ≤ bytes.length := by
  unfold Layout.read
  split
  · next enough => exact iff_of_true rfl enough
  · next short => exact iff_of_false Bool.false_ne_true short

theorem Layout.size_le_of_read {l : Layout α} {bytes : List UInt8} {a : α} (found : l.read bytes = some a) :
    l.size ≤ bytes.length :=
  (l.read_isSome_iff bytes).mp (by rw [found]; rfl)

/-! ## Integers -/

/-- The `width` low bytes of `n`, the least significant first. -/
def bytesOf : Nat → Nat → List UInt8
  | 0, _ => []
  | width + 1, n => UInt8.ofNat n :: bytesOf width (n / 256)

/-- The number that little-endian bytes stand for. -/
def valueOf : List UInt8 → Nat
  | [] => 0
  | b :: rest => b.toNat + 256 * valueOf rest

@[simp] theorem bytesOf_length (width n : Nat) : (bytesOf width n).length = width := by
  induction width generalizing n with
  | zero => rfl
  | succ width ih => simp [bytesOf, ih]

theorem valueOf_bytesOf {width n : Nat} (bound : n < 256 ^ width) : valueOf (bytesOf width n) = n := by
  induction width generalizing n with
  | zero =>
    have zero : n = 0 := by simpa using bound
    simp [bytesOf, valueOf, zero]
  | succ width ih =>
    have smaller : n / 256 < 256 ^ width := Nat.div_lt_of_lt_mul (by rw [← Nat.pow_succ']; exact bound)
    simp only [bytesOf, valueOf, ih smaller, UInt8.toNat_ofNat']
    omega

theorem valueOf_take_bytesOf {width n : Nat} (bound : n < 256 ^ width) (rest : List UInt8) :
    valueOf ((bytesOf width n ++ rest).take width) = n := by
  have front : (bytesOf width n ++ rest).take width = bytesOf width n := by
    simp
  rw [front, valueOf_bytesOf bound]

def uint8 : Layout UInt8 where
  size := 1
  pack x := [x]
  unpack bytes := bytes.headD 0
  length_pack _ := rfl
  unpack_pack _ _ := rfl

def uint16 : Layout UInt16 where
  size := 2
  pack x := bytesOf 2 x.toNat
  unpack bytes := UInt16.ofNat (valueOf (bytes.take 2))
  length_pack _ := bytesOf_length ..
  unpack_pack x rest := by rw [valueOf_take_bytesOf x.toNat_lt rest, UInt16.ofNat_toNat]

def uint32 : Layout UInt32 where
  size := 4
  pack x := bytesOf 4 x.toNat
  unpack bytes := UInt32.ofNat (valueOf (bytes.take 4))
  length_pack _ := bytesOf_length ..
  unpack_pack x rest := by rw [valueOf_take_bytesOf x.toNat_lt rest, UInt32.ofNat_toNat]

def uint64 : Layout UInt64 where
  size := 8
  pack x := bytesOf 8 x.toNat
  unpack bytes := UInt64.ofNat (valueOf (bytes.take 8))
  length_pack _ := bytesOf_length ..
  unpack_pack x rest := by rw [valueOf_take_bytesOf x.toNat_lt rest, UInt64.ofNat_toNat]

/-! ## Structures and arrays -/

/-- A field, then another. -/
def Layout.pair (first : Layout α) (second : Layout β) : Layout (α × β) where
  size := first.size + second.size
  pack x := first.pack x.1 ++ second.pack x.2
  unpack bytes := (first.unpack bytes, second.unpack (bytes.drop first.size))
  length_pack _ := by simp
  unpack_pack x rest := by simp only [List.append_assoc, Layout.drop_pack, Layout.unpack_pack]

theorem Layout.pair_pack (first : Layout α) (second : Layout β) (x : α × β) :
    (first.pair second).pack x = first.pack x.1 ++ second.pack x.2 := rfl

/-- The same bytes, read as another type. -/
def Layout.via (l : Layout α) (fields : β → α) (make : α → β) (back : ∀ b, make (fields b) = b) : Layout β where
  size := l.size
  pack b := l.pack (fields b)
  unpack bytes := make (l.unpack bytes)
  length_pack _ := l.length_pack _
  unpack_pack b rest := by rw [l.unpack_pack, back]

/-- `n` values one after the other. -/
def Layout.array (l : Layout α) : (n : Nat) → Layout (List.Vector α n)
  | 0 =>
    { size := 0
      pack := fun _ => []
      unpack := fun _ => List.Vector.nil
      length_pack := fun _ => rfl
      unpack_pack := fun a _ => (List.Vector.eq_nil a).symm }
  | n + 1 => (l.pair (l.array n)).via (fun a => (a.head, a.tail)) (fun p => p.1 ::ᵥ p.2) List.Vector.cons_head_tail

@[simp] theorem Layout.array_size (l : Layout α) (n : Nat) : (l.array n).size = n * l.size := by
  induction n with
  | zero => simp [Layout.array]
  | succ n ih => simp [Layout.array, Layout.via, Layout.pair, ih, Nat.succ_mul, Nat.add_comm]

/-- An array of bytes is these bytes. -/
theorem array_uint8_pack (n : Nat) (field : List.Vector UInt8 n) : (uint8.array n).pack field = field.val := by
  induction n with
  | zero => rw [List.Vector.eq_nil field]; rfl
  | succ n ih =>
    show field.head :: (uint8.array n).pack field.tail = field.val
    rw [ih field.tail]
    exact congrArg Subtype.val (List.Vector.cons_head_tail field)

theorem array_uint8_unpack (n : Nat) {bytes : List UInt8} (whole : n ≤ bytes.length) :
    ((uint8.array n).unpack bytes).val = bytes.take n := by
  induction n generalizing bytes with
  | zero => rfl
  | succ n ih =>
    cases bytes with
    | nil => exact absurd whole (by simp)
    | cons b rest =>
      have behind := ih (Nat.le_of_succ_le_succ whole)
      show b :: ((uint8.array n).unpack rest).val = _
      rw [behind]
      rfl

/-! ## More bytes -/

/-- Reading a value looks at its own bytes only. -/
def Layout.ReadsOwn (l : Layout α) : Prop :=
  ∀ bytes rest : List UInt8, l.size ≤ bytes.length → l.unpack (bytes ++ rest) = l.unpack bytes

theorem Layout.read_append {l : Layout α} (own : l.ReadsOwn) {bytes : List UInt8} {a : α}
    (found : l.read bytes = some a) (rest : List UInt8) : l.read (bytes ++ rest) = some a := by
  have whole := Layout.size_le_of_read found
  rw [Layout.read, if_pos whole] at found
  rw [Layout.read, if_pos (by rw [List.length_append]; omega), own bytes rest whole]
  exact found

/-- What is behind the bytes of the value may be anything. -/
theorem Layout.read_own {l : Layout α} (own : l.ReadsOwn) {bytes : List UInt8} {k : Nat} (whole : l.size ≤ k)
    (inside : k ≤ bytes.length) (tail : List UInt8) : l.read (bytes.take k ++ tail) = l.read bytes := by
  have front : l.size ≤ (bytes.take k).length := by
    rw [List.length_take]
    omega
  have found : l.read (bytes.take k) = some (l.unpack (bytes.take k)) := if_pos front
  rw [Layout.read_append own found tail, ← Layout.read_append own found (bytes.drop k), List.take_append_drop]

theorem uint8_readsOwn : uint8.ReadsOwn := by
  intro bytes rest whole
  cases bytes with
  | nil => exact absurd whole (by decide)
  | cons b bytes => rfl

theorem uint16_readsOwn : uint16.ReadsOwn := fun _ _ whole =>
  congrArg (fun bytes => UInt16.ofNat (valueOf bytes)) (List.take_append_of_le_length whole)

theorem uint32_readsOwn : uint32.ReadsOwn := fun _ _ whole =>
  congrArg (fun bytes => UInt32.ofNat (valueOf bytes)) (List.take_append_of_le_length whole)

theorem uint64_readsOwn : uint64.ReadsOwn := fun _ _ whole =>
  congrArg (fun bytes => UInt64.ofNat (valueOf bytes)) (List.take_append_of_le_length whole)

theorem Layout.pair_readsOwn {first : Layout α} {second : Layout β} (own : first.ReadsOwn) (own' : second.ReadsOwn) :
    (first.pair second).ReadsOwn := by
  intro bytes rest whole
  have whole' : first.size + second.size ≤ bytes.length := whole
  have room : second.size ≤ (bytes.drop first.size).length := by
    rw [List.length_drop]
    omega
  show (first.unpack (bytes ++ rest), second.unpack ((bytes ++ rest).drop first.size)) = _
  rw [own bytes rest (by omega), List.drop_append_of_le_length (by omega), own' (bytes.drop first.size) rest room]
  rfl

theorem Layout.via_readsOwn {l : Layout α} (own : l.ReadsOwn) (fields : β → α) (make : α → β)
    (back : ∀ b, make (fields b) = b) : (l.via fields make back).ReadsOwn :=
  fun bytes rest whole => congrArg make (own bytes rest whole)

theorem Layout.array_readsOwn {l : Layout α} (own : l.ReadsOwn) (n : Nat) : (l.array n).ReadsOwn := by
  induction n with
  | zero => exact fun _ _ _ => rfl
  | succ n ih => exact Layout.via_readsOwn (Layout.pair_readsOwn own ih) _ _ _

end Aleakd.Packed
