import Aleakd.CallStacks
import Aleakd.Rows

/-!
The dialog of a memory operation, `onMemoryOperationDoubleClicked`: the addresses of its
backtrace with their symbols. Once every wrapped call has returned, it shows for each
operation the addresses that its own thread had on its stack, each as `dladdr` knows it.
-/
namespace Aleakd.Dialogs
open Aleakd.Operations Aleakd.ApplicationWindow Aleakd.SessionTotals Aleakd.Wrapper Aleakd.Runs Aleakd.Rows
open Aleakd.CallStacks

/-! ## `QString::arg` -/

/-- What `QString::arg` sees in a text: a place marker with its number, or a character. -/
inductive Piece where
  | marker (escape : Nat) (text : List Char)
  | plain (c : Char)

/-- One or two digits. -/
def digitsOf : List Char → Option (Nat × List Char × List Char)
  | d :: e :: rest =>
    if d.isDigit then
      if e.isDigit then some (Nat.ofDigitChars 10 [d, e] 0, [d, e], rest)
      else some (Nat.ofDigitChars 10 [d] 0, [d], e :: rest)
    else none
  | [d] => if d.isDigit then some (Nat.ofDigitChars 10 [d] 0, [d], []) else none
  | [] => none

/-- What follows a `%` as the number of a place marker, and the text behind it. -/
def markerOf : List Char → Option (Nat × List Char × List Char)
  | 'L' :: rest => (digitsOf rest).map fun (escape, text, later) => (escape, 'L' :: text, later)
  | rest => digitsOf rest

theorem digitsOf_shorter {text digits later : List Char} {escape : Nat}
    (found : digitsOf text = some (escape, digits, later)) :
    later.length < text.length := by
  unfold digitsOf at found
  split at found
  · split at found
    · split at found <;> cases found <;> simp only [List.length_cons] <;> omega
    · cases found
  · split at found <;> cases found
    simp
  · cases found

theorem markerOf_shorter {text digits later : List Char} {escape : Nat}
    (found : markerOf text = some (escape, digits, later)) :
    later.length < text.length := by
  unfold markerOf at found
  split at found
  · obtain ⟨⟨escape', digits', later'⟩, found', same⟩ := Option.map_eq_some_iff.mp found
    cases same
    exact Nat.lt_succ_of_lt (digitsOf_shorter found')
  · exact digitsOf_shorter found

def pieces : List Char → List Piece
  | [] => []
  | c :: rest =>
    if c = '%' then
      match _found : markerOf rest with
      | some (escape, text, later) => .marker escape text :: pieces later
      | none => .plain c :: pieces rest
    else .plain c :: pieces rest
termination_by text => text.length
decreasing_by
  · exact Nat.lt_succ_of_lt (markerOf_shorter _found)
  · exact Nat.lt_succ_self _
  · exact Nat.lt_succ_self _

def Piece.escape : Piece → Option Nat
  | .marker escape _ => some escape
  | .plain _ => none

/-- `QString::arg`: every place marker with the lowest number makes way for the text. -/
def arg (text value : List Char) : List Char :=
  match ((pieces text).filterMap Piece.escape).min? with
  | some lowest =>
    (pieces text).flatMap fun
      | .marker escape digits => if escape = lowest then value else '%' :: digits
      | .plain c => [c]
  | none => text

theorem pieces_marker {rest digits later : List Char} {escape : Nat}
    (found : markerOf rest = some (escape, digits, later)) :
    pieces ('%' :: rest) = .marker escape digits :: pieces later := by
  rw [pieces, if_pos rfl]
  split
  · next found' =>
    cases found.symm.trans found'
    rfl
  · next none => cases found.symm.trans none

theorem pieces_plain {name : List Char} (plain : '%' ∉ name) (rest : List Char) :
    pieces (name ++ rest) = name.map .plain ++ pieces rest := by
  induction name with
  | nil => rfl
  | cons c name ih =>
    obtain ⟨differs, later⟩ := not_or.mp (mt List.mem_cons.mpr plain)
    rw [List.cons_append, pieces, if_neg (Ne.symm differs), ih later]
    rfl

theorem pieces_offset : pieces "+0x%1".toList = ['+', '0', 'x'].map .plain ++ [.marker 1 ['1']] := by
  have last : pieces ['%', '1'] = [.marker 1 ['1']] := by
    rw [@pieces_marker ['1'] ['1'] [] 1 rfl, pieces]
  rw [show "+0x%1".toList = ['+', '0', 'x'] ++ ['%', '1'] from rfl, pieces_plain (by decide), last]

/-- What the two arguments of `"%0+0x%1"` make of it, unless the first one has a marker of
    its own. -/
theorem arg_arg {name : List Char} (plain : '%' ∉ name) (value : List Char) :
    arg (arg "%0+0x%1".toList name) value = name ++ "+0x".toList ++ value := by
  have format : pieces "%0+0x%1".toList = .marker 0 ['0'] :: (['+', '0', 'x'].map .plain ++ [.marker 1 ['1']]) := by
    rw [← pieces_offset]
    exact @pieces_marker "0+0x%1".toList _ _ _ rfl
  have first : arg "%0+0x%1".toList name = name ++ "+0x%1".toList := by
    rw [arg, format]
    rfl
  have named : (name.map Piece.plain).filterMap Piece.escape = [] := by simp [Piece.escape]
  have copied : ∀ lowest : Nat, (name.map Piece.plain).flatMap (fun
      | .marker escape digits => if escape = lowest then value else '%' :: digits
      | .plain c => [c]) = name := by
    intro lowest
    simp [List.flatMap_map]
  rw [first, arg, pieces_plain plain, pieces_offset, List.filterMap_append, named, List.nil_append]
  show (name.map Piece.plain ++ _).flatMap _ = _
  rw [List.flatMap_append, copied, List.append_assoc]
  simp

/-! ## The dialog -/

section
variable (fromUtf8 : List UInt8 → List Char)

/-- Where the address lies behind its symbol, or in its object where that has no address. -/
def diff (symbolInfos : SymbolInfos) : UInt64 :=
  if symbolInfos.symbolAddr ≠ 0 then symbolInfos.addr - symbolInfos.symbolAddr
  else symbolInfos.addr - symbolInfos.objectAddr

/-- The columns of an address; there is only one where the symbol is not known. -/
def addrRow (listSymbolInfos : Finmap fun _ : UInt64 => SymbolInfos) (addr : UInt64) : List (List Char) :=
  hexNumber addr ::
    match listSymbolInfos.lookup addr with
    | some symbolInfos =>
      [hexNumber symbolInfos.symbolAddr,
        arg (arg "%0+0x%1".toList (fromUtf8 symbolInfos.symbolName)) (Nat.toDigits 16 (diff symbolInfos).toNat),
        hexNumber symbolInfos.objectAddr, fromUtf8 symbolInfos.objectName]
    | none => []

/-- The rows of the dialog that `onMemoryOperationDoubleClicked` opens. -/
def onMemoryOperationDoubleClicked (c : Controller) (row : Nat) : Option (List (List (List Char))) :=
  ((c.listFilterMemoryOperation[row]?).bind fun i => c.operations.listMemoryOperation[i]?).map fun operation =>
    match operation.backTrace with
    | some backTrace => backTrace.listAddr.map (addrRow fromUtf8 c.listSymbolInfos)
    | none => []

/-- What the row of an address shows of what `dladdr` gives for it. -/
def resolvedRow (info : DlInfo) (addr : UInt64) : List (List Char) :=
  [hexNumber addr, hexNumber info.saddr,
    fromUtf8 info.sname.val ++ "+0x".toList ++ Nat.toDigits 16 (diff (info.symbolInfos addr)).toNat,
    hexNumber info.fbase, fromUtf8 info.fname.val]

variable {fromUtf8}

theorem addrRow_resolved {listSymbolInfos : Finmap fun _ : UInt64 => SymbolInfos} {info : DlInfo} {addr : UInt64}
    (known : listSymbolInfos.lookup addr = some (info.symbolInfos addr)) (plain : '%' ∉ fromUtf8 info.sname.val) :
    addrRow fromUtf8 listSymbolInfos addr = resolvedRow fromUtf8 info addr := by
  rw [addrRow, known]
  dsimp only
  rw [show (info.symbolInfos addr).symbolName = info.sname.val from rfl, arg_arg plain]
  rfl

/-- Once every wrapped call of any number of threads has returned, the dialog of each row
    of any search shows the addresses that the operation's own thread sent, in order, each
    with the symbol that `dladdr` gave for it: as long as the names are shorter than their
    fields and have no place marker in them, and fewer than 2^31 messages are numbered. -/
theorem dialogs_complete {dladdr : UInt64 → DlInfo} (short : ∀ addr, (dladdr addr).Short)
    (plain : ∀ addr, '%' ∉ fromUtf8 (dladdr addr).sname.val) (cacheCount : Nat) (counters : Counters)
    {events : List Event} {s : System} (ran : run (step dladdr) (System.initial cacheCount counters) events = some s)
    (few : events.countP Event.takesNumber < 2 ^ 31) (complete : Complete s) (criteria : Search.Criteria) (row : Nat) :
    let c := Search.onFilterButtonClicked (afterStream s.stream) criteria
    ∀ i operation, c.listFilterMemoryOperation[row]? = some i →
      c.operations.listMemoryOperation[i]? = some operation →
      ∃ originMsgNum listAddr, s.own[i]? = some (operation.callerThreadId, some ⟨originMsgNum, listAddr⟩) ∧
        onMemoryOperationDoubleClicked fromUtf8 c row =
          some (listAddr.map fun addr => resolvedRow fromUtf8 (dladdr addr) addr) := by
  intro c i operation listed object
  obtain ⟨n, inv⟩ := run_inv (initial_inv cacheCount counters) (by omega) ran
  obtain ⟨⟨originMsgNum, listAddr⟩, own, trace, sent⟩ := inv.operation complete object
  refine ⟨originMsgNum, listAddr, own, ?_⟩
  rw [onMemoryOperationDoubleClicked, listed, Option.bind_some, object, Option.map_some, trace]
  refine congrArg some (List.map_congr_left fun addr member => ?_)
  exact addrRow_resolved (inv.symbol complete short sent member) (plain addr)

end

/-- An address in an object `a.so`, which has the symbol `f` in front of it. -/
def inObject : DlInfo where
  fname := ⟨[97, 46, 115, 111], by decide⟩
  fbase := 4096
  sname := ⟨[102], by decide⟩
  saddr := 4352

theorem inObject_short : inObject.Short := ⟨by decide, by decide⟩

/-- The characters of a text of ASCII. -/
def ascii (bytes : List UInt8) : List Char := bytes.map fun byte => Char.ofNat byte.toNat

/-- Two threads whose calls cross; the second one leaves a symbol to the first. -/
def crossing : List Event :=
  [.number 1 0 0 .malloc ⟨8, 65536, 1, 0⟩, .number 2 0 0 .malloc ⟨16, 65600, 2, 0⟩, .append 2, .append 1,
    .backtraceSend 1 0 0 ⟨[4360], by decide⟩, .backtraceSend 2 0 0 ⟨[4360], by decide⟩, .append 2, .append 1,
    .check 1, .check 2, .finish 2, .symbolInfos 1 0 0, .append 1, .finish 1]

theorem dialogs_complete_crossing :
    ∃ (s : System) (operation : MemoryOperation),
      run (step fun _ => inObject) (System.initial 1 ⟨0, 0⟩) crossing = some s ∧
      ∃ originMsgNum listAddr, s.own[0]? = some (operation.callerThreadId, some ⟨originMsgNum, listAddr⟩) ∧
        onMemoryOperationDoubleClicked ascii
          (Search.onFilterButtonClicked (afterStream s.stream) Search.Criteria.none) 0 =
            some (listAddr.map fun addr => resolvedRow ascii inObject addr) := by
  refine ⟨_, _, rfl, @dialogs_complete ascii (fun _ => inObject) (fun _ => inObject_short) (fun _ => by decide) 1
    ⟨0, 0⟩ crossing _ rfl (by decide) ?_ Search.Criteria.none 0 0 _ rfl rfl⟩
  intro thread
  simp only [Function.update_apply, System.initial]
  split <;> simp_all

end Aleakd.Dialogs
