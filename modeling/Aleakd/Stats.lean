import Aleakd.Operations
import Mathlib.Data.Finmap

/-!
The counters of a session, `server/Model/MemoryStats.cpp` and
`server/Model/MemoryUsage.cpp`, and what one memory operation adds to them. The
`int` counters wrap.
-/
namespace Aleakd.Stats
open Aleakd.Messages Aleakd.Operations

/-- The remaining size by second. -/
structure MemoryUsage where
  firstTime : UInt64
  lastTime : UInt64
  listSizeByTimestamp : Finmap fun _ : UInt64 => UInt64

def MemoryUsage.empty : MemoryUsage := ⟨0, 0, ∅⟩

def MemoryUsage.value (u : MemoryUsage) (timestamp : UInt64) : UInt64 :=
  (Finmap.lookup timestamp u.listSizeByTimestamp).getD 0

def MemoryUsage.contains (u : MemoryUsage) (timestamp : UInt64) : Bool := timestamp ∈ u.listSizeByTimestamp

def MemoryUsage.count (u : MemoryUsage) : Nat := u.listSizeByTimestamp.keys.card

/-- `MemoryUsage::update`; the size recorded so far is read into an `int`, and is
    widened to 64 bits again where it is compared with the new one. -/
def MemoryUsage.update (u : MemoryUsage) (timestamp size : UInt64) : MemoryUsage :=
  let currentSize : Int32 := (u.value timestamp).toUInt32.toInt32
  if currentSize = 0 then
    { firstTime := if u.firstTime = 0 then timestamp else u.firstTime
      lastTime := timestamp
      listSizeByTimestamp := Finmap.insert timestamp size u.listSizeByTimestamp }
  else if currentSize.toInt64.toUInt64 < size then
    { u with
      lastTime := timestamp
      listSizeByTimestamp := Finmap.insert timestamp size u.listSizeByTimestamp }
  else u

structure MemoryStats where
  messageCount : Int32
  tvStartTime : Timeval
  tvLastTime : Timeval
  memoryOperationCount : Int32
  memoryOperationSize : UInt64
  totalAllocCount : Int32
  totalAllocSize : UInt64
  totalFreeCount : Int32
  totalFreeSize : UInt64
  totalRemainingCount : Int32
  totalRemainingSize : UInt64
  peakRemainingSize : UInt64
  memoryUsage : MemoryUsage
  mallocCount : Int32
  reallocCount : Int32
  callocCount : Int32
  posixMemalignCount : Int32
  alignedAllocCount : Int32
  memAlignCount : Int32
  vAllocCount : Int32
  pVAllocCount : Int32
  freeCount : Int32

/-- `MemoryStats::MemoryStats` -/
def MemoryStats.zero : MemoryStats where
  messageCount := 0
  tvStartTime := ⟨0, 0⟩
  tvLastTime := ⟨0, 0⟩
  memoryOperationCount := 0
  memoryOperationSize := 0
  totalAllocCount := 0
  totalAllocSize := 0
  totalFreeCount := 0
  totalFreeSize := 0
  totalRemainingCount := 0
  totalRemainingSize := 0
  peakRemainingSize := 0
  memoryUsage := MemoryUsage.empty
  mallocCount := 0
  reallocCount := 0
  callocCount := 0
  posixMemalignCount := 0
  alignedAllocCount := 0
  memAlignCount := 0
  vAllocCount := 0
  pVAllocCount := 0
  freeCount := 0

/-- `MemoryStats::reset`, which leaves `m_iPeakRemainingSize` as it is. -/
def MemoryStats.reset (s : MemoryStats) : MemoryStats :=
  { MemoryStats.zero with peakRemainingSize := s.peakRemainingSize }

/-- `m_iMessageCount++` -/
def MemoryStats.countMessage (s : MemoryStats) : MemoryStats :=
  { s with messageCount := s.messageCount + 1 }

/-- `sizeof(MemoryOperation)` -/
def sizeofMemoryOperation : UInt64 := 96

/-- `timerisset` -/
def Timeval.isSet (tv : Timeval) : Bool := tv.tvSec ≠ 0 || tv.tvUsec ≠ 0

/-- The new value of a maximum, `if(value > maximum) maximum = value`. -/
def larger (maximum value : UInt64) : UInt64 := if maximum < value then value else maximum

/-- What `addMemoryOperation` adds for an operation that comes in. -/
def MemoryStats.addAlloc (s : MemoryStats) (operation : MemoryOperation) : MemoryStats :=
  let remaining := s.totalRemainingSize + operation.allocSize
  { s.countMessage with
    tvStartTime := if Timeval.isSet s.tvStartTime then s.tvStartTime else operation.tvOperation
    tvLastTime := operation.tvOperation
    memoryOperationCount := s.memoryOperationCount + 1
    memoryOperationSize := s.memoryOperationSize + sizeofMemoryOperation
    totalAllocSize := s.totalAllocSize + operation.allocSize
    totalRemainingSize := remaining
    peakRemainingSize := larger s.peakRemainingSize remaining }

/-- What it takes off for the operation that is freed, if there is one. -/
def MemoryStats.addFree (s : MemoryStats) : Option MemoryOperation → MemoryStats
  | some freed =>
    { s with
      totalFreeSize := s.totalFreeSize + freed.allocSize
      totalRemainingSize := s.totalRemainingSize - freed.allocSize }
  | none => s

def MemoryStats.updateUsage (s : MemoryStats) (operation : MemoryOperation) : MemoryStats :=
  { s with memoryUsage := s.memoryUsage.update operation.tvOperation.tvSec.toUInt64 s.totalRemainingSize }

/-- The `switch` over the code. -/
def MemoryStats.countCode (s : MemoryStats) (operation : MemoryOperation) : MemoryStats :=
  match operation.msgCode with
  | .malloc => { s with totalAllocCount := s.totalAllocCount + 1, mallocCount := s.mallocCount + 1 }
  | .calloc => { s with totalAllocCount := s.totalAllocCount + 1, callocCount := s.callocCount + 1 }
  | .realloc =>
    { s with
      totalAllocCount := s.totalAllocCount + 1
      totalFreeCount := if operation.freePtr ≠ 0 then s.totalFreeCount + 1 else s.totalFreeCount
      reallocCount := s.reallocCount + 1 }
  | .free => { s with totalFreeCount := s.totalFreeCount + 1, freeCount := s.freeCount + 1 }
  | .posixMemalign =>
    { s with totalAllocCount := s.totalAllocCount + 1, posixMemalignCount := s.posixMemalignCount + 1 }
  | .alignedAlloc =>
    { s with totalAllocCount := s.totalAllocCount + 1, alignedAllocCount := s.alignedAllocCount + 1 }
  | .memalign => { s with totalAllocCount := s.totalAllocCount + 1, memAlignCount := s.memAlignCount + 1 }
  | .valloc => { s with totalAllocCount := s.totalAllocCount + 1, vAllocCount := s.vAllocCount + 1 }
  | .pvalloc => { s with totalAllocCount := s.totalAllocCount + 1, pVAllocCount := s.pVAllocCount + 1 }
  | _ => s

/-- The part of `QApplicationWindowController::addMemoryOperation` about the
    statistics, given the operation that it frees. -/
def MemoryStats.addMemoryOperation (s : MemoryStats) (operation : MemoryOperation) (freed : Option MemoryOperation) :
    MemoryStats :=
  let s := (((s.addAlloc operation).addFree freed).updateUsage operation).countCode operation
  { s with totalRemainingCount := s.totalAllocCount - s.totalFreeCount }

/-! ## What an operation does to the totals -/

@[simp] theorem MemoryStats.countCode_remaining (s : MemoryStats) (operation : MemoryOperation) :
    (s.countCode operation).totalRemainingSize = s.totalRemainingSize := by
  unfold MemoryStats.countCode
  split <;> rfl

@[simp] theorem MemoryStats.countCode_peak (s : MemoryStats) (operation : MemoryOperation) :
    (s.countCode operation).peakRemainingSize = s.peakRemainingSize := by
  unfold MemoryStats.countCode
  split <;> rfl

/-- The size of the freed operation, where there is one. -/
def freedSize (freed : Option MemoryOperation) : UInt64 := (freed.map MemoryOperation.allocSize).getD 0

@[simp] theorem MemoryStats.addMemoryOperation_remaining (s : MemoryStats) (operation : MemoryOperation)
    (freed : Option MemoryOperation) :
    (s.addMemoryOperation operation freed).totalRemainingSize =
      s.totalRemainingSize + operation.allocSize - freedSize freed := by
  cases freed <;>
    simp [MemoryStats.addMemoryOperation, MemoryStats.updateUsage, MemoryStats.addFree, MemoryStats.addAlloc, freedSize]

@[simp] theorem MemoryStats.addMemoryOperation_peak (s : MemoryStats) (operation : MemoryOperation)
    (freed : Option MemoryOperation) :
    (s.addMemoryOperation operation freed).peakRemainingSize =
      larger s.peakRemainingSize (s.totalRemainingSize + operation.allocSize) := by
  cases freed <;>
    simp [MemoryStats.addMemoryOperation, MemoryStats.updateUsage, MemoryStats.addFree, MemoryStats.addAlloc]

end Aleakd.Stats
