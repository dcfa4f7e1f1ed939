import Aleakd.Bootstrap
import Mathlib.Data.Vector.Basic

/-!
The blocks of `dummy_malloc` and `dummy_calloc`, which come one after the other from
`tmpbuf`. The limit is checked, and the product computed, modulo 2^64; the blocks are what
the program asked for as long as that does not make a request look small.
-/
namespace Aleakd.DummyBlocks
open Aleakd.Runs Aleakd.Bootstrap

theorem tmpbufSize_toNat : tmpbufSize.toNat = 8192 := rfl

abbrev TmpBuf := List.Vector UInt8 tmpbufSize.toNat

/-- `tmpbuf` and `tmppos` -/
structure Heap where
  tmpbuf : TmpBuf
  tmppos : UInt64

/-- `dummy_malloc`, with the offset in `tmpbuf` that it returns; `none` is for `exit(1)`. -/
def dummyMalloc (s : Heap) (size : UInt64) : Option (Heap × UInt64) :=
  if s.tmppos + size ≥ tmpbufSize then none
  else some ({ s with tmppos := s.tmppos + size }, s.tmppos)

/-- The loop of `dummy_calloc`, from `i` on; `none` when it writes past the end of `tmpbuf`. -/
def zeroFrom (tmpbuf : TmpBuf) (ptr : Nat) (size : UInt64) (i : UInt32) : Option TmpBuf :=
  if i.toUInt64 < size then
    if inside : ptr + i.toNat < tmpbufSize.toNat then zeroFrom (tmpbuf.set ⟨ptr + i.toNat, inside⟩ 0) ptr size (i + 1)
    else none
  else some tmpbuf
termination_by tmpbufSize.toNat - (ptr + i.toNat)
decreasing_by
  have next : (i + 1).toNat = i.toNat + 1 := by
    rw [UInt32.toNat_add, UInt32.toNat_one]
    rw [tmpbufSize_toNat] at inside
    omega
  omega

inductive Result where
  | returned (s : Heap) (retptr : UInt64)
  | exited
  /-- the loop has left `tmpbuf` -/
  | overrun

def dummyCalloc (s : Heap) (nmemb size : UInt64) : Result :=
  match dummyMalloc s (nmemb * size) with
  | none => .exited
  | some (s, ptr) =>
    match zeroFrom s.tmpbuf ptr.toNat (nmemb * size) 0 with
    | none => .overrun
    | some tmpbuf => .returned { s with tmpbuf } ptr

inductive Request where
  | malloc (size : UInt64)
  | calloc (nmemb size : UInt64)

def call (s : Heap) : Request → Result
  | .malloc size =>
    match dummyMalloc s size with
    | none => .exited
    | some (s, retptr) => .returned s retptr
  | .calloc nmemb size => dummyCalloc s nmemb size

/-- As many bytes are asked for. -/
def Request.bytes : Request → Nat
  | .malloc size => size.toNat
  | .calloc nmemb size => nmemb.toNat * size.toNat

/-- They are to be zero. -/
def Request.zeroed : Request → Prop
  | .malloc _ => False
  | .calloc _ _ => True

/-! ## Regions -/

structure Region where
  start : Nat
  size : Nat

def Region.Contains (region : Region) (i : Nat) : Prop := region.start ≤ i ∧ i < region.start + region.size

def Region.Apart (a b : Region) : Prop := ∀ i, a.Contains i → ¬ b.Contains i

/-- The buffer, and what the program was given of it. -/
structure State where
  heap : Heap
  regions : List Region

def State.initial : State := ⟨⟨List.Vector.replicate _ 0, 0⟩, []⟩

inductive Event where
  | call (request : Request)
  /-- the program writes into the buffer -/
  | store (i : Fin tmpbufSize.toNat) (byte : UInt8)

def step (s : State) : Event → Option State
  | .call request =>
    match call s.heap request with
    | .returned heap retptr => some ⟨heap, s.regions ++ [⟨retptr.toNat, request.bytes⟩]⟩
    | .exited | .overrun => none
  | .store i byte => some { s with heap := { s.heap with tmpbuf := s.heap.tmpbuf.set i byte } }

/-- If the call returns, it has given a block of its own, and has left the others alone. -/
inductive Sound (s : State) (request : Request) : Result → Prop where
  | exited : Sound s request .exited
  | returned {heap : Heap} {retptr : UInt64} (inside : retptr.toNat + request.bytes ≤ tmpbufSize.toNat)
      (apart : ∀ region ∈ s.regions, region.Apart ⟨retptr.toNat, request.bytes⟩)
      (zero : request.zeroed → ∀ i : Fin tmpbufSize.toNat, (Region.mk retptr.toNat request.bytes).Contains i →
        heap.tmpbuf.get i = 0)
      (kept : ∀ region ∈ s.regions, ∀ i : Fin tmpbufSize.toNat, region.Contains i →
        heap.tmpbuf.get i = s.heap.tmpbuf.get i) :
      Sound s request (.returned heap retptr)

/-- Every call of the run is. -/
def BlocksSound (events : List Event) : Prop :=
  ∀ earlier request later, events = earlier ++ .call request :: later → ∀ s, run step State.initial earlier = some s →
    Sound s request (call s.heap request)

/-- As many bytes are asked for altogether. -/
def requested : List Event → Nat
  | [] => 0
  | .call request :: events => request.bytes + requested events
  | .store _ _ :: events => requested events

/-- Up to the first call that exits, no total looks as if it was below the limit. -/
def NoneLooksSmall (events : List Event) : Prop :=
  ∀ earlier request later, events = earlier ++ .call request :: later → requested earlier < tmpbufSize.toNat →
    requested earlier + request.bytes < 2 ^ 64 ∨
      tmpbufSize.toNat ≤ (requested earlier + request.bytes) % 2 ^ 64

/-! ## One call -/

/-- What is passed to `dummy_malloc`. -/
def Request.passed : Request → UInt64
  | .malloc size => size
  | .calloc nmemb size => nmemb * size

theorem passed_toNat (request : Request) : request.passed.toNat = request.bytes % 2 ^ 64 := by
  cases request with
  | malloc size => exact (Nat.mod_eq_of_lt size.toNat_lt).symm
  | calloc nmemb size => exact UInt64.toNat_mul nmemb size

theorem zeroFrom_spec {ptr : Nat} {size : UInt64} (fits : ptr + size.toNat ≤ tmpbufSize.toNat) (tmpbuf : TmpBuf)
    (i : UInt32) (before : i.toNat ≤ size.toNat) :
    ∃ after, zeroFrom tmpbuf ptr size i = some after ∧ ∀ j : Fin tmpbufSize.toNat,
      after.get j = if ptr + i.toNat ≤ j ∧ j < ptr + size.toNat then 0 else tmpbuf.get j := by
  have small : ptr + size.toNat ≤ 8192 := fits
  fun_induction zeroFrom tmpbuf ptr size i with
  | case1 tmpbuf i more inside ih =>
    have less : i.toNat < size.toNat := UInt64.lt_iff_toNat_lt.mp more
    have next : (i + 1).toNat = i.toNat + 1 := by
      rw [UInt32.toNat_add, UInt32.toNat_one]
      omega
    obtain ⟨after, zeroed, bytes⟩ := ih (by omega)
    refine ⟨after, zeroed, fun j => ?_⟩
    rw [bytes, next]
    by_cases here : j = ⟨ptr + i.toNat, inside⟩
    · subst here
      have behind : ¬ (ptr + (i.toNat + 1) ≤ ptr + i.toNat ∧ ptr + i.toNat < ptr + size.toNat) := by omega
      have here : ptr + i.toNat ≤ ptr + i.toNat ∧ ptr + i.toNat < ptr + size.toNat := by omega
      rw [if_neg behind, List.Vector.get_set_same, if_pos here]
    · have elsewhere : (j : Nat) ≠ ptr + i.toNat := fun same => here (Fin.ext same)
      rw [List.Vector.get_set_of_ne (Ne.symm here)]
      by_cases zero : ptr + i.toNat ≤ j ∧ j < ptr + size.toNat
      · rw [if_pos zero, if_pos (by omega)]
      · rw [if_neg zero, if_neg (by omega)]
  | case2 tmpbuf i more outside =>
    have less : i.toNat < size.toNat := UInt64.lt_iff_toNat_lt.mp more
    exact absurd (by omega) outside
  | case3 tmpbuf i done =>
    have all : ¬ i.toNat < size.toNat := fun less => done (UInt64.lt_iff_toNat_lt.mpr less)
    exact ⟨tmpbuf, rfl, fun j => by rw [if_neg (by omega)]⟩

theorem dummyMalloc_cases (s : Heap) (size : UInt64) :
    tmpbufSize.toNat ≤ (s.tmppos.toNat + size.toNat) % 2 ^ 64 ∧ dummyMalloc s size = none ∨
      (s.tmppos.toNat + size.toNat) % 2 ^ 64 < tmpbufSize.toNat ∧
        dummyMalloc s size = some ({ s with tmppos := s.tmppos + size }, s.tmppos) := by
  rw [← UInt64.toNat_add, dummyMalloc]
  by_cases full : s.tmppos + size ≥ tmpbufSize
  · exact .inl ⟨UInt64.le_iff_toNat_le.mp full, if_pos full⟩
  · exact .inr ⟨Nat.not_le.mp fun reached => full (UInt64.le_iff_toNat_le.mpr reached), if_neg full⟩

/-- A call exits when the limit is reached modulo 2^64; another one has its block from `tmppos`
    on, if it stays in the buffer at all. -/
theorem call_cases (s : Heap) (request : Request) :
    tmpbufSize.toNat ≤ (s.tmppos.toNat + request.bytes) % 2 ^ 64 ∧ call s request = .exited ∨
      (s.tmppos.toNat + request.bytes) % 2 ^ 64 < tmpbufSize.toNat ∧ (call s request = .overrun ∨
        ∃ tmpbuf, call s request = .returned ⟨tmpbuf, s.tmppos + request.passed⟩ s.tmppos) := by
  rw [← Nat.add_mod_mod, ← passed_toNat]
  cases request with
  | malloc size =>
    rw [call]
    rcases dummyMalloc_cases s size with ⟨full, none⟩ | ⟨room, taken⟩
    · rw [none]
      exact .inl ⟨full, rfl⟩
    · rw [taken]
      exact .inr ⟨room, .inr ⟨s.tmpbuf, rfl⟩⟩
  | calloc nmemb size =>
    rw [call, dummyCalloc]
    rcases dummyMalloc_cases s (nmemb * size) with ⟨full, none⟩ | ⟨room, taken⟩
    · rw [none]
      exact .inl ⟨full, rfl⟩
    · rw [taken]
      refine .inr ⟨room, ?_⟩
      cases zeroed : zeroFrom s.tmpbuf s.tmppos.toNat (nmemb * size) 0 with
      | none => exact .inl (by simp only [zeroed])
      | some tmpbuf => exact .inr ⟨tmpbuf, by simp only [zeroed, Request.passed]⟩

/-- A request for which there is room: the block is zeroed if that is asked for, and what is
    in front of it is left alone. -/
theorem call_fits {s : Heap} {request : Request} (room : s.tmppos.toNat + request.bytes < tmpbufSize.toNat) :
    ∃ tmpbuf, call s request = .returned ⟨tmpbuf, s.tmppos + request.passed⟩ s.tmppos ∧ ∀ j : Fin tmpbufSize.toNat,
      (request.zeroed → (Region.mk s.tmppos.toNat request.bytes).Contains j → tmpbuf.get j = 0) ∧
        (j < s.tmppos.toNat → tmpbuf.get j = s.tmpbuf.get j) := by
  have limit := tmpbufSize_toNat
  have passed : request.passed.toNat = request.bytes := by
    rw [passed_toNat]
    exact Nat.mod_eq_of_lt (by omega)
  have taken : dummyMalloc s request.passed = some ({ s with tmppos := s.tmppos + request.passed }, s.tmppos) := by
    rcases dummyMalloc_cases s request.passed with ⟨full, _⟩ | ⟨_, taken⟩
    · rw [passed, Nat.mod_eq_of_lt (by omega)] at full
      omega
    · exact taken
  cases request with
  | malloc size =>
    refine ⟨s.tmpbuf, ?_, fun j => ⟨False.elim, fun _ => rfl⟩⟩
    rw [call, show dummyMalloc s size = _ from taken]
  | calloc nmemb size =>
    have size_ : (nmemb * size).toNat = (Request.calloc nmemb size).bytes := passed
    obtain ⟨after, zeroed, bytes⟩ := zeroFrom_spec (size_ ▸ room.le) s.tmpbuf 0 (Nat.zero_le _)
    rw [UInt32.toNat_zero, size_] at bytes
    refine ⟨after, ?_, fun j => ⟨fun _ inside => ?_, fun earlier => ?_⟩⟩
    · rw [call, dummyCalloc, show dummyMalloc s (nmemb * size) = _ from taken]
      simp only [zeroed]
    · rw [bytes]
      exact if_pos inside
    · rw [bytes, if_neg (by omega)]

/-! ## Runs -/

/-- The blocks so far lie one behind the other up to `tmppos`. -/
structure Inv (events : List Event) (s : State) : Prop where
  pos : s.heap.tmppos.toNat = requested events
  room : requested events < tmpbufSize.toNat
  below : ∀ region ∈ s.regions, region.start + region.size ≤ requested events

theorem requested_append (first second : List Event) :
    requested (first ++ second) = requested first + requested second := by
  induction first with
  | nil => exact (Nat.zero_add _).symm
  | cons event first ih =>
    cases event with
    | call request => rw [List.cons_append, requested, requested, ih, Nat.add_assoc]
    | store i byte => rw [List.cons_append, requested, requested, ih]

theorem initial_inv : Inv [] State.initial := by
  refine ⟨rfl, by decide, fun region member => ?_⟩
  cases member

theorem step_inv {events : List Event} {s : State} (inv : Inv events s) {event : Event}
    (room : requested (events ++ [event]) < tmpbufSize.toNat) :
    ∃ next, step s event = some next ∧ Inv (events ++ [event]) next := by
  have pos := inv.pos
  rw [requested_append] at room
  cases event with
  | store i byte =>
    refine ⟨_, rfl, ?_, ?_, ?_⟩
    · rw [requested_append]
      exact pos
    · rw [requested_append]
      exact inv.room
    · rw [requested_append]
      exact inv.below
  | call request =>
    have total : requested (events ++ [.call request]) = requested events + request.bytes := requested_append _ _
    have limit := tmpbufSize_toNat
    have passed := passed_toNat request
    simp only [requested, Nat.add_zero] at room
    have fits : s.heap.tmppos.toNat + request.bytes < tmpbufSize.toNat := by omega
    obtain ⟨tmpbuf, called, _⟩ := call_fits fits
    refine ⟨_, by rw [step, called], ?_, ?_, fun region member => ?_⟩
    · rw [total, ← pos]
      show (s.heap.tmppos + request.passed).toNat = _
      rw [UInt64.toNat_add, passed, Nat.add_mod_mod, Nat.mod_eq_of_lt (by omega)]
    · omega
    · rw [total]
      rcases List.mem_append.mp member with old | new
      · exact le_trans (inv.below region old) (Nat.le_add_right _ _)
      · rw [List.mem_singleton.mp new, ← pos]

theorem run_inv {events : List Event} (room : requested events < tmpbufSize.toNat) :
    ∃ s, run step State.initial events = some s ∧ Inv events s := by
  induction events using List.reverseRecOn with
  | nil => exact ⟨State.initial, rfl, initial_inv⟩
  | append_singleton events event ih =>
    have more := requested_append events [event]
    obtain ⟨s, ran, inv⟩ := ih (by omega)
    obtain ⟨next, stepped, inv'⟩ := step_inv inv room
    exact ⟨next, by rw [run_concat, ran]; exact stepped, inv'⟩

/-- The next call is sound unless its total looks as if it was below the limit. -/
theorem sound_iff {events : List Event} {s : State} (inv : Inv events s) (request : Request) :
    Sound s request (call s.heap request) ↔ requested events + request.bytes < 2 ^ 64 ∨
      tmpbufSize.toNat ≤ (requested events + request.bytes) % 2 ^ 64 := by
  have limit := tmpbufSize_toNat
  have cases_ := call_cases s.heap request
  rw [inv.pos] at cases_
  constructor
  · intro sound
    by_contra small
    rcases cases_ with ⟨full, _⟩ | ⟨_, overrun | ⟨tmpbuf, called⟩⟩
    · exact small (.inr full)
    · rw [overrun] at sound
      cases sound
    · rw [called] at sound
      cases sound with
      | returned inside apart zero kept =>
        rw [inv.pos] at inside
        omega
  · intro fits
    rcases cases_ with ⟨_, exited⟩ | ⟨room, _⟩
    · rw [exited]
      exact .exited
    · have room' : s.heap.tmppos.toNat + request.bytes < tmpbufSize.toNat := by
        have pos := inv.pos
        omega
      obtain ⟨tmpbuf, called, bytes⟩ := call_fits room'
      rw [called]
      refine .returned room'.le (fun region member i before here => ?_) (fun zeroed i inside => (bytes i).1 zeroed inside)
        fun region member i inside => (bytes i).2 ?_
      · have below := inv.below region member
        have pos := inv.pos
        have end_ := before.2
        have start : s.heap.tmppos.toNat ≤ i := here.1
        omega
      · have below := inv.below region member
        have pos := inv.pos
        have end_ := inside.2
        omega

theorem noneLooksSmall_of_append {first second : List Event} (none : NoneLooksSmall (first ++ second)) :
    NoneLooksSmall first := by
  rintro earlier request later rfl
  exact none earlier request (later ++ second) (by rw [List.append_assoc, List.cons_append])

/-- While no call has exited, there was room for all of them. -/
theorem run_room {events : List Event} {s : State} (none : NoneLooksSmall events)
    (ran : run step State.initial events = some s) : requested events < tmpbufSize.toNat := by
  induction events using List.reverseRecOn generalizing s with
  | nil => decide
  | append_singleton events event ih =>
    rw [run_concat, Option.bind_eq_some_iff] at ran
    obtain ⟨before, ran, stepped⟩ := ran
    have room := ih (noneLooksSmall_of_append none) ran
    obtain ⟨_, ran', inv⟩ := run_inv room
    rw [ran] at ran'
    cases ran'
    rw [requested_append]
    cases event with
    | store i byte => exact room
    | call request =>
      have fits := none events request [] rfl room
      show requested events + (request.bytes + 0) < _
      rcases call_cases before.heap request with ⟨_, exited⟩ | ⟨small, _⟩
      · rw [step, exited] at stepped
        cases stepped
      · rw [inv.pos] at small
        omega

/-- Every block that a run of calls gets is its own, inside the buffer and as large as asked
    for exactly when no total looks as if it was below the limit. -/
theorem blocks_sound_iff (events : List Event) : BlocksSound events ↔ NoneLooksSmall events := by
  constructor
  · intro sound earlier request later split room
    obtain ⟨s, ran, inv⟩ := run_inv room
    exact (sound_iff inv request).mp (sound earlier request later split s ran)
  · intro none earlier request later split s ran
    have room := run_room (noneLooksSmall_of_append (split ▸ none)) ran
    obtain ⟨_, ran', inv⟩ := run_inv room
    rw [ran] at ran'
    cases ran'
    exact (sound_iff inv request).mpr (none earlier request later split room)

/-- 100 bytes, then so many that `tmppos` comes back to 50. -/
theorem blocks_overlap : ¬ ∀ events, BlocksSound events := by
  intro claim
  have first : requested [.call (.malloc 100)] < tmpbufSize.toNat := by decide
  obtain ⟨s, ran, inv⟩ := run_inv first
  have sound := claim [.call (.malloc 100), .call (.malloc 18446744073709551566)] [.call (.malloc 100)] _ [] rfl s ran
  have fits := (sound_iff inv _).mp sound
  revert fits
  decide

/-- The start of the library takes `dummy_malloc` for this one. -/
theorem dummyMalloc_bootstrap {s : Bootstrap.State} {heap : Heap} (same : heap.tmppos = s.tmppos) (size : UInt64) :
    s.dummyMalloc size =
      match dummyMalloc heap size with
      | none => { s with exited := true }
      | some (next, retptr) => { s with tmppos := next.tmppos, held := .tmpbuf retptr :: s.held } := by
  rw [Bootstrap.State.dummyMalloc, dummyMalloc, same]
  by_cases full : s.tmppos + size ≥ tmpbufSize
  · rw [if_pos full, if_pos full]
  · rw [if_neg full, if_neg full]

end Aleakd.DummyBlocks
