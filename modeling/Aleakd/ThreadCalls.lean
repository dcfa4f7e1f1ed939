import Aleakd.ListSums
import Aleakd.Runs
import Aleakd.Threads
import Aleakd.Wrapper

/-!
The thread calls that fail. `prctl` reports a new name only where the real function has
succeeded; `pthread_create` and `pthread_setname_np` report theirs whatever the real
function returned, and the server believes them.
-/
namespace Aleakd.ThreadCalls
open Aleakd.Messages Aleakd.Operations Aleakd.Threads Aleakd.Wrapper Aleakd.Runs Aleakd.ListSums

inductive Call where
  /-- `thread` is what `*thread` holds after the real function, where there is a pointer. -/
  | pthreadCreate (res : Int32) (thread : Option UInt64)
  | pthreadSetnameNp (res : Int32) (thread : UInt64) (name : CString)
  | prctl (option res : Int32) (name : CString)

def Call.succeeded : Call → Bool
  | .pthreadCreate res _ | .pthreadSetnameNp res _ _ => res = 0
  | .prctl _ res _ => 0 ≤ res

/-- The message that the call sends. -/
def Call.send : Call → Counters → Moment → Counters × Option (ServerMsgHeaderV1 × ServerMsgThreadDataV1)
  | .pthreadCreate _ none, c, _ => (c, none)
  | .pthreadCreate _ (some thread), c, moment =>
    let (c, message) := Wrapper.pthreadCreate thread c moment
    (c, some message)
  | .pthreadSetnameNp res thread name, c, moment => Wrapper.pthreadSetnameNp res thread name c moment
  | .prctl option res name, c, moment => Wrapper.prctl option res name c moment

/-- The library and the thread table of the server. -/
structure State where
  counters : Counters
  table : ThreadTable

/-- The server handles the message of a call, if there is one; `none` where it reads past
    the end of the name. -/
def State.handled (s : State) : Counters × Option (ServerMsgHeaderV1 × ServerMsgThreadDataV1) → Option State
  | (counters, none) => some { s with counters }
  | (counters, some (header, data)) =>
    (threadOperation header data).map fun operation => ⟨counters, s.table.updateThreadInfos operation⟩

def step (s : State) (event : Moment × Call) : Option State := s.handled (event.2.send s.counters event.1)

/-- The name of the thread that an id stands for at present. -/
def ThreadTable.nameOf (t : ThreadTable) (threadId : UInt64) : Option (List UInt8) :=
  (getById t.objects t.listThreadInfosAlive threadId).bind fun i => t.objects[i]?.map ThreadInfos.threadName

theorem cString_copyThreadName (name : CString) :
    cString (copyThreadName (List.Vector.replicate 24 0) name).val =
      if name.val.length < 24 then some name.val else none := by
  have field : (copyThreadName (List.Vector.replicate 24 0) name).val =
      name.val.take (min name.val.length 24) ++ List.replicate (24 - min name.val.length 24) 0 := by
    show name.val.take _ ++ List.drop _ (List.replicate 24 0) = _
    rw [List.drop_replicate]
  rw [field]
  by_cases fits : name.val.length < 24
  · have least : min name.val.length 24 = name.val.length := by omega
    have ends : (0 : UInt8) ∈ name.val ++ List.replicate (24 - name.val.length) 0 :=
      List.mem_append_right _ (List.mem_replicate.mpr ⟨by omega, rfl⟩)
    rw [if_pos fits, least, List.take_length, cString, if_pos ends, takeWhile_padded name.property]
  · have least : min name.val.length 24 = 24 := by omega
    rw [if_neg fits, least, cString, if_neg]
    rw [Nat.sub_self, List.replicate_zero, List.append_nil]
    exact fun member => name.property (List.mem_of_mem_take member)

/-! ## What a message does to the table -/

end Aleakd.ThreadCalls
