import KernelReplay.Table.Basic
import KernelReplay.Syscall.Request

/-
  Threads and processes. A process is the thread that leads its group; the descriptors of a group
  belong to the leader once it is known.
-/

namespace KernelReplay

/-- A thread, or the process that it leads. -/
structure Thread where
  tid : Int
  /-- The leader of the thread's group, once known. -/
  pid : Option Int := none
  comm : String := ""
  prio : Option Int := none
  /-- The syscall that the thread is in. -/
  call : Option Call := none
  /-- Open descriptors by number. -/
  fds : Table Int Fd := ∅
  /-- The thread that ran on the CPU before this one. -/
  prevTid : Option Int := none
  /-- When the thread was first woken since it last ran. -/
  lastWakeup : Option Int := none
  /-- Who woke it then. -/
  lastWaker : Option Int := none
  migrations : Nat := 0
  io : IoCounts := {}
  deriving DecidableEq, Inhabited

namespace Thread

/-- A process or thread whose group is known. -/
def ofGroup (tid pid : Int) (comm : String) : Thread := { tid, pid := some pid, comm }

/-- A thread of which nothing is known but its number. The idle thread leads itself. -/
def fresh (tid : Int) : Thread := if tid = 0 then ofGroup 0 0 "" else { tid }

/-- Whether the thread is known to have another leader. -/
def isSecondary (t : Thread) : Bool := t.pid.any (· ≠ t.tid)

/-- The leader of the thread's group, or the thread itself if none is known. -/
def leader (t : Thread) : Int := t.pid.getD t.tid

/-- The thread is woken. Only the first wakeup before it runs counts. -/
def wake (t : Thread) (time : Int) (waker : Option Int) : Thread :=
  if t.lastWakeup.isNone then
    { t with lastWakeup := some time, lastWaker := waker.or t.lastWaker }
  else t

/-- The thread runs, so its wakeup is over. -/
def clearWakeup (t : Thread) : Thread := { t with lastWakeup := none, lastWaker := none }

/-- Changes the request that the thread has in flight, if it has one. -/
def mapRequest (t : Thread) (f : IoRequest → IoRequest) : Thread :=
  { t with call := t.call.map fun c => { c with request := c.request.map f } }

theorem mapRequest_id (t : Thread) : t.mapRequest id = t := by
  unfold mapRequest
  simp only [Option.map_id, id_eq, Option.map_id']

theorem mapRequest_mapRequest (t : Thread) (f g : IoRequest → IoRequest) :
    (t.mapRequest f).mapRequest g = t.mapRequest (g ∘ f) := by
  unfold mapRequest
  cases t.call with
  | none => rfl
  | some c => simp only [Option.map_some, Option.map_map]

end Thread

end KernelReplay
