import KernelReplay.Syscall.Class
import KernelReplay.Trace.EventKind
import KernelReplay.Update.Basic

/-
  Network traffic: the counters of each interface, and a guess that it allows. A packet that leaves
  while the running thread is in a write syscall suggests that the thread writes to a socket.
-/

namespace KernelReplay.Traffic

open Update

/-- The descriptor that a thread is writing to. -/
def writtenFd? (t : Thread) : Option Int := do
  let call ← t.call
  if SyscallClass.ofName? call.name = some .write then
    let request ← call.request
    request.body.fd?
  else
    none

/-- A request with a guess for the type of the descriptor that it makes. -/
def guessSocket (rq : IoRequest) : IoRequest :=
  match rq.body with
  | .transfer t => { rq with body := .transfer { t with guess := some .maybeNet } }
  | _ => rq

/-- Takes the descriptor that a thread is writing to for a socket, if nothing else is known of it.
Where the descriptor is not in the table, the request keeps the guess. -/
def guessFor (tid : Int) (s : State) : State :=
  match (s.thread? tid).bind writtenFd? with
  | none => s
  | some number =>
    let owner := s.fdOwner tid
    if (s.ownFd? owner number).isSome then
      s.adjustFd owner number (·.guessed (some .maybeNet))
    else
      s.adjustRequest tid guessSocket

/-- The bytes of a packet. -/
def bytes (e : Event) : Nat := (e.nat? "len").getD 0

/-- A packet leaves through an interface. -/
def transmit (e : Event) : Update Unit :=
  whenSome (e.text? "name") fun iface => do
    modify (·.updateIface iface (·.send (bytes e)))
    notify (.transmit iface (bytes e) e.cpu?)
    let s ← get
    whenSome (e.cpu?.bind s.running?) fun tid => modify (guessFor tid)

/-- A packet comes in through an interface. -/
def receive (e : Event) : Update Unit :=
  whenSome (e.text? "name") fun iface => do
    modify (·.updateIface iface (·.receive (bytes e)))
    notify (.receive iface (bytes e) e.cpu?)

/-- What an event means for network traffic. -/
def apply (kind : EventKind) (e : Event) : Update Unit :=
  match kind with
  | .netTransmit => transmit e
  | .netReceive => receive e
  | _ => pure ()

end KernelReplay.Traffic
