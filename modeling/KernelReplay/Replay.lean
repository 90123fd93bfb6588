import KernelReplay.Rules.BlockRequests
import KernelReplay.Rules.Interrupts
import KernelReplay.Rules.IoRequests
import KernelReplay.Rules.Paging
import KernelReplay.Rules.Scheduling
import KernelReplay.Rules.Snapshot
import KernelReplay.Rules.Syscalls
import KernelReplay.Rules.Traffic

/-
  Replaying a trace. A replay holds the state of the machine and a list of subsystems; every event
  goes to each subsystem in turn. The standard order matters: the I/O rules finish the request of a
  syscall that the syscall rules have just ended.
-/

namespace KernelReplay

/-- A set of rules, with what it remembers beside the state. -/
inductive Subsystem
  | scheduling
  | paging
  | interrupts
  | syscalls
  | ioRequests
  | snapshot
  | blockRequests (remaps : List Remap)
  | traffic
  deriving DecidableEq, Repr, Inhabited

namespace Subsystem

/-- Every subsystem, in the standard order and with nothing remembered. -/
def standard : List Subsystem :=
  [scheduling, paging, interrupts, syscalls, ioRequests, snapshot, blockRequests [], traffic]

/-- The short name of a subsystem. -/
def name : Subsystem → String
  | scheduling => "sched"
  | paging => "mem"
  | interrupts => "irq"
  | syscalls => "syscalls"
  | ioRequests => "io"
  | snapshot => "statedump"
  | blockRequests _ => "block"
  | traffic => "net"

/-- The subsystem of a name, with nothing remembered. -/
def ofName? (name : String) : Option Subsystem := standard.find? fun u => u.name = name

/-- The remaps that a subsystem remembers, if it follows block requests. -/
def remaps? : Subsystem → Option (List Remap)
  | blockRequests remaps => some remaps
  | _ => none

/-- What an event of a kind means for a subsystem. -/
def applyKind (kind : EventKind) (e : Event) : Subsystem → Update Subsystem
  | scheduling => do Scheduling.apply kind e; pure scheduling
  | paging => do Paging.apply kind e; pure paging
  | interrupts => do Interrupts.apply kind e; pure interrupts
  | syscalls => do Syscalls.apply kind e; pure syscalls
  | ioRequests => do IoRequests.apply kind e; pure ioRequests
  | snapshot => do Snapshot.apply kind e; pure snapshot
  | blockRequests remaps => do
    let remaps ← BlockRequests.apply kind e remaps
    pure (blockRequests remaps)
  | traffic => do Traffic.apply kind e; pure traffic

/-- What an event means for a subsystem. An event of no kind means nothing. -/
def apply (u : Subsystem) (e : Event) : Update Subsystem :=
  match e.kind? with
  | some kind => u.applyKind kind e
  | none => pure u

/-- Gives an event to each subsystem in turn. -/
def applyAll (e : Event) : List Subsystem → Update (List Subsystem)
  | [] => pure []
  | u :: rest => do
    let u ← u.apply e
    let rest ← applyAll e rest
    pure (u :: rest)

end Subsystem

/-- A trace being replayed. -/
structure Replay where
  state : State := {}
  subsystems : List Subsystem := Subsystem.standard
  /-- How many events have been replayed. -/
  processed : Nat := 0
  deriving DecidableEq, Inhabited

/-- What replaying a part of a trace gives. -/
structure Replay.Progress where
  replay : Replay
  signals : List Signal
  deriving DecidableEq, Inhabited

/-- An event that could not be read. -/
structure ReadFailure where
  /-- The number of the event, counted from one. -/
  number : Nat
  cause : String
  deriving DecidableEq, Repr, Inhabited

/-- The wording of the failure. -/
def ReadFailure.message (f : ReadFailure) : String := s!"Failed to read event {f.number}"

/-- The wording of the failure, with its cause. -/
def ReadFailure.report (f : ReadFailure) : String := f.message ++ ": " ++ f.cause

namespace Replay

/-- A replay that knows nothing but what the settings say. -/
def ofSettings (s : Settings) : Replay := { state := .ofSettings s }

/-- What the start of a replay reports. -/
def startReport (s : Settings) : List Diagnostic := s.tracerVersion.toList.map .tracerVersion

/-- Replays one event. -/
def process (r : Replay) (e : Event) : Except Overflow Progress := do
  let o ← Subsystem.applyAll e r.subsystems r.state
  let processed ← checkedSucc r.processed
  .ok { replay := { state := o.state, subsystems := o.value, processed }, signals := o.signals }

/-- Replays events in order. -/
def run (r : Replay) : List Event → Except Overflow Progress
  | [] => .ok { replay := r, signals := [] }
  | e :: rest => do
    let first ← r.process e
    let last ← first.replay.run rest
    .ok { last with signals := first.signals ++ last.signals }

/-- Replays the events of a reader that may fail, up to the first failure. -/
def tryRun (r : Replay) :
    List (Except String Event) → Except Overflow (Progress × Option ReadFailure)
  | [] => .ok ({ replay := r, signals := [] }, none)
  | .error cause :: _ => do
    let number ← checkedSucc r.processed
    .ok ({ replay := r, signals := [] }, some { number, cause })
  | .ok e :: rest => do
    let first ← r.process e
    let (last, failure) ← first.replay.tryRun rest
    .ok ({ last with signals := first.signals ++ last.signals }, failure)

/-- What the end of a replay reports of things left open: nothing if there are none. -/
def leftOpen (count : Nat) (report : List Diagnostic) : List Diagnostic :=
  if count = 0 then [] else report

/-- What the end of a replay reports: a summary, and what was begun and never ended. -/
def finishReport (r : Replay) : List Diagnostic :=
  let s := r.state
  let orphans := s.orphans.length
  let calls := s.inFlight.map fun (tid, call) => .syscallInFlight tid call.name call.begun
  let irqs := s.pendingHardIrqs.length
  [.summary r.processed s.threads.size s.cpus.size s.disks.size]
    ++ leftOpen orphans [.orphanedBlockRequests orphans]
    ++ leftOpen calls.length (.syscallsInFlight calls.length :: calls)
    ++ leftOpen irqs [.pendingHardIrqs irqs]

end Replay

end KernelReplay
