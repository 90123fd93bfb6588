import KernelReplay.Machine.State

/-
  Diagnostics: what the replay reports to the people who run it. No rule depends on one.
-/

namespace KernelReplay

/-- How much a diagnostic matters. -/
inductive Level
  | trace
  | debug
  | info
  | warn
  deriving DecidableEq, Repr, Inhabited

/-- The name of a level. -/
def Level.name : Level → String
  | trace => "TRACE"
  | debug => "DEBUG"
  | info => "INFO"
  | warn => "WARN"

/-- Something worth reporting. -/
inductive Diagnostic
  | tracerVersion (version : TracerVersion)
  | newCpu (cpu : Nat)
  | incompleteSwitch (time : Int)
  | wakeupOfRunning (tid time : Int)
  | fork (parent child : Int) (fds : Nat)
  | unmatchedIrqExit (id : Int) (cpu : Nat) (time : Int)
  | coalescedSoftIrq (vector : Int) (cpu : Nat)
  | unmatchedSoftIrqExit (vector : Int) (cpu : Nat)
  | syscallOnIdleCpu (eventName : String) (cpu : Nat)
  | exitWithoutEntry (tid : Int)
  | requestWithoutCall (tid : Int) (syscall : String)
  | leaderFromContext (leader tid : Int)
  | replacedBlockRequest (dev sector : Nat) (issued : Int)
  | completionOnUnknownDisk (dev sector : Nat)
  | unmatchedCompletion (dev sector : Nat)
  | summary (events threads cpus disks : Nat)
  | orphanedBlockRequests (count : Nat)
  | syscallsInFlight (count : Nat)
  | syscallInFlight (tid : Int) (syscall : String) (since : Int)
  | pendingHardIrqs (count : Nat)
  deriving DecidableEq, Repr, Inhabited

namespace Diagnostic

/-- How much the diagnostic matters. -/
def level : Diagnostic → Level
  | tracerVersion _ | newCpu _ | fork .. | leaderFromContext .. | syscallInFlight .. => .debug
  | incompleteSwitch _ | wakeupOfRunning .. | unmatchedIrqExit .. | coalescedSoftIrq ..
  | unmatchedSoftIrqExit .. | syscallOnIdleCpu .. | exitWithoutEntry _ | requestWithoutCall ..
  | replacedBlockRequest .. | completionOnUnknownDisk .. | unmatchedCompletion .. => .trace
  | summary .. => .info
  | orphanedBlockRequests _ | syscallsInFlight _ | pendingHardIrqs _ => .warn

/-- The wording of the diagnostic. -/
def message : Diagnostic → String
  | tracerVersion version => s!"Tracer version {version.render}"
  | newCpu cpu => s!"New CPU {cpu}"
  | incompleteSwitch time => s!"Ignoring incomplete sched_switch at {time}"
  | wakeupOfRunning tid time => s!"Ignoring wakeup of running thread {tid} at {time}"
  | fork parent child fds => s!"Fork {parent} -> {child}, {fds} FDs cloned"
  | unmatchedIrqExit id cpu time => s!"Dropping irq_handler_exit for irq {id} on CPU {cpu} at {time}"
  | coalescedSoftIrq vector cpu => s!"Coalescing softirq {vector} raise on CPU {cpu}"
  | unmatchedSoftIrqExit vector cpu => s!"Dropping softirq_exit for vec {vector} on CPU {cpu}"
  | syscallOnIdleCpu eventName cpu => s!"Syscall {eventName} on idle CPU {cpu}"
  | exitWithoutEntry tid => s!"Syscall exit without entry for tid {tid}"
  | requestWithoutCall tid syscall => s!"No syscall attached to tid {tid} for {syscall}"
  | leaderFromContext leader tid => s!"Creating leader {leader} of thread {tid} from context"
  | replacedBlockRequest dev sector issued =>
    s!"Replacing uncompleted request on dev {dev} sector {sector} issued at {issued}"
  | completionOnUnknownDisk dev sector => s!"Completion on unknown dev {dev} sector {sector}"
  | unmatchedCompletion dev sector => s!"Unmatched completion on dev {dev} sector {sector}"
  | summary events threads cpus disks =>
    s!"Processed {events} events: {threads} processes, {cpus} CPUs, {disks} disks"
  | orphanedBlockRequests count => s!"{count} block requests never completed"
  | syscallsInFlight count => s!"{count} syscalls still in flight"
  | syscallInFlight tid syscall since => s!"tid {tid} in {syscall} since {since}"
  | pendingHardIrqs count => s!"{count} hard IRQs never exited"

end Diagnostic

end KernelReplay
