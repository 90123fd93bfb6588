import KernelReplay.Text.Prefix
import KernelReplay.Trace.Event

/-
  Event names. Tracers spell some events in several ways, and give every syscall its own pair of
  names; `EventKind.ofName?` says which events mean the same, and `syscallName` what the syscall of
  an entry event is called. A name without a kind is an event that nothing listens to.
-/

namespace KernelReplay

/-- What an event is about, whichever way its tracer spells it. -/
inductive EventKind
  | schedSwitch
  | schedMigrate
  | schedWakeup
  | schedFork
  | schedExec
  | schedSetPriority
  | pageAlloc
  /-- A freed page, reported under the name that also counts for I/O requests. -/
  | pageFree
  /-- A freed page, reported under the name that does not. -/
  | pageFreeKmem
  | irqEntry
  | irqExit
  | softIrqRaise
  | softIrqEntry
  | softIrqExit
  | syscallEntry
  | syscallExit
  | pagesWritten
  | kswapdWakeup
  | processState
  | fileDescriptor
  | blockDevice
  | blockRemap
  | blockBackmerge
  | blockIssue
  | blockComplete
  | netTransmit
  | netReceive
  deriving DecidableEq, Repr, Inhabited

/-- The name of the syscall that an entry event reports. -/
def syscallName (eventName : String) : String :=
  ((afterPrefix? "syscall_entry_" eventName).or (afterPrefix? "sys_" eventName)).getD eventName

namespace EventKind

/-- The names that stand for themselves. -/
def names : List (String × EventKind) :=
  [("sched_switch", schedSwitch),
   ("sched_migrate_task", schedMigrate),
   ("sched_wakeup", schedWakeup),
   ("sched_wakeup_new", schedWakeup),
   ("sched_waking", schedWakeup),
   ("sched_process_fork", schedFork),
   ("sched_process_exec", schedExec),
   ("sched_pi_setprio", schedSetPriority),
   ("mm_page_alloc", pageAlloc),
   ("kmem_mm_page_alloc", pageAlloc),
   ("mm_page_free", pageFree),
   ("kmem_mm_page_free", pageFreeKmem),
   ("irq_handler_entry", irqEntry),
   ("irq_handler_exit", irqExit),
   ("softirq_raise", softIrqRaise),
   ("softirq_entry", softIrqEntry),
   ("softirq_exit", softIrqExit),
   ("syscall_entry", syscallEntry),
   ("syscall_exit", syscallExit),
   ("exit_syscall", syscallExit),
   ("writeback_pages_written", pagesWritten),
   ("mm_vmscan_wakeup_kswapd", kswapdWakeup),
   ("lttng_statedump_process_state", processState),
   ("lttng_statedump_file_descriptor", fileDescriptor),
   ("lttng_statedump_block_device", blockDevice),
   ("block_bio_remap", blockRemap),
   ("block_bio_backmerge", blockBackmerge),
   ("block_rq_issue", blockIssue),
   ("block_rq_complete", blockComplete),
   ("net_dev_xmit", netTransmit),
   ("netif_receive_skb", netReceive)]

/-- The kind of an event by its name: any name with the start of a syscall's entry or exit events
is one of those, every other name stands for itself. -/
def ofName? (name : String) : Option EventKind :=
  if (afterPrefix? "sys_" name).isSome || (afterPrefix? "syscall_entry_" name).isSome then
    some syscallEntry
  else if (afterPrefix? "syscall_exit_" name).isSome then
    some syscallExit
  else
    names.lookup name

end EventKind

/-- What the event is about, if it is about anything. -/
def Event.kind? (e : Event) : Option EventKind := EventKind.ofName? e.name

end KernelReplay
