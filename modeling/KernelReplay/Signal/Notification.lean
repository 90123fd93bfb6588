import KernelReplay.Machine.State

/-
  Notifications: what the replay tells its subscribers. Each carries the entities it is about as
  they were when it was sent.
-/

namespace KernelReplay

/-- The kinds of notifications, each of which can be subscribed to. -/
inductive NotificationKind
  | switchPerCpu
  | switchPerThread
  | migrate
  | priorityChanged
  | requestExit
  | blockComplete
  | createFd
  | updateFd
  | closeFd
  | createParent
  | pageAlloc
  | pageFree
  | irqEntry
  | irqExit
  | softIrqExit
  | transmit
  | receive
  | syscallExit
  deriving DecidableEq, Repr, Inhabited

namespace NotificationKind

/-- Every kind. -/
def all : List NotificationKind :=
  [switchPerCpu, switchPerThread, migrate, priorityChanged, requestExit, blockComplete, createFd,
   updateFd, closeFd, createParent, pageAlloc, pageFree, irqEntry, irqExit, softIrqExit, transmit,
   receive, syscallExit]

/-- The name to subscribe by. -/
def name : NotificationKind → String
  | switchPerCpu => "sched_switch_per_cpu"
  | switchPerThread => "sched_switch_per_tid"
  | migrate => "sched_migrate_task"
  | priorityChanged => "prio_changed"
  | requestExit => "io_rq_exit"
  | blockComplete => "block_rq_complete"
  | createFd => "create_fd"
  | updateFd => "update_fd"
  | closeFd => "close_fd"
  | createParent => "create_parent_proc"
  | pageAlloc => "tid_page_alloc"
  | pageFree => "tid_page_free"
  | irqEntry => "irq_handler_entry"
  | irqExit => "irq_handler_exit"
  | softIrqExit => "softirq_exit"
  | transmit => "net_dev_xmit"
  | receive => "netif_receive_skb"
  | syscallExit => "syscall_exit"

/-- The kind of a name. -/
def ofName? (name : String) : Option NotificationKind := all.find? fun kind => kind.name = name

/-- What is said of a name that belongs to no kind. -/
def unknownMessage (name : String) : String := s!"Unknown notification {name}"

/-- What is said of a subscription by a name that belongs to no kind. -/
def refusedMessage (name : String) : String :=
  s!"Failed to register for '{name}': " ++ unknownMessage name

end NotificationKind

/-- A thread takes over a CPU. -/
structure Switch where
  time : Int
  cpu : Nat
  prevTid : Int
  /-- The thread that runs now. -/
  next : Thread
  nextTid : Int
  /-- Who woke it, if that was traced. -/
  waker : Option Thread
  /-- How long it waited since it was first woken. -/
  latency : Option Int
  deriving DecidableEq, Inhabited

/-- How a descriptor changes. -/
inductive FdChange
  | create
  | update
  | close
  deriving DecidableEq, Repr, Inhabited

/-- Something that happened on the traced machine. -/
inductive Notification
  | switchPerCpu (switch : Switch)
  | switchPerThread (switch : Switch)
  | migrate (thread : Thread) (cpu target : Option Nat)
  | priorityChanged (time tid prio : Int)
  | requestExit (request : IoRequest) (thread owner : Thread)
  | blockComplete (request : BlockRequest) (thread : Option Thread)
  /-- A descriptor of `owner`'s table is made, changed or about to go. -/
  | fd (change : FdChange) (fd : Fd) (owner : Thread) (time : Int) (cpu : Option Nat)
  | createParent (thread parent : Thread)
  | pageAlloc (thread : Thread) (cpu : Nat)
  | pageFree (thread : Thread) (cpu : Nat)
  | irqEntry (id : Int) (irqName : Option String) (cpu : Nat)
  | irqExit (irq : HardIrq)
  | softIrqExit (irq : SoftIrq)
  | transmit (iface : String) (bytes : Nat) (cpu : Option Nat)
  | receive (iface : String) (bytes : Nat) (cpu : Option Nat)
  | syscallExit (thread : Thread) (call : Call) (cpu : Nat)
  deriving DecidableEq, Inhabited

/-- The kind of a notification. -/
def Notification.kind : Notification → NotificationKind
  | switchPerCpu _ => .switchPerCpu
  | switchPerThread _ => .switchPerThread
  | migrate .. => .migrate
  | priorityChanged .. => .priorityChanged
  | requestExit .. => .requestExit
  | blockComplete .. => .blockComplete
  | fd .create .. => .createFd
  | fd .update .. => .updateFd
  | fd .close .. => .closeFd
  | createParent .. => .createParent
  | pageAlloc .. => .pageAlloc
  | pageFree .. => .pageFree
  | irqEntry .. => .irqEntry
  | irqExit _ => .irqExit
  | softIrqExit _ => .softIrqExit
  | transmit .. => .transmit
  | receive .. => .receive
  | syscallExit .. => .syscallExit

end KernelReplay
