import KernelReplay.Machine.Cpu
import KernelReplay.Machine.Disk
import KernelReplay.Machine.Thread
import KernelReplay.Tracer.Version

/-
  The state of the traced machine, the queries on it and the changes that rules make to it. Every
  entry of a table carries its own key. An entry is made when something first refers to it, and none
  is taken out again but descriptors and pending requests.
-/

namespace KernelReplay

/-- A network interface, with the traffic seen. -/
structure Iface where
  name : String
  sentBytes : Nat := 0
  receivedBytes : Nat := 0
  sentPackets : Nat := 0
  receivedPackets : Nat := 0
  deriving DecidableEq, Repr, Inhabited

/-- Counts a packet sent. -/
def Iface.send (i : Iface) (bytes : Nat) : Iface :=
  { i with
    sentBytes := saturatingAdd i.sentBytes bytes
    sentPackets := saturatingAdd i.sentPackets 1 }

/-- Counts a packet received. -/
def Iface.receive (i : Iface) (bytes : Nat) : Iface :=
  { i with
    receivedBytes := saturatingAdd i.receivedBytes bytes
    receivedPackets := saturatingAdd i.receivedPackets 1 }

/-- What is known of the traced machine. -/
structure State where
  cpus : Table Nat Cpu := ∅
  threads : Table Int Thread := ∅
  disks : Table Nat Disk := ∅
  ifaces : Table String Iface := ∅
  /-- Pages allocated and not freed since the trace began. -/
  pageCount : Nat := 0
  tracerVersion : Option TracerVersion := none
  /-- Whether the priorities of woken threads are reported 100 too high. -/
  priorityOffset : Bool := false
  deriving DecidableEq, Inhabited

namespace State

/-- Nothing is known but what the settings say of the tracer. -/
def ofSettings (s : Settings) : State :=
  { tracerVersion := s.tracerVersion, priorityOffset := s.needsPriorityFix }

/-- The thread that runs on a CPU. -/
def running? (s : State) (cpu : Nat) : Option Int := (s.cpus.get? cpu).bind (·.current)

/-- The running threads, by CPU. -/
def running (s : State) : List Int := s.cpus.values.filterMap (·.current)

/-- Whether a thread runs on some CPU. -/
def isRunning (s : State) (tid : Int) : Bool := s.running.contains tid

/-- A thread. -/
def thread? (s : State) (tid : Int) : Option Thread := s.threads.get? tid

/-- The thread whose table of descriptors a thread uses: its leader, if that is known and another
thread of the state, else the thread itself. -/
def fdOwner (s : State) (tid : Int) : Int :=
  match (s.thread? tid).bind (·.pid) with
  | some pid => if s.threads.contains pid then pid else tid
  | none => tid

/-- The descriptors of a thread's own table. -/
def fds (s : State) (tid : Int) : Table Int Fd := ((s.thread? tid).map (·.fds)).getD ∅

/-- A descriptor of a thread's own table. -/
def ownFd? (s : State) (tid number : Int) : Option Fd := (s.fds tid).get? number

/-- A descriptor as a thread sees it. -/
def fd? (s : State) (tid number : Int) : Option Fd := s.ownFd? (s.fdOwner tid) number

/-- The block requests never completed, by device and sector. -/
def orphans (s : State) : List BlockRequest := s.disks.values.flatMap (·.pending.values)

/-- The threads inside a syscall, in rising order. -/
def inFlight (s : State) : List (Int × Call) :=
  s.threads.values.filterMap fun t => t.call.map fun c => (t.tid, c)

/-- The hard interrupts being handled, by CPU. -/
def pendingHardIrqs (s : State) : List HardIrq := s.cpus.values.filterMap (·.hardIrq)

/-- A thread, or a fresh one under its number. -/
def threadOrFresh (s : State) (tid : Int) : Thread := (s.thread? tid).getD (.fresh tid)

/-- Puts a thread into the table. -/
def setThread (s : State) (tid : Int) (t : Thread) : State :=
  { s with threads := s.threads.insert tid t }

/-- Changes a thread, which is made if it is not known. -/
def updateThread (s : State) (tid : Int) (f : Thread → Thread) : State :=
  s.setThread tid (f (s.threadOrFresh tid))

/-- Makes a thread if it is not known. -/
def admitThread (s : State) (tid : Int) : State := s.updateThread tid id

/-- Changes a thread if it is known. -/
def adjustThread (s : State) (tid : Int) (f : Thread → Thread) : State :=
  { s with threads := s.threads.adjust tid f }

/-- Changes a descriptor of a thread's own table if it is there. -/
def adjustFd (s : State) (tid number : Int) (f : Fd → Fd) : State :=
  s.adjustThread tid fun t => { t with fds := t.fds.adjust number f }

/-- Changes the request that a thread has in flight, if it has one. -/
def adjustRequest (s : State) (tid : Int) (f : IoRequest → IoRequest) : State :=
  s.adjustThread tid (·.mapRequest f)

/-- A CPU, or a fresh one under its number. -/
def cpuOrFresh (s : State) (cpu : Nat) : Cpu := (s.cpus.get? cpu).getD { id := cpu }

/-- Changes a CPU, which is made if it is not known. -/
def updateCpu (s : State) (cpu : Nat) (f : Cpu → Cpu) : State :=
  { s with cpus := s.cpus.insert cpu (f (s.cpuOrFresh cpu)) }

/-- Changes a block device, which is made if it is not known. -/
def updateDisk (s : State) (dev : Nat) (f : Disk → Disk) : State :=
  { s with disks := s.disks.insert dev (f ((s.disks.get? dev).getD { dev })) }

/-- Changes a network interface, which is made if it is not known. -/
def updateIface (s : State) (name : String) (f : Iface → Iface) : State :=
  { s with ifaces := s.ifaces.insert name (f ((s.ifaces.get? name).getD { name })) }

end State

end KernelReplay
