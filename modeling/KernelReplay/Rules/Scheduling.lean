import KernelReplay.Rules.Descriptors
import KernelReplay.Trace.EventKind

/-
  Scheduling: which thread runs on each CPU, who woke whom and when, migrations and priorities, and
  the threads that forks and execs make or change.
-/

namespace KernelReplay.Scheduling

open Update

/-- Learns a thread's priority; that of the idle thread is not kept. -/
def learnPriority (time tid prio : Int) : Update Unit := do
  if tid = 0 then
    pure ()
  else
    modify (·.admitThread tid)
    let s ← get
    if (s.threadOrFresh tid).prio = some prio then
      pure ()
    else
      modify (·.adjustThread tid fun t => { t with prio := some prio })
      notify (.priorityChanged time tid prio)

/-- What subscribers learn of a thread that has taken over a CPU. -/
def switchReport (s : State) (time : Int) (cpu : Nat) (prevTid nextTid : Int) :
    Except Overflow Switch := do
  let next := s.threadOrFresh nextTid
  let latency ← elapsed next.lastWakeup (some time)
  .ok { time, cpu, prevTid, next, nextTid, waker := next.lastWaker.bind s.thread?, latency }

/-- One thread takes over a CPU from another. -/
def takeOver (e : Event) (cpu : Nat) (prevTid nextTid : Int) : Update Unit := do
  admitCpu cpu
  modify (·.updateCpu cpu fun c =>
    { c with current := if nextTid = 0 then none else some nextTid })
  modify (·.admitThread prevTid)
  modify (·.updateThread nextTid fun t =>
    { t with comm := (e.text? "next_comm").getD t.comm, prevTid := some prevTid })
  whenSome (e.int? "prev_prio") (learnPriority e.time prevTid)
  whenSome (e.int? "next_prio") (learnPriority e.time nextTid)

/-- Announces that a thread has taken over a CPU, which ends its wait. -/
def announceSwitch (time : Int) (cpu : Nat) (prevTid nextTid : Int) : Update Unit := do
  let s ← get
  let taken ← compute (switchReport s time cpu prevTid nextTid)
  notify (.switchPerCpu taken)
  notify (.switchPerThread taken)
  modify (·.adjustThread nextTid Thread.clearWakeup)

/-- The scheduler switches threads. -/
def switch (e : Event) : Update Unit :=
  match e.cpu?, e.int? "prev_tid", e.int? "next_tid" with
  | some cpu, some prevTid, some nextTid => do
    takeOver e cpu prevTid nextTid
    announceSwitch e.time cpu prevTid nextTid
  | _, _, _ => report (.incompleteSwitch e.time)

/-- A thread is moved to another CPU. -/
def migrate (e : Event) : Update Unit :=
  whenSome (e.int? "tid") fun tid => do
    let s ← get
    let thread := (s.thread? tid).getD { tid, comm := (e.text? "comm").getD "" }
    let migrations ← compute (checkedSucc thread.migrations)
    let thread := { thread with migrations }
    modify (·.setThread tid thread)
    notify (.migrate thread e.cpu? (e.cpuField? "dest_cpu"))
    whenSome (e.int? "prio") (learnPriority e.time tid)

/-- The priority that a wakeup reports, less the offset of old tracers. -/
def wakeupPriority (s : State) (prio : Int) : Except Overflow Int :=
  if s.priorityOffset then checkedSub prio 100 else .ok prio

/-- A thread is woken. Waking a thread that runs means nothing. -/
def wakeup (e : Event) : Update Unit :=
  whenSome (e.int? "tid") fun tid => do
    whenSome (e.cpuField? "target_cpu") admitCpu
    whenSome e.cpu? admitCpu
    let s ← get
    if s.isRunning tid then
      report (.wakeupOfRunning tid e.time)
    else
      modify (·.admitThread tid)
      whenSome (e.int? "prio") fun reported => do
        let prio ← compute (wakeupPriority s reported)
        learnPriority e.time tid prio
      modify (·.adjustThread tid (·.wake e.time (e.cpu?.bind s.running?)))

/-- The thread that a fork makes, with copies of the descriptors it inherits. -/
def child (e : Event) (tid : Int) (inherited : Table Int Fd) : Thread :=
  { Thread.ofGroup tid ((e.int? "child_pid").getD tid) ((e.text? "child_comm").getD "") with
    fds := inherited.map fun _ fd => fd.duplicate }

/-- A thread makes another one, which starts with the descriptors of its parent. -/
def fork (e : Event) : Update Unit :=
  whenSome (e.int? "child_tid") fun childTid =>
  whenSome ((e.int? "parent_tid").or (e.int? "parent_pid")) fun parentTid => do
    modify (·.updateThread parentTid fun t =>
      { t with
        pid := (e.int? "parent_pid").or t.pid
        comm := (e.text? "parent_comm").getD t.comm })
    let s ← get
    let thread := child e childTid (s.fds (s.fdOwner parentTid))
    report (.fork parentTid childTid thread.fds.size)
    modify (·.setThread childTid thread)
    forEach thread.fds.keys fun number =>
      Descriptors.announce .create childTid number e.time e.cpu?

/-- The last part of a path. -/
def baseName (path : String) : String :=
  .ofList (path.toList.reverse.takeWhile (· ≠ '/')).reverse

/-- The name that a thread has after it executes another program. -/
def execName? (e : Event) : Option String :=
  ((e.contextField? "procname").bind FieldValue.text?).or ((e.text? "filename").map baseName)

/-- A thread executes another program, which closes the descriptors marked for it. -/
def exec (e : Event) : Update Unit :=
  whenSome (e.int? "tid") fun tid => do
    modify (·.updateThread tid fun t => { t with comm := (execName? e).getD t.comm })
    let s ← get
    let owner := s.fdOwner tid
    forEach (((s.fds owner).values.filter (·.cloexec)).map (·.number)) fun number =>
      Descriptors.close owner number e.time e.cpu?

/-- A thread inherits a priority. -/
def setPriority (e : Event) : Update Unit :=
  whenSome (e.int? "tid") fun tid =>
  whenSome (e.int? "newprio") fun prio =>
    learnPriority e.time tid prio

/-- What an event means for scheduling. -/
def apply (kind : EventKind) (e : Event) : Update Unit :=
  match kind with
  | .schedSwitch => switch e
  | .schedMigrate => migrate e
  | .schedWakeup => wakeup e
  | .schedFork => fork e
  | .schedExec => exec e
  | .schedSetPriority => setPriority e
  | _ => pure ()

end KernelReplay.Scheduling
