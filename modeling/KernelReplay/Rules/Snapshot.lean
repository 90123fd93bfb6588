import KernelReplay.Rules.Descriptors
import KernelReplay.Trace.EventKind

/-
  The snapshot that a tracer takes of a machine when a session starts: its processes and threads,
  their open descriptors and the names of its block devices.
-/

namespace KernelReplay.Snapshot

open Update

/-- A leader's table after it has taken in a thread's: on a number of both, the leader's entry
absorbs the thread's. -/
def mergeFds (leader thread : Table Int Fd) : Table Int Fd :=
  thread.toList.foldl (fun t (number, fd) =>
    t.insert number (match t.get? number with
      | some own => own.absorb fd
      | none => fd)) leader

/-- Moves the descriptors that a thread collected before its leader was known to the leader. -/
def moveFds (tid pid : Int) (s : State) : State :=
  let fds := s.fds tid
  (s.adjustThread tid fun t => { t with fds := ∅ }).adjustThread pid fun t =>
    { t with fds := mergeFds t.fds fds }

/-- A thread and its leader. A priority that is known already is the newer one. -/
def processState (e : Event) : Update Unit :=
  whenSome (e.int? "tid") fun tid =>
  whenSome (e.int? "pid") fun pid => do
    let name := (e.text? "name").getD ""
    modify (·.updateThread tid fun t =>
      { t with pid := some pid, comm := name, prio := t.prio.or (e.int? "prio") })
    if pid = tid then
      pure ()
    else
      modify fun s => if s.threads.contains pid then s else s.setThread pid (.ofGroup pid pid name)
      modify (moveFds tid pid)
      let s ← get
      match s.thread? tid, s.thread? pid with
      | some thread, some parent => notify (.createParent thread parent)
      | _, _ => pure ()

/-- The descriptor that a snapshot reports where none is known. -/
def reported (e : Event) (number : Int) (filename : String) : Fd :=
  { number, filename, cloexec := (e.int? "flags").any hasCloexec }

/-- An open descriptor of a process. One that is known only changes its name. -/
def fileDescriptor (e : Event) : Update Unit :=
  whenSome (e.int? "pid") fun pid =>
  whenSome (e.int? "fd") fun number =>
  whenSome (e.text? "filename") fun filename => do
    modify fun s => if s.threads.contains pid then s else s.setThread pid (.ofGroup pid pid "")
    let s ← get
    if (s.ownFd? pid number).isSome then
      modify (·.adjustFd pid number fun fd => { fd with filename })
      Descriptors.announce .update pid number e.time e.cpu?
    else
      modify (·.adjustThread pid fun t =>
        { t with fds := t.fds.insert number (reported e number filename) })
      Descriptors.announce .create pid number e.time e.cpu?

/-- The name of a block device. -/
def blockDevice (e : Event) : Update Unit :=
  whenSome (e.nat? "dev") fun dev =>
  whenSome (e.text? "diskname") fun name =>
    modify (·.updateDisk dev fun d => { d with name := some name })

/-- What an event means as a part of a snapshot. -/
def apply (kind : EventKind) (e : Event) : Update Unit :=
  match kind with
  | .processState => processState e
  | .fileDescriptor => fileDescriptor e
  | .blockDevice => blockDevice e
  | _ => pure ()

end KernelReplay.Snapshot
