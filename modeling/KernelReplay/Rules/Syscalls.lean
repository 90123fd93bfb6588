import KernelReplay.Syscall.Class
import KernelReplay.Trace.EventKind
import KernelReplay.Update.Basic

/-
  Syscalls in flight: an entry attaches a syscall to the thread that runs on its CPU, an exit ends
  it. An I/O syscall stays attached after its exit, for the I/O rules to finish its request.
-/

namespace KernelReplay.Syscalls

open Update

/-- A thread enters a syscall. -/
def entry (e : Event) : Update Unit :=
  whenSome e.cpu? fun cpu => do
    let s ← get
    match s.running? cpu with
    | some tid =>
      modify (·.updateThread tid fun t =>
        { t with call := some { name := syscallName e.name, begun := e.time } })
    | none => report (.syscallOnIdleCpu e.name cpu)

/-- A thread leaves the syscall it is in. -/
def leave (e : Event) (cpu : Nat) (tid : Int) (thread : Thread) (call : Call) : Update Unit := do
  let call ← compute (call.finish e.time (e.int? "ret"))
  let thread := { thread with call := some call }
  modify (·.setThread tid thread)
  notify (.syscallExit thread call cpu)
  if isIoSyscall call.name then
    pure ()
  else
    modify (·.setThread tid { thread with call := none })

/-- A syscall ends on a CPU. -/
def exit (e : Event) : Update Unit :=
  whenSome e.cpu? fun cpu => do
    let s ← get
    whenSome (s.running? cpu) fun tid =>
      whenSome (s.thread? tid) fun thread =>
        match thread.call with
        | some call => leave e cpu tid thread call
        | none => report (.exitWithoutEntry tid)

/-- What an event means for the syscalls in flight. -/
def apply (kind : EventKind) (e : Event) : Update Unit :=
  match kind with
  | .syscallEntry => entry e
  | .syscallExit => exit e
  | _ => pure ()

end KernelReplay.Syscalls
