import KernelReplay.Update.Basic

/-
  Changes to tables of descriptors. Each is announced with the descriptor and its table as they are
  while the descriptor is in it: after it is made or changed, and before it goes.
-/

namespace KernelReplay.Descriptors

open Update

/-- Announces a change to a descriptor of a table, if it is there. -/
def announce (change : FdChange) (owner number time : Int) (cpu : Option Nat) : Update Unit := do
  let s ← get
  match s.thread? owner, s.ownFd? owner number with
  | some thread, some fd => notify (.fd change fd thread time cpu)
  | _, _ => pure ()

/-- Puts a descriptor into a table unless its number is taken. -/
def ensure (owner : Int) (fd : Fd) (time : Int) (cpu : Option Nat) : Update Unit := do
  let s ← get
  if (s.ownFd? owner fd.number).isSome then
    pure ()
  else
    modify (·.updateThread owner fun t => { t with fds := t.fds.insert fd.number fd })
    announce .create owner fd.number time cpu

/-- Announces that a descriptor goes, and takes it out of its table. -/
def close (owner number time : Int) (cpu : Option Nat) : Update Unit := do
  announce .close owner number time cpu
  modify (·.adjustThread owner fun t => { t with fds := t.fds.erase number })

end KernelReplay.Descriptors
