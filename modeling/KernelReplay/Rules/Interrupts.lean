import KernelReplay.Trace.EventKind
import KernelReplay.Update.Basic

/-
  Interrupts, paired per CPU. An exit ends the hard interrupt that its CPU handles only if both have
  the same number; it ends the oldest soft interrupt of its vector in any case.
-/

namespace KernelReplay.Interrupts

open Update

/-- A hard interrupt handler starts. -/
def irqEntry (e : Event) : Update Unit :=
  whenSome e.cpu? fun cpu =>
  whenSome (e.int? "irq") fun id => do
    admitCpu cpu
    modify (·.updateCpu cpu (·.enterHardIrq id e.time))
    notify (.irqEntry id (e.text? "name") cpu)

/-- A hard interrupt handler ends. An exit that does not tell which one still ends it. -/
def irqExit (e : Event) : Update Unit :=
  whenSome e.cpu? fun cpu => do
    admitCpu cpu
    let s ← get
    modify (·.updateCpu cpu Cpu.clearHardIrq)
    whenSome (e.int? "irq") fun id =>
      match (s.cpuOrFresh cpu).endedHardIrq? id e.time (e.int? "ret") with
      | some irq => notify (.irqExit irq)
      | none => report (.unmatchedIrqExit id cpu e.time)

/-- A soft interrupt is raised. -/
def softIrqRaise (e : Event) : Update Unit :=
  whenSome e.cpu? fun cpu =>
  whenSome (e.int? "vec") fun vector => do
    admitCpu cpu
    let s ← get
    modify (·.updateCpu cpu (·.raiseSoftIrq vector e.time))
    if (s.cpuOrFresh cpu).awaitsEntry vector then
      report (.coalescedSoftIrq vector cpu)
    else
      pure ()

/-- A soft interrupt handler starts. -/
def softIrqEntry (e : Event) : Update Unit :=
  whenSome e.cpu? fun cpu =>
  whenSome (e.int? "vec") fun vector => do
    admitCpu cpu
    modify (·.updateCpu cpu (·.enterSoftIrq vector e.time))

/-- A soft interrupt handler ends. -/
def softIrqExit (e : Event) : Update Unit :=
  whenSome e.cpu? fun cpu =>
  whenSome (e.int? "vec") fun vector => do
    admitCpu cpu
    let s ← get
    modify (·.updateCpu cpu (·.dropSoftIrq vector))
    match (s.cpuOrFresh cpu).endedSoftIrq? vector e.time with
    | some irq => notify (.softIrqExit irq)
    | none => report (.unmatchedSoftIrqExit vector cpu)

/-- What an event means for interrupts. -/
def apply (kind : EventKind) (e : Event) : Update Unit :=
  match kind with
  | .irqEntry => irqEntry e
  | .irqExit => irqExit e
  | .softIrqRaise => softIrqRaise e
  | .softIrqEntry => softIrqEntry e
  | .softIrqExit => softIrqExit e
  | _ => pure ()

end KernelReplay.Interrupts
