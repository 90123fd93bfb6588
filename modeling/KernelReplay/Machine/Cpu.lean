import KernelReplay.Table.Basic
import KernelReplay.Word

/-
  Logical CPUs and their interrupts. A CPU runs at most one hard interrupt handler at a time. Soft
  interrupts queue up per vector: the oldest is the one being handled, and one that waits for its
  entry stands for every later raise.
-/

namespace KernelReplay

/-- A run of a hard interrupt handler. -/
structure HardIrq where
  id : Int
  cpu : Nat
  begun : Int
  ended : Option Int := none
  ret : Option Int := none
  deriving DecidableEq, Repr, Inhabited

/-- The time between two moments, where both are known. -/
def elapsed (start stop : Option Int) : Except Overflow (Option Int) :=
  match start, stop with
  | some a, some b => do
    let d ← checkedSub b a
    .ok (some d)
  | _, _ => .ok none

theorem elapsed_eq_some {start stop : Option Int} {d : Int} (h : elapsed start stop = .ok (some d)) :
    ∃ a b, start = some a ∧ stop = some b ∧ b - a = d := by
  cases start with
  | none => cases h
  | some a =>
    cases stop with
    | none => cases h
    | some b =>
      obtain ⟨d', hd, h⟩ := checked_bind_eq_ok_iff.1 h
      cases h
      exact ⟨a, b, rfl, rfl, (checkedSub_eq_ok_iff.1 hd).2⟩

/-- The time between two moments can be told unless it leaves the range. -/
theorem elapsed_succeeds {start : Option Int} {stop : Int}
    (h : ∀ a, start = some a → FitsSigned (stop - a)) :
    ∃ d, elapsed start (some stop) = .ok d := by
  cases start with
  | none => exact ⟨none, rfl⟩
  | some a =>
    refine ⟨some (stop - a), checked_bind_eq_ok_iff.2 ⟨stop - a, ?_, rfl⟩⟩
    exact checkedSub_eq_ok_iff.2 ⟨h a rfl, rfl⟩

/-- How long the handler ran. -/
def HardIrq.duration (irq : HardIrq) : Except Overflow (Option Int) :=
  elapsed (some irq.begun) irq.ended

/-- A soft interrupt, from its raise, where that was traced, to its exit. -/
structure SoftIrq where
  vector : Int
  cpu : Nat
  raised : Option Int := none
  begun : Option Int := none
  ended : Option Int := none
  deriving DecidableEq, Repr, Inhabited

/-- How long the handler ran. -/
def SoftIrq.duration (irq : SoftIrq) : Except Overflow (Option Int) := elapsed irq.begun irq.ended

/-- How long the interrupt waited for its handler. -/
def SoftIrq.raiseLatency (irq : SoftIrq) : Except Overflow (Option Int) :=
  elapsed irq.raised irq.begun

/-- A logical CPU. -/
structure Cpu where
  id : Nat
  /-- The running thread, unless the CPU is idle or nothing is known. -/
  current : Option Int := none
  hardIrq : Option HardIrq := none
  /-- The soft interrupts of each vector, oldest first. -/
  softIrqs : Table Int (List SoftIrq) := ∅
  deriving DecidableEq, Inhabited

namespace Cpu

/-- A hard interrupt handler starts. -/
def enterHardIrq (c : Cpu) (id time : Int) : Cpu :=
  { c with hardIrq := some { id, cpu := c.id, begun := time } }

/-- The hard interrupt that an exit of `id` ends. -/
def endedHardIrq? (c : Cpu) (id time : Int) (ret : Option Int) : Option HardIrq :=
  (c.hardIrq.filter fun irq => irq.id = id).map fun irq => { irq with ended := some time, ret }

/-- No hard interrupt handler runs. -/
def clearHardIrq (c : Cpu) : Cpu := { c with hardIrq := none }

/-- The soft interrupts of a vector, oldest first. -/
def queue (c : Cpu) (vector : Int) : List SoftIrq := (c.softIrqs.get? vector).getD []

/-- Replaces the soft interrupts of a vector. -/
def setQueue (c : Cpu) (vector : Int) (queue : List SoftIrq) : Cpu :=
  { c with softIrqs := c.softIrqs.insert vector queue }

/-- Whether the youngest soft interrupt of a vector still waits for its entry. -/
def awaitsEntry (c : Cpu) (vector : Int) : Bool :=
  (c.queue vector).getLast?.any fun irq => irq.begun.isNone

/-- A soft interrupt is raised, unless one already waits. -/
def raiseSoftIrq (c : Cpu) (vector time : Int) : Cpu :=
  if c.awaitsEntry vector then c
  else c.setQueue vector (c.queue vector ++ [{ vector, cpu := c.id, raised := some time }])

/-- The handler of the oldest soft interrupt starts; without one, its raise was not traced. -/
def enterSoftIrq (c : Cpu) (vector time : Int) : Cpu :=
  match c.queue vector with
  | [] => c.setQueue vector [{ vector, cpu := c.id, begun := some time }]
  | irq :: rest => c.setQueue vector ({ irq with begun := some time } :: rest)

/-- The soft interrupt that an exit ends: the oldest. -/
def endedSoftIrq? (c : Cpu) (vector time : Int) : Option SoftIrq :=
  (c.queue vector).head?.map fun irq => { irq with ended := some time }

/-- The oldest soft interrupt is over. A vector that never had one stays unknown. -/
def dropSoftIrq (c : Cpu) (vector : Int) : Cpu :=
  { c with softIrqs := c.softIrqs.adjust vector List.tail }

end Cpu

end KernelReplay
