import KernelReplay.Machine.State.Holdings

/-
  Facets of a state that few rules touch: the interrupts of each CPU, the requests pending on each
  device, and what scheduling remembers of each thread. A CPU, device or thread that is not known
  shows what a fresh one does, so that making it changes no facet.
-/

namespace KernelReplay

/-- A CPU without the thread that it runs. -/
def Cpu.handlers (c : Cpu) : Cpu := { c with current := none }

/-- What scheduling remembers of a thread between its turns on a CPU. -/
structure Standby where
  /-- When the thread was first woken since it last ran. -/
  wakeup : Option Int := none
  /-- Who woke it then. -/
  waker : Option Int := none
  migrations : Nat := 0

/-- What scheduling remembers of a thread. -/
def Thread.standby (t : Thread) : Standby :=
  { wakeup := t.lastWakeup, waker := t.lastWaker, migrations := t.migrations }

theorem Thread.standby_fresh (tid : Int) : (Thread.fresh tid).standby = {} := by
  unfold Thread.fresh
  split <;> rfl

namespace State

variable {s : State}

/-- The interrupts of a CPU. -/
def handlers (s : State) (cpu : Nat) : Cpu := (s.cpuOrFresh cpu).handlers

/-- The requests pending on a device, by sector. -/
def pending (s : State) (dev : Nat) : Table Nat BlockRequest :=
  ((s.disks.get? dev).map (·.pending)).getD ∅

/-- What scheduling remembers of a thread. -/
def standby (s : State) (tid : Int) : Standby := (s.threadOrFresh tid).standby

/-- What the settings say of the tracer. -/
def tracing (s : State) : Option TracerVersion × Bool := (s.tracerVersion, s.priorityOffset)

/-! ## Interrupts -/

theorem cpuOrFresh_updateCpu (s : State) (cpu k : Nat) (f : Cpu → Cpu) :
    (s.updateCpu cpu f).cpuOrFresh k =
      if k = cpu then f (s.cpuOrFresh cpu) else s.cpuOrFresh k := by
  unfold cpuOrFresh
  rw [cpu?_updateCpu]
  split <;> rfl

theorem handlers_updateCpu (s : State) (cpu k : Nat) {f : Cpu → Cpu}
    (hf : ∀ c, (f c).handlers = f c.handlers) :
    (s.updateCpu cpu f).handlers k = if k = cpu then f (s.handlers k) else s.handlers k := by
  unfold handlers
  rw [cpuOrFresh_updateCpu]
  split
  · rename_i hk
    rw [hf, hk]
  · rfl

theorem handlers_updateCpu_of_eq {cpu : Nat} {f : Cpu → Cpu}
    (hf : ∀ c, (f c).handlers = c.handlers) : (s.updateCpu cpu f).handlers = s.handlers := by
  funext k
  unfold handlers
  rw [cpuOrFresh_updateCpu]
  split
  · rename_i hk
    rw [hf, hk]
  · rfl

/-! ## Pending requests -/

theorem pending_updateDisk (s : State) (dev k : Nat) {f : Disk → Disk}
    {g : Table Nat BlockRequest → Table Nat BlockRequest} (hf : ∀ d, (f d).pending = g d.pending) :
    (s.updateDisk dev f).pending k = if k = dev then g (s.pending k) else s.pending k := by
  unfold pending
  rw [disk?_updateDisk]
  split
  · rename_i hk
    subst hk
    rw [Option.map_some, Option.getD_some, hf]
    cases s.disks.get? k <;> rfl
  · rfl

/-! ## What scheduling remembers -/

theorem standby_of_none {tid : Int} (h : s.thread? tid = none) : s.standby tid = {} := by
  rw [standby, threadOrFresh, h]
  exact Thread.standby_fresh tid

theorem standby_of_thread? {tid : Int} {t : Thread} (h : s.thread? tid = some t) :
    s.standby tid = t.standby := by
  rw [standby, threadOrFresh_of_thread? h]

theorem standby_setThread (s : State) (tid k : Int) (t : Thread) :
    (s.setThread tid t).standby k = if k = tid then t.standby else s.standby k := by
  unfold standby
  rw [threadOrFresh_setThread]
  split <;> rfl

theorem standby_adjustThread (s : State) (tid k : Int) {f : Thread → Thread}
    {g : Standby → Standby} (hf : ∀ t, (f t).standby = g t.standby) (hg : g {} = {}) :
    (s.adjustThread tid f).standby k = if k = tid then g (s.standby k) else s.standby k := by
  cases ht : s.thread? tid with
  | none =>
    rw [adjustThread_of_none ht]
    split
    · rename_i hk
      rw [hk, standby_of_none ht, hg]
    · rfl
  | some t =>
    rw [adjustThread_eq_setThread ht, standby_setThread]
    split
    · rename_i hk
      rw [hk, hf, standby_of_thread? ht]
    · rfl

end State

end KernelReplay
