import KernelReplay.Machine.State.Lemmas

/-
  What threads hold: the syscall that a thread is in, its table of descriptors and the bytes counted
  for it. A thread that is not known holds what a fresh one does, so making a thread changes nothing
  here, and what is held can be compared across states in which different threads are known.
-/

namespace KernelReplay

/-- What a thread holds. -/
structure Holdings where
  tid : Int
  call : Option Call
  fds : Table Int Fd
  io : IoCounts

/-- What a thread holds. -/
def Thread.holdings (t : Thread) : Holdings :=
  { tid := t.tid, call := t.call, fds := t.fds, io := t.io }

/-- What a thread that nothing is known of holds. -/
def Holdings.blank (tid : Int) : Holdings := { tid, call := none, fds := ∅, io := {} }

theorem Thread.holdings_fresh (tid : Int) : (Thread.fresh tid).holdings = .blank tid := by
  unfold Thread.fresh
  split
  · rename_i h
    rw [h]
    rfl
  · rfl

theorem Thread.holdings_ofGroup (tid pid : Int) (comm : String) :
    (Thread.ofGroup tid pid comm).holdings = .blank tid := rfl

namespace State

/-- What the thread of a number holds. -/
def holdings (s : State) (tid : Int) : Holdings := (s.threadOrFresh tid).holdings

/-- The syscall that a thread is in. -/
def call? (s : State) (tid : Int) : Option Call := (s.thread? tid).bind (·.call)

variable {s s' : State}

theorem holdings_of_thread? {tid : Int} {t : Thread} (h : s.thread? tid = some t) :
    s.holdings tid = t.holdings := by simp [holdings, threadOrFresh, h]

theorem holdings_of_none {tid : Int} (h : s.thread? tid = none) : s.holdings tid = .blank tid := by
  simp [holdings, threadOrFresh, h, Thread.holdings_fresh]

theorem call?_eq_holdings (s : State) (tid : Int) : s.call? tid = (s.holdings tid).call := by
  cases h : s.thread? tid with
  | none => simp [call?, h, holdings_of_none h, Holdings.blank]
  | some t => simp [call?, h, holdings_of_thread? h, Thread.holdings]

theorem fds_eq_holdings (s : State) (tid : Int) : s.fds tid = (s.holdings tid).fds := by
  cases h : s.thread? tid with
  | none => simp [fds, h, holdings_of_none h, Holdings.blank]
  | some t => simp [fds, h, holdings_of_thread? h, Thread.holdings]

theorem holdings_setThread (s : State) (tid k : Int) (t : Thread) :
    (s.setThread tid t).holdings k = if k = tid then t.holdings else s.holdings k := by
  unfold holdings threadOrFresh
  rw [thread?_setThread]
  split <;> rfl

/-- Adjusting a thread that is known is setting it. -/
theorem adjustThread_eq_setThread {tid : Int} {t : Thread} (h : s.thread? tid = some t)
    (f : Thread → Thread) : s.adjustThread tid f = s.setThread tid (f t) := by
  unfold adjustThread setThread
  rw [Table.adjust_eq_insert h]

/-- A thread that is not known cannot be adjusted. -/
theorem adjustThread_of_none {tid : Int} (h : s.thread? tid = none) (f : Thread → Thread) :
    s.adjustThread tid f = s := by
  unfold adjustThread
  rw [Table.adjust_of_none h]

theorem setThread_of_thread? {tid : Int} {t : Thread} (h : s.thread? tid = some t) :
    s.setThread tid t = s := by
  unfold setThread
  rw [Table.insert_of_get? h]

theorem setThread_setThread (s : State) (tid : Int) (t u : Thread) :
    (s.setThread tid t).setThread tid u = s.setThread tid u := by simp [setThread]

theorem thread?_of_not_contains {tid : Int} (h : ¬ s.threads.contains tid = true) :
    s.thread? tid = none := by
  unfold thread?
  simpa [Table.contains_eq] using h

/-- A thread is known to a state. -/
def Knows (s : State) (tid : Int) : Prop := ∃ thread, s.thread? tid = some thread

theorem Knows.setThread {k : Int} (h : s.Knows k) (tid : Int) (t : Thread) :
    (s.setThread tid t).Knows k := by
  unfold Knows
  rw [thread?_setThread]
  split
  · exact ⟨t, rfl⟩
  · exact h

theorem Knows.adjustThread {k : Int} (h : s.Knows k) (tid : Int) (f : Thread → Thread) :
    (s.adjustThread tid f).Knows k := by
  cases ht : s.thread? tid with
  | none => rwa [adjustThread_of_none ht]
  | some t =>
    rw [adjustThread_eq_setThread ht]
    exact h.setThread tid (f t)

/-- A thread is known once it has been made. -/
theorem thread?_admitGroup (s : State) (tid pid : Int) (comm : String) :
    ∃ t, (if s.threads.contains tid then s else s.setThread tid (.ofGroup tid pid comm)).thread? tid =
      some t := by
  split
  · rename_i h
    exact Option.isSome_iff_exists.1 h
  · exact ⟨_, Table.get?_insert_self ..⟩

theorem thread?_admitGroup_of_ne (s : State) {tid k : Int} (pid : Int) (comm : String)
    (h : k ≠ tid) :
    (if s.threads.contains tid then s else s.setThread tid (.ofGroup tid pid comm)).thread? k =
      s.thread? k := by
  split
  · rfl
  · exact Table.get?_insert_of_ne h

theorem threadOrFresh_of_thread? {tid : Int} {t : Thread} (h : s.thread? tid = some t) :
    s.threadOrFresh tid = t := by simp [threadOrFresh, h]

theorem threadOrFresh_setThread (s : State) (tid k : Int) (t : Thread) :
    (s.setThread tid t).threadOrFresh k = if k = tid then t else s.threadOrFresh k := by
  unfold threadOrFresh
  rw [thread?_setThread]
  split <;> rfl

/-! ## Changes that leave a part of a thread alone -/

section Part

variable {β : Type} {v : Thread → β}

theorem part_setThread_of_eq {tid : Int} {t : Thread} (h : v t = v (s.threadOrFresh tid))
    (k : Int) : v ((s.setThread tid t).threadOrFresh k) = v (s.threadOrFresh k) := by
  rw [threadOrFresh_setThread]
  split
  · rename_i hk
    rw [hk, h]
  · rfl

theorem part_updateThread_of_eq {tid : Int} {f : Thread → Thread} (h : ∀ t, v (f t) = v t)
    (k : Int) : v ((s.updateThread tid f).threadOrFresh k) = v (s.threadOrFresh k) :=
  part_setThread_of_eq (h _) k

theorem part_adjustThread_of_eq {tid : Int} {f : Thread → Thread} (h : ∀ t, v (f t) = v t)
    (k : Int) : v ((s.adjustThread tid f).threadOrFresh k) = v (s.threadOrFresh k) := by
  cases ht : s.thread? tid with
  | none => rw [adjustThread_of_none ht]
  | some t =>
    rw [adjustThread_eq_setThread ht]
    exact part_setThread_of_eq (by rw [h, threadOrFresh_of_thread? ht]) k

theorem part_mapThreads_of_eq {f : Thread → Thread} (h : ∀ t, v (f t) = v t) (k : Int) :
    v ({ s with threads := s.threads.map fun _ t => f t }.threadOrFresh k) =
      v (s.threadOrFresh k) := by
  have hmap : { s with threads := s.threads.map fun _ t => f t }.thread? k = (s.thread? k).map f :=
    Table.get?_map ..
  unfold threadOrFresh
  rw [hmap]
  cases s.thread? k with
  | none => rfl
  | some t => exact h t

end Part

/-! ## Changes that leave a part of what is held alone -/

section View

variable {β : Type} {v : Holdings → β}

theorem view_setThread_of_eq {tid : Int} {t : Thread}
    (h : v t.holdings = v (s.holdings tid)) (k : Int) :
    v ((s.setThread tid t).holdings k) = v (s.holdings k) :=
  part_setThread_of_eq (v := fun t => v t.holdings) h k

theorem view_updateThread_of_eq {tid : Int} {f : Thread → Thread}
    (h : ∀ t, v (f t).holdings = v t.holdings) (k : Int) :
    v ((s.updateThread tid f).holdings k) = v (s.holdings k) :=
  part_updateThread_of_eq (v := fun t => v t.holdings) h k

theorem view_adjustThread_of_eq {tid : Int} {f : Thread → Thread}
    (h : ∀ t, v (f t).holdings = v t.holdings) (k : Int) :
    v ((s.adjustThread tid f).holdings k) = v (s.holdings k) :=
  part_adjustThread_of_eq (v := fun t => v t.holdings) h k

theorem view_mapThreads_of_eq {f : Thread → Thread} (h : ∀ t, v (f t).holdings = v t.holdings)
    (k : Int) :
    v ({ s with threads := s.threads.map fun _ t => f t }.holdings k) = v (s.holdings k) :=
  part_mapThreads_of_eq (v := fun t => v t.holdings) h k

end View

theorem holdings_setThread_of_eq {tid : Int} {t : Thread} (h : t.holdings = s.holdings tid) :
    (s.setThread tid t).holdings = s.holdings :=
  funext (view_setThread_of_eq (v := id) h)

/-! ## Syscalls after a change -/

theorem call?_setThread (s : State) (tid k : Int) (t : Thread) :
    (s.setThread tid t).call? k = if k = tid then t.call else s.call? k := by
  unfold call?
  rw [thread?_setThread]
  split <;> rfl

theorem call?_adjustThread (s : State) (tid k : Int) (f : Option Call → Option Call)
    (hf : f none = none) :
    (s.adjustThread tid fun t => { t with call := f t.call }).call? k =
      if k = tid then f (s.call? k) else s.call? k := by
  unfold call?
  rw [thread?_adjustThread]
  split
  · cases s.thread? k <;> simp [hf]
  · rfl

end State

end KernelReplay
