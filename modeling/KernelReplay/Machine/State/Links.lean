import KernelReplay.Machine.State.Facets

/-
  What ties the entries of a state to each other: the group that a thread is in, which decides whose
  table of descriptors it uses, the keys that entries carry and the threads that they refer to. Keys
  are only ever added (`Within`), so a reference that was right stays right.
-/

namespace KernelReplay.State

variable {s s' : State}

/-! ## Keys -/

theorem knows_admitThread (s : State) (tid : Int) : (s.admitThread tid).Knows tid :=
  ⟨_, by rw [thread?_admitThread, if_pos rfl]⟩

theorem knows_updateThread (s : State) (tid : Int) (f : Thread → Thread) :
    (s.updateThread tid f).Knows tid :=
  ⟨_, by rw [thread?_updateThread, if_pos rfl]⟩

/-- Whatever the first state has an entry for, the second has one for too. -/
structure Within (s s' : State) : Prop where
  cpus : ∀ cpu, cpu ∈ s.cpus → cpu ∈ s'.cpus
  threads : ∀ tid, s.Knows tid → s'.Knows tid
  disks : ∀ dev, dev ∈ s.disks → dev ∈ s'.disks
  ifaces : ∀ name, name ∈ s.ifaces → name ∈ s'.ifaces

namespace Within

theorem refl (s : State) : s.Within s :=
  ⟨fun _ => id, fun _ => id, fun _ => id, fun _ => id⟩

theorem trans {s'' : State} (h : s.Within s') (h' : s'.Within s'') : s.Within s'' :=
  ⟨fun k hk => h'.cpus k (h.cpus k hk), fun k hk => h'.threads k (h.threads k hk),
    fun k hk => h'.disks k (h.disks k hk), fun k hk => h'.ifaces k (h.ifaces k hk)⟩

theorem setThread (s : State) (tid : Int) (t : Thread) : s.Within (s.setThread tid t) :=
  ⟨fun _ => id, fun _ hk => hk.setThread tid t, fun _ => id, fun _ => id⟩

theorem adjustThread (s : State) (tid : Int) (f : Thread → Thread) :
    s.Within (s.adjustThread tid f) :=
  ⟨fun _ => id, fun _ hk => hk.adjustThread tid f, fun _ => id, fun _ => id⟩

theorem updateCpu (s : State) (cpu : Nat) (f : Cpu → Cpu) : s.Within (s.updateCpu cpu f) := by
  refine ⟨fun k hk => ?_, fun _ => id, fun _ => id, fun _ => id⟩
  rw [Table.mem_iff, cpu?_updateCpu]
  split
  · rfl
  · exact hk

theorem updateDisk (s : State) (dev : Nat) (f : Disk → Disk) : s.Within (s.updateDisk dev f) := by
  refine ⟨fun _ => id, fun _ => id, fun k hk => ?_, fun _ => id⟩
  rw [Table.mem_iff, disk?_updateDisk]
  split
  · rfl
  · exact hk

theorem updateIface (s : State) (name : String) (f : Iface → Iface) :
    s.Within (s.updateIface name f) := by
  refine ⟨fun _ => id, fun _ => id, fun _ => id, fun k hk => ?_⟩
  rw [Table.mem_iff, iface?_updateIface]
  split
  · rfl
  · exact hk

end Within

/-! ## Groups -/

/-- The leader of a thread's group, once that is known. -/
def group? (s : State) (tid : Int) : Option Int := (s.thread? tid).bind (·.pid)

theorem group?_of_knows {tid : Int} (h : s.Knows tid) :
    s.group? tid = (s.threadOrFresh tid).pid := by
  obtain ⟨t, ht⟩ := h
  rw [group?, threadOrFresh_of_thread? ht, ht]
  rfl

theorem group?_of_not_knows {tid : Int} (h : ¬ s.Knows tid) : s.group? tid = none := by
  rw [group?, Option.eq_none_iff_forall_ne_some.2 fun t ht => h ⟨t, ht⟩]
  rfl

theorem contains_iff_knows {tid : Int} : s.threads.contains tid = true ↔ s.Knows tid :=
  Option.isSome_iff_exists

/-- A thread that is in a group uses the table of its leader as soon as the leader is known. -/
theorem fdOwner_of_group {tid pid : Int} (h : s.group? tid = some pid) (hpid : s.Knows pid) :
    s.fdOwner tid = pid := by
  have h : (s.thread? tid).bind (·.pid) = some pid := h
  unfold fdOwner
  rw [h]
  exact if_pos (contains_iff_knows.2 hpid)

/-- A thread uses its own table or that of a leader who is known. -/
theorem fdOwner_cases (s : State) (tid : Int) :
    s.fdOwner tid = tid ∨ s.group? tid = some (s.fdOwner tid) ∧ s.Knows (s.fdOwner tid) := by
  unfold fdOwner
  split
  · rename_i pid hpid
    split
    · rename_i hknown
      exact Or.inr ⟨hpid, contains_iff_knows.1 hknown⟩
    · exact Or.inl rfl
  · exact Or.inl rfl

/-- A thread that is in no group of another uses its own table. -/
theorem fdOwner_eq_self {tid : Int} (h : ∀ pid, s.group? tid = some pid → pid = tid) :
    s.fdOwner tid = tid := by
  rcases s.fdOwner_cases tid with hown | ⟨hgroup, -⟩
  · exact hown
  · exact h _ hgroup

/-- Which table a thread uses depends on its group and on which threads are known. -/
theorem fdOwner_congr {tid : Int} (hgroup : s'.group? tid = s.group? tid)
    (hknows : ∀ k, s'.Knows k ↔ s.Knows k) : s'.fdOwner tid = s.fdOwner tid := by
  have hcontains : ∀ k, s'.threads.contains k = s.threads.contains k := fun k => by
    rw [Bool.eq_iff_iff, contains_iff_knows, contains_iff_knows]
    exact hknows k
  have hgroup : (s'.thread? tid).bind (·.pid) = (s.thread? tid).bind (·.pid) := hgroup
  unfold fdOwner
  rw [hgroup]
  simp only [hcontains]

theorem group?_setThread (s : State) (tid k : Int) (t : Thread) :
    (s.setThread tid t).group? k = if k = tid then t.pid else s.group? k := by
  unfold group?
  rw [thread?_setThread]
  split <;> rfl

/-- Threads keep their tables as long as no group is learned. -/
theorem fdOwner_setThread {tid k : Int} {t t' : Thread} (ht : s.thread? tid = some t)
    (hpid : t'.pid = t.pid) : (s.setThread tid t').fdOwner k = s.fdOwner k := by
  refine fdOwner_congr ?_ fun n => ?_
  · rw [group?_setThread]
    split
    · rename_i hk
      rw [hk, group?, ht]
      exact hpid
    · rfl
  · unfold Knows
    rw [thread?_setThread]
    split
    · rename_i hn
      simp [hn, ht]
    · rfl

theorem fdOwner_adjustThread (s : State) (tid k : Int) {f : Thread → Thread}
    (hf : ∀ t, (f t).pid = t.pid) : (s.adjustThread tid f).fdOwner k = s.fdOwner k := by
  cases ht : s.thread? tid with
  | none => rw [adjustThread_of_none ht]
  | some t =>
    rw [adjustThread_eq_setThread ht]
    exact fdOwner_setThread ht (hf t)

theorem fdOwner_adjustRequest (s : State) (tid k : Int) (f : IoRequest → IoRequest) :
    (s.adjustRequest tid f).fdOwner k = s.fdOwner k :=
  s.fdOwner_adjustThread tid k fun _ => rfl

/-- The idle thread comes to lead itself, which it does as it is made. -/
structure IdleLeads (s : State) (tid pid : Int) : Prop where
  idle : tid = 0
  itself : pid = 0
  fresh : s.group? tid = none

/-- A thread made for its number is in no group, but for the idle thread. -/
theorem pid_threadOrFresh (s : State) (tid : Int) :
    (s.threadOrFresh tid).pid = s.group? tid ∨
      ∃ pid, (s.threadOrFresh tid).pid = some pid ∧ s.IdleLeads tid pid := by
  unfold threadOrFresh
  cases ht : s.thread? tid with
  | some t =>
    rw [group?, ht]
    exact Or.inl rfl
  | none =>
    have hnone : s.group? tid = none := by
      rw [group?, ht]
      rfl
    by_cases h : tid = 0
    · subst h
      exact Or.inr ⟨0, rfl, rfl, rfl, hnone⟩
    · refine Or.inl ?_
      rw [hnone, Option.getD_none, Thread.fresh, if_neg h]

/-- Making a thread leaves it its own table. -/
theorem fdOwner_updateThread (s : State) (tid : Int) {f : Thread → Thread}
    (hf : ∀ t, (f t).pid = t.pid) : (s.updateThread tid f).fdOwner tid = s.fdOwner tid := by
  cases ht : s.thread? tid with
  | some t =>
    unfold updateThread
    rw [threadOrFresh_of_thread? ht]
    exact fdOwner_setThread ht (hf t)
  | none =>
    have hnone : s.group? tid = none := by
      rw [group?, ht]
      rfl
    rw [fdOwner_eq_self, fdOwner_eq_self]
    · intro pid hpid
      rw [hnone] at hpid
      cases hpid
    · intro pid hpid
      unfold updateThread at hpid
      rw [group?_setThread, if_pos rfl, hf] at hpid
      rcases s.pid_threadOrFresh tid with hsame | ⟨leader, hleader, hidle⟩
      · rw [hsame, hnone] at hpid
        cases hpid
      · rw [hleader] at hpid
        rw [hidle.idle, ← Option.some.inj hpid]
        exact hidle.itself

/-- Making a thread makes it as fresh as it would be. -/
theorem threadOrFresh_admitThread (s : State) (tid : Int) :
    (s.admitThread tid).threadOrFresh tid = s.threadOrFresh tid := by
  rw [threadOrFresh, thread?_admitThread, if_pos rfl]
  rfl

/-! ## References -/

/-- Devices and interfaces are under their own keys, and threads follow on threads that are known. -/
structure Linked (s : State) : Prop where
  devs : ∀ dev disk, s.disks.get? dev = some disk → disk.dev = dev
  names : ∀ name iface, s.ifaces.get? name = some iface → iface.name = name
  prevs : ∀ tid t prev, s.thread? tid = some t → t.prevTid = some prev → s.Knows prev

namespace Linked

theorem knows_prev (h : s.Linked) {tid prev : Int}
    (hprev : (s.threadOrFresh tid).prevTid = some prev) : s.Knows prev := by
  cases ht : s.thread? tid with
  | some t =>
    rw [threadOrFresh_of_thread? ht] at hprev
    exact h.prevs tid t prev ht hprev
  | none =>
    rw [threadOrFresh, ht, Option.getD_none, Thread.fresh] at hprev
    split at hprev <;> cases hprev

theorem setThread (h : s.Linked) {tid : Int} {t : Thread}
    (hprev : ∀ prev, t.prevTid = some prev → s.Knows prev) : (s.setThread tid t).Linked := by
  refine ⟨h.devs, h.names, fun k u prev hu hp => ?_⟩
  rw [thread?_setThread] at hu
  split at hu
  · cases hu
    exact (hprev prev hp).setThread tid t
  · exact (h.prevs k u prev hu hp).setThread tid t

theorem updateDisk (h : s.Linked) (dev : Nat) {f : Disk → Disk} (hf : ∀ d, (f d).dev = d.dev) :
    (s.updateDisk dev f).Linked := by
  refine ⟨fun k disk hget => ?_, h.names, h.prevs⟩
  rw [disk?_updateDisk] at hget
  split at hget
  · rename_i hk
    cases hget
    rw [hf, hk]
    cases hd : s.disks.get? dev with
    | none => rfl
    | some d => exact h.devs dev d hd
  · exact h.devs k disk hget

theorem updateIface (h : s.Linked) (name : String) {f : Iface → Iface}
    (hf : ∀ i, (f i).name = i.name) : (s.updateIface name f).Linked := by
  refine ⟨h.devs, fun k iface hget => ?_, h.prevs⟩
  rw [iface?_updateIface] at hget
  split at hget
  · rename_i hk
    cases hget
    rw [hf, hk]
    cases hi : s.ifaces.get? name with
    | none => rfl
    | some i => exact h.names name i hi
  · exact h.names k iface hget

end Linked

end KernelReplay.State
