import KernelReplay.Proofs.EventReadings
import KernelReplay.Proofs.Frames
import KernelReplay.Proofs.StandingFrames

/-
  What rules do to the ties between entries. The law `links G M` says of an update that it takes no
  entry out, leaves every reference right, puts a thread into no other group than `G` allows, and
  moves no table to a leader unless `M`. Rules that leave threads as they stand keep it whatever `G`
  and `M` are (`links_of_standing`), and so do those of scheduling but the fork; a fork, a snapshot and
  the entry of an I/O syscall are the rules that put threads into groups, and what they need `G` to
  allow is stated with each.
-/

namespace KernelReplay

namespace Law

/-- A thread is in the group it was in, or in one that is allowed. The idle thread leads itself. -/
def grouping (G : Int → Int → Prop) : Law where
  rel s _ s' := ∀ k, s'.group? k = s.group? k ∨
    ∃ pid, s'.group? k = some pid ∧ (G k pid ∨ s.IdleLeads k pid)
  idle _ _ := Or.inl rfl
  chain h h' k := by
    rcases h' k with hsame | ⟨pid, hpid, hG | hidle⟩
    · rw [hsame]
      exact h k
    · exact Or.inr ⟨pid, hpid, Or.inl hG⟩
    · rcases h k with hsame | ⟨pid', hpid', -⟩
      · exact Or.inr ⟨pid, hpid, Or.inr ⟨hidle.idle, hidle.itself, hsame ▸ hidle.fresh⟩⟩
      · rw [hidle.fresh] at hpid'
        cases hpid'

/-- Entries stay and refer to entries, groups are those allowed, and tables move only if allowed. -/
def links (G : Int → Int → Prop) (M : Prop) : Law :=
  growing.both <| (grouping G).both <| (maintaining State.Linked).both <|
    sending fun n => n.MovesTable → M

end Law

open Law Update

variable {G : Int → Int → Prop} {M : Prop}

/-- A thread made for its number keeps the group that it was in. -/
theorem State.group_threadOrFresh (s : State) (tid : Int) :
    (s.threadOrFresh tid).pid = s.group? tid ∨
      ∃ pid, (s.threadOrFresh tid).pid = some pid ∧ (G tid pid ∨ s.IdleLeads tid pid) :=
  (s.pid_threadOrFresh tid).imp_right fun ⟨pid, hpid, hidle⟩ => ⟨pid, hpid, Or.inr hidle⟩

/-- Threads that stand as they did are in the groups that they were in. -/
theorem links_of_standing {s s' : State} {l : List Signal} (h : standing.rel s l s') :
    (links G M).rel s l s' := by
  obtain ⟨hw, hs, hl, hn⟩ := h
  refine ⟨hw, fun k => ?_, hl, fun n hmem hmoves => ((hn n hmem).1 hmoves).elim⟩
  have hpid : (s'.threadOrFresh k).pid = (s.threadOrFresh k).pid :=
    congrArg Standing.pid (congrFun hs k)
  by_cases hk : s'.Knows k
  · rw [State.group?_of_knows hk, hpid]
    exact s.group_threadOrFresh k
  · have hunknown : ¬ s.Knows k := fun h => hk (hw.threads k h)
    exact Or.inl (by rw [State.group?_of_not_knows hk, State.group?_of_not_knows hunknown])

/-! ## Changes of one entry -/

/-- Putting a thread into the table keeps the law if its group is allowed and its reference right. -/
theorem links_setThread {s : State} {tid : Int} {t : Thread}
    (hpid : t.pid = s.group? tid ∨
      ∃ pid, t.pid = some pid ∧ (G tid pid ∨ s.IdleLeads tid pid))
    (hprev : s.Linked → ∀ prev, t.prevTid = some prev → s.Knows prev) :
    (links G M).rel s [] (s.setThread tid t) := by
  refine ⟨.setThread s tid t, fun k => ?_, fun h => h.setThread (hprev h), by simp [sending]⟩
  rw [State.group?_setThread]
  split
  · rename_i hk
    rw [hk]
    exact hpid
  · exact Or.inl rfl

theorem links_setKnown {s : State} {tid : Int} {t t' : Thread} (ht : s.thread? tid = some t)
    (hpid : t'.pid = t.pid) (hprev : t'.prevTid = t.prevTid) :
    (links G M).rel s [] (s.setThread tid t') := by
  refine links_setThread (Or.inl ?_) fun h prev hp => h.prevs tid t prev ht (hprev ▸ hp)
  rw [hpid, State.group?, ht]
  rfl

theorem links_adjustThread (tid : Int) {f : Thread → Thread} (hpid : ∀ t, (f t).pid = t.pid)
    (hprev : ∀ t, (f t).prevTid = t.prevTid) (s : State) :
    (links G M).rel s [] (s.adjustThread tid f) := by
  cases ht : s.thread? tid with
  | none =>
    rw [State.adjustThread_of_none ht]
    exact (links G M).idle s
  | some t =>
    rw [State.adjustThread_eq_setThread ht]
    exact links_setKnown ht (hpid t) (hprev t)

/-- Making a thread that leads itself keeps the law if it may. -/
theorem links_admitGroup {pid : Int} (hG : G pid pid) (comm : String) (s : State) :
    (links G M).rel s []
      (if s.threads.contains pid then s else s.setThread pid (.ofGroup pid pid comm)) := by
  split
  · exact (links G M).idle s
  · refine links_setThread (Or.inr ⟨pid, rfl, Or.inl hG⟩) fun _ prev hp => ?_
    cases hp

theorem links_notify {n : Notification} (h : ¬ n.MovesTable) : Obeys (links G M) (notify n) :=
  obeys_notify fun s => ⟨.refl s, fun _ => Or.inl rfl, id, by simp [sending, h]⟩

/-! ## Scheduling -/

namespace Scheduling

theorem links_learnPriority (time tid prio : Int) :
    Obeys (links G M) (learnPriority time tid prio) := by
  unfold learnPriority
  refine obeys_ite (obeys_pure _) ?_
  refine Obeys.modify_bind (fun s => links_of_standing ?_) ?_
  · exact standing_updateThread tid (fun _ => rfl) s
  refine obeys_get.bind fun s => obeys_ite (obeys_pure _) ?_
  refine Obeys.modify_bind (links_adjustThread tid (fun _ => rfl) fun _ => rfl) ?_
  exact links_notify id

/-- The thread that a switch follows on is made before the one that runs next refers to it. -/
theorem links_takeOver (e : Event) (cpu : Nat) (prev next : Int) :
    Obeys (links G M) (takeOver e cpu prev next) := by
  refine ((standing_admitCpu cpu).mono links_of_standing).bind fun _ => ?_
  refine Obeys.modify_bind (fun s => links_of_standing (standing_updateCpu cpu _ s)) fun s => ?_
  refine ObeysAt.modify_bind (links_of_standing ?_) (ObeysAt.modify_bind ?_ ?_)
  · exact standing_updateThread prev (fun _ => rfl) s
  · refine links_setThread ?_ fun _ p hp => ?_
    · exact (s.admitThread prev).group_threadOrFresh next
    · obtain rfl : prev = p := Option.some.inj hp
      exact s.knows_admitThread prev
  · refine Obeys.bind (obeys_whenSome fun prio => links_learnPriority e.time prev prio)
      (fun _ => ?_) _
    exact obeys_whenSome fun prio => links_learnPriority e.time next prio

theorem links_switch (e : Event) : Obeys (links G M) (switch e) := by
  unfold switch
  split
  · refine (links_takeOver e _ _ _).bind fun _ => ?_
    exact (standing_announceSwitch _ _ _ _).mono links_of_standing
  · exact (standing_report _).mono links_of_standing

theorem links_migrate (e : Event) : Obeys (links G M) (migrate e) := by
  refine obeys_whenSome fun tid => ?_
  refine Obeys.get_bind fun s => ObeysAt.compute_bind fun migrations _ => ?_
  refine ObeysAt.modify_bind ?_ ?_
  · cases ht : s.thread? tid with
    | some t => exact links_setKnown ht rfl rfl
    | none =>
      refine links_setThread (Or.inl ?_) fun _ prev hp => (by cases hp)
      rw [State.group?, ht]
      rfl
  · refine Obeys.bind (links_notify id) (fun _ => ?_) _
    exact obeys_whenSome fun prio => links_learnPriority e.time tid prio

/-- A fork tells the group of the child, and may tell that of the parent. -/
theorem links_fork {e : Event}
    (hparent : ∀ tid pid, (e.int? "parent_tid").or (e.int? "parent_pid") = some tid →
      e.int? "parent_pid" = some pid → G tid pid)
    (hchild : ∀ tid, e.int? "child_tid" = some tid → G tid ((e.int? "child_pid").getD tid)) :
    Obeys (links G M) (fork e) := by
  intro s
  refine obeysAt_whenSome fun tid htid => obeysAt_whenSome fun parent hp => ?_
  refine ObeysAt.modify_bind ?_ (ObeysAt.get_bind ?_)
  · refine links_setThread ?_ fun h prev hprev => h.knows_prev hprev
    cases hpid : e.int? "parent_pid" with
    | some pid => exact Or.inr ⟨pid, rfl, Or.inl (hparent parent pid hp hpid)⟩
    | none =>
      exact s.group_threadOrFresh parent
  · refine Obeys.bind ((standing_report _).mono links_of_standing) (fun _ => ?_) _
    refine Obeys.modify_bind (fun s => ?_) (obeys_forEach fun number => ?_)
    · refine links_setThread (Or.inr ⟨_, rfl, Or.inl (hchild tid htid)⟩) fun _ prev hprev => ?_
      cases hprev
    · exact (Descriptors.standing_announce _ _ _ _ _).mono links_of_standing

/-- Every rule of scheduling but the fork leaves groups as they are. -/
theorem links_apply {kind : EventKind} (hfork : kind ≠ .schedFork) (e : Event) :
    Obeys (links G M) (apply kind e) := by
  cases kind
  case schedSwitch => exact links_switch e
  case schedMigrate => exact links_migrate e
  case schedWakeup => exact obeys_wakeup links_of_standing fun tid prio => links_learnPriority _ tid prio
  case schedFork => exact (hfork rfl).elim
  case schedExec => exact (standing_exec e).mono links_of_standing
  case schedSetPriority =>
    exact obeys_whenSome fun tid => obeys_whenSome fun prio => links_learnPriority e.time tid prio
  all_goals exact obeys_pure _

end Scheduling

/-! ## Snapshots -/

namespace Snapshot

/-- A snapshot of a thread tells its group and, if that is another thread's, makes the leader. -/
theorem links_processState {e : Event}
    (hthread : ∀ tid pid, e.int? "tid" = some tid → e.int? "pid" = some pid → G tid pid)
    (hleader : ∀ tid pid, e.int? "tid" = some tid → e.int? "pid" = some pid → G pid pid)
    (hmoves : ∀ tid pid, e.int? "tid" = some tid → e.int? "pid" = some pid → M) :
    Obeys (links G M) (processState e) := by
  intro s
  refine obeysAt_whenSome fun tid htid => obeysAt_whenSome fun pid hpid => ?_
  refine ObeysAt.modify_bind ?_ ?_
  · refine links_setThread (Or.inr ⟨pid, rfl, Or.inl (hthread tid pid htid hpid)⟩) ?_
    exact fun h prev hprev => h.knows_prev hprev
  refine obeys_ite (obeys_pure _) ?_ _
  refine Obeys.modify_bind (links_admitGroup (hleader tid pid htid hpid) _) ?_
  refine Obeys.modify_bind (fun s => ?_) (obeys_get.bind fun s => ?_)
  · refine links_of_standing (standing.chain_silent (standing_adjustThread tid ?_ s)
      (standing_adjustThread pid ?_ _)) <;> exact fun _ => rfl
  · split
    · refine obeys_notify fun s => ⟨.refl s, fun _ => Or.inl rfl, id, fun _ _ _ => ?_⟩
      exact hmoves tid pid htid hpid
    · exact obeys_pure _

/-- A snapshot of a descriptor tells that its process leads itself. -/
theorem links_fileDescriptor {e : Event}
    (hleader : ∀ pid, e.int? "pid" = some pid → G pid pid) :
    Obeys (links G M) (fileDescriptor e) := by
  intro s
  refine obeysAt_whenSome fun pid hpid => ?_
  refine obeys_whenSome (fun number => obeys_whenSome fun filename => ?_) s
  refine Obeys.modify_bind (links_admitGroup (hleader pid hpid) _) ?_
  refine Obeys.mono (obeys_get.bind fun s => obeys_ite ?_ ?_) links_of_standing
  · refine Obeys.modify_bind (standing_adjustFd pid number _) ?_
    exact Descriptors.standing_announce _ _ _ _ _
  · refine Obeys.modify_bind (standing_adjustThread pid fun _ => rfl) ?_
    exact Descriptors.standing_announce _ _ _ _ _

theorem links_apply {kind : EventKind} (hprocess : kind ≠ .processState)
    (hdescriptor : kind ≠ .fileDescriptor) (e : Event) : Obeys (links G M) (apply kind e) := by
  cases kind
  case processState => exact (hprocess rfl).elim
  case fileDescriptor => exact (hdescriptor rfl).elim
  case blockDevice => exact (standing_blockDevice e).mono links_of_standing
  all_goals exact obeys_pure _

end Snapshot

/-! ## I/O requests -/

namespace IoRequests

/-- The stream tells the group of a thread that is in none yet. -/
theorem links_learnGroup {e : Event} {tid : Int} {s : State}
    (hthread : ∀ pid, s.group? tid = none → e.streamPid? = some pid → G tid pid)
    (hleader : ∀ pid, s.group? tid = none → e.streamPid? = some pid → G pid pid) :
    ObeysAt (links G M) (learnGroup e tid) s := by
  unfold learnGroup
  split
  · exact obeysAt_pure _
  · rename_i hshadow
    refine obeysAt_whenSome fun pid hpid => ?_
    have hpid : e.streamPid? = some pid := (if_neg hshadow).trans hpid
    refine ObeysAt.modify_bind (links_of_standing ?_) (ObeysAt.get_bind ?_)
    · exact standing_updateThread tid (fun _ => rfl) s
    dsimp only
    split
    · exact obeysAt_pure _
    · rename_i hunknown
      have hnone : s.group? tid = none := by
        rw [State.threadOrFresh_admitThread] at hunknown
        have hpid := Option.not_isSome_iff_eq_none.1 hunknown
        rcases s.pid_threadOrFresh tid with hsame | ⟨_, hself, -⟩
        · rw [← hsame, hpid]
        · rw [hpid] at hself
          cases hself
      refine ObeysAt.modify_bind ?_ ?_
      · refine links_setThread (Or.inr ⟨pid, rfl, Or.inl (hthread pid hnone hpid)⟩) ?_
        exact fun h prev hprev => h.knows_prev hprev
      · refine obeys_ite (obeys_pure _) ?_ _
        refine ((standing_report _).mono links_of_standing).bind fun _ => obeys_modify fun s => ?_
        refine links_setThread (Or.inr ⟨pid, rfl, Or.inl (hleader pid hnone hpid)⟩) ?_
        exact fun _ prev hprev => by cases hprev

/-- The entry of an I/O syscall may tell the group of the thread on its CPU. -/
theorem links_entry {e : Event} {s : State}
    (hthread : ∀ tid pid, (SyscallClass.ofName? (syscallName e.name)).isSome →
      e.actor? s.running? = some tid → s.group? tid = none → e.streamPid? = some pid → G tid pid)
    (hleader : ∀ tid pid, (SyscallClass.ofName? (syscallName e.name)).isSome →
      e.actor? s.running? = some tid → s.group? tid = none → e.streamPid? = some pid → G pid pid) :
    ObeysAt (links G M) (entry e) s := by
  refine obeysAt_whenSome fun kind hkind => ObeysAt.get_bind (obeysAt_whenSome fun tid htid => ?_)
  have hio : (SyscallClass.ofName? (syscallName e.name)).isSome := by
    rw [hkind]
    rfl
  refine ObeysAt.bind (links_learnGroup (hthread tid · hio htid) (hleader tid · hio htid)) ?_
  refine fun o _ => Obeys.mono (obeys_ite (standing_enterDup _ _ _) ?_) links_of_standing o.state
  exact obeys_whenSome fun body => standing_attach _ _ _ _

end IoRequests

end KernelReplay
