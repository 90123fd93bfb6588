import KernelReplay.Proofs.LinkSteps

/-
  Which table of descriptors a thread uses if events do not contradict each other about groups. Where
  every event agrees with one assignment of leaders (`Event.AgreesWith`), a thread is never put into
  another group than its leader's, however often its leader is told and whether or not the leader is
  known by then. So it uses its own table or its leader's, the leader's for good once it does, and
  the owner of a table uses that table itself (`Run.tables_agree`).
-/

namespace KernelReplay

open Law Update

/-- What an event tells of groups agrees with an assignment of leaders. -/
structure Event.AgreesWith (e : Event) (leaderOf : Int → Int) (s : State) : Prop where
  member : ∀ tid pid, e.member? = some (tid, pid) → pid = leaderOf tid
  /-- Descriptors are reported of leaders. -/
  holder : ∀ pid, e.int? "pid" = some pid → e.kind? = some .fileDescriptor → leaderOf pid = pid
  parent : ∀ tid pid, (e.int? "parent_tid").or (e.int? "parent_pid") = some tid →
    e.int? "parent_pid" = some pid → e.kind? = some .schedFork → pid = leaderOf tid
  child : ∀ tid, e.int? "child_tid" = some tid → e.kind? = some .schedFork →
    (e.int? "child_pid").getD tid = leaderOf tid
  caller : ∀ tid pid, e.StreamsGroup s tid pid → pid = leaderOf tid

namespace Event

variable {e : Event} {leaderOf : Int → Int} {s : State}

instance (who : Nat → Option Int) (tid : Int) : Decidable (e.Enters who tid) :=
  inferInstanceAs (Decidable (_ ∧ _))

instance (tid pid : Int) : Decidable (e.StreamsGroup s tid pid) :=
  inferInstanceAs (Decidable (_ ∧ _ ∧ _ ∧ _))

instance : Decidable (e.AgreesWith leaderOf s) :=
  decidable_of_iff
    ((∀ m ∈ e.member?, m.2 = leaderOf m.1) ∧
      (∀ pid ∈ e.int? "pid", e.kind? = some .fileDescriptor → leaderOf pid = pid) ∧
      (∀ tid ∈ (e.int? "parent_tid").or (e.int? "parent_pid"), ∀ pid ∈ e.int? "parent_pid",
        e.kind? = some .schedFork → pid = leaderOf tid) ∧
      (∀ tid ∈ e.int? "child_tid", e.kind? = some .schedFork →
        (e.int? "child_pid").getD tid = leaderOf tid) ∧
      (∀ tid ∈ e.actor? s.running?, ∀ pid ∈ e.streamPid?, e.StreamsGroup s tid pid →
        pid = leaderOf tid))
    ⟨fun ⟨hm, hh, hp, hc, hcaller⟩ => ⟨fun tid pid ht => hm (tid, pid) ht, hh,
        fun tid pid ht => hp tid ht pid, hc,
        fun tid pid ht => hcaller tid ht.2.1.2 pid ht.2.2.2 ht⟩,
      fun h => ⟨fun m hm => h.member m.1 m.2 hm, h.holder,
        fun tid ht pid => h.parent tid pid ht, h.child, fun tid _ pid _ => h.caller tid pid⟩⟩

/-- An event that agrees puts threads into the groups of their leaders, and leaders into their own. -/
theorem AgreesWith.leader_eq (h : e.AgreesWith leaderOf s)
    (hidem : ∀ tid, leaderOf (leaderOf tid) = leaderOf tid) {tid pid : Int}
    (hg : e.Groups s tid pid) : pid = leaderOf tid := by
  cases hg with
  | member told => exact h.member _ _ told
  | leader told => rw [h.member _ _ told, hidem]
  | holder hk told => exact (h.holder _ told hk).symm
  | parent hk about told => exact h.parent _ _ about told hk
  | child hk about => exact h.child _ about hk
  | caller told => exact h.caller _ _ told
  | callerLeader told => rw [h.caller _ _ told, hidem]

end Event

/-- Every thread whose group is known is in that of its leader. -/
def State.GroupedBy (s : State) (leaderOf : Int → Int) : Prop :=
  ∀ tid pid, s.group? tid = some pid → pid = leaderOf tid

namespace State.GroupedBy

variable {s : State} {leaderOf : Int → Int}

/-- A thread uses its own table or its leader's. -/
theorem fdOwner_eq (h : s.GroupedBy leaderOf) (tid : Int) :
    s.fdOwner tid = tid ∨ s.fdOwner tid = leaderOf tid := by
  rcases s.fdOwner_cases tid with hown | ⟨hgroup, -⟩
  · exact Or.inl hown
  · exact Or.inr (h tid _ hgroup)

/-- A thread uses its leader's table as soon as its group and its leader are known. -/
theorem fdOwner_of_knows (h : s.GroupedBy leaderOf) {tid : Int} (hgroup : (s.group? tid).isSome)
    (hleader : s.Knows (leaderOf tid)) : s.fdOwner tid = leaderOf tid := by
  obtain ⟨pid, hpid⟩ := Option.isSome_iff_exists.1 hgroup
  obtain rfl := h tid pid hpid
  exact State.fdOwner_of_group hpid hleader

/-- One hop finds the owner of a table: leaders lead themselves. -/
theorem fdOwner_fdOwner (h : s.GroupedBy leaderOf)
    (hidem : ∀ tid, leaderOf (leaderOf tid) = leaderOf tid) (tid : Int) :
    s.fdOwner (s.fdOwner tid) = s.fdOwner tid := by
  rcases h.fdOwner_eq tid with hown | hleader
  · rw [hown, hown]
  · rw [hleader]
    rcases h.fdOwner_eq (leaderOf tid) with hself | hself
    · exact hself
    · rw [hself, hidem]

end State.GroupedBy

namespace Run

variable {settings : Settings} {history more : List Step} {r r' : Replay} {leaderOf : Int → Int}

/-- Events that agree with an assignment of leaders keep every thread in the group of its leader. -/
theorem groupedBy (h : Run settings history r)
    (hidem : ∀ tid, leaderOf (leaderOf tid) = leaderOf tid) (hidle : leaderOf 0 = 0)
    (hagree : ∀ step ∈ history, step.event.AgreesWith leaderOf step.before) :
    r.state.GroupedBy leaderOf := by
  induction h with
  | start =>
    intro tid pid hgroup
    cases hgroup
  | next h hp ih =>
    have hbefore := ih fun step hstep => hagree step (List.mem_append_left _ hstep)
    have hevent := hagree _ (List.mem_append_right _ List.mem_cons_self)
    intro tid pid hgroup
    rcases (h.linkStep hp).2.1 tid with hsame | ⟨pid', hjoined, hallowed⟩
    · exact hbefore tid pid (hsame.symm.trans hgroup)
    · obtain rfl : pid' = pid := Option.some.inj (hjoined.symm.trans hgroup)
      rcases hallowed with htold | ⟨rfl, rfl, -⟩
      · exact hevent.leader_eq hidem htold
      · exact hidle.symm

/-- Once a thread's group is known it stays so. -/
theorem group_known_later (h : Run settings history r) (h' : Run settings (history ++ more) r')
    {tid : Int} (hgroup : (r.state.group? tid).isSome) : (r'.state.group? tid).isSome := by
  refine h.later_induction (motive := fun _ r' => (r'.state.group? tid).isSome) hgroup ?_ h'
  intro _ _ _ _ h' hp ih
  rcases (h'.linkStep hp).2.1 tid with hsame | ⟨pid, hjoined, -⟩
  · rw [hsame]
    exact ih
  · rw [hjoined]
    rfl

/-- In a run whose events agree with an assignment of leaders, a thread uses its own table or its
leader's. It is the leader's as soon as the thread's group and the leader are known, and once it is,
it stays so: also after forks that remake the thread or its leader. The owner of a table uses the
table itself. -/
theorem tables_agree (h : Run settings history r)
    (hidem : ∀ tid, leaderOf (leaderOf tid) = leaderOf tid) (hidle : leaderOf 0 = 0)
    (hagree : ∀ step ∈ history, step.event.AgreesWith leaderOf step.before) (tid : Int) :
    (r.state.fdOwner tid = tid ∨ r.state.fdOwner tid = leaderOf tid) ∧
    ((r.state.group? tid).isSome → r.state.Knows (leaderOf tid) →
      r.state.fdOwner tid = leaderOf tid) ∧
    r.state.fdOwner (r.state.fdOwner tid) = r.state.fdOwner tid ∧
    ∀ {earlier more r₀}, history = earlier ++ more → Run settings earlier r₀ →
      r₀.state.fdOwner tid = leaderOf tid → r.state.fdOwner tid = leaderOf tid := by
  have hgrouped := h.groupedBy hidem hidle hagree
  refine ⟨hgrouped.fdOwner_eq tid, hgrouped.fdOwner_of_knows, hgrouped.fdOwner_fdOwner hidem tid, ?_⟩
  rintro earlier more r₀ rfl h₀ howner
  rcases r₀.state.fdOwner_cases tid with hown | ⟨hgroup, hleader⟩
  · -- The table is the thread's own and its leader's, so the thread leads itself.
    have hself : leaderOf tid = tid := howner.symm.trans hown
    rcases hgrouped.fdOwner_eq tid with heq | heq
    · rw [heq, hself]
    · exact heq
  · rw [howner] at hgroup hleader
    have hwithin := h₀.within_later h
    refine hgrouped.fdOwner_of_knows (h₀.group_known_later h ?_) (hwithin.threads _ hleader)
    rw [hgroup]
    rfl

/-- Threads 7, 8 and 9 are of the group of 5, and all others lead themselves. -/
def groupOfFive (tid : Int) : Int := if tid = 7 ∨ tid = 8 ∨ tid = 9 then 5 else tid

theorem groupOfFive_idem (tid : Int) : groupOfFive (groupOfFive tid) = groupOfFive tid := by
  unfold groupOfFive
  split <;> rfl

/-- A fork tells the group of a thread and of the one that it makes before their leader is known.
The thread opens a file meanwhile. -/
def beforeLeader : List Event :=
  [.recorded 0 10 "sched_switch" [("prev_tid", .signed 0), ("next_tid", .signed 7)],
   .recorded 0 20 "sched_process_fork"
     [("parent_tid", .signed 7), ("parent_pid", .signed 5), ("child_tid", .signed 8),
      ("child_pid", .signed 5)],
   .recorded 0 30 "syscall_entry_open" [("filename", .text "/etc/hosts")],
   .recorded 0 40 "syscall_exit_open" [("ret", .signed 3)]]

/-- The leader comes to be known as it is scheduled. Another thread of its is told of in a stream and
in a snapshot, and a fork makes a thread under a number of the group anew. -/
def sinceLeader : List Event :=
  [.recorded 1 50 "sched_switch" [("prev_tid", .signed 0), ("next_tid", .signed 5)],
   .recorded 1 60 "sched_switch" [("prev_tid", .signed 5), ("next_tid", .signed 9)],
   (Event.recorded 1 70 "syscall_entry_close" [("fd", .signed 4)]).withContext "pid" (.signed 5),
   .recorded 1 80 "lttng_statedump_process_state" [("tid", .signed 9), ("pid", .signed 5)],
   .recorded 1 90 "lttng_statedump_file_descriptor"
     [("pid", .signed 5), ("fd", .signed 1), ("filename", .text "/dev/null")],
   .recorded 0 95 "sched_process_fork"
     [("parent_tid", .signed 9), ("child_tid", .signed 7), ("child_pid", .signed 5)]]

/-- A thread that opened a file before its leader was known uses the leader's table since. -/
theorem tables_agree_lateLeader : ∃ earlier more r₀ r,
    Run {} earlier r₀ ∧ Run {} (earlier ++ more) r ∧
    r₀.state.fdOwner 7 = 7 ∧ (r₀.state.group? 7).isSome ∧ r₀.state.fdOwner 5 = 5 ∧
    r.state.fdOwner 7 = 5 ∧ r.state.fdOwner 9 = 5 ∧ r.state.fdOwner 5 = 5 := by
  have hshows : Replay.showsLater {} beforeLeader sinceLeader (fun earlier r₀ more r =>
      (∀ step ∈ earlier ++ more, step.event.AgreesWith groupOfFive step.before) ∧
      r₀.state.fdOwner 7 = 7 ∧ (r₀.state.group? 7).isSome ∧ r₀.state.fdOwner 5 = 5 ∧
      (r.state.group? 7).isSome ∧ (r.state.group? 9).isSome ∧
      (r.state.thread? 5).isSome) = true := by decide +kernel
  obtain ⟨earlier, r₀, more, r, h₀, h, htest⟩ := Run.of_showsLater hshows
  obtain ⟨hagree, howner, hgroup, hleader, hgroup₇, hgroup₉, hknown⟩ := of_decide_eq_true htest
  have hagreed := tables_agree h groupOfFive_idem rfl hagree
  have hfive : r.state.Knows 5 := Option.isSome_iff_exists.1 hknown
  refine ⟨earlier, more, r₀, r, h₀, h, howner, hgroup, hleader, ?_, ?_, ?_⟩
  · exact (hagreed 7).2.1 hgroup₇ hfive
  · exact (hagreed 9).2.1 hgroup₉ hfive
  · exact (hagreed 5).2.2.2 rfl h₀ hleader

end Run

end KernelReplay
