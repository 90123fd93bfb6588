import KernelReplay.Proofs.DescriptorViews
import KernelReplay.Proofs.LinkSteps

/-
  Which descriptors a thread still sees after an event. A descriptor that is not closed is never
  lost: it stays in its table, or goes to that of the leader to which a snapshot moves it
  (`Event.heir`). But a thread sees it only in the table that it uses, and which one that is changes
  with what is known of its group. So a thread sees what it saw before unless an event tells its
  group or makes its leader known (`Run.descriptor_stays`); then only a snapshot takes the table
  along, and what the thread opened before is out of its sight (`Run.unseen_after_stream`).
-/

namespace KernelReplay

open Law Update

/-- The descriptor that a notification tells to be closed, by owner and number. -/
def Notification.closed? : Notification → Option (Int × Int)
  | .fd .close gone owner _ _ => some (owner.tid, gone.number)
  | _ => none

/-- The thread whose table has, after an event, what was in the table of another: the leader that a
snapshot tells of it, or else itself. -/
def Event.heir (e : Event) (owner : Int) : Int :=
  match e.member? with
  | some (tid, pid) => if owner = tid then pid else owner
  | none => owner

/-- An event tells nothing of where the descriptors are that a thread sees: not its group, not a
leader of it that was not known, and not that the table that it uses is moved. -/
structure Event.LeavesTable (e : Event) (s s' : State) (tid : Int) : Prop where
  group : ∀ pid, ¬ e.Groups s tid pid
  leader : ∀ pid, s.group? tid = some pid → s'.Knows pid → s.Knows pid
  table : e.heir (s.fdOwner tid) = s.fdOwner tid

/-! ## What a snapshot of a thread does -/

namespace Snapshot

variable {e : Event} {s : State} {o : Outcome Unit}

/-- A thread that a snapshot is about is in the group that it tells. If that is another thread's, its
table is moved to the leader, which is told. -/
theorem processState_run {tid pid : Int} (ht : e.int? "tid" = some tid)
    (hp : e.int? "pid" = some pid) (h : processState e s = .ok o) :
    ∃ thread leader, o.state.thread? tid = some thread ∧ o.state.thread? pid = some leader ∧
      thread.pid = some pid ∧
      o.signals = if pid = tid then [] else [.notification (.createParent thread leader)] := by
  unfold processState at h
  rw [ht, hp, whenSome_some, whenSome_some, modify_bind_run] at h
  generalize hs : s.updateThread tid _ = s₁ at h
  obtain ⟨thread, hthread, hpid⟩ : ∃ t, s₁.thread? tid = some t ∧ t.pid = some pid :=
    ⟨_, by rw [← hs, State.thread?_updateThread, if_pos rfl], rfl⟩
  split at h
  · rename_i heq
    cases h
    refine ⟨thread, thread, hthread, ?_, hpid, (if_pos heq).symm⟩
    rw [heq]
    exact hthread
  · rename_i hne
    obtain ⟨leader, hleader⟩ := s₁.thread?_admitGroup pid pid ((e.text? "name").getD "")
    rw [← s₁.thread?_admitGroup_of_ne pid ((e.text? "name").getD "") (Ne.symm hne)] at hthread
    rw [modify_bind_run, modify_bind_run, get_bind_run, moveFds_eq hthread hleader (Ne.symm hne),
      State.thread?_setThread, if_neg (Ne.symm hne), State.thread?_setThread, if_pos rfl,
      State.thread?_setThread, if_pos rfl] at h
    cases h
    refine ⟨{ thread with fds := ∅ }, { leader with fds := mergeFds leader.fds thread.fds }, ?_, ?_,
      hpid, (if_neg hne).symm⟩
    · rw [State.thread?_setThread, if_neg (Ne.symm hne), State.thread?_setThread, if_pos rfl]
    · rw [State.thread?_setThread, if_pos rfl]

end Snapshot

/-! ## What a subscriber still knows -/

/-- A subscriber who is told neither that a descriptor is closed nor of a table that moves keeps
knowing it. -/
theorem FdView.mem_heedAll {view : FdView} {l : List Notification} {owner number : Int}
    (h : (owner, number) ∈ view) (hopen : ∀ n ∈ l, n.closed? ≠ some (owner, number))
    (hstay : ∀ n ∈ l, ¬ n.MovesTable) : (owner, number) ∈ view.heedAll l := by
  induction l generalizing view with
  | nil => exact h
  | cons n rest ih =>
    have hn := hopen n List.mem_cons_self
    have hheed : (owner, number) ∈ view.heed n := by
      cases n
      case fd change fd thread time cpu =>
        cases change
        case create => exact Finset.mem_insert_of_mem h
        case update => exact h
        case close => exact Finset.mem_erase.2 ⟨fun heq => hn (congrArg some heq.symm), h⟩
      case createParent => exact (hstay _ List.mem_cons_self trivial).elim
      all_goals exact h
    exact ih hheed (fun m hm => hopen m (List.mem_cons_of_mem _ hm))
      fun m hm => hstay m (List.mem_cons_of_mem _ hm)

/-- A subscriber who is told that a table moves knows its descriptors as the leader's. -/
theorem FdView.mem_heed_createParent {view : FdView} {thread leader : Thread} {owner number : Int}
    (h : (owner, number) ∈ view) :
    (if owner = thread.tid then leader.tid else owner, number) ∈
      view.heed (.createParent thread leader) := by
  refine Finset.mem_image.2 ⟨(owner, number), h, ?_⟩
  dsimp only
  split <;> rfl

/-- A subscriber who knows a state knows what is in the table of a thread. -/
theorem FdView.Shows.mem_iff_ownFd? {view : FdView} {s : State} (h : view.Shows s)
    {owner number : Int} : (owner, number) ∈ view ↔ (s.ownFd? owner number).isSome := by
  rw [h owner number, State.ownFd?, State.fds]
  cases s.thread? owner with
  | none =>
    have hnone : (∅ : Table Int Fd).get? number = none := rfl
    simp [hnone]
  | some thread => simp [Table.mem_iff]

/-! ## One event -/

namespace Run

variable {settings : Settings} {history : List Step} {r : Replay} {e : Event} {p : Replay.Progress}
  {tid pid owner number : Int}

/-- After the snapshot of a thread it is in the group that is told, with its leader known, and if it
is not that leader its table has been told to move. -/
theorem member_step (h : Run settings history r) (hp : r.process e = .ok p)
    (hm : e.member? = some (tid, pid)) :
    p.replay.state.group? tid = some pid ∧ p.replay.state.Knows pid ∧
      ∃ thread leader : Thread, thread.tid = tid ∧ leader.tid = pid ∧
        notificationsOf p.signals = if pid = tid then [] else [.createParent thread leader] := by
  obtain ⟨hk, htid, hpid⟩ := Event.member?_eq_some hm
  have hkeyed := (h.next hp).keyed_view.1
  obtain ⟨o, ho, hs, hl⟩ := h.update_run hp hk fun remaps =>
    Subsystem.effect_snapshot e remaps (Or.inl rfl)
  obtain ⟨thread, leader, hthread, hleader, hgroup, hsignals⟩ :=
    Snapshot.processState_run htid hpid ho
  rw [hs] at hkeyed
  rw [hs, hl, hsignals]
  refine ⟨?_, ⟨leader, hleader⟩, thread, leader, hkeyed.tid_of_thread? hthread,
    hkeyed.tid_of_thread? hleader, ?_⟩
  · rw [State.group?, hthread]
    exact hgroup
  · split <;> rfl

/-- A descriptor that is not closed stays in its table, or goes where a snapshot moves it, unless a
fork makes its owner anew. -/
theorem kept_by_heir (h : Run settings history r) (hp : r.process e = .ok p)
    (hfd : (r.state.ownFd? owner number).isSome)
    (hopen : ∀ n ∈ notificationsOf p.signals, n.closed? ≠ some (owner, number))
    (hforked : e.forked? ≠ some owner) :
    (p.replay.state.ownFd? (e.heir owner) number).isSome := by
  obtain ⟨hkeyed, hshows⟩ := h.keyed_view
  obtain ⟨-, -, hshows'⟩ := h.view_step hp hkeyed hshows
  rw [← hshows'.mem_iff_ownFd?]
  have hknown : (owner, number) ∈ (FdView.after history).forget e := by
    have hbefore := hshows.mem_iff_ownFd?.2 hfd
    unfold FdView.forget
    split
    · rename_i child hchild
      refine Finset.mem_filter.2 ⟨hbefore, fun heq => hforked (hchild.trans ?_)⟩
      exact congrArg some heq.symm
    · exact hbefore
  unfold Event.heir
  split
  · rename_i tid pid hm
    obtain ⟨-, -, thread, leader, rfl, rfl, htold⟩ := h.member_step hp hm
    rw [htold]
    split
    · -- A leader's own snapshot moves nothing.
      rename_i hself
      rw [hself, ite_eq_right_iff.2 Eq.symm]
      exact hknown
    · exact FdView.mem_heed_createParent hknown
  · rename_i hm
    refine FdView.mem_heedAll hknown hopen fun n hn hmoves => ?_
    have hmember : e.member?.isSome := (h.linkStep hp).2.2.2 n hn hmoves
    rw [hm] at hmember
    cases hmember

/-- A thread goes on using the table that it uses if no event tells its group or makes its leader
known. -/
theorem fdOwner_step (h : Run settings history r) (hp : r.process e = .ok p)
    (hgroup : ∀ pid, ¬ e.Groups r.state tid pid)
    (hleader : ∀ pid, r.state.group? tid = some pid → p.replay.state.Knows pid →
      r.state.Knows pid) : p.replay.state.fdOwner tid = r.state.fdOwner tid := by
  have hwithin := (h.linkStep hp).1
  rcases (h.linkStep hp).2.1 tid with hsame | ⟨pid, hjoined, htold | hidle⟩
  · rcases r.state.fdOwner_cases tid with hown | ⟨hin, hknown⟩
    · rcases p.replay.state.fdOwner_cases tid with hown' | ⟨hin', hknown'⟩
      · rw [hown, hown']
      · -- The leader whose table it would use was known before.
        rw [hsame] at hin'
        exact (State.fdOwner_of_group hin' (hleader _ hin' hknown')).symm
    · exact State.fdOwner_of_group (hsame.trans hin) (hwithin.threads _ hknown)
  · exact (hgroup pid htold).elim
  · -- The idle thread comes to lead itself, and so uses its own table as before.
    rw [State.fdOwner_eq_self (s := r.state) fun pid hpid => by rw [hidle.fresh] at hpid; cases hpid]
    refine State.fdOwner_eq_self fun pid' hpid' => ?_
    rw [hjoined] at hpid'
    rw [← Option.some.inj hpid', hidle.itself, hidle.idle]

/-- What a thread sees and an event does not close is not lost, unless a fork makes its owner anew:
it is in the table that it was in, or in that of the leader to which a snapshot has moved it. The
thread still sees it if that is the table that it uses. So it does where the event tells nothing of
where the thread's descriptors are, and where the event is a snapshot of the thread and the table was
its own. -/
theorem descriptor_stays (h : Run settings history r) (hp : r.process e = .ok p)
    (hsees : (r.state.fd? tid number).isSome)
    (hopen : ∀ n ∈ notificationsOf p.signals, n.closed? ≠ some (r.state.fdOwner tid, number))
    (hforked : e.forked? ≠ some (r.state.fdOwner tid)) :
    (p.replay.state.ownFd? (e.heir (r.state.fdOwner tid)) number).isSome ∧
    (p.replay.state.fdOwner tid = e.heir (r.state.fdOwner tid) →
      (p.replay.state.fd? tid number).isSome) ∧
    (e.LeavesTable r.state p.replay.state tid → (p.replay.state.fd? tid number).isSome) ∧
    ∀ pid, e.member? = some (tid, pid) → r.state.fdOwner tid = tid →
      (p.replay.state.fd? tid number).isSome := by
  have hkept := h.kept_by_heir hp hsees hopen hforked
  have hsight : p.replay.state.fdOwner tid = e.heir (r.state.fdOwner tid) →
      (p.replay.state.fd? tid number).isSome := by
    intro howner
    rw [State.fd?, howner]
    exact hkept
  refine ⟨hkept, hsight, fun hleaves => hsight ?_, fun pid hm howner => hsight ?_⟩
  · rw [hleaves.table]
    exact h.fdOwner_step hp hleaves.group hleaves.leader
  · obtain ⟨hgroup, hknown, -⟩ := h.member_step hp hm
    rw [State.fdOwner_of_group hgroup hknown, howner, Event.heir, hm]
    exact (if_pos rfl).symm

/-- A thread opens a file while nothing is known of its group. -/
def openedAlone : List Event :=
  [.recorded 0 10 "sched_switch" [("prev_tid", .signed 0), ("next_tid", .signed 7)],
   .recorded 0 20 "syscall_entry_open" [("filename", .text "/etc/hosts")],
   .recorded 0 30 "syscall_exit_open" [("ret", .signed 3)]]

/-- A snapshot tells the leader of the thread. -/
def toldBySnapshot : Event :=
  .recorded 0 40 "lttng_statedump_process_state" [("tid", .signed 7), ("pid", .signed 5)]

/-- A stream tells the leader of the thread as the thread reads its file. -/
def toldByStream : Event :=
  (Event.recorded 0 40 "syscall_entry_read" [("fd", .signed 3)]).withContext "pid" (.signed 5)

/-- The thread still sees its file after the snapshot. -/
theorem descriptor_stays_toldBySnapshot : ∃ history r p,
    Run {} history r ∧ r.process toldBySnapshot = .ok p ∧ (r.state.fd? 7 3).isSome ∧
    r.state.fdOwner 7 = 7 ∧ p.replay.state.fdOwner 7 = 5 ∧ (p.replay.state.fd? 7 3).isSome := by
  have hshows : Replay.showsNext {} openedAlone toldBySnapshot (fun _ r p =>
      (r.state.fd? 7 3).isSome ∧ r.state.fdOwner 7 = 7 ∧ p.replay.state.fdOwner 7 = 5 ∧
      ∀ n ∈ notificationsOf p.signals, n.closed? ≠ some (7, 3)) = true := by decide +kernel
  have hm : toldBySnapshot.member? = some (7, 5) := by decide +kernel
  have hforked : toldBySnapshot.forked? = none := by decide +kernel
  obtain ⟨history, r, p, h, hp, htest⟩ := Run.of_showsNext hshows
  obtain ⟨hsees, howner, hleader, hopen⟩ := of_decide_eq_true htest
  refine ⟨history, r, p, h, hp, hsees, howner, hleader, ?_⟩
  rw [← howner] at hopen
  refine (descriptor_stays h hp hsees hopen ?_).2.2.2 5 hm howner
  rw [hforked]
  exact (Option.some_ne_none _).symm

/-- The thread has lost sight of its file after the stream has told its leader, though nothing was
closed and no thread was made by a fork. -/
theorem unseen_after_stream : ∃ history r p,
    Run {} history r ∧ r.process toldByStream = .ok p ∧ (r.state.fd? 7 3).isSome ∧
    (∀ n ∈ notificationsOf p.signals, n.closed? ≠ some (r.state.fdOwner 7, 3)) ∧
    toldByStream.forked? = none ∧ p.replay.state.fd? 7 3 = none ∧
    (p.replay.state.ownFd? 7 3).isSome := by
  have hshows : Replay.showsNext {} openedAlone toldByStream (fun _ r p =>
      (r.state.fd? 7 3).isSome ∧
      (∀ n ∈ notificationsOf p.signals, n.closed? ≠ some (r.state.fdOwner 7, 3)) ∧
      toldByStream.forked? = none ∧ p.replay.state.fd? 7 3 = none ∧
      (p.replay.state.ownFd? 7 3).isSome) = true := by decide +kernel
  obtain ⟨history, r, p, h, hp, htest⟩ := Run.of_showsNext hshows
  exact ⟨history, r, p, h, hp, of_decide_eq_true htest⟩

end Run

end KernelReplay
