import KernelReplay.Proofs.DescriptorVisibility
import KernelReplay.Proofs.TableEffects

/-
  Whose table of descriptors an event changes, and what it makes of it. Few kinds of events change a
  table, each that of one owner, and a fold those of two (`Event.Rewrites`); every other table stays as
  it is (`Run.rewrites`). So a thread that has given up its table to a leader does not change it by a
  syscall (`Run.tables_framed`).
-/

namespace KernelReplay

open Law Update

/-- The exit of a syscall ends a request of a thread, which succeeded with a result. -/
structure Event.Succeeds (e : Event) (s : State) (tid : Int) (rq : IoRequest) (n : Int) : Prop where
  leaves : e.Leaves s.running? tid
  request : (s.call? tid).bind (·.request) = some rq
  ret : e.int? "ret" = some n
  succeeded : 0 ≤ n ∨ n = -115 ∧ rq.body.operation = .connect

/-- An event changes the table of an owner: which one that is, and what it makes of the table. -/
inductive Event.Rewrites (e : Event) (s s' : State) (l : List Signal) (k : Int) : Prop
  /-- The entry of a syscall frees the number that it chooses. -/
  | entry {tid number : Int} (enters : e.Enters s.running? tid) (owner : k = s'.fdOwner tid)
    (target : e.dupTarget? = some number) (frees : Frees s l s' k number)
  /-- The exit of a syscall settles a request that succeeded. -/
  | exit {tid n : Int} {rq : IoRequest} (succeeds : e.Succeeds s tid rq n) (owner : k = s.fdOwner tid)
    (fds : ∀ number, (s'.fds k).get? number = rq.body.fdAfter n (s.fds k) number)
    (told : ∀ number filename, rq.body = .connect number (some filename) → number ∈ s.fds k →
      ⟨.update, k, number⟩ ∈ fdNotices l)
  /-- The exec of a program closes what is marked for it. -/
  | exec {tid : Int} (kind : e.kind? = some .schedExec) (about : e.int? "tid" = some tid)
    (owner : k = s.fdOwner tid)
    (fds : ∀ number, (s'.fds k).get? number = ((s.fds k).get? number).filter (!·.cloexec))
  /-- The child of a fork starts with copies of the table of its parent. -/
  | fork {parent : Int} (child : e.forked? = some k)
    (fds : s'.fds k = (s.fds parent).map fun _ fd => fd.duplicate)
  /-- A snapshot reports a descriptor. -/
  | report {number : Int} {filename : String} (kind : e.kind? = some .fileDescriptor)
    (owner : e.int? "pid" = some k) (about : e.int? "fd" = some number)
    (name : e.text? "filename" = some filename)
    (fds : ∀ n, (s'.fds k).get? n = if n = number then
      some (Snapshot.afterReport e number filename ((s.fds k).get? n)) else (s.fds k).get? n)
    (told : number ∈ s.fds k → ⟨.update, k, number⟩ ∈ fdNotices l)
  /-- A snapshot folds the table of a thread into that of its leader. -/
  | member {pid : Int} (told : e.member? = some (k, pid)) (other : pid ≠ k) (fds : s'.fds k = ∅)
  /-- A snapshot folds the table of a thread into that of its leader. -/
  | leader {tid : Int} (told : e.member? = some (tid, k)) (other : k ≠ tid)
    (fds : s'.fds k = Snapshot.mergeFds (s.fds k) (s.fds tid))
  /-- A packet settles the type of a descriptor that is written to. -/
  | packet {tid number : Int} (kind : e.kind? = some .netTransmit)
    (actor : e.actor? s.running? = some tid) (owner : k = s.fdOwner tid)
    (fds : s'.fds k = (s.fds k).adjust number (·.guessed (some .maybeNet)))

namespace Syscalls

variable {e : Event} {s : State} {o : Outcome Unit}

/-- The exit of a syscall changes tables only if it ends a request that succeeded. -/
theorem exits_rewrite (hs : s.CallsSound) (hk : e.kind? = some .syscallExit)
    (h : (Syscalls.exit e >>= fun _ => IoRequests.exit e) s = .ok o) :
    (∀ k, o.state.fds k = s.fds k) ∨ ∃ tid rq n, e.Succeeds s tid rq n ∧
      (∀ k, k ≠ s.fdOwner tid → o.state.fds k = s.fds k) ∧
      ∀ number, (o.state.fds (s.fdOwner tid)).get? number =
        rq.body.fdAfter n (s.fds (s.fdOwner tid)) number := by
  rcases exit_cases h with ⟨-, hstate, -⟩ | ⟨cpu, tid, thread, call, -, -, hc, hr, ht, hcall, -⟩
  · exact Or.inl fun k => by rw [hstate]
  have hact : e.actor? s.running? = some tid := Option.bind_eq_some_iff.2 ⟨cpu, hc, hr⟩
  have hin : s.call? tid = some call := by rw [State.call?, ht]; exact hcall
  by_cases hsuccess : ∃ rq n, e.Succeeds s tid rq n
  · obtain ⟨rq, n, hsuccess⟩ := hsuccess
    have hrq := hsuccess.request
    rw [hin, Option.bind_some] at hrq
    obtain ⟨fds, hfds, hstate⟩ :=
      exits_settle hs hact hin h hrq hsuccess.ret hsuccess.succeeded
    refine Or.inr ⟨tid, rq, n, hsuccess, fun k hk => ?_, fun number => ?_⟩
    · rw [hstate, State.fds_rework_of_ne hk, State.fds_withoutCall]
    · have howner : (s.withoutCall tid).Knows (s.fdOwner tid) :=
        State.knows_withoutCall (s.knows_fdOwner ⟨thread, ht⟩)
      rw [hstate, State.fds_rework howner, hfds, State.fds_withoutCall]
  · refine Or.inl (State.fds_of_tablesKept (exits_of_failed hact hin h fun rq n hrq hret => ?_))
    have hfailed : ¬ (0 ≤ n ∨ n = -115 ∧ rq.body.operation = .connect) := fun hdone =>
      hsuccess ⟨rq, n, ⟨hk, hact⟩, by rw [hin]; exact hrq, hret, hdone⟩
    refine ⟨Int.not_le.1 fun hpos => hfailed (Or.inl hpos), fun hn hop => ?_⟩
    exact hfailed (Or.inr ⟨hn, hop⟩)

/-- The exit of a request that succeeded tells of tables what its effect on the table tells, and then
that the descriptor goes which it closes. -/
theorem exits_apply {tid n : Int} {rq : IoRequest} (hs : s.CallsSound)
    (h : (Syscalls.exit e >>= fun _ => IoRequests.exit e) s = .ok o)
    (hsuccess : e.Succeeds s tid rq n) :
    ∃ cpu o₁ o₂, IoRequests.applyBody (rq.body.complete n) e tid (s.fdOwner tid) cpu
        (s.withoutCall tid) = .ok o₁ ∧
      whenSome (IoRequests.closed? (rq.body.complete n) (some n)) (fun number =>
        Descriptors.close (s.fdOwner tid) number e.time (some cpu)) o₁.state = .ok o₂ ∧
      fdNotices o.signals = fdNotices o₁.signals ++ fdNotices o₂.signals := by
  obtain ⟨call, hcall, hrq⟩ := Option.bind_eq_some_iff.1 hsuccess.request
  obtain ⟨cpu, thread, ended, o', hknown, hrest, -, hsignals⟩ :=
    exits_of_call hsuccess.leaves.2 hcall h
  have hp := (hs.pending tid call hcall).request rq hrq
  obtain ⟨kind, hkind, -⟩ := hp.body
  rw [isIoSyscall, hkind, Option.isSome_some, if_pos rfl, hrq, whenSome_some] at hrest
  obtain ⟨finished, o₁, o₂, thread', leader, hf, hsettle, -, -, hclose, -, hparts⟩ :=
    IoRequests.finish_parts (State.knows_withoutCall hknown) hrest
  have hdone : finished.succeeded (e.int? "ret") = true := by
    rw [IoRequest.succeeded_iff, IoRequest.operation_of_finish hf]
    exact ⟨n, hsuccess.ret, hsuccess.succeeded⟩
  have hbody := IoRequest.body_of_success hp hsuccess.ret hsuccess.succeeded hf
  unfold IoRequests.settle at hsettle
  rw [if_pos hdone, hbody, State.fdOwner_withoutCall] at hsettle
  rw [hbody, hsuccess.ret, State.fdOwner_withoutCall] at hclose
  refine ⟨cpu, o₁, o₂, hsettle, hclose, ?_⟩
  rw [hsignals, hparts]
  show fdNotices ([_] ++ (o₁.signals ++ ([_] ++ o₂.signals))) = _
  simp only [fdNotices_append]
  rfl

/-- The name that a connection gives to a descriptor is told. -/
theorem exits_tell_connect {tid n number : Int} {rq : IoRequest} {filename : String} (hs : s.CallsSound)
    (hkeyed : s.Keyed) (h : (Syscalls.exit e >>= fun _ => IoRequests.exit e) s = .ok o)
    (hsuccess : e.Succeeds s tid rq n) (hbody : rq.body = .connect number (some filename))
    (hmem : number ∈ s.fds (s.fdOwner tid)) :
    ⟨.update, s.fdOwner tid, number⟩ ∈ fdNotices o.signals := by
  obtain ⟨cpu, o₁, o₂, happly, -, htold⟩ := exits_apply hs h hsuccess
  rw [hbody] at happly
  have happly : whenSome (some filename) (fun filename => do
      modify (·.adjustFd (s.fdOwner tid) number fun fd => { fd with filename })
      Descriptors.announce .update (s.fdOwner tid) number e.time (some cpu)) (s.withoutCall tid) =
        .ok o₁ := happly
  rw [whenSome_some, modify_bind_run] at happly
  have hleft := hkeyed.of_tablesKept (s.tablesKept_withoutCall tid)
  rw [← State.fds_withoutCall] at hmem
  rw [htold, Descriptors.notices_rename hleft hmem happly]
  exact List.mem_append_left _ (List.mem_singleton.2 rfl)

end Syscalls

namespace Subsystem

theorem effect_schedExec (e : Event) (remaps : List Remap) :
    effect .schedExec e remaps = Scheduling.exec e >>= fun _ => pure remaps := by
  simp only [effect, Scheduling.apply, Paging.apply, Interrupts.apply, Syscalls.apply,
    IoRequests.apply, Snapshot.apply, BlockRequests.apply, Traffic.apply, pure_bind]

theorem effect_netTransmit (e : Event) (remaps : List Remap) :
    effect .netTransmit e remaps = Traffic.transmit e >>= fun _ => pure remaps := by
  simp only [effect, Scheduling.apply, Paging.apply, Interrupts.apply, Syscalls.apply,
    IoRequests.apply, Snapshot.apply, BlockRequests.apply, Traffic.apply, pure_bind]

/-- An event of any other kind leaves every table as it is. -/
theorem tablesKept_effect {kind : EventKind} (h : kind ∉ [.schedFork, .schedExec, .syscallEntry,
      .syscallExit, .processState, .fileDescriptor, .netTransmit]) (e : Event) (remaps : List Remap) :
    Obeys tablesKept (effect kind e remaps) := by
  have hscheduling : Obeys tablesKept (Scheduling.apply kind e) := by
    cases kind
    case schedSwitch => exact (Scheduling.holdingsKept_switch e).mono tablesKept_of_holdingsKept
    case schedMigrate => exact (Scheduling.quiet_migrate e).mono tablesKept_of_quiet
    case schedWakeup => exact (Scheduling.quiet_wakeup e).mono tablesKept_of_quiet
    case schedSetPriority => exact (Scheduling.quiet_setPriority e).mono tablesKept_of_quiet
    case schedFork | schedExec => exact (h (by decide)).elim
    all_goals exact obeys_pure _
  have hpaging : Obeys tablesKept (Paging.apply kind e) := by
    cases kind
    case pageAlloc => exact Paging.tablesKept_alloc e
    case pageFree | pageFreeKmem => exact (Paging.quiet_free e).mono tablesKept_of_quiet
    all_goals exact obeys_pure _
  have hsyscalls : Obeys tablesKept (Syscalls.apply kind e) := by
    cases kind
    case syscallEntry | syscallExit => exact (h (by decide)).elim
    all_goals exact obeys_pure _
  have hrequests : Obeys tablesKept (IoRequests.apply kind e) := by
    cases kind
    case syscallEntry | syscallExit => exact (h (by decide)).elim
    case pagesWritten => exact IoRequests.tablesKept_pagesWritten e
    case kswapdWakeup => exact IoRequests.tablesKept_kswapdWakeup e
    case pageFree => exact IoRequests.tablesKept_pageFree
    all_goals exact obeys_pure _
  have hsnapshot : Obeys tablesKept (Snapshot.apply kind e) := by
    cases kind
    case processState | fileDescriptor => exact (h (by decide)).elim
    case blockDevice => exact (Snapshot.quiet_blockDevice e).mono tablesKept_of_quiet
    all_goals exact obeys_pure _
  have htraffic : Obeys tablesKept (Traffic.apply kind e) := by
    cases kind
    case netTransmit => exact (h (by decide)).elim
    case netReceive => exact (Traffic.quiet_receive e).mono tablesKept_of_quiet
    all_goals exact obeys_pure _
  refine hscheduling.bind fun _ => hpaging.bind fun _ => ?_
  refine ((Interrupts.quiet_apply kind e).mono tablesKept_of_quiet).bind fun _ => ?_
  refine hsyscalls.bind fun _ => hrequests.bind fun _ => hsnapshot.bind fun _ => ?_
  refine ((BlockRequests.quiet_apply kind e remaps).mono tablesKept_of_quiet).bind fun _ => ?_
  exact htraffic.bind fun _ => obeys_pure _

end Subsystem

namespace Event.Rewrites

variable {e : Event} {s : State} {o : Outcome Unit}

theorem of_fork (hk : e.kind? = some .schedFork) (h : Scheduling.fork e s = .ok o) (k : Int) :
    o.state.fds k = s.fds k ∨ e.Rewrites s o.state o.signals k := by
  rcases Scheduling.fork_copies hk h with hsame | ⟨tid, parent, hf, hfds⟩
  · exact Or.inl (hsame k)
  by_cases hkt : k = tid
  · subst hkt
    exact Or.inr (.fork hf ((hfds k).trans (if_pos rfl)))
  · exact Or.inl ((hfds k).trans (if_neg hkt))

theorem of_exec (hs : s.Keyed) (hk : e.kind? = some .schedExec) (h : Scheduling.exec e s = .ok o)
    (k : Int) : o.state.fds k = s.fds k ∨ e.Rewrites s o.state o.signals k := by
  rcases Scheduling.exec_closes hs h with hsame | ⟨tid, htid, hother, hfds⟩
  · exact Or.inl (hsame k)
  by_cases howner : k = s.fdOwner tid
  · exact Or.inr (.exec hk htid howner (howner ▸ hfds))
  · exact Or.inl (hother k howner)

theorem of_entry (hs : s.Keyed) (hk : e.kind? = some .syscallEntry)
    (h : (Syscalls.entry e >>= fun _ => IoRequests.entry e) s = .ok o) (k : Int) :
    o.state.fds k = s.fds k ∨ e.Rewrites s o.state o.signals k := by
  rcases Syscalls.entries_frees hs h with ⟨-, hkept⟩ | ⟨tid, number, hact, htarget, hfrees⟩
  · exact Or.inl (State.fds_of_tablesKept hkept k)
  by_cases howner : k = o.state.fdOwner tid
  · exact Or.inr (.entry ⟨hk, hact⟩ howner htarget (howner ▸ hfrees))
  · exact Or.inl ((hfrees.fds k).trans (if_neg howner))

theorem of_exit (hs : s.Keyed) (hcalls : s.CallsSound) (hk : e.kind? = some .syscallExit)
    (h : (Syscalls.exit e >>= fun _ => IoRequests.exit e) s = .ok o) (k : Int) :
    o.state.fds k = s.fds k ∨ e.Rewrites s o.state o.signals k := by
  rcases Syscalls.exits_rewrite hcalls hk h with hsame | ⟨tid, rq, n, hsuccess, hother, hfds⟩
  · exact Or.inl (hsame k)
  by_cases howner : k = s.fdOwner tid
  · subst howner
    exact Or.inr (.exit hsuccess rfl hfds fun number filename hbody hmem =>
      Syscalls.exits_tell_connect hcalls hs h hsuccess hbody hmem)
  · exact Or.inl (hother k howner)

theorem of_processState (hk : e.kind? = some .processState)
    (h : Snapshot.processState e s = .ok o) (k : Int) :
    o.state.fds k = s.fds k ∨ e.Rewrites s o.state o.signals k := by
  rcases Snapshot.processState_merges h with hsame | ⟨tid, pid, htid, hpid, hne, hfds⟩
  · exact Or.inl (hsame k)
  have hmember := Event.member?_of_snapshot hk htid hpid
  by_cases hleader : k = pid
  · subst hleader
    exact Or.inr (.leader hmember hne ((hfds k).trans (if_pos rfl)))
  by_cases hthread : k = tid
  · subst hthread
    exact Or.inr (.member hmember hne ((hfds k).trans ((if_neg hleader).trans (if_pos rfl))))
  · exact Or.inl ((hfds k).trans ((if_neg hleader).trans (if_neg hthread)))

theorem of_fileDescriptor (hs : s.Keyed) (hk : e.kind? = some .fileDescriptor)
    (h : Snapshot.fileDescriptor e s = .ok o) (k : Int) :
    o.state.fds k = s.fds k ∨ e.Rewrites s o.state o.signals k := by
  rcases Snapshot.fileDescriptor_reports hs h with
    hsame | ⟨pid, number, filename, hpid, hnumber, hname, hother, hfds, htold⟩
  · exact Or.inl (hsame k)
  by_cases howner : k = pid
  · subst howner
    exact Or.inr (.report hk hpid hnumber hname hfds htold)
  · exact Or.inl (hother k howner)

theorem of_transmit (hk : e.kind? = some .netTransmit) (h : Traffic.transmit e s = .ok o) (k : Int) :
    o.state.fds k = s.fds k ∨ e.Rewrites s o.state o.signals k := by
  rcases Traffic.transmit_guesses h with hsame | ⟨tid, number, hact, hfds⟩
  · exact Or.inl (hsame k)
  by_cases howner : k = s.fdOwner tid
  · exact Or.inr (.packet hk hact howner ((hfds k).trans (if_pos howner)))
  · exact Or.inl ((hfds k).trans (if_neg howner))

/-- What remaps are remembered does not matter to tables. -/
theorem of_bind_pure {u : Update Unit} {remaps : List Remap} {o : Outcome (List Remap)} {k : Int}
    (hu : ∀ o', u s = .ok o' → o'.state.fds k = s.fds k ∨ e.Rewrites s o'.state o'.signals k)
    (h : (u >>= fun _ => pure remaps) s = .ok o) :
    o.state.fds k = s.fds k ∨ e.Rewrites s o.state o.signals k := by
  obtain ⟨o', h', hstate, hsignals⟩ := run_of_bind_pure h
  rw [hstate, hsignals]
  exact hu o' h'

theorem of_effect {kind : EventKind} {remaps : List Remap} {o : Outcome (List Remap)}
    (hs : s.Keyed) (hcalls : s.CallsSound) (hk : e.kind? = some kind)
    (h : Subsystem.effect kind e remaps s = .ok o) (k : Int) :
    o.state.fds k = s.fds k ∨ e.Rewrites s o.state o.signals k := by
  by_cases hrest : kind ∉ [.schedFork, .schedExec, .syscallEntry, .syscallExit, .processState,
    .fileDescriptor, .netTransmit]
  · exact Or.inl (State.fds_of_tablesKept (Subsystem.tablesKept_effect hrest e remaps s o h) k)
  simp only [List.mem_cons, List.not_mem_nil, or_false, not_not] at hrest
  rcases hrest with rfl | rfl | rfl | rfl | rfl | rfl | rfl
  · rw [Subsystem.effect_schedFork] at h
    exact of_bind_pure (fun _ h' => of_fork hk h' k) h
  · rw [Subsystem.effect_schedExec] at h
    exact of_bind_pure (fun _ h' => of_exec hs hk h' k) h
  · rw [Subsystem.effect_syscallEntry] at h
    exact of_bind_pure (fun _ h' => of_entry hs hk h' k) h
  · rw [Subsystem.effect_syscallExit] at h
    exact of_bind_pure (fun _ h' => of_exit hs hcalls hk h' k) h
  · rw [Subsystem.effect_snapshot e remaps (Or.inl rfl)] at h
    exact of_bind_pure (fun _ h' => of_processState hk h' k) h
  · rw [Subsystem.effect_snapshot e remaps (Or.inr rfl)] at h
    exact of_bind_pure (fun _ h' => of_fileDescriptor hs hk h' k) h
  · rw [Subsystem.effect_netTransmit] at h
    exact of_bind_pure (fun _ h' => of_transmit hk h' k) h

end Event.Rewrites

namespace Run

variable {settings : Settings} {history : List Step} {r : Replay} {e : Event} {p : Replay.Progress}

/-- Every event of a run leaves a table as it is or rewrites it. -/
theorem rewrites (h : Run settings history r) (hp : r.process e = .ok p) (k : Int) :
    p.replay.state.fds k = r.state.fds k ∨ e.Rewrites r.state p.replay.state p.signals k := by
  rcases h.step_cases hp with ⟨-, hs, -⟩ | ⟨kind, remaps, o, hk, ho, hs, hl⟩
  · exact Or.inl (by rw [hs])
  · rw [hs, hl]
    exact Event.Rewrites.of_effect h.keyed_view.1 h.callsSound hk ho k

/-- A thread that has a known leader goes on using the leader's table as it enters a syscall. -/
theorem fdOwner_entered {tid pid : Int} (h : Run settings history r) (hp : r.process e = .ok p)
    (henters : e.Enters r.state.running? tid) (hgroup : r.state.group? tid = some pid)
    (hknown : r.state.Knows pid) : p.replay.state.fdOwner tid = pid := by
  rw [← State.fdOwner_of_group hgroup hknown]
  have hother : ∀ kind, e.kind? = some kind → kind = .syscallEntry :=
    fun kind hk => Option.some.inj (hk.symm.trans henters.1)
  refine h.fdOwner_step hp (fun leader hgroups => ?_) fun leader hleader _ => ?_
  · -- A stream tells the group of the caller only if that is not known yet.
    have hstream : ∀ caller, ¬ e.StreamsGroup r.state caller leader := by
      intro caller htold
      obtain rfl : caller = tid := Option.some.inj (htold.2.1.2.symm.trans henters.2)
      have hnone := htold.2.2.1
      rw [hgroup] at hnone
      cases hnone
    cases hgroups with
    | member told => exact nomatch hother _ (Event.member?_eq_some told).1
    | leader told => exact nomatch hother _ (Event.member?_eq_some told).1
    | holder hk _ => exact nomatch hother _ hk
    | parent hk _ _ => exact nomatch hother _ hk
    | child hk _ => exact nomatch hother _ hk
    | caller told => exact hstream _ told
    | callerLeader told => exact hstream _ told
  · obtain rfl := Option.some.inj (hgroup.symm.trans hleader)
    exact hknown

/-- Only the right table is ever changed. An event leaves the table of every thread as it is, but for
those that `Event.Rewrites` names. So a syscall of a thread leaves the thread's own table as it is if its
leader is another thread, which is known. -/
theorem tables_framed (h : Run settings history r) (hp : r.process e = .ok p) :
    (∀ k, p.replay.state.fds k = r.state.fds k ∨
      e.Rewrites r.state p.replay.state p.signals k) ∧
    ∀ tid pid, e.Enters r.state.running? tid ∨ e.Leaves r.state.running? tid →
      r.state.group? tid = some pid → pid ≠ tid → r.state.Knows pid →
      p.replay.state.fds tid = r.state.fds tid := by
  refine ⟨h.rewrites hp, fun tid pid hcalls hgroup hne hknown => ?_⟩
  have howner : r.state.fdOwner tid = pid := State.fdOwner_of_group hgroup hknown
  have hact : e.actor? r.state.running? = some tid := hcalls.elim (·.2) (·.2)
  have hkind : e.kind? = some .syscallEntry ∨ e.kind? = some .syscallExit :=
    hcalls.imp (·.1) (·.1)
  rcases h.rewrites hp tid with hsame | hrewrites
  · exact hsame
  have hnot : ∀ kind, e.kind? = some kind → kind = .syscallEntry ∨ kind = .syscallExit := by
    intro kind hk
    rw [hk] at hkind
    exact hkind.imp Option.some.inj Option.some.inj
  cases hrewrites with
  | entry enters own _ _ =>
    rw [Option.some.inj (enters.2.symm.trans hact),
      h.fdOwner_entered hp ⟨enters.1, hact⟩ hgroup hknown] at own
    exact (hne own.symm).elim
  | exit succeeds own _ _ =>
    rw [Option.some.inj (succeeds.leaves.2.symm.trans hact), howner] at own
    exact (hne own.symm).elim
  | exec kind _ _ _ => exact nomatch hnot _ kind
  | fork child _ =>
    have hfork : e.kind? ≠ some .schedFork := fun hk => nomatch hnot _ hk
    rw [Event.forked?_eq_none hfork] at child
    cases child
  | report kind _ _ _ _ _ => exact nomatch hnot _ kind
  | member told _ _ => exact nomatch hnot _ (Event.member?_eq_some told).1
  | leader told _ _ => exact nomatch hnot _ (Event.member?_eq_some told).1
  | packet kind _ _ _ => exact nomatch hnot _ kind

/-- A thread with a table of its own, which a snapshot told after its leader, opens a file. -/
def openingBesideTable : List Event :=
  [.recorded 0 10 "sched_switch" [("prev_tid", .signed 0), ("next_tid", .signed 7)],
   .recorded 0 20 "lttng_statedump_process_state" [("tid", .signed 7), ("pid", .signed 5)],
   .recorded 0 30 "lttng_statedump_file_descriptor"
     [("pid", .signed 7), ("fd", .signed 9), ("filename", .text "/var/log/syslog")],
   .recorded 0 40 "syscall_entry_open" [("filename", .text "/etc/hosts")]]

/-- The file is in the leader's table, and the thread's own one is as it was. -/
theorem tables_framed_openingBesideTable : ∃ history r p, Run {} history r ∧
    r.process (.recorded 0 50 "syscall_exit_open" [("ret", .signed 3)]) = .ok p ∧
    (p.replay.state.ownFd? 5 3).isSome ∧ (r.state.ownFd? 7 9).isSome ∧
    p.replay.state.fds 7 = r.state.fds 7 := by
  have hshows : Replay.showsNext {} openingBesideTable
      (.recorded 0 50 "syscall_exit_open" [("ret", .signed 3)]) (fun _ r p =>
        r.state.running? 0 = some 7 ∧ r.state.group? 7 = some 5 ∧ r.state.threads.contains 5 ∧
        (p.replay.state.ownFd? 5 3).isSome ∧ (r.state.ownFd? 7 9).isSome) = true := by
    decide +kernel
  obtain ⟨history, r, p, h, hp, htest⟩ := Run.of_showsNext hshows
  obtain ⟨hrunning, hgroup, hleader, hopened, hown⟩ := of_decide_eq_true htest
  exact ⟨history, r, p, h, hp, hopened, hown,
    (tables_framed h hp).2 7 5 (Or.inr ⟨by decide +kernel, hrunning⟩) hgroup (by decide)
      (State.contains_iff_knows.1 hleader)⟩

end Run

end KernelReplay
