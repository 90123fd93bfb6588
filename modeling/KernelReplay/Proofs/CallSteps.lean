import KernelReplay.Proofs.PendingCalls
import KernelReplay.Proofs.SyscallRules
import KernelReplay.Proofs.TableRules

/-
  What an event does to the threads that run and to the syscalls in flight. `CallStep` says it once
  for every event: who enters a syscall is in the one that the event names, who leaves one or is
  forked is in none, and every other thread stays in its own. Only the exit of a syscall announces
  one, and it announces exactly the one it ends. Syscalls in flight are pending between events
  (`Run.callsSound`), though not between the subsystems that end one.
-/

namespace KernelReplay

open Law Update

/-- The state before an event, the event, its signals and the state after it, as far as it matters
who runs where and which syscalls are in flight. -/
structure CallStep (e : Event) (s : State) (l : List Signal) (s' : State) : Prop where
  running : ∀ cpu, s'.running? cpu = match e.switched? with
    | some (c, next) => if c = cpu then next else s.running? cpu
    | none => s.running? cpu
  entered : ∀ tid, e.Enters s.running? tid → s'.mark? tid = some (syscallName e.name, e.time)
  /-- A syscall is over when its thread leaves it or a thread of the same number is made. -/
  ended : ∀ tid, e.Leaves s.running? tid ∨ e.forked? = some tid → s'.mark? tid = none
  other : ∀ tid, ¬ e.Displaces s.running? tid → s'.mark? tid = s.mark? tid
  sound : s.CallsSound → s'.CallsSound
  silent : (∀ tid, e.Leaves s.running? tid → s.call? tid = none) → callExits l = []
  told : ∀ tid call, e.Leaves s.running? tid → s.call? tid = some call →
    ∃ cpu thread ended, e.cpu? = some cpu ∧ s.thread? tid = some thread ∧
      call.finish e.time (e.int? "ret") = .ok ended ∧
      callExits l = [({ thread with call := some ended }, ended, cpu)]

/-! ## Events that end no syscall and begin none -/

/-- An event that makes no thread and is no entry or exit leaves every thread in its syscall. -/
theorem CallStep.of_marks {e : Event} {s s' : State} {l : List Signal}
    (hfork : e.forked? = none) (hentry : e.kind? ≠ some .syscallEntry)
    (hexit : e.kind? ≠ some .syscallExit)
    (hr : ∀ cpu, s'.running? cpu = match e.switched? with
      | some (c, next) => if c = cpu then next else s.running? cpu
      | none => s.running? cpu)
    (hm : s'.mark? = s.mark?) (hs : s.CallsSound → s'.CallsSound)
    (hn : ∀ n ∈ notificationsOf l, ¬ n.EndsCall) : CallStep e s l s' where
  running := hr
  entered tid h := (Event.not_enters hentry h).elim
  ended tid h := by
    rcases h with h | h
    · exact (Event.not_leaves hexit h).elim
    · rw [hfork] at h
      cases h
  other tid _ := congrFun hm tid
  sound := hs
  silent _ := callExits_of_not_endsCall hn
  told tid _ h := (Event.not_leaves hexit h).elim

theorem CallStep.of_callsTended {e : Event} {s s' : State} {l : List Signal}
    (hswitch : e.kind? ≠ some .schedSwitch) (hfork : e.kind? ≠ some .schedFork)
    (hentry : e.kind? ≠ some .syscallEntry) (hexit : e.kind? ≠ some .syscallExit)
    (h : callsTended.rel s l s') : CallStep e s l s' := by
  obtain ⟨hr, hm, hs, hn⟩ := h
  refine CallStep.of_marks (Event.forked?_eq_none hfork) hentry hexit (fun cpu => ?_) hm hs hn
  rw [Event.switched?_eq_none hswitch, hr]

theorem callsTended_scheduling {kind : EventKind} (hswitch : kind ≠ .schedSwitch)
    (hfork : kind ≠ .schedFork) (e : Event) : Obeys callsTended (Scheduling.apply kind e) := by
  cases kind
  case schedSwitch => exact (hswitch rfl).elim
  case schedMigrate => exact (Scheduling.quiet_migrate e).mono callsTended_of_quiet
  case schedWakeup => exact (Scheduling.quiet_wakeup e).mono callsTended_of_quiet
  case schedFork => exact (hfork rfl).elim
  case schedExec => exact (Scheduling.callsKept_exec e).mono callsTended_of_callsKept
  case schedSetPriority => exact (Scheduling.quiet_setPriority e).mono callsTended_of_quiet
  all_goals exact obeys_pure _

theorem callsTended_paging (kind : EventKind) (e : Event) :
    Obeys callsTended (Paging.apply kind e) := by
  cases kind
  case pageAlloc => exact Paging.callsTended_alloc e
  case pageFree | pageFreeKmem => exact (Paging.quiet_free e).mono callsTended_of_quiet
  all_goals exact obeys_pure _

theorem callsTended_syscalls {kind : EventKind} (hentry : kind ≠ .syscallEntry)
    (hexit : kind ≠ .syscallExit) (e : Event) : Obeys callsTended (Syscalls.apply kind e) := by
  cases kind
  case syscallEntry => exact (hentry rfl).elim
  case syscallExit => exact (hexit rfl).elim
  all_goals exact obeys_pure _

theorem callsTended_ioRequests {kind : EventKind} (hentry : kind ≠ .syscallEntry)
    (hexit : kind ≠ .syscallExit) (e : Event) : Obeys callsTended (IoRequests.apply kind e) := by
  cases kind
  case syscallEntry => exact (hentry rfl).elim
  case syscallExit => exact (hexit rfl).elim
  case pagesWritten => exact IoRequests.callsTended_pagesWritten e
  case kswapdWakeup => exact IoRequests.callsTended_kswapdWakeup e
  case pageFree => exact IoRequests.callsTended_pageFree
  all_goals exact obeys_pure _

theorem callsTended_traffic (kind : EventKind) (e : Event) :
    Obeys callsTended (Traffic.apply kind e) := by
  cases kind
  case netTransmit => exact Traffic.callsTended_transmit e
  case netReceive => exact (Traffic.quiet_receive e).mono callsTended_of_quiet
  all_goals exact obeys_pure _

theorem callsTended_effect {kind : EventKind} (hswitch : kind ≠ .schedSwitch)
    (hfork : kind ≠ .schedFork) (hentry : kind ≠ .syscallEntry) (hexit : kind ≠ .syscallExit)
    (e : Event) (remaps : List Remap) : Obeys callsTended (Subsystem.effect kind e remaps) := by
  refine (callsTended_scheduling hswitch hfork e).bind fun _ => ?_
  refine (callsTended_paging kind e).bind fun _ => ?_
  refine ((Interrupts.quiet_apply kind e).mono callsTended_of_quiet).bind fun _ => ?_
  refine (callsTended_syscalls hentry hexit e).bind fun _ => ?_
  refine (callsTended_ioRequests hentry hexit e).bind fun _ => ?_
  refine ((Snapshot.callsKept_apply kind e).mono callsTended_of_callsKept).bind fun _ => ?_
  refine ((BlockRequests.quiet_apply kind e remaps).mono callsTended_of_quiet).bind fun _ => ?_
  exact (callsTended_traffic kind e).bind fun _ => obeys_pure _

/-! ## Switches and forks -/

theorem Scheduling.running?_switch {e : Event} {s : State} {o : Outcome Unit}
    (hk : e.kind? = some .schedSwitch) (h : switch e s = .ok o) (cpu : Nat) :
    o.state.running? cpu = match e.switched? with
      | some (c, next) => if c = cpu then next else s.running? cpu
      | none => s.running? cpu := by
  rcases switch_cases h with ⟨c, prev, next, s₁, l₁, l₂, hc, hprev, hnext, h₁, h₂, -⟩ | ⟨hnone, hq⟩
  · have hs : e.switched? = some (c, if next = 0 then none else some next) := by
      simp [Event.switched?, hk, hc, hprev, hnext]
    have hr₁ : s₁.running? = s.running? := h₁.1
    have hr₂ := congrFun h₂.1 cpu
    rw [hs, hr₂, State.running?_updateCpu, hr₁]
    simp only [eq_comm]
  · have hs : e.switched? = none := by
      unfold Event.switched?
      split
      · rename_i c prev next _ hc hprev hnext
        exact (hnone c prev next hc hprev hnext).elim
      · rfl
    rw [hs, hq.1]

theorem CallStep.of_switch {e : Event} {s : State} {o : Outcome Unit}
    (hk : e.kind? = some .schedSwitch) (h : Scheduling.switch e s = .ok o) :
    CallStep e s o.signals o.state := by
  obtain ⟨hh, hn⟩ := Scheduling.holdingsKept_switch e s o h
  have hb : o.state.bare = s.bare := State.bare_of_holdings_eq hh
  have hfork : e.forked? = none := Event.forked?_eq_none (by simp [hk])
  have hrunning := Scheduling.running?_switch hk h
  refine CallStep.of_marks hfork (by simp [hk]) (by simp [hk]) hrunning ?_ ?_ ?_
  · exact State.mark?_of_bare_eq hb
  · exact fun hs => hs.of_bare_eq hb
  · exact fun n hl => (hn n hl).1

theorem CallStep.of_fork {e : Event} {s : State} {o : Outcome Unit} (hk : e.kind? = some .schedFork)
    (h : Scheduling.fork e s = .ok o) : CallStep e s o.signals o.state := by
  have hsw : e.switched? = none := Event.switched?_eq_none (by simp [hk])
  have hentry : e.kind? ≠ some .syscallEntry := by simp [hk]
  have hexit : e.kind? ≠ some .syscallExit := by simp [hk]
  rcases Scheduling.fork_cases hk h with
    ⟨hf, hs, hl⟩ | ⟨child, s₁, owner, thread, d, hf, hq, ht, hs, hl⟩
  · rw [hs, hl]
    exact CallStep.of_marks hf hentry hexit (fun cpu => by rw [hsw]) rfl id (by simp)
  · have hcall : thread.call = none := by rw [ht]; rfl
    have hb : s₁.bare = s.bare := State.bare_of_holdings_eq hq.2.1
    have hr : s₁.running? = s.running? := hq.1
    have hm : ∀ k, o.state.mark? k = if k = child then none else s.mark? k := by
      intro k
      rw [hs, State.mark?_setThread, hcall, State.mark?_of_bare_eq hb]
      rfl
    constructor
    · intro cpu
      rw [hsw, hs]
      exact congrFun hr cpu
    · exact fun tid h => (Event.not_enters hentry h).elim
    · intro tid h
      rcases h with h | h
      · exact (Event.not_leaves hexit h).elim
      · rw [hm, if_pos (Option.some.inj (h.symm.trans hf))]
    · intro tid hd
      rw [hm, if_neg]
      rintro rfl
      exact hd (Or.inr (Or.inr hf))
    · intro hsound
      rw [hs]
      refine (hsound.of_bare_eq hb).setThread (by rw [ht]; rfl) fun call h => ?_
      rw [hcall] at h
      cases h
    · intro _
      refine callExits_of_not_endsCall fun n hn => ?_
      rw [hl] at hn
      obtain ⟨p, -, rfl⟩ : ∃ p ∈ thread.fds.toList, .fd .create p.2 thread e.time e.cpu? = n := by
        simpa [notificationsOf] using hn
      exact id
    · exact fun tid _ h => (Event.not_leaves hexit h).elim

/-! ## Entries and exits -/

/-- The first subsystem puts the thread on the event's CPU into the syscall that the event names. -/
theorem Syscalls.entry_marks {e : Event} {s : State} {o : Outcome Unit} (h : entry e s = .ok o) :
    o.state.running? = s.running? ∧ (s.CallsSound → o.state.CallsSound) ∧
      ∀ k, o.state.mark? k = if e.actor? s.running? = some k then some (syscallName e.name, e.time)
        else s.mark? k := by
  rcases entry_cases h with ⟨-, ⟨hact, hs⟩ | ⟨tid, hact, hs⟩⟩
  · rw [hs, hact]
    exact ⟨rfl, id, fun k => rfl⟩
  · rw [hs, hact]
    refine ⟨rfl, fun hsound => ?_, fun k => ?_⟩
    · refine hsound.setThread (hsound.numbered tid) fun call hcall => ?_
      rw [← Option.some.inj hcall]
      exact Call.pending_fresh _ _ tid
    · refine (State.mark?_setThread s tid k _).trans ?_
      simp only [Option.some.injEq, eq_comm]
      rfl

theorem CallStep.of_entry {e : Event} {s : State} {o : Outcome Unit}
    (hk : e.kind? = some .syscallEntry)
    (h : (Syscalls.entry e >>= fun _ => IoRequests.entry e) s = .ok o) :
    CallStep e s o.signals o.state := by
  obtain ⟨o₁, o₂, h₁, h₂, rfl⟩ := bind_eq_ok_iff.1 h
  obtain ⟨hr₁, hs₁, hm₁⟩ := Syscalls.entry_marks h₁
  have hmarked : ∀ tid, e.actor? o₁.state.running? = some tid →
      o₁.state.mark? tid = some (syscallName e.name, e.time) := by
    intro tid htid
    rw [hr₁] at htid
    rw [hm₁, if_pos htid]
  obtain ⟨hr₂, hm₂, hs₂, hn₂⟩ := IoRequests.callsTended_entry hmarked o₂ h₂
  have hr₂ : o₂.state.running? = o₁.state.running? := hr₂
  have hm₂ : o₂.state.mark? = o₁.state.mark? := hm₂
  have hsw : e.switched? = none := Event.switched?_eq_none (by simp [hk])
  have hexit : e.kind? ≠ some .syscallExit := by simp [hk]
  constructor
  · intro cpu
    rw [hsw, hr₂, hr₁]
  · intro tid henters
    rw [hm₂, hm₁, if_pos henters.2]
  · intro tid h
    rcases h with h | h
    · exact (Event.not_leaves hexit h).elim
    · rw [Event.forked?_eq_none (by simp [hk])] at h
      cases h
  · intro tid hd
    rw [hm₂, hm₁, if_neg]
    exact fun hact => hd (Or.inl ⟨hk, hact⟩)
  · exact fun hs => hs₂ (hs₁ hs)
  · intro _
    refine callExits_of_not_endsCall fun n hn => ?_
    rw [notificationsOf_append, (Syscalls.entry_cases h₁).1] at hn
    exact hn₂ n hn
  · exact fun tid _ h => (Event.not_leaves hexit h).elim

section Exit

variable {e : Event} {s s' : State} {l : List Signal} (hk : e.kind? = some .syscallExit)
include hk

/-- The exit of a thread that is in no syscall changes nothing. -/
theorem CallStep.of_exit_of_no_call
    (hnone : ∀ tid, e.actor? s.running? = some tid → s.call? tid = none)
    (hn : notificationsOf l = []) : CallStep e s l s where
  running cpu := by
    rw [Event.switched?_eq_none (by simp [hk])]
  entered tid h := (Event.not_enters (by simp [hk]) h).elim
  ended tid h := by
    rcases h with h | h
    · rw [State.mark?, hnone tid h.2]
      rfl
    · rw [Event.forked?_eq_none (by simp [hk])] at h
      cases h
  other tid _ := rfl
  sound := id
  silent _ := callExits_of_not_endsCall (by simp [hn])
  told tid call hlv hcall := by
    rw [hnone tid hlv.2] at hcall
    cases hcall

/-- The exit of a thread ends the syscall that it is in. -/
theorem CallStep.of_exit_of_call {cpu : Nat} {tid : Int} {thread : Thread} {call ended : Call}
    (hc : e.cpu? = some cpu) (hr : s.running? cpu = some tid) (ht : s.thread? tid = some thread)
    (hcall : thread.call = some call) (hf : call.finish e.time (e.int? "ret") = .ok ended)
    (hrest : callsKept.rel (s.setThread tid { thread with call := none }) l s') :
    CallStep e s (.notification (.syscallExit { thread with call := some ended } ended cpu) :: l)
      s' := by
  have hact : e.actor? s.running? = some tid := Option.bind_eq_some_iff.2 ⟨cpu, hc, hr⟩
  have hin : s.call? tid = some call := by
    rw [State.call?, ht]
    exact hcall
  obtain ⟨hrunning, hbare, hn⟩ := hrest
  have hmark : ∀ k, s'.mark? k = if k = tid then none else s.mark? k := by
    intro k
    rw [State.mark?_of_bare_eq hbare, State.mark?_setThread]
    rfl
  refine ⟨fun cpu' => ?_, fun k h => (Event.not_enters (by simp [hk]) h).elim, fun k h => ?_,
    fun k hd => ?_, fun hsound => ?_, fun hnone => ?_, fun k call' hlv hcall' => ?_⟩
  · rw [Event.switched?_eq_none (by simp [hk]), hrunning]
    rfl
  · rcases h with h | h
    · rw [hmark, if_pos (Option.some.inj (h.2.symm.trans hact))]
    · rw [Event.forked?_eq_none (by simp [hk])] at h
      cases h
  · rw [hmark, if_neg]
    rintro rfl
    exact hd (Or.inr (Or.inl ⟨hk, hact⟩))
  · have htid : thread.tid = tid := hsound.tid_of_thread? ht
    have hleft : (s.setThread tid { thread with call := none }).CallsSound :=
      hsound.setThread htid fun _ h => by cases h
    exact hleft.of_bare_eq hbare
  · have hout := hnone tid ⟨hk, hact⟩
    rw [hin] at hout
    cases hout
  · obtain rfl : tid = k := Option.some.inj (hact.symm.trans hlv.2)
    obtain rfl : call = call' := Option.some.inj (hin.symm.trans hcall')
    refine ⟨cpu, thread, ended, hc, ht, hf, ?_⟩
    exact congrArg (List.cons _) (callExits_of_not_endsCall hn)

theorem CallStep.of_exit {o : Outcome Unit}
    (h : (Syscalls.exit e >>= fun _ => IoRequests.exit e) s = .ok o) :
    CallStep e s o.signals o.state := by
  rcases Syscalls.exit_cases h with
    ⟨hnone, hs, hn⟩ |
    ⟨cpu, tid, thread, call, ended, o', hc, hr, ht, hcall, hf, hrest, hs, hl⟩
  · rw [hs]
    exact .of_exit_of_no_call hk hnone hn
  · rw [hs, hl]
    refine .of_exit_of_call hk hc hr ht hcall hf ?_
    split at hrest
    · exact obeys_whenSome (IoRequests.callsKept_finish e cpu tid) _ o' hrest
    · exact obeys_pure () _ o' hrest

end Exit

/-! ## Runs -/

namespace Run

variable {settings : Settings} {history : List Step} {r : Replay} {e : Event} {p : Replay.Progress}

/-- Every event of a run does to syscalls what `CallStep` says. -/
theorem callStep (h : Run settings history r) (hp : r.process e = .ok p) :
    CallStep e r.state p.signals p.replay.state := by
  rcases h.step_cases hp with ⟨hk, hs, hl⟩ | ⟨kind, remaps, o, hk, ho, hs, hl⟩
  · rw [hs, hl]
    exact CallStep.of_callsTended (by simp [hk]) (by simp [hk]) (by simp [hk]) (by simp [hk])
      (callsTended.idle _)
  · by_cases hswitch : kind = .schedSwitch
    · subst hswitch
      obtain ⟨o', h', hs', hl'⟩ := h.update_run hp hk (Subsystem.effect_schedSwitch e)
      rw [hs', hl']
      exact CallStep.of_switch hk h'
    by_cases hfork : kind = .schedFork
    · subst hfork
      obtain ⟨o', h', hs', hl'⟩ := h.update_run hp hk (Subsystem.effect_schedFork e)
      rw [hs', hl']
      exact CallStep.of_fork hk h'
    by_cases hentry : kind = .syscallEntry
    · subst hentry
      obtain ⟨o', h', hs', hl'⟩ := h.entry_run hp hk
      rw [hs', hl']
      exact CallStep.of_entry hk h'
    by_cases hexit : kind = .syscallExit
    · subst hexit
      obtain ⟨o', h', hs', hl'⟩ := h.exit_run hp hk
      rw [hs', hl']
      exact CallStep.of_exit hk h'
    have hlaw := callsTended_effect hswitch hfork hentry hexit e remaps r.state o ho
    rw [hs, hl]
    refine CallStep.of_callsTended ?_ ?_ ?_ ?_ hlaw <;> rw [hk]
    · exact fun h => hswitch (Option.some.inj h)
    · exact fun h => hfork (Option.some.inj h)
    · exact fun h => hentry (Option.some.inj h)
    · exact fun h => hexit (Option.some.inj h)

/-- Between events every thread is held under its own number and every syscall is pending. -/
theorem callsSound (h : Run settings history r) : r.state.CallsSound := by
  induction h with
  | start =>
    refine ⟨fun tid => congrArg Holdings.tid (Thread.holdings_fresh tid), fun tid call hc => ?_⟩
    cases hc
  | next h hp ih => exact (h.callStep hp).sound ih

/-- The threads that run are those that the last switches put on their CPUs. -/
theorem running?_eq (h : Run settings history r) :
    r.state.running? = runningAfter (history.map (·.event)) := by
  induction h with
  | start => rfl
  | @next history r e p h hp ih =>
    funext cpu
    have hstep := (h.callStep hp).running cpu
    rw [ih] at hstep
    rw [List.map_append]
    exact hstep.trans (runningAfter_snoc (history.map (·.event)) e cpu).symm

/-- After every event, a syscall that a thread is in has not ended, and its request, if it carries
one, is the thread's, fits the syscall's name and start, and is not finished. -/
theorem pending_of_inFlight (h : Run settings history r) {tid : Int} {thread : Thread} {call : Call}
    (ht : r.state.thread? tid = some thread) (hc : thread.call = some call) : call.Pending tid :=
  h.callsSound.pending tid call (by rw [State.call?, ht]; exact hc)

/-- A thread that writes is in a pending syscall with a request. -/
theorem pending_write : ∃ history r thread call, Run {} history r ∧
    r.state.thread? 7 = some thread ∧ thread.call = some call ∧ call.request.isSome ∧
    call.Pending 7 := by
  have hgives : Replay.gives {}
      [.recorded 0 10 "sched_switch" [("prev_tid", .signed 0), ("next_tid", .signed 7)],
       .recorded 0 20 "syscall_entry_write" [("fd", .signed 3)]]
      (fun p => (p.replay.state.call? 7).any (·.request.isSome)) = true := by decide +kernel
  obtain ⟨history, p, h, -, -, htest⟩ := Run.of_gives hgives
  obtain ⟨call, hcall, hrequest⟩ := (Option.any_eq_true ..).1 htest
  obtain ⟨thread, ht, hc⟩ := Option.bind_eq_some_iff.1 hcall
  exact ⟨history, p.replay, thread, call, h, ht, hc, hrequest, pending_of_inFlight h ht hc⟩

end Run

end KernelReplay
