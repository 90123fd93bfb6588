import KernelReplay.Machine.State.Holdings
import KernelReplay.Replay
import KernelReplay.Update.Laws

/-
  What the rules leave alone. A rule is quiet if it changes neither which threads run nor what
  threads hold, and announces no change to either. Most rules are quiet; of the others, some change
  only syscalls in flight (`tablesKept`) and some only tables of descriptors (`callsKept`).
-/

namespace KernelReplay

/-- Whether a notification says that a syscall ended. -/
def Notification.EndsCall : Notification → Prop
  | .syscallExit .. => True
  | _ => False

/-- Whether a notification says that a table of descriptors changed. -/
def Notification.TellsTables : Notification → Prop
  | .fd .. | .createParent .. => True
  | _ => False

/-- What a thread holds beside its syscall. -/
def Holdings.atRest (h : Holdings) : Holdings := { h with call := none }

/-- What a thread holds beside its syscall. -/
def State.atRest (s : State) (tid : Int) : Holdings := (s.holdings tid).atRest

/-- What a thread holds beside descriptors and bytes. -/
def Holdings.bare (h : Holdings) : Holdings := { h with fds := ∅, io := {} }

/-- What a thread holds beside descriptors and bytes. -/
def State.bare (s : State) (tid : Int) : Holdings := (s.holdings tid).bare

namespace Law

/-- Threads hold the same. -/
def holdingsKept : Law :=
  (keeping State.holdings).both <| sending fun n => ¬ n.EndsCall ∧ ¬ n.TellsTables

/-- The same threads run and hold the same. -/
def quiet : Law := (keeping State.running?).both holdingsKept

/-- The same threads run and are in the same syscalls. -/
def callsKept : Law :=
  (keeping State.running?).both <| (keeping State.bare).both <| sending fun n => ¬ n.EndsCall

/-- Threads hold the same beside their syscalls. -/
def tablesKept : Law := (keeping State.atRest).both <| sending fun n => ¬ n.TellsTables

end Law

open Law Update

theorem State.bare_of_holdings_eq {s s' : State} (h : s'.holdings = s.holdings) :
    s'.bare = s.bare := by
  funext k
  rw [State.bare, State.bare, h]

theorem State.atRest_of_holdings_eq {s s' : State} (h : s'.holdings = s.holdings) :
    s'.atRest = s.atRest := by
  funext k
  rw [State.atRest, State.atRest, h]

section AtRest

variable {s s' : State} (h : s'.atRest = s.atRest) (k : Int)

include h

theorem State.tid_of_atRest_eq : (s'.holdings k).tid = (s.holdings k).tid := by
  have htid := congrArg Holdings.tid (congrFun h k)
  exact htid

theorem State.fds_of_atRest_eq : (s'.holdings k).fds = (s.holdings k).fds := by
  have hfds := congrArg Holdings.fds (congrFun h k)
  exact hfds

theorem State.io_of_atRest_eq : (s'.holdings k).io = (s.holdings k).io := by
  have hio := congrArg Holdings.io (congrFun h k)
  exact hio

end AtRest

theorem callsKept_of_quiet {s s' : State} {l : List Signal} (h : quiet.rel s l s') :
    callsKept.rel s l s' := by
  obtain ⟨hr, hh, hn⟩ := h
  exact ⟨hr, State.bare_of_holdings_eq hh, fun n hl => (hn n hl).1⟩

theorem tablesKept_of_holdingsKept {s s' : State} {l : List Signal} (h : holdingsKept.rel s l s') :
    tablesKept.rel s l s' := by
  obtain ⟨hh, hn⟩ := h
  exact ⟨State.atRest_of_holdings_eq hh, fun n hl => (hn n hl).2⟩

theorem tablesKept_of_quiet {s s' : State} {l : List Signal} (h : quiet.rel s l s') :
    tablesKept.rel s l s' := tablesKept_of_holdingsKept h.2

theorem State.fds_of_tablesKept {s s' : State} {l : List Signal} (h : tablesKept.rel s l s') (k : Int) :
    s'.fds k = s.fds k := by
  rw [fds_eq_holdings, fds_eq_holdings]
  exact fds_of_atRest_eq h.1 k

theorem quiet_of_eq {s s' : State} (hr : s'.running? = s.running?)
    (hh : s'.holdings = s.holdings) : quiet.rel s [] s' :=
  ⟨hr, hh, by simp [Law.sending]⟩

theorem quiet_notify {n : Notification} (h : ¬ n.EndsCall ∧ ¬ n.TellsTables) :
    Obeys quiet (notify n) :=
  obeys_notify fun s => ⟨rfl, rfl, by simpa [Law.sending] using h⟩

theorem quiet_report (d : Diagnostic) : Obeys quiet (report d) :=
  obeys_report fun s => ⟨rfl, rfl, by simp [Law.sending]⟩

/-- Changing a CPU without putting another thread on it is quiet. -/
theorem quiet_updateCpu (cpu : Nat) {f : Cpu → Cpu} (h : ∀ c, (f c).current = c.current) (s : State) :
    quiet.rel s [] (s.updateCpu cpu f) := by
  refine quiet_of_eq ?_ rfl
  funext k
  rw [State.running?_updateCpu]
  split
  · rename_i hk
    rw [h, hk]
    unfold State.cpuOrFresh State.running?
    cases s.cpus.get? cpu <;> rfl
  · rfl

theorem quiet_updateThread (tid : Int) {f : Thread → Thread} (h : ∀ t, (f t).holdings = t.holdings)
    (s : State) : quiet.rel s [] (s.updateThread tid f) :=
  quiet_of_eq rfl (funext (State.view_updateThread_of_eq (v := id) h))

theorem quiet_adjustThread (tid : Int) {f : Thread → Thread} (h : ∀ t, (f t).holdings = t.holdings)
    (s : State) : quiet.rel s [] (s.adjustThread tid f) :=
  quiet_of_eq rfl (funext (State.view_adjustThread_of_eq (v := id) h))

/-- Making a thread is quiet, as it holds nothing yet. -/
theorem quiet_admitGroup (tid pid : Int) (comm : String) (s : State) :
    quiet.rel s []
      (if s.threads.contains tid then s else s.setThread tid (.ofGroup tid pid comm)) := by
  split
  · exact quiet.idle s
  · rename_i h
    refine quiet_of_eq rfl (State.holdings_setThread_of_eq ?_)
    rw [State.holdings_of_none (State.thread?_of_not_contains h), Thread.holdings_ofGroup]

theorem quiet_admitCpu (cpu : Nat) : Obeys quiet (admitCpu cpu) := by
  unfold admitCpu
  refine obeys_get.bind fun s => obeys_ite (obeys_pure _) ?_
  exact (obeys_modify (quiet_updateCpu cpu fun _ => rfl)).bind fun _ => quiet_report _

/-! ## Scheduling -/

namespace Scheduling

theorem quiet_learnPriority (time tid prio : Int) : Obeys quiet (learnPriority time tid prio) := by
  unfold learnPriority
  refine obeys_ite (obeys_pure _) ?_
  refine Obeys.modify_bind (quiet_updateThread tid fun _ => rfl) ?_
  refine obeys_get.bind fun s => obeys_ite (obeys_pure _) ?_
  refine Obeys.modify_bind (quiet_adjustThread tid fun _ => rfl) ?_
  exact quiet_notify ⟨id, id⟩

theorem quiet_setPriority (e : Event) : Obeys quiet (setPriority e) :=
  obeys_whenSome fun tid => obeys_whenSome fun prio => quiet_learnPriority e.time tid prio

theorem holdings_wake (t : Thread) (time : Int) (waker : Option Int) :
    (t.wake time waker).holdings = t.holdings := by
  unfold Thread.wake
  split <;> rfl

theorem quiet_wakeup (e : Event) : Obeys quiet (wakeup e) := by
  refine obeys_whenSome fun tid => ?_
  refine (obeys_whenSome quiet_admitCpu).bind fun _ => ?_
  refine (obeys_whenSome quiet_admitCpu).bind fun _ => ?_
  refine obeys_get.bind fun s => obeys_ite (quiet_report _) ?_
  refine Obeys.modify_bind (quiet_updateThread tid fun _ => rfl) ?_
  refine (obeys_whenSome fun reported => ?_).bind fun _ => ?_
  · exact (obeys_compute _).bind fun prio => quiet_learnPriority e.time tid prio
  · exact obeys_modify (quiet_adjustThread tid fun t => holdings_wake t _ _)

theorem quiet_migrate (e : Event) : Obeys quiet (migrate e) := by
  refine obeys_whenSome fun tid => ?_
  refine Obeys.get_bind fun s => ObeysAt.compute_bind fun migrations _ => ?_
  refine ObeysAt.modify_bind (quiet_of_eq rfl (State.holdings_setThread_of_eq ?_)) ?_
  · cases h : s.thread? tid with
    | none =>
      rw [State.holdings_of_none h]
      rfl
    | some t =>
      rw [State.holdings_of_thread? h]
      rfl
  · refine Obeys.bind (quiet_notify ⟨id, id⟩) (fun _ => ?_) _
    exact obeys_whenSome fun prio => quiet_learnPriority e.time tid prio

theorem quiet_announceSwitch (time : Int) (cpu : Nat) (prev next : Int) :
    Obeys quiet (announceSwitch time cpu prev next) := by
  refine obeys_get.bind fun s => (obeys_compute _).bind fun taken => ?_
  refine Obeys.bind (quiet_notify ⟨id, id⟩) fun _ => Obeys.bind (quiet_notify ⟨id, id⟩) fun _ => ?_
  refine obeys_modify fun s => quiet_adjustThread next ?_ s
  exact fun _ => rfl

/-- A complete switch puts a thread on a CPU and is quiet before and after; any other one is quiet. -/
theorem switch_cases {e : Event} {s : State} {o : Outcome Unit} (h : switch e s = .ok o) :
    (∃ cpu prev next s₁ l₁ l₂, e.cpu? = some cpu ∧ e.int? "prev_tid" = some prev ∧
      e.int? "next_tid" = some next ∧ quiet.rel s l₁ s₁ ∧
      quiet.rel (s₁.updateCpu cpu fun c => { c with current := if next = 0 then none else some next })
        l₂ o.state ∧ o.signals = l₁ ++ l₂) ∨
    ((∀ cpu prev next, e.cpu? = some cpu → e.int? "prev_tid" = some prev →
      e.int? "next_tid" = some next → False) ∧ quiet.rel s o.signals o.state) := by
  generalize hu : switch e = u at h
  unfold switch at hu
  split at hu
  · rename_i cpu prev next hcpu hprev hnext
    subst hu
    simp only [takeOver, bind_assoc] at h
    obtain ⟨o₁, o₂, h₁, h₂, rfl⟩ := bind_eq_ok_iff.1 h
    rw [modify_bind_run] at h₂
    refine Or.inl ⟨cpu, prev, next, _, _, _, hcpu, hprev, hnext, quiet_admitCpu cpu s o₁ h₁, ?_, rfl⟩
    refine Obeys.modify_bind (fun s => quiet_updateThread prev ?_ s) ?_ _ o₂ h₂
    · exact fun _ => rfl
    refine Obeys.modify_bind (fun s => quiet_updateThread next ?_ s) ?_
    · exact fun _ => rfl
    refine Obeys.bind (obeys_whenSome fun prio => quiet_learnPriority e.time prev prio) fun _ => ?_
    refine Obeys.bind (obeys_whenSome fun prio => quiet_learnPriority e.time next prio) fun _ => ?_
    exact quiet_announceSwitch e.time cpu prev next
  · rename_i hnone
    subst hu
    exact Or.inr ⟨fun cpu prev next h₁ h₂ h₃ => hnone cpu prev next h₁ h₂ h₃, quiet_report _ s o h⟩

/-- A switch changes who runs, but not what threads hold. -/
theorem holdingsKept_switch (e : Event) : Obeys holdingsKept (switch e) := by
  intro s o h
  rcases switch_cases h with ⟨cpu, prev, next, s₁, l₁, l₂, -, -, -, h₁, h₂, hl⟩ | ⟨-, hq⟩
  · rw [hl]
    exact holdingsKept.chain h₁.2 h₂.2
  · exact hq.2

end Scheduling

/-! ## Interrupts -/

namespace Interrupts

theorem quiet_irqEntry (e : Event) : Obeys quiet (irqEntry e) := by
  refine obeys_whenSome fun cpu => obeys_whenSome fun irq => ?_
  refine (quiet_admitCpu cpu).bind fun _ => ?_
  refine Obeys.modify_bind (quiet_updateCpu cpu fun _ => rfl) ?_
  exact quiet_notify ⟨id, id⟩

theorem quiet_irqExit (e : Event) : Obeys quiet (irqExit e) := by
  refine obeys_whenSome fun cpu => ?_
  refine (quiet_admitCpu cpu).bind fun _ => obeys_get.bind fun s => ?_
  refine Obeys.modify_bind (quiet_updateCpu cpu fun _ => rfl) ?_
  refine obeys_whenSome fun irq => ?_
  split
  · exact quiet_notify ⟨id, id⟩
  · exact quiet_report _

theorem quiet_softIrqRaise (e : Event) : Obeys quiet (softIrqRaise e) := by
  refine obeys_whenSome fun cpu => obeys_whenSome fun vector => ?_
  refine (quiet_admitCpu cpu).bind fun _ => obeys_get.bind fun s => ?_
  refine Obeys.modify_bind (quiet_updateCpu cpu fun c => ?_) ?_
  · unfold Cpu.raiseSoftIrq
    split <;> rfl
  · exact obeys_ite (quiet_report _) (obeys_pure _)

theorem quiet_softIrqEntry (e : Event) : Obeys quiet (softIrqEntry e) := by
  refine obeys_whenSome fun cpu => obeys_whenSome fun vector => ?_
  refine (quiet_admitCpu cpu).bind fun _ => obeys_modify (quiet_updateCpu cpu fun c => ?_)
  unfold Cpu.enterSoftIrq
  split <;> rfl

theorem quiet_softIrqExit (e : Event) : Obeys quiet (softIrqExit e) := by
  refine obeys_whenSome fun cpu => obeys_whenSome fun vector => ?_
  refine (quiet_admitCpu cpu).bind fun _ => obeys_get.bind fun s => ?_
  refine Obeys.modify_bind (quiet_updateCpu cpu fun _ => rfl) ?_
  split
  · exact quiet_notify ⟨id, id⟩
  · exact quiet_report _

theorem quiet_apply (kind : EventKind) (e : Event) : Obeys quiet (apply kind e) := by
  cases kind
  case irqEntry => exact quiet_irqEntry e
  case irqExit => exact quiet_irqExit e
  case softIrqRaise => exact quiet_softIrqRaise e
  case softIrqEntry => exact quiet_softIrqEntry e
  case softIrqExit => exact quiet_softIrqExit e
  all_goals exact obeys_pure _

end Interrupts

/-! ## Pages, block requests, packets -/

theorem Paging.quiet_announce (e : Event) {about : Thread → Nat → Notification}
    (h : ∀ t cpu, ¬ (about t cpu).EndsCall ∧ ¬ (about t cpu).TellsTables) :
    Obeys quiet (announce e about) :=
  obeys_whenSome fun _ => obeys_get.bind fun _ => obeys_whenSome fun t => quiet_notify (h t _)

theorem Paging.quiet_free (e : Event) : Obeys quiet (free e) := by
  refine obeys_get.bind fun s => obeys_ite (obeys_pure _) ((obeys_compute _).bind fun left => ?_)
  refine Obeys.modify_bind (fun s => quiet_of_eq rfl rfl) ?_
  exact quiet_announce e fun _ _ => ⟨id, id⟩

namespace BlockRequests

theorem quiet_place (request : BlockRequest) : Obeys quiet (place request) := by
  refine obeys_get.bind fun s => ?_
  refine Obeys.modify_bind (fun s => quiet_of_eq rfl rfl) ?_
  exact obeys_whenSome fun stale => quiet_report _

theorem quiet_complete (dev sector sectors : Nat) (time : Int) :
    Obeys quiet (complete dev sector sectors time) := by
  refine obeys_get.bind fun s => ?_
  split
  · exact quiet_report _
  · split
    · exact quiet_report _
    · refine Obeys.modify_bind (fun s => quiet_of_eq rfl rfl) ?_
      exact (obeys_compute _).bind fun request => quiet_notify ⟨id, id⟩

theorem quiet_apply (kind : EventKind) (e : Event) (remaps : List Remap) :
    Obeys quiet (apply kind e remaps) := by
  cases kind
  case blockIssue =>
    exact (obeys_whenSome quiet_place).bind fun _ => obeys_pure _
  case blockComplete =>
    show Obeys quiet (completion e remaps)
    unfold completion
    split
    · exact (quiet_complete _ _ _ _).bind fun _ => obeys_pure _
    · exact obeys_pure _
  all_goals exact obeys_pure _

end BlockRequests

theorem Traffic.quiet_receive (e : Event) : Obeys quiet (receive e) := by
  refine obeys_whenSome fun iface => ?_
  refine Obeys.modify_bind (fun s => quiet_of_eq rfl rfl) ?_
  exact quiet_notify ⟨id, id⟩

theorem Snapshot.quiet_blockDevice (e : Event) : Obeys quiet (blockDevice e) :=
  obeys_whenSome fun _ => obeys_whenSome fun _ => obeys_modify fun _ => quiet_of_eq rfl rfl

/-! ## Rules that leave syscalls alone -/

theorem callsKept_of_eq {s s' : State} (hr : s'.running? = s.running?)
    (hc : ∀ k, (s'.holdings k).bare = (s.holdings k).bare) : callsKept.rel s [] s' :=
  ⟨hr, funext hc, by simp [Law.sending]⟩

theorem callsKept_updateThread (tid : Int) {f : Thread → Thread}
    (h : ∀ t, (f t).holdings.bare = t.holdings.bare) (s : State) :
    callsKept.rel s [] (s.updateThread tid f) :=
  callsKept_of_eq rfl (State.view_updateThread_of_eq h)

theorem callsKept_adjustThread (tid : Int) {f : Thread → Thread}
    (h : ∀ t, (f t).holdings.bare = t.holdings.bare) (s : State) :
    callsKept.rel s [] (s.adjustThread tid f) :=
  callsKept_of_eq rfl (State.view_adjustThread_of_eq h)

theorem callsKept_adjustFd (tid number : Int) (f : Fd → Fd) (s : State) :
    callsKept.rel s [] (s.adjustFd tid number f) := by
  refine callsKept_adjustThread tid ?_ s
  exact fun _ => rfl

theorem callsKept_notify {n : Notification} (h : ¬ n.EndsCall) : Obeys callsKept (notify n) :=
  obeys_notify fun s => ⟨rfl, rfl, by simpa [Law.sending] using h⟩

namespace Descriptors

theorem callsKept_announce (change : FdChange) (owner number time : Int) (cpu : Option Nat) :
    Obeys callsKept (announce change owner number time cpu) := by
  refine obeys_get.bind fun s => ?_
  split
  · exact callsKept_notify id
  · exact obeys_pure _

theorem callsKept_ensure (owner : Int) (fd : Fd) (time : Int) (cpu : Option Nat) :
    Obeys callsKept (ensure owner fd time cpu) := by
  refine obeys_get.bind fun s => obeys_ite (obeys_pure _) ?_
  refine Obeys.modify_bind (callsKept_updateThread owner fun _ => rfl) ?_
  exact callsKept_announce .create owner fd.number time cpu

theorem callsKept_close (owner number time : Int) (cpu : Option Nat) :
    Obeys callsKept (close owner number time cpu) := by
  refine (callsKept_announce .close owner number time cpu).bind fun _ => ?_
  exact obeys_modify (callsKept_adjustThread owner fun _ => rfl)

end Descriptors

theorem Scheduling.callsKept_exec (e : Event) : Obeys callsKept (exec e) := by
  refine obeys_whenSome fun tid => ?_
  refine Obeys.modify_bind (callsKept_updateThread tid fun _ => rfl) ?_
  refine obeys_get.bind fun s => obeys_forEach fun number => ?_
  exact Descriptors.callsKept_close _ _ _ _

namespace Snapshot

theorem callsKept_processState (e : Event) : Obeys callsKept (processState e) := by
  refine obeys_whenSome fun tid => obeys_whenSome fun pid => ?_
  refine Obeys.modify_bind (callsKept_updateThread tid fun _ => rfl) ?_
  refine obeys_ite (obeys_pure _) ?_
  refine Obeys.modify_bind (fun s => callsKept_of_quiet (quiet_admitGroup _ _ _ s)) ?_
  refine Obeys.modify_bind (fun s => ?_) ?_
  · refine callsKept.chain_silent (callsKept_adjustThread tid ?_ s) (callsKept_adjustThread pid ?_ _)
    · exact fun _ => rfl
    · exact fun _ => rfl
  · refine obeys_get.bind fun s => ?_
    split
    · exact callsKept_notify id
    · exact obeys_pure _

theorem callsKept_fileDescriptor (e : Event) : Obeys callsKept (fileDescriptor e) := by
  refine obeys_whenSome fun pid => obeys_whenSome fun number => obeys_whenSome fun filename => ?_
  refine Obeys.modify_bind (fun s => callsKept_of_quiet (quiet_admitGroup _ _ _ s)) ?_
  refine obeys_get.bind fun s => obeys_ite ?_ ?_
  · refine Obeys.modify_bind (callsKept_adjustThread pid fun _ => rfl) ?_
    exact Descriptors.callsKept_announce _ _ _ _ _
  · refine Obeys.modify_bind (callsKept_adjustThread pid fun _ => rfl) ?_
    exact Descriptors.callsKept_announce _ _ _ _ _

theorem callsKept_apply (kind : EventKind) (e : Event) : Obeys callsKept (apply kind e) := by
  cases kind
  case processState => exact callsKept_processState e
  case fileDescriptor => exact callsKept_fileDescriptor e
  case blockDevice => exact (quiet_blockDevice e).mono callsKept_of_quiet
  all_goals exact obeys_pure _

end Snapshot

namespace IoRequests

theorem quiet_learnGroup (e : Event) (tid : Int) : Obeys quiet (learnGroup e tid) := by
  refine obeys_ite (obeys_pure _) (obeys_whenSome fun pid s => ?_)
  refine ObeysAt.modify_bind (quiet_updateThread tid (fun _ => rfl) s) (ObeysAt.get_bind ?_)
  dsimp only
  split
  · exact obeysAt_pure _
  · refine ObeysAt.modify_bind (quiet_of_eq rfl (State.holdings_setThread_of_eq rfl)) ?_
    split
    · exact obeysAt_pure _
    · rename_i hp
      refine ObeysAt.bind (quiet_report _ _) fun o ho => ?_
      cases ho
      refine obeysAt_of_run rfl (quiet_of_eq rfl (State.holdings_setThread_of_eq ?_))
      -- The leader is not the thread itself, which is known by now.
      have hp : (s.admitThread tid).thread? pid = none :=
        State.thread?_of_not_contains hp
      have hne : pid ≠ tid := by
        rintro rfl
        simp [State.thread?_admitThread] at hp
      rw [State.holdings_of_none, Thread.holdings_ofGroup]
      rw [State.thread?_setThread, if_neg hne, hp]

theorem callsKept_countSide (owner tid : Int) (side : Option Int) (onFd : Fd → Fd)
    (onThread : FdType → IoCounts → IoCounts) (s : State) :
    callsKept.rel s [] (countSide owner tid side onFd onThread s) := by
  unfold countSide
  split
  · refine callsKept.chain_silent (callsKept_adjustFd owner _ _ s) (callsKept_adjustThread tid ?_ _)
    exact fun _ => rfl
  · exact callsKept.idle s

theorem callsKept_countBytes (t : Transfer) (tid owner : Int) (s : State) :
    callsKept.rel s [] (countBytes t tid owner s) := by
  unfold countBytes
  split
  · exact callsKept.idle s
  · exact callsKept.chain_silent (callsKept_countSide ..) (callsKept_countSide ..)

theorem callsKept_applyBody (body : IoBody) (e : Event) (tid owner : Int) (cpu : Nat) :
    Obeys callsKept (applyBody body e tid owner cpu) := by
  cases body with
  | opening request => exact obeys_whenSome fun number => Descriptors.callsKept_ensure _ _ _ _
  | close fd => exact obeys_pure _
  | transfer t =>
    refine Obeys.bind (obeys_forEach fun number => Descriptors.callsKept_ensure _ _ _ _) fun _ => ?_
    exact obeys_modify (callsKept_countBytes t tid owner)
  | sync fd size => exact obeys_whenSome fun number => Descriptors.callsKept_ensure _ _ _ _
  | connect number address =>
    refine obeys_whenSome fun filename => ?_
    refine Obeys.modify_bind (callsKept_adjustThread owner fun _ => rfl) ?_
    exact Descriptors.callsKept_announce _ _ _ _ _

theorem quiet_announceExit (request : IoRequest) (tid owner : Int) :
    Obeys quiet (announceExit request tid owner) := by
  refine obeys_get.bind fun s => ?_
  split
  · exact quiet_notify ⟨id, id⟩
  · exact obeys_pure _

theorem callsKept_finish (e : Event) (cpu : Nat) (tid : Int) (request : IoRequest) :
    Obeys callsKept (finish e cpu tid request) := by
  refine (obeys_compute _).bind fun request => obeys_get.bind fun s => ?_
  refine Obeys.bind (obeys_ite (callsKept_applyBody _ _ _ _ _) (obeys_pure _)) fun _ => ?_
  refine ((quiet_announceExit _ _ _).mono callsKept_of_quiet).bind fun _ => ?_
  exact obeys_whenSome fun number => Descriptors.callsKept_close _ _ _ _

end IoRequests

/-! ## Rules that leave tables alone -/

theorem tablesKept_of_eq {s s' : State} (h : ∀ k, (s'.holdings k).atRest = (s.holdings k).atRest) :
    tablesKept.rel s [] s' :=
  ⟨funext h, by simp [Law.sending]⟩

theorem atRest_mapRequest (t : Thread) (f : IoRequest → IoRequest) :
    (t.mapRequest f).holdings.atRest = t.holdings.atRest := rfl

theorem tablesKept_adjustRequest (tid : Int) (f : IoRequest → IoRequest) (s : State) :
    tablesKept.rel s [] (s.adjustRequest tid f) :=
  tablesKept_of_eq (State.view_adjustThread_of_eq fun t => atRest_mapRequest t f)

theorem Paging.tablesKept_alloc (e : Event) : Obeys tablesKept (alloc e) := by
  refine Obeys.modify_bind (fun s => tablesKept_of_eq ?_) ?_
  · exact State.view_mapThreads_of_eq (s := { s with pageCount := _ }) fun t => atRest_mapRequest t _
  · exact (quiet_announce e fun _ _ => ⟨id, id⟩).mono tablesKept_of_quiet

namespace Syscalls

theorem tablesKept_entry (e : Event) : Obeys tablesKept (entry e) := by
  refine obeys_whenSome fun cpu => obeys_get.bind fun s => ?_
  split
  · exact obeys_modify fun s => tablesKept_of_eq (State.view_updateThread_of_eq fun _ => rfl)
  · exact (quiet_report _).mono tablesKept_of_quiet

theorem tablesKept_setCall {s : State} {tid : Int} {thread : Thread}
    (ht : s.thread? tid = some thread) (call : Option Call) :
    tablesKept.rel s [] (s.setThread tid { thread with call }) := by
  refine tablesKept_of_eq (State.view_setThread_of_eq ?_)
  rw [State.holdings_of_thread? ht]
  rfl

end Syscalls

namespace IoRequests

theorem tablesKept_attach (e : Event) (tid : Int) (syscall : String) (body : IoBody) :
    Obeys tablesKept (attach e tid syscall body) := by
  refine obeys_get.bind fun s => obeys_ite ?_ ?_
  · exact obeys_modify fun s => tablesKept_of_eq (State.view_adjustThread_of_eq fun _ => rfl)
  · exact (quiet_report _).mono tablesKept_of_quiet

theorem tablesKept_pagesWritten (e : Event) : Obeys tablesKept (pagesWritten e) := by
  refine obeys_whenSome fun pages => obeys_get.bind fun s => obeys_forEach fun tid => ?_
  exact obeys_modify (tablesKept_adjustRequest tid _)

theorem tablesKept_kswapdWakeup (e : Event) : Obeys tablesKept (kswapdWakeup e) := by
  refine obeys_get.bind fun s => obeys_whenSome fun tid => ?_
  exact obeys_modify (tablesKept_adjustRequest tid _)

theorem tablesKept_pageFree : Obeys tablesKept pageFree := by
  refine obeys_get.bind fun s => obeys_forEach fun tid => ?_
  exact obeys_modify (tablesKept_adjustRequest _ _)

end IoRequests

end KernelReplay
