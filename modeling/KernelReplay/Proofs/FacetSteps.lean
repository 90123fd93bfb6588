import KernelReplay.Proofs.FacetFrames
import KernelReplay.Proofs.SyscallRules

/-
  Rules that touch a facet of the state, and what they leave aside. Each touches one: the rules of
  interrupts those of CPUs, the rules of block requests those pending, and four rules of scheduling
  what it remembers of threads. Only the rules that compute something can overflow. What holds of the
  rules holds of the events of each kind and of the steps of a run.
-/

namespace KernelReplay

open Law Update

/-! ## Interrupts -/

namespace Interrupts

theorem asideButInterrupts_updateCpu (cpu : Nat) (f : Cpu → Cpu) (s : State) :
    asideButInterrupts.rel s [] (s.updateCpu cpu f) :=
  ⟨rfl, ⟨rfl, by simp [sending]⟩, ⟨rfl, by simp [sending]⟩, by simp [requestsUntold, sending]⟩

theorem asideButInterrupts_notify {n : Notification} (h : n.TellsInterrupt) :
    Fulfils asideButInterrupts (notify n) := by
  refine fulfils_notify fun s => ?_
  cases n <;> first
    | exact h.elim
    | exact ⟨rfl, ⟨rfl, by simp [sending, Notification.TellsBlock]⟩,
        ⟨rfl, by simp [sending, Notification.TellsSwitch]⟩,
        by simp [requestsUntold, sending, Notification.EndsRequest]⟩

theorem asideButInterrupts_admitCpu (cpu : Nat) : Fulfils asideButInterrupts (admitCpu cpu) :=
  (aside_admitCpu cpu).mono asideButInterrupts_of_aside

theorem asideButInterrupts_report (d : Diagnostic) : Fulfils asideButInterrupts (report d) :=
  (aside_report d).mono asideButInterrupts_of_aside

theorem asideButInterrupts_apply (kind : EventKind) (e : Event) :
    Fulfils asideButInterrupts (apply kind e) := by
  cases kind
  case irqEntry =>
    refine fulfils_whenSome fun cpu => fulfils_whenSome fun id => ?_
    refine (asideButInterrupts_admitCpu cpu).bind fun _ => ?_
    refine Fulfils.modify_bind (asideButInterrupts_updateCpu cpu _) ?_
    exact asideButInterrupts_notify trivial
  case irqExit =>
    refine fulfils_whenSome fun cpu => ?_
    refine (asideButInterrupts_admitCpu cpu).bind fun _ => fulfils_get.bind fun s => ?_
    refine Fulfils.modify_bind (asideButInterrupts_updateCpu cpu _) (fulfils_whenSome fun id => ?_)
    split
    · exact asideButInterrupts_notify trivial
    · exact asideButInterrupts_report _
  case softIrqRaise =>
    refine fulfils_whenSome fun cpu => fulfils_whenSome fun vector => ?_
    refine (asideButInterrupts_admitCpu cpu).bind fun _ => fulfils_get.bind fun s => ?_
    refine Fulfils.modify_bind (asideButInterrupts_updateCpu cpu _) ?_
    exact fulfils_ite (asideButInterrupts_report _) (fulfils_pure _)
  case softIrqEntry =>
    refine fulfils_whenSome fun cpu => fulfils_whenSome fun vector => ?_
    refine (asideButInterrupts_admitCpu cpu).bind fun _ => ?_
    exact fulfils_modify (asideButInterrupts_updateCpu cpu _)
  case softIrqExit =>
    refine fulfils_whenSome fun cpu => fulfils_whenSome fun vector => ?_
    refine (asideButInterrupts_admitCpu cpu).bind fun _ => fulfils_get.bind fun s => ?_
    refine Fulfils.modify_bind (asideButInterrupts_updateCpu cpu _) ?_
    split
    · exact asideButInterrupts_notify trivial
    · exact asideButInterrupts_report _
  all_goals exact fulfils_pure _

end Interrupts

/-! ## Block requests -/

namespace BlockRequests

theorem asideButBlocks_updateDisk (dev : Nat) (f : Disk → Disk) (s : State) :
    asideButBlocks.rel s [] (s.updateDisk dev f) :=
  ⟨rfl, ⟨rfl, by simp [sending]⟩, ⟨rfl, by simp [sending]⟩, by simp [requestsUntold, sending]⟩

theorem asideButBlocks_report (d : Diagnostic) : Fulfils asideButBlocks (report d) :=
  (aside_report d).mono asideButBlocks_of_aside

theorem asideButBlocks_place (request : BlockRequest) : Fulfils asideButBlocks (place request) := by
  refine fulfils_get.bind fun s => ?_
  refine Fulfils.modify_bind (asideButBlocks_updateDisk request.dev _) ?_
  exact fulfils_whenSome fun stale => asideButBlocks_report _

theorem asideButBlocks_complete (dev sector sectors : Nat) (time : Int) :
    Obeys asideButBlocks (complete dev sector sectors time) := by
  refine obeys_get.bind fun s => ?_
  split
  · exact (asideButBlocks_report _).obeys
  · split
    · exact (asideButBlocks_report _).obeys
    · refine Obeys.modify_bind (asideButBlocks_updateDisk dev _) ?_
      refine (obeys_compute _).bind fun request => obeys_notify fun s => ?_
      exact ⟨rfl, ⟨rfl, by simp [sending, Notification.TellsInterrupt]⟩,
        ⟨rfl, by simp [sending, Notification.TellsSwitch]⟩,
        by simp [requestsUntold, sending, Notification.EndsRequest]⟩

theorem asideButBlocks_apply (kind : EventKind) (e : Event) (remaps : List Remap) :
    Obeys asideButBlocks (apply kind e remaps) := by
  cases kind
  case blockIssue =>
    exact (obeys_whenSome fun rq => (asideButBlocks_place rq).obeys).bind fun _ => obeys_pure _
  case blockComplete =>
    show Obeys asideButBlocks (completion e remaps)
    unfold completion
    split
    · exact (asideButBlocks_complete _ _ _ _).bind fun _ => obeys_pure _
    · exact obeys_pure _
  all_goals exact obeys_pure _

end BlockRequests

/-! ## Scheduling -/

namespace Scheduling

theorem asideButWaits_of_standby {s s' : State} {time : Int} (ht : s'.tracing = s.tracing)
    (hc : s'.cpus = s.cpus) (hd : s'.disks = s.disks) (hs : (standbyFrom time).rel s [] s') :
    (asideButWaits time).rel s [] s' := by
  refine ⟨ht, ⟨?_, by simp [sending]⟩, ⟨?_, by simp [sending]⟩, hs, by simp [sending], by
    simp [requestsUntold, sending]⟩
  · show s'.handlers = s.handlers
    funext cpu
    unfold State.handlers State.cpuOrFresh
    rw [hc]
  · show s'.pending = s.pending
    funext dev
    unfold State.pending
    rw [hd]

/-- A wakeup is remembered if none is yet. -/
theorem standby_wake (t : Thread) (time : Int) (waker : Option Int) :
    (∀ τ, (t.wake time waker).standby.wakeup = some τ → t.standby.wakeup = some τ ∨ τ = time) ∧
      (t.wake time waker).standby.migrations ≤ t.standby.migrations := by
  unfold Thread.wake
  split
  · exact ⟨fun τ h => Or.inr (Option.some.inj h).symm, Nat.le_refl _⟩
  · exact ⟨fun τ => Or.inl, Nat.le_refl _⟩

theorem asideButWaits_wake (tid time : Int) (waker : Option Int) (s : State) :
    (asideButWaits time).rel s [] (s.adjustThread tid fun t => t.wake time waker) := by
  cases ht : s.thread? tid with
  | none =>
    rw [State.adjustThread_of_none ht]
    exact (asideButWaits time).idle s
  | some t =>
    rw [State.adjustThread_eq_setThread ht]
    refine asideButWaits_of_standby rfl rfl rfl fun k => ?_
    rw [State.standby_setThread]
    split
    · rename_i hk
      rw [hk, State.standby_of_thread? ht]
      exact standby_wake t time waker
    · exact ⟨fun τ => Or.inl, Nat.le_refl _⟩

theorem asideButWaits_fork (e : Event) : Fulfils (asideButWaits e.time) (fork e) := by
  refine fulfils_whenSome fun tid => fulfils_whenSome fun parent => ?_
  refine Fulfils.modify_bind (fun s => ?_) (fulfils_get.bind fun s => ?_)
  · refine asideButWaits_of_aside (aside_updateThread parent ?_ s)
    exact fun _ => rfl
  refine Fulfils.bind ((aside_report _).mono asideButWaits_of_aside) fun _ => ?_
  refine Fulfils.modify_bind (fun s => ?_) (fulfils_forEach fun number => ?_)
  · refine asideButWaits_of_standby rfl rfl rfl fun k => ?_
    rw [State.standby_setThread]
    split
    · exact ⟨fun τ h => (by cases h), Nat.zero_le _⟩
    · exact ⟨fun τ => Or.inl, Nat.le_refl _⟩
  · exact (Descriptors.aside_announce _ _ _ _ _).mono asideButWaits_of_aside

theorem asideButWaits_wakeup (e : Event) : Obeys (asideButWaits e.time) (wakeup e) := by
  have aside : ∀ {u : Update Unit}, Fulfils Law.aside u → Obeys (asideButWaits e.time) u :=
    fun h => (h.mono asideButWaits_of_aside).obeys
  refine obeys_whenSome fun tid => ?_
  refine (obeys_whenSome fun cpu => aside (aside_admitCpu cpu)).bind fun _ => ?_
  refine (obeys_whenSome fun cpu => aside (aside_admitCpu cpu)).bind fun _ => ?_
  refine obeys_get.bind fun s => obeys_ite (aside (aside_report _)) ?_
  refine Obeys.modify_bind (fun s => asideButWaits_of_aside (aside_updateThread tid ?_ s)) ?_
  · exact fun _ => rfl
  refine (obeys_whenSome fun reported => ?_).bind fun _ => ?_
  · exact (obeys_compute _).bind fun prio => aside (aside_learnPriority e.time tid prio)
  · exact obeys_modify (asideButWaits_wake tid e.time _)

theorem tracingKept_admitCpus (cpu? : Option Nat) : Fulfils tracingKept (whenSome cpu? admitCpu) :=
  fulfils_whenSome fun cpu => (aside_admitCpu cpu).mono fun h => h.1.1

/-- Making CPUs known does not change whether priorities are corrected. -/
theorem priorityOffset_admitCpus {cpu? : Option Nat} {s : State} {o : Outcome Unit}
    (h : whenSome cpu? admitCpu s = .ok o) : o.state.priorityOffset = s.priorityOffset := by
  have hkept : o.state.tracing = s.tracing := (tracingKept_admitCpus cpu?).obeys s o h
  exact congrArg Prod.snd hkept

/-- A wakeup succeeds unless the priority that it reports is too low to be corrected. -/
theorem wakeup_succeeds {e : Event} {s : State}
    (h : s.priorityOffset = true → ∀ prio, e.int? "prio" = some prio → FitsSigned (prio - 100)) :
    FulfilsAt any (wakeup e) s := by
  refine fulfilsAt_whenSome fun tid _ => ?_
  refine FulfilsAt.bind (tracingKept_admitCpus _ s).any fun o₁ h₁ _ => ?_
  refine FulfilsAt.bind (tracingKept_admitCpus _ o₁.state).any fun o₂ h₂ _ => FulfilsAt.get_bind ?_
  have hoffset : o₂.state.priorityOffset = s.priorityOffset := by
    rw [priorityOffset_admitCpus h₂, priorityOffset_admitCpus h₁]
  split
  · exact (aside_report _).any _
  · refine FulfilsAt.modify_bind trivial (FulfilsAt.bind ?_ fun o₃ _ _ => ?_)
    · refine fulfilsAt_whenSome fun prio hprio => ?_
      have hfits : ∃ p, wakeupPriority o₂.state prio = .ok p := by
        unfold wakeupPriority
        split
        · rename_i hset
          exact ⟨_, checkedSub_eq_ok_iff.2 ⟨h (hoffset ▸ hset) prio hprio, rfl⟩⟩
        · exact ⟨_, rfl⟩
      obtain ⟨p, hp⟩ := hfits
      exact FulfilsAt.compute_bind hp ((aside_learnPriority e.time tid p).any _)
    · exact fulfils_modify (fun _ => trivial) _

theorem standby_getD (s : State) (tid : Int) (comm : String) :
    ((s.thread? tid).getD { tid, comm }).standby = s.standby tid := by
  cases h : s.thread? tid with
  | none => exact (State.standby_of_none h).symm
  | some t => exact (State.standby_of_thread? h).symm

/-- What follows once a migration is counted. -/
theorem aside_tellMigration (e : Event) (tid : Int) (thread : Thread) :
    Fulfils aside (notify (.migrate thread e.cpu? (e.cpuField? "dest_cpu")) >>= fun _ =>
      whenSome (e.int? "prio") (learnPriority e.time tid)) :=
  (aside_notify ⟨id, id, id, id⟩).bind fun _ =>
    fulfils_whenSome fun prio => aside_learnPriority e.time tid prio

/-- A migration is counted for its thread, and nothing else is touched. -/
theorem migrate_cases {e : Event} {s : State} {o : Outcome Unit} (h : migrate e s = .ok o) :
    (o.state = s ∧ o.signals = []) ∨
    ∃ tid t, t.standby = { s.standby tid with migrations := (s.standby tid).migrations + 1 } ∧
      aside.rel (s.setThread tid t) o.signals o.state := by
  unfold migrate at h
  cases he : e.int? "tid" with
  | none =>
    rw [he] at h
    cases h
    exact Or.inl ⟨rfl, rfl⟩
  | some tid =>
    rw [he, whenSome_some, get_bind_run] at h
    obtain ⟨o₁, o₂, h₁, h₂, rfl⟩ := bind_eq_ok_iff.1 h
    obtain ⟨count, hcount, rfl⟩ := compute_eq_ok_iff.1 h₁
    have hthread := standby_getD s tid ((e.text? "comm").getD "")
    generalize (s.thread? tid).getD { tid, comm := (e.text? "comm").getD "" } = t at *
    obtain ⟨-, rfl⟩ := checkedSucc_eq_ok_iff.1 hcount
    rw [modify_bind_run] at h₂
    refine Or.inr ⟨tid, { t with migrations := t.migrations + 1 }, ?_, ?_⟩
    · rw [← hthread]
      rfl
    · exact (aside_tellMigration e tid _).obeys _ o₂ h₂

/-- A migration succeeds unless its thread has been moved as often as a word can tell. -/
theorem migrate_succeeds {e : Event} {s : State}
    (h : ∀ tid, e.int? "tid" = some tid → FitsWord ((s.standby tid).migrations + 1)) :
    FulfilsAt any (migrate e) s := by
  refine fulfilsAt_whenSome fun tid htid => FulfilsAt.get_bind ?_
  have hthread := standby_getD s tid ((e.text? "comm").getD "")
  have hfits := h tid htid
  rw [← hthread] at hfits
  refine FulfilsAt.compute_bind (checkedSucc_eq_ok_iff.2 ⟨hfits, rfl⟩) ?_
  exact FulfilsAt.modify_bind trivial ((aside_tellMigration e tid _).any _)

theorem aside_takeOver (e : Event) (cpu : Nat) (prev next : Int) :
    Fulfils aside (takeOver e cpu prev next) := by
  refine (aside_admitCpu cpu).bind fun _ => ?_
  refine Fulfils.modify_bind (aside_updateCpu cpu fun _ => rfl) ?_
  refine Fulfils.modify_bind (aside_updateThread prev fun _ => rfl) ?_
  refine Fulfils.modify_bind (aside_updateThread next fun _ => rfl) ?_
  refine Fulfils.bind (fulfils_whenSome fun prio => aside_learnPriority e.time prev prio) fun _ => ?_
  exact fulfils_whenSome fun prio => aside_learnPriority e.time next prio

/-- How long a thread has waited when it takes over a CPU. -/
def waited (s : State) (next time : Int) : Except Overflow (Option Int) :=
  elapsed (s.standby next).wakeup (some time)

theorem announceSwitch_run {s : State} {time next : Int} {latency : Option Int}
    (h : waited s next time = .ok latency) (cpu : Nat) (prev : Int) :
    ∃ taken : Switch, taken.latency = latency ∧ announceSwitch time cpu prev next s =
      .ok ⟨(), s.adjustThread next Thread.clearWakeup,
        [.notification (.switchPerCpu taken), .notification (.switchPerThread taken)]⟩ := by
  have hreport : ∃ taken, switchReport s time cpu prev next = .ok taken ∧
      taken.latency = latency := by
    have h : elapsed (s.threadOrFresh next).lastWakeup (some time) = .ok latency := h
    unfold switchReport
    dsimp only
    rw [h]
    exact ⟨_, rfl, rfl⟩
  obtain ⟨taken, htaken, hlatency⟩ := hreport
  refine ⟨taken, hlatency, ?_⟩
  unfold announceSwitch
  rw [get_bind_run, htaken]
  rfl

/-- A switch whose wait overflows is not announced. -/
theorem waited_of_announceSwitch {s : State} {time : Int} {cpu : Nat} {prev next : Int}
    {o : Outcome Unit} (h : announceSwitch time cpu prev next s = .ok o) :
    ∃ latency, waited s next time = .ok latency := by
  unfold announceSwitch at h
  rw [get_bind_run] at h
  obtain ⟨o₁, -, h₁, -, -⟩ := bind_eq_ok_iff.1 h
  obtain ⟨taken, htaken, -⟩ := compute_eq_ok_iff.1 h₁
  obtain ⟨latency, hlatency, -⟩ := checked_bind_eq_ok_iff.1 htaken
  exact ⟨latency, hlatency⟩

theorem waited_of_aside {s s' : State} {l : List Signal} (h : aside.rel s l s') (next time : Int) :
    waited s' next time = waited s next time := by
  have hstandby : s'.standby = s.standby := h.1.2.2.2.1
  rw [waited, waited, hstandby]

/-- A complete switch tells how long its thread has waited, and nothing else is touched. -/
theorem switch_turn {e : Event} {s : State} {o : Outcome Unit} (h : switch e s = .ok o) :
    aside.rel s o.signals o.state ∨
    ∃ next taken s' l, waited s next e.time = .ok taken.latency ∧ aside.rel s l s' ∧
      o.state = s'.adjustThread next Thread.clearWakeup ∧
      o.signals = l ++
        [.notification (.switchPerCpu taken), .notification (.switchPerThread taken)] := by
  generalize hu : switch e = u at h
  unfold switch at hu
  split at hu
  · rename_i cpu prev next _ _ _
    subst hu
    obtain ⟨o₁, o₂, h₁, h₂, rfl⟩ := bind_eq_ok_iff.1 h
    have haside := (aside_takeOver e cpu prev next).obeys s o₁ h₁
    obtain ⟨latency, hlatency⟩ := waited_of_announceSwitch h₂
    obtain ⟨taken, rfl, hrun⟩ := announceSwitch_run hlatency cpu prev
    rw [hrun] at h₂
    cases h₂
    rw [waited_of_aside haside] at hlatency
    exact Or.inr ⟨next, taken, o₁.state, o₁.signals, hlatency, haside, rfl, rfl⟩
  · subst hu
    exact Or.inl ((aside_report _).obeys s o h)

/-- A switch succeeds unless the wait of its thread leaves the range. -/
theorem switch_succeeds {e : Event} {s : State}
    (h : ∀ next, ∃ latency, waited s next e.time = .ok latency) :
    FulfilsAt any (switch e) s := by
  unfold switch
  split
  · rename_i cpu prev next _ _ _
    obtain ⟨o, ho, haside⟩ := aside_takeOver e cpu prev next s
    obtain ⟨latency, hlatency⟩ := h next
    rw [← waited_of_aside haside] at hlatency
    obtain ⟨taken, -, hrun⟩ := announceSwitch_run hlatency cpu prev
    exact FulfilsAt.bind ⟨o, ho, trivial⟩ fun o' ho' _ => by
      cases ho.symm.trans ho'
      exact ⟨_, hrun, trivial⟩
  · exact (aside_report _).any s

end Scheduling

/-! ## The end of a syscall -/

namespace Law

/-- No facet of the state changes, and an I/O request that is told to be over is one of a kind. -/
def requestsTold (K : IoRequest → Prop) : Law :=
  facetsKept.both <| sending fun n => ∀ rq thread owner, n = .requestExit rq thread owner → K rq

end Law

theorem requestsTold_of_aside {K : IoRequest → Prop} {s s' : State} {l : List Signal}
    (h : aside.rel s l s') : (requestsTold K).rel s l s' := by
  refine ⟨h.1, fun n hn rq thread owner heq => ?_⟩
  subst heq
  exact (h.2 _ hn trivial).elim

namespace IoRequests

theorem aside_settle (request : IoRequest) (e : Event) (tid owner : Int) (cpu : Nat) :
    Fulfils aside (settle request e tid owner cpu) :=
  fulfils_ite (aside_applyBody request.body e tid owner cpu) (fulfils_pure _)

theorem requestsTold_announceExit (request : IoRequest) (tid owner : Int) :
    Fulfils (requestsTold (· = request)) (announceExit request tid owner) := by
  refine fulfils_get.bind fun s => ?_
  split
  · refine fulfils_notify fun s => ⟨⟨rfl, ⟨rfl, ?_⟩, ⟨rfl, ?_⟩, rfl, ?_⟩, ?_⟩
    · simp [sending, Notification.TellsInterrupt]
    · simp [sending, Notification.TellsBlock]
    · simp [sending, Notification.TellsSwitch]
    · intro n hn rq thread owner heq
      rw [notificationsOf_notification, heq] at hn
      cases List.mem_singleton.1 hn
      rfl
  · exact fulfils_pure _

theorem requestsTold_finish {e : Event} {request finished : IoRequest} (cpu : Nat) (tid : Int)
    (h : request.finish e.time (e.int? "ret") = .ok finished) :
    Fulfils (requestsTold (· = finished)) (finish e cpu tid request) := by
  intro s
  refine FulfilsAt.compute_bind h (FulfilsAt.get_bind ?_)
  have hsettle := (aside_settle finished e tid (s.fdOwner tid) cpu).mono
    (requestsTold_of_aside (K := (· = finished)))
  refine hsettle.bind (fun _ => ?_) s
  refine (requestsTold_announceExit finished tid _).bind fun _ => fulfils_whenSome fun number => ?_
  exact (Descriptors.aside_close _ number e.time _).mono requestsTold_of_aside

theorem finish_of_finish {e : Event} {request : IoRequest} {cpu : Nat} {tid : Int} {s : State}
    {o : Outcome Unit} (h : finish e cpu tid request s = .ok o) :
    ∃ finished, request.finish e.time (e.int? "ret") = .ok finished := by
  obtain ⟨o₁, -, h₁, -, -⟩ := bind_eq_ok_iff.1 h
  obtain ⟨finished, hf, -⟩ := compute_eq_ok_iff.1 h₁
  exact ⟨finished, hf⟩

end IoRequests

namespace Syscalls

variable {e : Event} {s : State}

theorem requestsTold_leave {K : IoRequest → Prop} {tid : Int} {thread : Thread}
    (ht : s.thread? tid = some thread) (call : Call) (cpu : Nat) :
    (requestsTold K).rel s
      [.notification (.syscallExit { thread with call := some call } call cpu)]
      (s.setThread tid { thread with call := none }) := by
  have hset : aside.rel s [] (s.setThread tid { thread with call := none }) :=
    aside_setThread (State.standby_of_thread? ht).symm
  refine requestsTold_of_aside (aside.chain_silent hset ?_)
  exact aside_of_notification ⟨id, id, id, id⟩ _

/-- The only request told to be over is that of the syscall that ends. -/
theorem requestsTold_exits {o : Outcome Unit}
    (h : (Syscalls.exit e >>= fun _ => IoRequests.exit e) s = .ok o) :
    (requestsTold fun finished => ∃ tid call request, s.call? tid = some call ∧
      call.request = some request ∧ request.finish e.time (e.int? "ret") = .ok finished).rel s
        o.signals o.state := by
  rcases exit_cases h with
    ⟨-, hs, hn⟩ | ⟨cpu, tid, thread, call, ended, o', -, -, ht, hcall, -, hrest, hs, hl⟩
  · rw [hs]
    refine requestsTold_of_aside ⟨⟨rfl, ⟨rfl, ?_⟩, ⟨rfl, ?_⟩, rfl, ?_⟩, ?_⟩ <;>
      simp [requestsUntold, sending, hn]
  · rw [hs, hl]
    refine (requestsTold _).chain (requestsTold_leave ht ended cpu) ?_
    split at hrest
    · cases hrq : call.request with
      | none =>
        rw [hrq] at hrest
        cases hrest
        exact (requestsTold _).idle _
      | some request =>
        rw [hrq, whenSome_some] at hrest
        obtain ⟨finished, hf⟩ := IoRequests.finish_of_finish hrest
        have htold := (IoRequests.requestsTold_finish cpu tid hf).obeys _ o' hrest
        refine ⟨htold.1, fun n hn rq t owner heq => ?_⟩
        rw [htold.2 n hn rq t owner heq]
        exact ⟨tid, call, request, by rw [State.call?, ht]; exact hcall, hrq, hf⟩
    · cases hrest
      exact (requestsTold _).idle _

/-- A syscall ends unless its duration, or that of its request, or its error leaves the range. -/
theorem exits_succeed
    (hcall : ∀ tid call, e.actor? s.running? = some tid → s.call? tid = some call →
      ∃ ended, call.finish e.time (e.int? "ret") = .ok ended)
    (hrequest : ∀ tid call request, e.actor? s.running? = some tid → s.call? tid = some call →
      call.request = some request →
      ∃ finished, request.finish e.time (e.int? "ret") = .ok finished) :
    FulfilsAt any (Syscalls.exit e >>= fun _ => IoRequests.exit e) s := by
  by_cases hnone : ∀ tid, e.actor? s.running? = some tid → s.call? tid = none
  · obtain ⟨l, hl, -⟩ := exits_run_of_no_call hnone
    exact ⟨_, hl, trivial⟩
  · obtain ⟨cpu, tid, thread, call, hc, hr, ht, hthread⟩ := caller_of_call hnone
    have hin : s.call? tid = some call := by rw [State.call?, ht]; exact hthread
    have hact : e.actor? s.running? = some tid := Option.bind_eq_some_iff.2 ⟨cpu, hc, hr⟩
    obtain ⟨ended, hf⟩ := hcall tid call hact hin
    unfold FulfilsAt
    rw [exits_run hc hr ht hthread hf]
    refine FulfilsAt.bind (L := any) ⟨_, rfl, trivial⟩ fun o _ _ => ?_
    split
    · refine fulfilsAt_whenSome fun request hrq => ?_
      obtain ⟨finished, hrf⟩ := hrequest tid call request hact hin hrq
      exact (IoRequests.requestsTold_finish cpu tid hrf).any _
    · exact fulfilsAt_pure _

end Syscalls

end KernelReplay
