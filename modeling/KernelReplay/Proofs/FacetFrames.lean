import KernelReplay.Machine.State.Facets
import KernelReplay.Proofs.Runs
import KernelReplay.Update.Totality

/-
  Rules that touch no facet of the state: not the interrupts of CPUs, the requests pending on devices,
  what scheduling remembers of threads, or the settings of the tracer. Such a rule computes nothing
  that could overflow, so it also succeeds from every state (`Fulfils aside`).
-/

namespace KernelReplay

/-- Whether a notification is about interrupts. -/
def Notification.TellsInterrupt : Notification → Prop
  | .irqEntry .. | .irqExit _ | .softIrqExit _ => True
  | _ => False

/-- Whether a notification says that a block request is completed. -/
def Notification.TellsBlock : Notification → Prop
  | .blockComplete .. => True
  | _ => False

/-- Whether a notification says that a thread takes over a CPU. -/
def Notification.TellsSwitch : Notification → Prop
  | .switchPerCpu _ | .switchPerThread _ => True
  | _ => False

/-- Whether a notification says that an I/O request is over. -/
def Notification.EndsRequest : Notification → Prop
  | .requestExit .. => True
  | _ => False

/-- The requests that signals tell to be over. -/
def requestExits (l : List Signal) : List IoRequest :=
  (notificationsOf l).filterMap fun
    | .requestExit rq _ _ => some rq
    | _ => none

theorem mem_requestExits {rq : IoRequest} {l : List Signal} (h : rq ∈ requestExits l) :
    ∃ thread owner, .requestExit rq thread owner ∈ notificationsOf l := by
  obtain ⟨n, hmem, hn⟩ := List.mem_filterMap.1 h
  split at hn
  · rename_i rq' thread owner
    rw [Option.some.inj hn] at hmem
    exact ⟨thread, owner, hmem⟩
  · cases hn

/-- A notification about nothing that is paired or timed. -/
structure Notification.Aside (n : Notification) : Prop where
  interrupt : ¬ n.TellsInterrupt
  block : ¬ n.TellsBlock
  switch : ¬ n.TellsSwitch
  request : ¬ n.EndsRequest

namespace Law

/-- The settings of the tracer are as they were. -/
def tracingKept : Law := keeping State.tracing

/-- Every CPU handles the same interrupts. -/
def handlersKept : Law := (keeping State.handlers).both <| sending fun n => ¬ n.TellsInterrupt

/-- The same requests are pending on every device. -/
def pendingKept : Law := (keeping State.pending).both <| sending fun n => ¬ n.TellsBlock

/-- Scheduling remembers the same of every thread. -/
def standbyKept : Law := (keeping State.standby).both <| sending fun n => ¬ n.TellsSwitch

/-- No facet of the state changes. -/
def facetsKept : Law := tracingKept.both <| handlersKept.both <| pendingKept.both standbyKept

/-- No I/O request is told to be over. -/
def requestsUntold : Law := sending fun n => ¬ n.EndsRequest

/-- No facet of the state changes, and nothing is told of any. -/
def aside : Law := facetsKept.both requestsUntold

/-- No facet changes but the interrupts of CPUs. -/
def asideButInterrupts : Law :=
  tracingKept.both <| pendingKept.both <| standbyKept.both requestsUntold

/-- No facet changes but the requests pending on devices. -/
def asideButBlocks : Law :=
  tracingKept.both <| handlersKept.both <| standbyKept.both requestsUntold

/-- Every wakeup that is remembered was before, or is of the given time, and no migration is added. -/
def standbyFrom (time : Int) : Law where
  rel s _ s' := ∀ k, (∀ τ, (s'.standby k).wakeup = some τ → (s.standby k).wakeup = some τ ∨ τ = time) ∧
    (s'.standby k).migrations ≤ (s.standby k).migrations
  idle _ _ := ⟨fun _ => Or.inl, Nat.le_refl _⟩
  chain h h' k := by
    refine ⟨fun τ hτ => ?_, Nat.le_trans (h' k).2 (h k).2⟩
    rcases (h' k).1 τ hτ with hτ | hτ
    · exact (h k).1 τ hτ
    · exact Or.inr hτ

/-- No facet changes but what scheduling remembers of threads, and no thread takes over a CPU. -/
def asideButWaits (time : Int) : Law :=
  tracingKept.both <| handlersKept.both <| pendingKept.both <| (standbyFrom time).both <|
    (sending fun n => ¬ n.TellsSwitch).both requestsUntold

end Law

open Law Update

theorem aside_of_eq {s s' : State} (ht : s'.tracing = s.tracing) (hh : s'.handlers = s.handlers)
    (hp : s'.pending = s.pending) (hs : s'.standby = s.standby) : aside.rel s [] s' :=
  ⟨⟨ht, ⟨hh, by simp [sending]⟩, ⟨hp, by simp [sending]⟩, hs, by simp [sending]⟩, by
    simp [requestsUntold, sending]⟩

theorem standbyFrom_of_eq {s s' : State} (h : s'.standby = s.standby) (time : Int) (l : List Signal) :
    (standbyFrom time).rel s l s' := by
  intro k
  rw [h]
  exact ⟨fun _ => Or.inl, Nat.le_refl _⟩

theorem asideButInterrupts_of_aside {s s' : State} {l : List Signal} (h : aside.rel s l s') :
    asideButInterrupts.rel s l s' := by
  obtain ⟨⟨ht, -, hp, hs⟩, hr⟩ := h
  exact ⟨ht, hp, hs, hr⟩

theorem asideButBlocks_of_aside {s s' : State} {l : List Signal} (h : aside.rel s l s') :
    asideButBlocks.rel s l s' := by
  obtain ⟨⟨ht, hh, -, hs⟩, hr⟩ := h
  exact ⟨ht, hh, hs, hr⟩

theorem asideButWaits_of_aside {s s' : State} {l : List Signal} {time : Int}
    (h : aside.rel s l s') : (asideButWaits time).rel s l s' := by
  obtain ⟨⟨ht, hh, hp, hs⟩, hr⟩ := h
  exact ⟨ht, hh, hp, standbyFrom_of_eq hs.1 time l, hs.2, hr⟩

theorem aside_of_notification {n : Notification} (h : n.Aside) (s : State) :
    aside.rel s [.notification n] s :=
  ⟨⟨rfl, ⟨rfl, by simpa [sending] using h.interrupt⟩, ⟨rfl, by simpa [sending] using h.block⟩, rfl,
    by simpa [sending] using h.switch⟩, by simpa [requestsUntold, sending] using h.request⟩

theorem aside_notify {n : Notification} (h : n.Aside) : Fulfils aside (notify n) :=
  fulfils_notify (aside_of_notification h)

theorem aside_report (d : Diagnostic) : Fulfils aside (report d) :=
  fulfils_report fun s => ⟨⟨rfl, ⟨rfl, by simp [sending]⟩, ⟨rfl, by simp [sending]⟩, rfl, by
    simp [sending]⟩, by simp [requestsUntold, sending]⟩

/-! ## Changes of threads and CPUs -/

theorem aside_of_tables_eq {s s' : State} (ht : s'.tracing = s.tracing) (hc : s'.cpus = s.cpus)
    (hd : s'.disks = s.disks) (hs : ∀ k, s'.standby k = s.standby k) : aside.rel s [] s' := by
  refine aside_of_eq ht ?_ ?_ (funext hs)
  · funext cpu
    unfold State.handlers State.cpuOrFresh
    rw [hc]
  · funext dev
    unfold State.pending
    rw [hd]

theorem aside_setThread {s : State} {tid : Int} {t : Thread} (h : t.standby = s.standby tid) :
    aside.rel s [] (s.setThread tid t) :=
  aside_of_tables_eq rfl rfl rfl (State.part_setThread_of_eq (v := Thread.standby) h)

theorem aside_updateThread (tid : Int) {f : Thread → Thread} (h : ∀ t, (f t).standby = t.standby)
    (s : State) : aside.rel s [] (s.updateThread tid f) :=
  aside_of_tables_eq rfl rfl rfl (State.part_updateThread_of_eq (v := Thread.standby) h)

theorem aside_adjustThread (tid : Int) {f : Thread → Thread} (h : ∀ t, (f t).standby = t.standby)
    (s : State) : aside.rel s [] (s.adjustThread tid f) :=
  aside_of_tables_eq rfl rfl rfl (State.part_adjustThread_of_eq (v := Thread.standby) h)

theorem aside_adjustRequest (tid : Int) (f : IoRequest → IoRequest) (s : State) :
    aside.rel s [] (s.adjustRequest tid f) := by
  refine aside_adjustThread tid ?_ s
  exact fun _ => rfl

theorem aside_adjustFd (tid number : Int) (f : Fd → Fd) (s : State) :
    aside.rel s [] (s.adjustFd tid number f) := by
  refine aside_adjustThread tid ?_ s
  exact fun _ => rfl

/-- Changing a CPU but for its interrupts touches no facet. -/
theorem aside_updateCpu (cpu : Nat) {f : Cpu → Cpu} (h : ∀ c, (f c).handlers = c.handlers)
    (s : State) : aside.rel s [] (s.updateCpu cpu f) :=
  aside_of_eq rfl (State.handlers_updateCpu_of_eq h) rfl rfl

theorem aside_admitCpu (cpu : Nat) : Fulfils aside (admitCpu cpu) := by
  unfold admitCpu
  refine fulfils_get.bind fun s => fulfils_ite (fulfils_pure _) ?_
  exact Fulfils.modify_bind (aside_updateCpu cpu fun _ => rfl) (aside_report _)

/-- Making a thread touches no facet, as scheduling remembers nothing of it yet. -/
theorem aside_admitGroup (tid pid : Int) (comm : String) (s : State) :
    aside.rel s []
      (if s.threads.contains tid then s else s.setThread tid (.ofGroup tid pid comm)) := by
  split
  · exact aside.idle s
  · rename_i h
    exact aside_setThread (State.standby_of_none (State.thread?_of_not_contains h)).symm

/-! ## Scheduling -/

namespace Scheduling

theorem aside_learnPriority (time tid prio : Int) : Fulfils aside (learnPriority time tid prio) := by
  unfold learnPriority
  refine fulfils_ite (fulfils_pure _) ?_
  refine Fulfils.modify_bind (aside_updateThread tid fun _ => rfl) ?_
  refine fulfils_get.bind fun s => fulfils_ite (fulfils_pure _) ?_
  refine Fulfils.modify_bind (aside_adjustThread tid fun _ => rfl) ?_
  exact aside_notify ⟨id, id, id, id⟩

theorem aside_setPriority (e : Event) : Fulfils aside (setPriority e) :=
  fulfils_whenSome fun tid => fulfils_whenSome fun prio => aside_learnPriority e.time tid prio

end Scheduling

/-! ## Descriptors -/

namespace Descriptors

theorem aside_announce (change : FdChange) (owner number time : Int) (cpu : Option Nat) :
    Fulfils aside (announce change owner number time cpu) := by
  refine fulfils_get.bind fun s => ?_
  split
  · exact aside_notify ⟨id, id, id, id⟩
  · exact fulfils_pure _

theorem aside_ensure (owner : Int) (fd : Fd) (time : Int) (cpu : Option Nat) :
    Fulfils aside (ensure owner fd time cpu) := by
  refine fulfils_get.bind fun s => fulfils_ite (fulfils_pure _) ?_
  refine Fulfils.modify_bind (aside_updateThread owner fun _ => rfl) ?_
  exact aside_announce .create owner fd.number time cpu

theorem aside_close (owner number time : Int) (cpu : Option Nat) :
    Fulfils aside (close owner number time cpu) := by
  refine (aside_announce .close owner number time cpu).bind fun _ => ?_
  exact fulfils_modify (aside_adjustThread owner fun _ => rfl)

end Descriptors

theorem Scheduling.aside_exec (e : Event) : Fulfils aside (exec e) := by
  refine fulfils_whenSome fun tid => ?_
  refine Fulfils.modify_bind (aside_updateThread tid fun _ => rfl) ?_
  refine fulfils_get.bind fun s => fulfils_forEach fun number => ?_
  exact Descriptors.aside_close _ number e.time e.cpu?

/-! ## Pages and packets -/

namespace Paging

theorem aside_announce (e : Event) {about : Thread → Nat → Notification}
    (h : ∀ t cpu, (about t cpu).Aside) : Fulfils aside (announce e about) :=
  fulfils_whenSome fun _ => fulfils_get.bind fun _ => fulfils_whenSome fun t => aside_notify (h t _)

theorem aside_alloc (e : Event) : Fulfils aside (alloc e) := by
  refine Fulfils.modify_bind (fun s => ?_) (aside_announce e fun _ _ => ⟨id, id, id, id⟩)
  refine aside_of_tables_eq rfl rfl rfl ?_
  exact State.part_mapThreads_of_eq (s := { s with pageCount := _ }) (v := Thread.standby)
    fun _ => rfl

/-- A page is taken off only a count that is not zero. -/
theorem aside_free (e : Event) : Fulfils aside (free e) := by
  refine Fulfils.get_bind fun s => ?_
  split
  · exact fulfilsAt_pure _
  · rename_i hpages
    refine FulfilsAt.compute_bind (a := s.pageCount - 1) (checkedPred_eq_ok_iff.2 (by omega)) ?_
    refine FulfilsAt.modify_bind (aside_of_tables_eq rfl rfl rfl fun _ => rfl) ?_
    exact aside_announce e (fun _ _ => ⟨id, id, id, id⟩) _

theorem aside_apply (kind : EventKind) (e : Event) : Fulfils aside (apply kind e) := by
  cases kind
  case pageAlloc => exact aside_alloc e
  case pageFree | pageFreeKmem => exact aside_free e
  all_goals exact fulfils_pure _

end Paging

namespace Traffic

theorem aside_guessFor (tid : Int) (s : State) : aside.rel s [] (guessFor tid s) := by
  unfold guessFor
  split
  · exact aside.idle s
  · dsimp only
    split
    · exact aside_adjustFd _ _ _ s
    · exact aside_adjustRequest tid guessSocket s

theorem aside_apply (kind : EventKind) (e : Event) : Fulfils aside (apply kind e) := by
  cases kind
  case netTransmit =>
    refine fulfils_whenSome fun iface => ?_
    refine Fulfils.modify_bind (fun s => aside_of_eq rfl rfl rfl rfl) ?_
    refine (aside_notify ⟨id, id, id, id⟩).bind fun _ => fulfils_get.bind fun s => ?_
    exact fulfils_whenSome fun tid => fulfils_modify (aside_guessFor tid)
  case netReceive =>
    refine fulfils_whenSome fun iface => ?_
    refine Fulfils.modify_bind (fun s => aside_of_eq rfl rfl rfl rfl) ?_
    exact aside_notify ⟨id, id, id, id⟩
  all_goals exact fulfils_pure _

end Traffic

/-! ## Snapshots -/

namespace Snapshot

theorem aside_processState (e : Event) : Fulfils aside (processState e) := by
  refine fulfils_whenSome fun tid => fulfils_whenSome fun pid => ?_
  refine Fulfils.modify_bind (aside_updateThread tid fun _ => rfl) ?_
  refine fulfils_ite (fulfils_pure _) ?_
  refine Fulfils.modify_bind (aside_admitGroup _ _ _) ?_
  refine Fulfils.modify_bind (fun s => ?_) ?_
  · refine aside.chain_silent (aside_adjustThread tid ?_ s) (aside_adjustThread pid ?_ _)
    · exact fun _ => rfl
    · exact fun _ => rfl
  · refine fulfils_get.bind fun s => ?_
    split
    · exact aside_notify ⟨id, id, id, id⟩
    · exact fulfils_pure _

theorem aside_fileDescriptor (e : Event) : Fulfils aside (fileDescriptor e) := by
  refine fulfils_whenSome fun pid => fulfils_whenSome fun number => ?_
  refine fulfils_whenSome fun filename => ?_
  refine Fulfils.modify_bind (aside_admitGroup _ _ _) ?_
  refine fulfils_get.bind fun s => fulfils_ite ?_ ?_
  · refine Fulfils.modify_bind (aside_adjustFd pid number _) ?_
    exact Descriptors.aside_announce _ _ _ _ _
  · refine Fulfils.modify_bind (aside_adjustThread pid fun _ => rfl) ?_
    exact Descriptors.aside_announce _ _ _ _ _

/-- The name of a device does not matter to the requests pending on it. -/
theorem aside_blockDevice (e : Event) : Fulfils aside (blockDevice e) := by
  refine fulfils_whenSome fun dev => fulfils_whenSome fun name => fulfils_modify fun s => ?_
  refine aside_of_eq rfl rfl (funext fun k => ?_) rfl
  refine (State.pending_updateDisk (g := id) s dev k ?_).trans (ite_self _)
  exact fun _ => rfl

theorem aside_apply (kind : EventKind) (e : Event) : Fulfils aside (apply kind e) := by
  cases kind
  case processState => exact aside_processState e
  case fileDescriptor => exact aside_fileDescriptor e
  case blockDevice => exact aside_blockDevice e
  all_goals exact fulfils_pure _

end Snapshot

/-! ## Syscalls and I/O requests -/

theorem Syscalls.aside_entry (e : Event) : Fulfils aside (entry e) := by
  refine fulfils_whenSome fun cpu => fulfils_get.bind fun s => ?_
  split
  · exact fulfils_modify (aside_updateThread _ fun _ => rfl)
  · exact aside_report _

namespace IoRequests

theorem aside_learnGroup (e : Event) (tid : Int) : Fulfils aside (learnGroup e tid) := by
  refine fulfils_ite (fulfils_pure _) (fulfils_whenSome fun pid => ?_)
  refine Fulfils.modify_bind (aside_updateThread tid fun _ => rfl) (Fulfils.get_bind fun s => ?_)
  dsimp only
  split
  · exact fulfilsAt_pure _
  · refine FulfilsAt.modify_bind (aside_setThread rfl) ?_
    split
    · exact fulfilsAt_pure _
    · rename_i hknown
      refine FulfilsAt.bind (aside_report _ _) fun o ho _ => ?_
      cases ho
      refine ⟨_, rfl, aside_setThread ?_⟩
      -- Nothing is remembered of the leader, even if it is the thread itself.
      have hblank : s.standby pid = {} := State.standby_of_none (State.thread?_of_not_contains hknown)
      rw [State.standby_setThread]
      split
      · rename_i hpid
        rw [hpid] at hblank
        exact hblank.symm
      · exact hblank.symm

theorem aside_attach (e : Event) (tid : Int) (syscall : String) (body : IoBody) :
    Fulfils aside (attach e tid syscall body) := by
  refine fulfils_get.bind fun s => fulfils_ite ?_ (aside_report _)
  exact fulfils_modify (aside_adjustThread tid fun _ => rfl)

theorem aside_entry (e : Event) : Fulfils aside (entry e) := by
  refine fulfils_whenSome fun kind => fulfils_get.bind fun s => fulfils_whenSome fun tid => ?_
  refine (aside_learnGroup e tid).bind fun _ => fulfils_ite ?_ ?_
  · refine fulfils_whenSome fun args => fulfils_get.bind fun s => ?_
    refine Fulfils.bind (fulfils_whenSome fun target => ?_) fun _ => aside_attach _ _ _ _
    exact Descriptors.aside_close _ target e.time e.cpu?
  · exact fulfils_whenSome fun body => aside_attach _ _ _ _

theorem aside_countSide (owner tid : Int) (side : Option Int) (onFd : Fd → Fd)
    (onThread : FdType → IoCounts → IoCounts) (s : State) :
    aside.rel s [] (countSide owner tid side onFd onThread s) := by
  unfold countSide
  split
  · refine aside.chain_silent (aside_adjustFd owner _ _ s) (aside_adjustThread tid ?_ _)
    exact fun _ => rfl
  · exact aside.idle s

theorem aside_applyBody (body : IoBody) (e : Event) (tid owner : Int) (cpu : Nat) :
    Fulfils aside (applyBody body e tid owner cpu) := by
  cases body with
  | opening request => exact fulfils_whenSome fun number => Descriptors.aside_ensure _ _ _ _
  | close fd => exact fulfils_pure _
  | transfer t =>
    refine Fulfils.bind (fulfils_forEach fun number => Descriptors.aside_ensure _ _ _ _) fun _ => ?_
    refine fulfils_modify fun s => ?_
    unfold countBytes
    split
    · exact aside.idle s
    · exact aside.chain_silent (aside_countSide ..) (aside_countSide ..)
  | sync fd size => exact fulfils_whenSome fun number => Descriptors.aside_ensure _ _ _ _
  | connect number address =>
    refine fulfils_whenSome fun filename => ?_
    refine Fulfils.modify_bind (aside_adjustFd owner number _) ?_
    exact Descriptors.aside_announce _ _ _ _ _

theorem aside_pagesWritten (e : Event) : Fulfils aside (pagesWritten e) := by
  refine fulfils_whenSome fun pages => fulfils_get.bind fun s => fulfils_forEach fun tid => ?_
  exact fulfils_modify (aside_adjustRequest tid _)

theorem aside_kswapdWakeup (e : Event) : Fulfils aside (kswapdWakeup e) := by
  refine fulfils_get.bind fun s => fulfils_whenSome fun tid => ?_
  exact fulfils_modify (aside_adjustRequest tid _)

theorem aside_pageFree : Fulfils aside pageFree := by
  refine fulfils_get.bind fun s => fulfils_forEach fun tid => ?_
  exact fulfils_modify (aside_adjustRequest _ _)

end IoRequests

end KernelReplay
