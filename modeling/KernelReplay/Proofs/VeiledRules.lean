import Mathlib.Data.List.Forall2
import KernelReplay.Proofs.FacetSteps
import KernelReplay.Proofs.PageRules
import KernelReplay.Proofs.Veils

/-
  The rules under a veil. Each rule is blind to what it does not look at: the rules for block
  requests to all but devices, the rules for packets to all but interfaces, those for pages to all
  but the counts of pages, and every other rule to everything that a veil alters
  (`blind_applyKind`).
-/

namespace KernelReplay

open Update

variable {v : Veil}

/-! ## Descriptors -/

namespace Descriptors

theorem blind_announce (change : FdChange) (owner number time : Int) (cpu : Option Nat) :
    Blind v (announce change owner number time cpu) := by
  refine Blind.get_bind fun s => ?_
  simp only [Veil.thread?_state, Veil.ownFd?_state]
  cases s.thread? owner with
  | none => exact blindAt_pure ()
  | some thread =>
    cases s.ownFd? owner number with
    | none => exact blindAt_pure ()
    | some fd => exact blindAt_notify rfl

theorem blind_ensure (owner : Int) (fd : Fd) (time : Int) (cpu : Option Nat) :
    Blind v (ensure owner fd time cpu) := by
  refine Blind.get_bind fun s => blindAt_ite (by rw [Veil.ownFd?_state]) (blindAt_pure ()) ?_
  refine BlindAt.modify_bind (v.updateThread_state s owner fun _ => rfl) ?_
  exact blind_announce .create owner fd.number time cpu _

theorem blind_close (owner number time : Int) (cpu : Option Nat) :
    Blind v (close owner number time cpu) := by
  refine (blind_announce .close owner number time cpu).bind fun _ => ?_
  exact blind_modify fun s => v.adjustThread_state s owner fun _ => rfl

end Descriptors

/-! ## Scheduling -/

namespace Scheduling

theorem blind_learnPriority (time tid prio : Int) : Blind v (learnPriority time tid prio) := by
  refine blind_ite (blind_pure ()) ?_
  refine Blind.modify_bind (fun s => v.admitThread_state s tid) (Blind.get_bind fun s => ?_)
  refine blindAt_ite (by rw [Veil.threadOrFresh_state, Veil.thread_prio]) (blindAt_pure ()) ?_
  exact BlindAt.modify_bind (v.adjustThread_state s tid fun _ => rfl) (blindAt_notify rfl)

theorem switchReport_state (s : State) (time : Int) (cpu : Nat) (prevTid nextTid : Int) :
    switchReport (v.state s) time cpu prevTid nextTid =
      (switchReport s time cpu prevTid nextTid).map (·.mapThreads v.thread) := by
  unfold switchReport
  dsimp only
  rw [Veil.threadOrFresh_state, Veil.thread_lastWakeup, Veil.thread_lastWaker,
    Veil.bind_thread?_state]
  cases elapsed (s.threadOrFresh nextTid).lastWakeup (some time) <;> rfl

theorem blind_takeOver (e : Event) (cpu : Nat) (prevTid nextTid : Int) :
    Blind v (takeOver e cpu prevTid nextTid) := by
  refine (blind_admitCpu cpu).bind fun _ => ?_
  refine Blind.modify_bind (fun s => v.updateCpu_state s cpu _) ?_
  refine Blind.modify_bind (fun s => v.admitThread_state s prevTid) ?_
  refine Blind.modify_bind (fun s => v.updateThread_state s nextTid fun _ => rfl) ?_
  refine (blind_whenSome fun prio => blind_learnPriority e.time prevTid prio).bind fun _ => ?_
  exact blind_whenSome fun prio => blind_learnPriority e.time nextTid prio

theorem blind_announceSwitch (time : Int) (cpu : Nat) (prevTid nextTid : Int) :
    Blind v (announceSwitch time cpu prevTid nextTid) := by
  refine Blind.get_bind fun s => ?_
  refine BlindAt.compute_bind (switchReport_state s time cpu prevTid nextTid) fun taken _ => ?_
  refine (blindAt_notify rfl).bind fun o ho => ?_
  cases ho
  refine (blindAt_notify rfl).bind fun o ho => ?_
  cases ho
  exact blindAt_modify (v.adjustThread_state s nextTid fun _ => rfl)

theorem blind_switch (e : Event) : Blind v (switch e) := by
  unfold switch
  split
  · exact (blind_takeOver e _ _ _).bind fun _ => blind_announceSwitch _ _ _ _
  · exact blind_report _

theorem blind_migrate (e : Event) : Blind v (migrate e) := by
  refine blind_whenSome fun tid => Blind.get_bind fun s => ?_
  have hthread : ((v.state s).thread? tid).getD { tid, comm := (e.text? "comm").getD "" } =
      v.thread ((s.thread? tid).getD { tid, comm := (e.text? "comm").getD "" }) := by
    rw [Veil.thread?_state]
    cases s.thread? tid <;> rfl
  dsimp only
  rw [hthread, Veil.thread_migrations]
  refine BlindAt.compute_bind (φ := id) (by cases checkedSucc _ <;> rfl) fun migrations _ => ?_
  refine BlindAt.modify_bind (v.setThread_state s rfl) ?_
  refine (blindAt_notify rfl).bind fun o ho => ?_
  exact blind_whenSome (fun prio => blind_learnPriority e.time tid prio) _

/-- A wakeup looks at whether priorities are reported too high, and at nothing else that a veil
alters. So wakeups that differ in the priority alone do the same where they correct it to the same.
-/
theorem blindAt_wakeup {e e' : Event} {s : State} (htid : e'.int? "tid" = e.int? "tid")
    (htarget : e'.cpuField? "target_cpu" = e.cpuField? "target_cpu") (hcpu : e'.cpu? = e.cpu?)
    (htime : e'.time = e.time)
    (hprio : ∀ s' : State, s'.priorityOffset = s.priorityOffset →
      (e'.int? "prio").map (wakeupPriority (v.state s')) =
        (e.int? "prio").map (wakeupPriority s')) :
    BlindAt v (wakeup e) (wakeup e') s := by
  unfold wakeup
  rw [htid, htarget, hcpu, htime]
  refine blindAt_whenSome fun tid _ => ?_
  refine (blind_whenSome (fun cpu => blind_admitCpu cpu) s).bind fun o₁ h₁ => ?_
  refine (blind_whenSome (fun cpu => blind_admitCpu cpu) o₁.state).bind fun o₂ h₂ => ?_
  have hoffset : o₂.state.priorityOffset = s.priorityOffset := by
    rw [priorityOffset_admitCpus h₂, priorityOffset_admitCpus h₁]
  refine BlindAt.get_bind (blindAt_ite Iff.rfl (blindAt_report _) ?_)
  refine BlindAt.modify_bind (v.admitThread_state o₂.state tid) ?_
  refine BlindAt.bind ?_ fun o _ => ?_
  · have hread := hprio o₂.state hoffset
    cases hp : e.int? "prio" with
    | none =>
      cases hp' : e'.int? "prio" with
      | none => exact blindAt_pure ()
      | some reported' => rw [hp, hp'] at hread; cases hread
    | some reported =>
      cases hp' : e'.int? "prio" with
      | none => rw [hp, hp'] at hread; cases hread
      | some reported' =>
        rw [hp, hp', Option.map_some, Option.map_some] at hread
        have hid : wakeupPriority (v.state o₂.state) reported' =
            (wakeupPriority o₂.state reported).map id := by
          rw [Option.some.inj hread]
          exact (congrFun Except.map_id _).symm
        exact BlindAt.compute_bind hid fun prio _ => blind_learnPriority e.time tid prio _
  · refine blindAt_modify (v.adjustThread_state o.state tid fun t => ?_)
    show (v.thread t).wake e.time (e.cpu?.bind o₂.state.running?) = v.thread (t.wake ..)
    unfold Thread.wake
    rw [Veil.thread_lastWakeup]
    split <;> rfl

theorem blind_wakeup (h : v.offset = id) (e : Event) : Blind v (wakeup e) := by
  intro s
  refine blindAt_wakeup rfl rfl rfl rfl fun s' _ => ?_
  have hoffset : (v.state s').priorityOffset = s'.priorityOffset := congrFun h _
  have hsame : wakeupPriority (v.state s') = wakeupPriority s' := by
    unfold wakeupPriority
    rw [hoffset]
  rw [hsame]

theorem blind_fork (e : Event) : Blind v (fork e) := by
  refine blind_whenSome fun childTid => blind_whenSome fun parentTid => ?_
  refine Blind.modify_bind (fun s => v.updateThread_state s parentTid fun _ => rfl) ?_
  refine Blind.get_bind fun s => ?_
  dsimp only
  rw [Veil.fdOwner_state, Veil.fds_state]
  refine (blindAt_report _).bind fun o ho => ?_
  cases ho
  refine BlindAt.modify_bind (v.setThread_state s rfl) ?_
  exact blind_forEach (fun number => Descriptors.blind_announce _ _ _ _ _) _

theorem blind_exec (e : Event) : Blind v (exec e) := by
  refine blind_whenSome fun tid => ?_
  refine Blind.modify_bind (fun s => v.updateThread_state s tid fun _ => rfl) ?_
  refine Blind.get_bind fun s => ?_
  dsimp only
  rw [Veil.fdOwner_state, Veil.fds_state]
  exact blind_forEach (fun number => Descriptors.blind_close _ _ _ _) _

theorem blind_setPriority (e : Event) : Blind v (setPriority e) :=
  blind_whenSome fun tid => blind_whenSome fun prio => blind_learnPriority e.time tid prio

end Scheduling

/-! ## Pages -/

namespace Paging

theorem blind_announce (e : Event) {about : Thread → Nat → Notification}
    (h : ∀ t cpu, about (v.thread t) cpu = v.notification (about t cpu)) :
    Blind v (announce e about) := by
  refine blind_whenSome fun cpu => Blind.get_bind fun s => ?_
  refine blindAt_whenSome_map ?_ fun t _ => blindAt_notify (h t cpu)
  rw [Veil.running?_state, Veil.bind_thread?_state]

theorem blind_alloc (h : v.pageCount = id) (e : Event) : Blind v (alloc e) := by
  refine Blind.modify_bind (fun s => ?_) (blind_announce e fun _ _ => rfl)
  unfold Veil.state
  dsimp only
  rw [h, Table.map_map, Table.map_map]
  have hthread : ∀ t : Thread, (v.thread t).mapRequest countAllocated =
      v.thread (t.mapRequest countAllocated) := v.mapRequest_thread fun _ => rfl
  simp only [hthread, id]

theorem blind_free (h : v.pageCount = id) (e : Event) : Blind v (free e) := by
  refine Blind.get_bind fun s => ?_
  have hcount : (v.state s).pageCount = s.pageCount := congrFun h _
  rw [hcount]
  refine blindAt_ite Iff.rfl (blindAt_pure ()) ?_
  refine BlindAt.compute_bind (φ := id) (by cases checkedPred _ <;> rfl) fun left _ => ?_
  refine BlindAt.modify_bind ?_ (blind_announce e (fun _ _ => rfl) _)
  unfold Veil.state
  rw [h]

end Paging

/-! ## Interrupts -/

namespace Interrupts

/-- The rules for interrupts look at CPUs, which no veil alters. -/
theorem blind_apply (kind : EventKind) (e : Event) : Blind v (apply kind e) := by
  cases kind
  case irqEntry =>
    refine blind_whenSome fun cpu => blind_whenSome fun id => ?_
    refine (blind_admitCpu cpu).bind fun _ => ?_
    exact Blind.modify_bind (fun s => v.updateCpu_state s cpu _) (blind_notify rfl)
  case irqExit =>
    refine blind_whenSome fun cpu => (blind_admitCpu cpu).bind fun _ => Blind.get_bind fun s => ?_
    refine BlindAt.modify_bind (v.updateCpu_state s cpu _) (blindAt_whenSome fun id _ => ?_)
    rw [Veil.cpuOrFresh_state]
    split
    · exact blindAt_notify rfl
    · exact blindAt_report _
  case softIrqRaise =>
    refine blind_whenSome fun cpu => blind_whenSome fun vector => ?_
    refine (blind_admitCpu cpu).bind fun _ => Blind.get_bind fun s => ?_
    refine BlindAt.modify_bind (v.updateCpu_state s cpu _) ?_
    exact blindAt_ite (by rw [Veil.cpuOrFresh_state]) (blindAt_report _) (blindAt_pure ())
  case softIrqEntry =>
    refine blind_whenSome fun cpu => blind_whenSome fun vector => ?_
    refine (blind_admitCpu cpu).bind fun _ => ?_
    exact blind_modify fun s => v.updateCpu_state s cpu _
  case softIrqExit =>
    refine blind_whenSome fun cpu => blind_whenSome fun vector => ?_
    refine (blind_admitCpu cpu).bind fun _ => Blind.get_bind fun s => ?_
    refine BlindAt.modify_bind (v.updateCpu_state s cpu _) ?_
    rw [Veil.cpuOrFresh_state]
    split
    · exact blindAt_notify rfl
    · exact blindAt_report _
  all_goals exact blind_pure ()

end Interrupts

/-! ## Syscalls -/

namespace Syscalls

theorem blind_entry (e : Event) : Blind v (entry e) := by
  refine blind_whenSome fun cpu => Blind.get_bind fun s => ?_
  rw [Veil.running?_state]
  split
  · exact blindAt_modify (v.updateThread_state s _ fun _ => rfl)
  · exact blindAt_report _

theorem finish_call (c : Call) (time : Int) (ret : Option Int) :
    (v.call c).finish time ret = (c.finish time ret).map v.call := by
  unfold Call.finish
  show (checkedSub time c.begun >>= _) = (checkedSub time c.begun >>= _).map v.call
  cases checkedSub time c.begun <;> rfl

theorem blindAt_leave (e : Event) (cpu : Nat) (tid : Int) (thread : Thread) (call : Call)
    (s : State) :
    BlindAt v (leave e cpu tid thread call) (leave e cpu tid (v.thread thread) (v.call call))
      s := by
  refine BlindAt.compute_bind (finish_call call e.time (e.int? "ret")) fun call _ => ?_
  refine BlindAt.modify_bind (v.setThread_state s rfl) ?_
  refine (blindAt_notify rfl).bind fun o _ => blindAt_ite Iff.rfl (blindAt_pure ()) ?_
  exact blindAt_modify (v.setThread_state o.state rfl)

theorem blind_exit (e : Event) : Blind v (exit e) := by
  refine blind_whenSome fun cpu => Blind.get_bind fun s => blindAt_whenSome fun tid _ => ?_
  refine blindAt_whenSome_map (v.thread?_state s tid) fun thread _ => ?_
  rw [Veil.thread_call]
  cases thread.call with
  | none => exact blindAt_report _
  | some call => exact blindAt_leave e cpu tid thread call s

theorem blind_apply (kind : EventKind) (e : Event) : Blind v (apply kind e) := by
  cases kind
  case syscallEntry => exact blind_entry e
  case syscallExit => exact blind_exit e
  all_goals exact blind_pure ()

end Syscalls

/-! ## I/O requests -/

namespace IoRequests

theorem blind_learnGroup (e : Event) (tid : Int) : Blind v (learnGroup e tid) := by
  refine blind_ite (blind_pure ()) (blind_whenSome fun pid => ?_)
  refine Blind.modify_bind (fun s => v.admitThread_state s tid) (Blind.get_bind fun s => ?_)
  dsimp only
  rw [Veil.threadOrFresh_state, Veil.contains_state]
  refine blindAt_ite Iff.rfl (blindAt_pure ()) ?_
  refine BlindAt.modify_bind (v.setThread_state s rfl) ?_
  refine blindAt_ite Iff.rfl (blindAt_pure ()) ?_
  exact (blindAt_report _).bind fun o _ => blindAt_modify (v.setThread_state o.state rfl)

/-- A request that is attached is as it is under the veil, as no page has been freed for it. -/
theorem blind_attach (e : Event) (tid : Int) (syscall : String) (body : IoBody) :
    Blind v (attach e tid syscall body) := by
  refine Blind.get_bind fun s => blindAt_ite ?_ (blindAt_modify ?_) (blindAt_report _)
  · rw [Veil.thread?_state]
    cases s.thread? tid with
    | none => exact Iff.rfl
    | some t =>
      show ((t.call.map v.call).isSome = true) ↔ (t.call.isSome = true)
      rw [Option.isSome_map]
  · refine v.adjustThread_state s tid fun t => ?_
    have hbegun : v.request { tid, syscall, begun := e.time, body } =
        { tid, syscall, begun := e.time, body } := by
      unfold Veil.request
      rw [v.freed_zero, v.woke_false]
    unfold Veil.thread Thread.mapRequest
    cases t.call with
    | none => rfl
    | some c => simp only [Option.map_some, hbegun]

theorem blind_enterDup (e : Event) (tid : Int) (syscall : String) :
    Blind v (enterDup e tid syscall) := by
  refine blind_whenSome fun args => Blind.get_bind fun s => ?_
  dsimp only
  rw [Veil.fdOwner_state, Veil.ownFd?_state]
  refine BlindAt.bind ?_ fun o _ => blind_attach e tid syscall _ _
  exact blind_whenSome (fun target => Descriptors.blind_close _ _ _ _) s

theorem blind_entry (e : Event) : Blind v (entry e) := by
  refine blind_whenSome fun kind => Blind.get_bind fun s => blindAt_whenSome fun tid _ => ?_
  refine (blind_learnGroup e tid).bind (fun _ => ?_) s
  refine blind_ite (blind_enterDup e tid _) ?_
  exact blind_whenSome fun body => blind_attach e tid _ body

theorem countSide_state (owner tid : Int) (side : Option Int) (onFd : Fd → Fd)
    (onThread : FdType → IoCounts → IoCounts) (s : State) :
    countSide owner tid side onFd onThread (v.state s) =
      v.state (countSide owner tid side onFd onThread s) := by
  cases side with
  | none => rfl
  | some number =>
    unfold countSide
    dsimp only [Option.bind_some]
    rw [Veil.ownFd?_state]
    cases s.ownFd? owner number with
    | none => rfl
    | some fd =>
      dsimp only
      rw [Veil.adjustFd_state]
      exact v.adjustThread_state _ tid fun _ => rfl

theorem countBytes_state (t : Transfer) (tid owner : Int) (s : State) :
    countBytes t tid owner (v.state s) = v.state (countBytes t tid owner s) := by
  unfold countBytes
  cases t.returned with
  | none => rfl
  | some bytes =>
    dsimp only
    rw [countSide_state, countSide_state]

theorem blind_applyBody (body : IoBody) (e : Event) (tid owner : Int) (cpu : Nat) :
    Blind v (applyBody body e tid owner cpu) := by
  cases body with
  | opening request => exact blind_whenSome fun number => Descriptors.blind_ensure _ _ _ _
  | close fd => exact blind_pure ()
  | transfer t =>
    refine (blind_forEach fun number => Descriptors.blind_ensure _ _ _ _).bind fun _ => ?_
    exact blind_modify (countBytes_state t tid owner)
  | sync fd size => exact blind_whenSome fun number => Descriptors.blind_ensure _ _ _ _
  | connect number address =>
    refine blind_whenSome fun filename => ?_
    refine Blind.modify_bind (fun s => v.adjustFd_state s owner number _) ?_
    exact Descriptors.blind_announce _ _ _ _ _

theorem blind_settle (request : IoRequest) (e : Event) (tid owner : Int) (cpu : Nat) :
    Blind v (settle request e tid owner cpu) :=
  blind_ite (blind_applyBody request.body e tid owner cpu) (blind_pure ())

theorem blindAt_announceExit (request : IoRequest) (tid owner : Int) (s : State) :
    BlindAt v (announceExit request tid owner) (announceExit (v.request request) tid owner) s := by
  refine BlindAt.get_bind ?_
  rw [Veil.thread?_state, Veil.thread?_state]
  cases s.thread? tid with
  | none => exact blindAt_pure ()
  | some thread =>
    cases s.thread? owner with
    | none => exact blindAt_pure ()
    | some leader => exact blindAt_notify rfl

theorem finish_request (rq : IoRequest) (time : Int) (ret : Option Int) :
    (v.request rq).finish time ret = (rq.finish time ret).map v.request := by
  unfold IoRequest.finish
  show (checkedSub time rq.begun >>= _) = (checkedSub time rq.begun >>= _).map v.request
  cases checkedSub time rq.begun with
  | error => rfl
  | ok duration =>
    cases ret with
    | none => rfl
    | some ret =>
      dsimp only [bind, Except.bind]
      split
      · cases checkedNeg ret <;> rfl
      · rfl

theorem blindAt_finish (e : Event) (cpu : Nat) (tid : Int) (request : IoRequest) (s : State) :
    BlindAt v (finish e cpu tid request) (finish e cpu tid (v.request request)) s := by
  refine BlindAt.compute_bind (finish_request request e.time (e.int? "ret")) fun request _ => ?_
  refine BlindAt.get_bind ?_
  dsimp only
  rw [Veil.fdOwner_state, Veil.request_body]
  refine BlindAt.bind (blind_settle request e tid _ cpu s) fun o _ => ?_
  refine BlindAt.bind (blindAt_announceExit request tid _ o.state) fun o _ => ?_
  exact blind_whenSome (fun number => Descriptors.blind_close _ _ _ _) o.state

theorem blind_exit (e : Event) : Blind v (exit e) := by
  refine blind_whenSome fun cpu => Blind.get_bind fun s => blindAt_whenSome fun tid _ => ?_
  have hcall : ((v.state s).thread? tid).bind (·.call) =
      ((s.thread? tid).bind (·.call)).map v.call := by
    rw [Veil.thread?_state]
    cases s.thread? tid <;> rfl
  refine blindAt_whenSome_map hcall fun call _ => ?_
  refine blindAt_ite Iff.rfl ?_ (blindAt_pure ())
  refine BlindAt.modify_bind (v.adjustThread_state s tid fun _ => rfl) ?_
  exact blindAt_whenSome_map rfl fun request _ => blindAt_finish e cpu tid request _

theorem blind_pagesWritten (e : Event) : Blind v (pagesWritten e) := by
  refine blind_whenSome fun pages => Blind.get_bind fun s => ?_
  refine blind_forEach (fun tid => ?_) s
  exact blind_modify fun s => v.adjustRequest_state s tid fun _ => rfl

theorem blind_kswapdWakeup (h : v.woke true = true) (e : Event) : Blind v (kswapdWakeup e) := by
  refine Blind.get_bind fun s => blindAt_whenSome fun tid _ => ?_
  refine blindAt_modify (v.adjustRequest_state s tid fun rq => ?_)
  unfold Veil.request
  rw [h]

theorem chargedTo_state (s : State) (tid : Int) : chargedTo (v.state s) tid = chargedTo s tid := by
  unfold chargedTo
  rw [Veil.thread?_state]
  cases s.thread? tid <;> rfl

/-- A page is freed for the requests that woke the thread that reclaims pages, and counted there. -/
theorem blind_pageFree (h : ∀ rq, countFreed (v.request rq) = v.request (countFreed rq)) :
    Blind v pageFree := by
  refine Blind.get_bind fun s => ?_
  have hcharged : chargedTo (v.state s) = chargedTo s := funext (chargedTo_state s)
  rw [Veil.running_state, hcharged]
  exact blind_forEach (fun tid => blind_modify fun s' => v.adjustRequest_state s' _ h) s

end IoRequests

/-- Under this veil no page has been freed for any request. -/
def Veil.sansFreed : Veil := { Veil.sheer with freed := fun _ => 0, freed_zero := rfl }

namespace IoRequests

theorem sansFreed_adjustRequest (s : State) (tid : Int) :
    Veil.sansFreed.state (s.adjustRequest tid countFreed) = Veil.sansFreed.state s := by
  unfold State.adjustRequest
  cases ht : s.thread? tid with
  | none => rw [State.adjustThread_of_none ht]
  | some t =>
    have hcount : Veil.sansFreed.thread (t.mapRequest countFreed) = Veil.sansFreed.thread t := by
      unfold Veil.thread
      rw [Thread.mapRequest_mapRequest]
      refine congrArg t.mapRequest (funext fun rq => ?_)
      show Veil.sansFreed.request (countFreed rq) = Veil.sansFreed.request rq
      unfold countFreed
      split <;> rfl
    rw [State.adjustThread_eq_setThread ht, ← Veil.setThread_state _ s hcount.symm]
    refine State.setThread_of_thread? ?_
    rw [Veil.thread?_state, ht]
    rfl

theorem sansFreed_adjustRequests (s : State) (tids : List Int) :
    Veil.sansFreed.state (s.adjustRequests tids countFreed) = Veil.sansFreed.state s := by
  induction tids generalizing s with
  | nil => rfl
  | cons tid rest ih => rw [State.adjustRequests_cons, ih, sansFreed_adjustRequest]

/-- What a page freed does to requests cannot be seen where pages freed cannot. -/
theorem sansFreed_pageFreed (s : State) :
    Veil.sansFreed.state (pageFreed s) = Veil.sansFreed.state s :=
  sansFreed_adjustRequests s _

theorem pageCount_pageFreed (s : State) : (pageFreed s).pageCount = s.pageCount := by
  have hveiled : (Veil.sansFreed.state (pageFreed s)).pageCount =
      (Veil.sansFreed.state s).pageCount := by rw [sansFreed_pageFreed]
  exact hveiled

end IoRequests

/-! ## Snapshots -/

namespace Snapshot

theorem admitGroup_state (s : State) (pid : Int) (comm : String) :
    (if (v.state s).threads.contains pid then v.state s
      else (v.state s).setThread pid (.ofGroup pid pid comm)) =
      v.state (if s.threads.contains pid then s else s.setThread pid (.ofGroup pid pid comm)) := by
  rw [Veil.contains_state]
  split
  · rfl
  · exact v.setThread_state s rfl

theorem moveFds_state (tid pid : Int) (s : State) :
    moveFds tid pid (v.state s) = v.state (moveFds tid pid s) := by
  unfold moveFds
  dsimp only
  have hcleared : ((v.state s).adjustThread tid fun t => { t with fds := ∅ }) =
      v.state (s.adjustThread tid fun t => { t with fds := ∅ }) :=
    v.adjustThread_state s tid fun _ => rfl
  rw [Veil.fds_state, hcleared]
  exact v.adjustThread_state _ pid fun _ => rfl

theorem blind_processState (e : Event) : Blind v (processState e) := by
  refine blind_whenSome fun tid => blind_whenSome fun pid => ?_
  refine Blind.modify_bind (fun s => v.updateThread_state s tid fun _ => rfl) ?_
  refine blind_ite (blind_pure ()) ?_
  refine Blind.modify_bind (fun s => admitGroup_state s pid _) ?_
  refine Blind.modify_bind (moveFds_state tid pid) (Blind.get_bind fun s => ?_)
  rw [Veil.thread?_state, Veil.thread?_state]
  cases s.thread? tid with
  | none => exact blindAt_pure ()
  | some thread =>
    cases s.thread? pid with
    | none => exact blindAt_pure ()
    | some parent => exact blindAt_notify rfl

theorem blind_fileDescriptor (e : Event) : Blind v (fileDescriptor e) := by
  refine blind_whenSome fun pid => blind_whenSome fun number => blind_whenSome fun filename => ?_
  refine Blind.modify_bind (fun s => admitGroup_state s pid "") (Blind.get_bind fun s => ?_)
  refine blindAt_ite (by rw [Veil.ownFd?_state]) ?_ ?_
  · refine BlindAt.modify_bind (v.adjustFd_state s pid number _) ?_
    exact Descriptors.blind_announce _ _ _ _ _ _
  · refine BlindAt.modify_bind (v.adjustThread_state s pid fun _ => rfl) ?_
    exact Descriptors.blind_announce _ _ _ _ _ _

end Snapshot

/-! ## Devices and interfaces -/

theorem Veil.updateDisk_state (h : v.disks = id) (s : State) (dev : Nat) (f : Disk → Disk) :
    (v.state s).updateDisk dev f = v.state (s.updateDisk dev f) := by
  unfold State.updateDisk Veil.state
  dsimp only
  rw [h]
  rfl

theorem Veil.updateIface_state (h : v.ifaces = id) (s : State) (name : String)
    (f : Iface → Iface) : (v.state s).updateIface name f = v.state (s.updateIface name f) := by
  unfold State.updateIface Veil.state
  dsimp only
  rw [h]
  rfl

theorem Snapshot.blind_blockDevice (h : v.disks = id) (e : Event) : Blind v (blockDevice e) :=
  blind_whenSome fun dev => blind_whenSome fun _ =>
    blind_modify fun s => Veil.updateDisk_state h s dev _

namespace BlockRequests

variable (h : v.disks = id)

include h

theorem blind_place (request : BlockRequest) : Blind v (place request) := by
  refine Blind.get_bind fun s => ?_
  have hdisks : (v.state s).disks = s.disks := congrFun h _
  rw [hdisks]
  refine BlindAt.modify_bind (Veil.updateDisk_state h s _ _) ?_
  exact blindAt_whenSome fun stale _ => blindAt_report _

theorem blind_complete (dev sector sectors : Nat) (time : Int) :
    Blind v (complete dev sector sectors time) := by
  refine Blind.get_bind fun s => ?_
  have hdisks : (v.state s).disks = s.disks := congrFun h _
  rw [hdisks]
  split
  · exact blindAt_report _
  split
  · exact blindAt_report _
  · rename_i request _
    refine BlindAt.modify_bind (Veil.updateDisk_state h s _ _) ?_
    refine BlindAt.compute_bind (φ := id) (congrFun Except.map_id _).symm fun request _ => ?_
    refine blindAt_notify ?_
    exact congrArg (Notification.blockComplete request) (v.bind_thread?_state s request.tid)

theorem blind_completion (e : Event) (remaps : List Remap) : Blind v (completion e remaps) := by
  unfold completion
  split
  · exact (blind_complete h _ _ _ _).bind fun _ => blind_pure _
  · exact blind_pure _

theorem blind_issue (e : Event) (remaps : List Remap) :
    Blind v (apply .blockIssue e remaps) :=
  (blind_whenSome fun request => blind_place h request).bind fun _ => blind_pure _

end BlockRequests

namespace Traffic

theorem guessFor_state (tid : Int) (s : State) :
    guessFor tid (v.state s) = v.state (guessFor tid s) := by
  have hwritten : ∀ t, writtenFd? (v.thread t) = writtenFd? t := by
    intro t
    unfold writtenFd? Veil.thread Thread.mapRequest
    cases t.call with
    | none => rfl
    | some c => cases hrequest : c.request <;> simp [hrequest]
  unfold guessFor
  have hfd : ((v.state s).thread? tid).bind writtenFd? = (s.thread? tid).bind writtenFd? := by
    rw [Veil.thread?_state]
    cases s.thread? tid with
    | none => rfl
    | some t => exact hwritten t
  rw [hfd]
  split
  · rfl
  · dsimp only
    rw [Veil.fdOwner_state, Veil.ownFd?_state]
    split
    · exact v.adjustFd_state s _ _ _
    · refine v.adjustRequest_state s tid fun rq => ?_
      unfold guessSocket
      rw [Veil.request_body]
      split <;> rfl

variable (hi : v.ifaces = id) (hb : v.bytes = id)

include hi hb

theorem blind_transmit (e : Event) : Blind v (transmit e) := by
  refine blind_whenSome fun iface => ?_
  refine Blind.modify_bind (fun s => Veil.updateIface_state hi s iface _) ?_
  refine (blind_notify ?_).bind fun _ => Blind.get_bind fun s => ?_
  · rw [Veil.notification, hb]
    rfl
  · exact blindAt_whenSome fun tid _ => blindAt_modify (guessFor_state tid s)

theorem blind_receive (e : Event) : Blind v (receive e) := by
  refine blind_whenSome fun iface => ?_
  refine Blind.modify_bind (fun s => Veil.updateIface_state hi s iface _) (blind_notify ?_)
  rw [Veil.notification, hb]
  rfl

end Traffic

/-! ## Every rule -/

/-- A veil leaves alone what the rules for events of a kind look at. -/
def Veil.Spares (v : Veil) : EventKind → Prop
  | .schedWakeup => v.offset = id
  | .pageAlloc | .pageFreeKmem => v.pageCount = id
  | .pageFree => v.pageCount = id ∧
    ∀ rq, IoRequests.countFreed (v.request rq) = v.request (IoRequests.countFreed rq)
  | .kswapdWakeup => v.woke true = true
  | .blockDevice | .blockIssue | .blockComplete => v.disks = id
  | .netTransmit | .netReceive => v.ifaces = id ∧ v.bytes = id
  | _ => True

namespace Subsystem

variable {kind : EventKind}

/-- Every subsystem is blind to a veil that leaves alone what the event is about. -/
theorem blind_applyKind (h : v.Spares kind) (e : Event) (u : Subsystem) :
    Blind v (u.applyKind kind e) := by
  cases u with
  | scheduling =>
    refine Blind.bind ?_ fun _ => blind_pure _
    cases kind
    case schedSwitch => exact Scheduling.blind_switch e
    case schedMigrate => exact Scheduling.blind_migrate e
    case schedWakeup => exact Scheduling.blind_wakeup h e
    case schedFork => exact Scheduling.blind_fork e
    case schedExec => exact Scheduling.blind_exec e
    case schedSetPriority => exact Scheduling.blind_setPriority e
    all_goals exact blind_pure ()
  | paging =>
    refine Blind.bind ?_ fun _ => blind_pure _
    cases kind
    case pageAlloc => exact Paging.blind_alloc h e
    case pageFree => exact Paging.blind_free h.1 e
    case pageFreeKmem => exact Paging.blind_free h e
    all_goals exact blind_pure ()
  | interrupts => exact (Interrupts.blind_apply kind e).bind fun _ => blind_pure _
  | syscalls => exact (Syscalls.blind_apply kind e).bind fun _ => blind_pure _
  | ioRequests =>
    refine Blind.bind ?_ fun _ => blind_pure _
    cases kind
    case syscallEntry => exact IoRequests.blind_entry e
    case syscallExit => exact IoRequests.blind_exit e
    case pagesWritten => exact IoRequests.blind_pagesWritten e
    case kswapdWakeup => exact IoRequests.blind_kswapdWakeup h e
    case pageFree => exact IoRequests.blind_pageFree h.2
    all_goals exact blind_pure ()
  | snapshot =>
    refine Blind.bind ?_ fun _ => blind_pure _
    cases kind
    case processState => exact Snapshot.blind_processState e
    case fileDescriptor => exact Snapshot.blind_fileDescriptor e
    case blockDevice => exact Snapshot.blind_blockDevice h e
    all_goals exact blind_pure ()
  | blockRequests remaps =>
    refine Blind.bind ?_ fun _ => blind_pure _
    cases kind
    case blockIssue => exact BlockRequests.blind_issue h e remaps
    case blockComplete => exact BlockRequests.blind_completion h e remaps
    all_goals exact blind_pure _
  | traffic =>
    refine Blind.bind ?_ fun _ => blind_pure _
    cases kind
    case netTransmit => exact Traffic.blind_transmit h.1 h.2 e
    case netReceive => exact Traffic.blind_receive h.1 h.2 e
    all_goals exact blind_pure ()

end Subsystem

/-- Under the veil, the second event means to every subsystem what the first one means. -/
def Veil.Renders (v : Veil) (e e' : Event) : Prop :=
  ∀ (u : Subsystem) (s : State), BlindAt v (u.apply e) (u.apply e') s

/-- An event means the same under a veil that leaves alone what it is about. -/
theorem Veil.renders_of_spares {e : Event} (h : ∀ kind, e.kind? = some kind → v.Spares kind) :
    v.Renders e e := by
  intro u
  unfold Subsystem.apply
  split
  · rename_i kind hk
    exact Subsystem.blind_applyKind (h kind hk) e u
  · exact blind_pure u

namespace Replay

variable {e e' : Event} {events events' : List Event}

theorem blindAt_applyAll (h : v.Renders e e') (l : List Subsystem) (s : State) :
    BlindAt v (Subsystem.applyAll e l) (Subsystem.applyAll e' l) s := by
  induction l generalizing s with
  | nil => exact blindAt_pure []
  | cons u rest ih =>
    exact (h u s).bind fun o _ => (ih o.state).bind fun _ _ => blindAt_pure _

/-- Replaying an event under the veil gives what replaying another one gives, veiled, if the
subsystems make that of it. -/
theorem process_of_blindAt {r : Replay} (hall : BlindAt v (Subsystem.applyAll e r.subsystems)
    (Subsystem.applyAll e' r.subsystems) r.state) :
    (v.replay r).process e' = (r.process e).map v.progress := by
  unfold BlindAt at hall
  unfold Replay.process
  show (Subsystem.applyAll e' r.subsystems (v.state r.state) >>= _) = _
  rw [hall]
  cases Subsystem.applyAll e r.subsystems r.state with
  | error => rfl
  | ok o =>
    show (checkedSucc r.processed >>= _) = (checkedSucc r.processed >>= _).map v.progress
    cases checkedSucc r.processed <;> rfl

/-- Replaying the second event under the veil gives what replaying the first one gives, veiled. -/
theorem process_veiled (h : v.Renders e e') (r : Replay) :
    (v.replay r).process e' = (r.process e).map v.progress :=
  process_of_blindAt (blindAt_applyAll h r.subsystems r.state)

theorem run_veiled (h : List.Forall₂ v.Renders events events') (r : Replay) :
    (v.replay r).run events' = (r.run events).map v.progress := by
  induction h generalizing r with
  | nil => rfl
  | cons hfirst _ ih =>
    unfold Replay.run
    rw [process_veiled hfirst]
    cases r.process _ with
    | error => rfl
    | ok first =>
      show ((v.replay first.replay).run _ >>= _) = (first.replay.run _ >>= _).map v.progress
      rw [ih]
      cases first.replay.run _ with
      | error => rfl
      | ok last =>
        show Except.ok _ = Except.ok _
        simp [Veil.progress]

end Replay

end KernelReplay
