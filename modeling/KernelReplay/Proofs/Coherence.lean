import KernelReplay.Proofs.DescriptorViews
import KernelReplay.Proofs.StoredTimes
import KernelReplay.Proofs.WakeupLatency

/-
  The tables of a state agree with each other. Every entry carries the key that it is under, what is
  pending or queued has not ended, and whatever refers to a thread refers to one that is known
  (`State.Coherent`). The parts come from what a run is already known to keep: queues from the phases
  of soft interrupts, pending requests from the events that issued them, wakers from the wakeups of a
  wait. Only that a thread which runs waits for nothing is shown here by an induction of its own.
-/

namespace KernelReplay

/-- A request that waits under a sector of a device. -/
structure BlockRequest.WaitsUnder (rq : BlockRequest) (dev sector : Nat) : Prop where
  dev : rq.dev = dev
  sector : rq.sector = sector
  sized : rq.sectors ≠ 0
  direction : rq.operation = .read ∨ rq.operation = .write
  pending : rq.ended = none

/-- A soft interrupt that is queued for a vector on a CPU. -/
structure SoftIrq.QueuedOn (irq : SoftIrq) (cpu : Nat) (vector : Int) : Prop where
  cpu : irq.cpu = cpu
  vector : irq.vector = vector
  pending : irq.ended = none

/-- A hard interrupt that a CPU handles. -/
structure HardIrq.HandledOn (irq : HardIrq) (cpu : Nat) : Prop where
  cpu : irq.cpu = cpu
  pending : irq.ended = none

/-- Entries carry their own keys, and what they refer to is there. -/
structure State.Coherent (s : State) : Prop where
  cpus : ∀ cpu c, s.cpus.get? cpu = some c → c.id = cpu
  threads : ∀ tid t, s.thread? tid = some t → t.tid = tid
  fds : ∀ tid t number fd, s.thread? tid = some t → t.fds.get? number = some fd → fd.number = number
  disks : ∀ dev disk, s.disks.get? dev = some disk → disk.dev = dev
  ifaces : ∀ name iface, s.ifaces.get? name = some iface → iface.name = name
  requests : ∀ dev disk sector rq, s.disks.get? dev = some disk →
    disk.pending.get? sector = some rq → rq.WaitsUnder dev sector
  softIrqs : ∀ cpu c vector queue irq, s.cpus.get? cpu = some c →
    c.softIrqs.get? vector = some queue → irq ∈ queue → irq.QueuedOn cpu vector
  hardIrqs : ∀ cpu c irq, s.cpus.get? cpu = some c → c.hardIrq = some irq → irq.HandledOn cpu
  /-- Whoever runs is known, and not the idle thread. -/
  running : ∀ cpu c tid, s.cpus.get? cpu = some c → c.current = some tid → tid ≠ 0 ∧ s.Knows tid
  prevs : ∀ tid t prev, s.thread? tid = some t → t.prevTid = some prev → s.Knows prev
  /-- Whoever woke a thread is known, as is when. -/
  wakers : ∀ tid t waker, s.thread? tid = some t → t.lastWaker = some waker →
    s.Knows waker ∧ t.lastWakeup.isSome
  /-- A thread that runs waits for nothing. -/
  rested : ∀ cpu c tid t, s.cpus.get? cpu = some c → c.current = some tid →
    s.thread? tid = some t → t.lastWakeup = none ∧ t.lastWaker = none

/-! ## Entries of one table -/

theorem SoftIrqPhase.queuedOn {phase : SoftIrqPhase} {cpu : Nat} {vector : Int} {irq : SoftIrq}
    (h : irq ∈ phase.queue cpu vector) : irq.QueuedOn cpu vector := by
  cases phase with
  | idle => cases h
  | raised raise =>
    rw [List.mem_singleton.1 h]
    exact ⟨rfl, rfl, rfl⟩
  | running raise begun =>
    rw [List.mem_singleton.1 h]
    exact ⟨rfl, rfl, rfl⟩
  | runningRaised raise begun again =>
    rcases List.mem_cons.1 h with rfl | h
    · exact ⟨rfl, rfl, rfl⟩
    · rw [List.mem_singleton.1 h]
      exact ⟨rfl, rfl, rfl⟩

/-- A request is issued with a size, in one direction, and not over. -/
theorem BlockRequest.waitsUnder_of_issue? {e : Event} {device : Location → Nat} {rq : BlockRequest}
    (h : e.issue? device = some rq) : rq.WaitsUnder rq.dev rq.sector := by
  unfold Event.issue? at h
  split at h
  · split at h
    · cases h
    · rename_i flags _ _ _ _ _ hsized
      cases h
      refine ⟨rfl, rfl, hsized, ?_, rfl⟩
      dsimp only
      split
      · exact Or.inl rfl
      · exact Or.inr rfl
  · cases h

namespace Run

variable {settings : Settings} {history more : List Step} {r r' : Replay} {e : Event}
  {p : Replay.Progress}

theorem waitsUnder_of_pendingAt (h : Run settings history r) {place : Location} {rq : BlockRequest}
    (hrq : r.state.pendingAt place = some rq) : rq.WaitsUnder place.dev place.sector := by
  obtain ⟨rfl, step, -, remaps, hissued⟩ := h.issued_of_pendingAt hrq
  exact BlockRequest.waitsUnder_of_issue? hissued

theorem handledOn (h : Run settings history r) {cpu : Nat} {irq : HardIrq}
    (hirq : (r.state.handlers cpu).hardIrq = some irq) : irq.HandledOn cpu := by
  induction h with
  | start => cases hirq
  | next h hp ih =>
    rw [(h.interruptStep hp).handlers] at hirq
    split at hirq
    · split at hirq
      · rcases CpuAction.hardIrq_act hirq with hold | ⟨id, rfl⟩
        · exact ih hold
        · exact ⟨h.handlers_id cpu, rfl⟩
      · exact ih hirq
    · exact ih hirq

/-! ## Threads that run -/

/-- Nothing wakes a thread while it runs. -/
theorem pendingWakeups_of_running (h : Run settings history r) {cpu : Nat} {tid : Int}
    (hr : r.state.running? cpu = some tid) : pendingWakeups tid history = [] := by
  induction h with
  | start => rfl
  | @next history r e p h hp ih =>
    rw [pendingWakeups_snoc]
    split
    · rfl
    rename_i hends
    -- The thread has run since before the event, as only a switch to it ends its wait.
    have hbefore : r.state.running? cpu = some tid := by
      rw [(h.callStep hp).running cpu] at hr
      cases hsw : e.switched? with
      | none =>
        rw [hsw] at hr
        exact hr
      | some switch =>
        obtain ⟨c, next⟩ := switch
        obtain ⟨turn, hturn, hnext⟩ := Event.switched?_eq_some hsw
        rw [hsw] at hr
        dsimp only at hr
        split at hr
        · rw [hnext] at hr
          split at hr
          · cases hr
          · cases hr
            exact (hends (Or.inl hturn)).elim
        · exact hr
    have hmeans : e.wakeup? r.state tid = none := if_neg fun hwoken => by
      rw [State.isRunning_iff.2 ⟨cpu, hbefore⟩] at hwoken
      exact Bool.noConfusion hwoken.2.2
    rw [ih hbefore]
    dsimp only
    rw [hmeans]
    rfl

/-- A thread that is known remembers the first wakeup that it waits from. -/
theorem remembers (h : Run settings history r) {tid : Int} {t : Thread}
    (ht : r.state.thread? tid = some t) :
    t.lastWakeup = (pendingWakeups tid history).head?.map (·.time) ∧
      t.lastWaker = (pendingWakeups tid history).head?.bind (·.waker) := by
  have hawaits := h.awaits tid
  unfold State.Awaits at hawaits
  rw [State.standby_of_thread? ht] at hawaits
  exact hawaits

/-- Between events the tables agree with each other. -/
theorem coherent (h : Run settings history r) : r.state.Coherent := by
  obtain ⟨hkeyed, -⟩ := h.keyed_view
  have hlinked := h.linked
  have hcpu : ∀ {cpu c}, r.state.cpus.get? cpu = some c → r.state.cpuOrFresh cpu = c := by
    intro cpu c hc
    rw [State.cpuOrFresh, hc]
    rfl
  have hruns : ∀ {cpu c tid}, r.state.cpus.get? cpu = some c → c.current = some tid →
      r.state.running? cpu = some tid := by
    intro cpu c tid hc hcurrent
    rw [State.running?, hc]
    exact hcurrent
  refine {
    cpus := ?cpus
    threads := fun tid t ht => hkeyed.tid_of_thread? ht
    fds := fun tid t number fd ht hf => hkeyed.number_of_thread? ht hf
    disks := hlinked.devs
    ifaces := hlinked.names
    requests := ?requests
    softIrqs := ?softIrqs
    hardIrqs := ?hardIrqs
    running := fun cpu c tid hc hcurrent => h.knows_running (hruns hc hcurrent)
    prevs := hlinked.prevs
    wakers := ?wakers
    rested := ?rested }
  case cpus =>
    intro cpu c hc
    have hid : (r.state.cpuOrFresh cpu).id = cpu := h.handlers_id cpu
    rwa [hcpu hc] at hid
  case requests =>
    intro dev disk sector rq hd hrq
    have hpending : r.state.pendingAt ⟨dev, sector⟩ = some rq := by
      rw [State.pendingAt, State.pending, hd]
      exact hrq
    exact h.waitsUnder_of_pendingAt hpending
  case softIrqs =>
    intro cpu c vector queue irq hc hqueue hirq
    have hqueued : irq ∈ (softIrqPhase (history.map (·.event)) cpu vector).queue cpu vector := by
      rw [← h.queue_eq, ← State.softIrqs_eq_queue, State.softIrqs, hc, Option.bind_some, hqueue]
      exact hirq
    exact SoftIrqPhase.queuedOn hqueued
  case hardIrqs =>
    intro cpu c irq hc hirq
    refine h.handledOn ?_
    rw [State.handlers, hcpu hc]
    exact hirq
  case wakers =>
    intro tid t waker ht hw
    obtain ⟨hwakeup, hwaker⟩ := h.remembers ht
    have hremembered : (r.state.standby tid).waker = some waker := by
      rw [State.standby_of_thread? ht]
      exact hw
    refine ⟨h.knows_waker hremembered, ?_⟩
    rw [hw] at hwaker
    obtain ⟨w, hhead, -⟩ := Option.bind_eq_some_iff.1 hwaker.symm
    rw [hwakeup, hhead]
    rfl
  case rested =>
    intro cpu c tid t hc hcurrent ht
    obtain ⟨hwakeup, hwaker⟩ := h.remembers ht
    rw [h.pendingWakeups_of_running (hruns hc hcurrent)] at hwakeup hwaker
    exact ⟨hwakeup, hwaker⟩

/-- Every state that is reached is coherent, and keeps an entry for whatever it has one for in every
state that is reached later. -/
theorem coherent_lasting (h : Run settings history r) :
    r.state.Coherent ∧
      ∀ {more r'}, Run settings (history ++ more) r' → r.state.Within r'.state :=
  ⟨h.coherent, h.within_later⟩

/-- A thread runs and has woken another one, a block request is on its way, and a CPU handles a hard
interrupt with a soft one queued. -/
def busyMachine : List Event :=
  [.recorded 0 10 "sched_switch" [("prev_tid", .signed 0), ("next_tid", .signed 7)],
   .recorded 0 20 "sched_waking" [("tid", .signed 5), ("target_cpu", .unsigned 1)],
   .recorded 0 30 "block_rq_issue"
     [("dev", .unsigned 1), ("sector", .unsigned 100), ("nr_sector", .unsigned 8),
      ("rwbs", .unsigned 0), ("tid", .signed 7)],
   .recorded 0 40 "softirq_raise" [("vec", .signed 3)],
   .recorded 0 50 "irq_handler_entry" [("irq", .signed 30)]]

/-- All of it is over, and the number of the thread that was woken names a new one. -/
def restOfMachine : List Event :=
  [.recorded 0 60 "irq_handler_exit" [("irq", .signed 30), ("ret", .signed 1)],
   .recorded 0 70 "softirq_entry" [("vec", .signed 3)],
   .recorded 0 80 "softirq_exit" [("vec", .signed 3)],
   .recorded 0 90 "block_rq_complete"
     [("dev", .unsigned 1), ("sector", .unsigned 100), ("nr_sector", .unsigned 8)],
   .recorded 0 95 "sched_process_fork" [("parent_tid", .signed 7), ("child_tid", .signed 5)],
   .recorded 0 99 "sched_switch" [("prev_tid", .signed 7), ("next_tid", .signed 0)]]

/-- The waker of a thread that waits is known, and stays known after the wait has come to nothing. -/
theorem coherent_lasting_busyMachine : ∃ history more r r' woken,
    Run {} history r ∧ Run {} (history ++ more) r' ∧ r.state.Coherent ∧ r.state.Within r'.state ∧
    r.state.thread? 5 = some woken ∧ woken.lastWaker = some 7 ∧ r'.state.Knows 7 ∧
    r'.state.Knows 5 ∧ r'.state.orphans = [] := by
  have hshows : Replay.showsLater {} busyMachine restOfMachine (fun _ r _ r' =>
      (r.state.thread? 5).any (·.lastWaker = some 7) ∧ r'.state.orphans = []) = true := by
    decide +kernel
  obtain ⟨history, r, more, r', h, h', htest⟩ := Run.of_showsLater hshows
  obtain ⟨hwoken, horphans⟩ := of_decide_eq_true htest
  obtain ⟨woken, ht, hwaker⟩ := (Option.any_eq_true ..).1 hwoken
  have hwaker : woken.lastWaker = some 7 := of_decide_eq_true hwaker
  obtain ⟨hcoherent, hlasts⟩ := coherent_lasting h
  have hwithin := hlasts h'
  have hknown : r.state.Knows 7 := (hcoherent.wakers 5 woken 7 ht hwaker).1
  exact ⟨history, more, r, r', woken, h, h', hcoherent, hwithin, ht, hwaker,
    hwithin.threads 7 hknown, hwithin.threads 5 ⟨woken, ht⟩, horphans⟩

end Run

end KernelReplay
