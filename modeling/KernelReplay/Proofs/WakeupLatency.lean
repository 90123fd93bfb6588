import Mathlib.Data.List.DropRight
import KernelReplay.Proofs.WaitSteps

/-
  How long a thread has waited when it takes over a CPU, and who woke it. Both are those of the first
  wakeup that found the thread nowhere running since it last took over a CPU or was made by a fork,
  however many wakeups followed (`Run.switch_answers`). The threads named are known: whoever runs is,
  and so is whoever woke another thread while it ran.
-/

namespace KernelReplay

open Law Update

/-- The wakeups of a thread that found it nowhere running, since it last took over a CPU or was made
by a fork. -/
def pendingWakeups (tid : Int) (history : List Step) : List Wakeup :=
  (history.rtakeWhile fun step => ¬ step.event.EndsWait tid).filterMap fun step =>
    step.event.wakeup? step.before tid

theorem pendingWakeups_snoc (tid : Int) (history : List Step) (step : Step) :
    pendingWakeups tid (history ++ [step]) = if step.event.EndsWait tid then []
      else pendingWakeups tid history ++ (step.event.wakeup? step.before tid).toList := by
  unfold pendingWakeups
  split
  · rename_i hends
    rw [List.rtakeWhile_concat_neg _ _ _ (by simpa using hends)]
    rfl
  · rename_i hends
    rw [List.rtakeWhile_concat_pos _ _ _ (by simpa using hends), List.filterMap_append]
    cases hw : step.event.wakeup? step.before tid <;> simp [hw]

/-- Only the first wakeup of a wait counts, so one more is remembered if there was none. -/
theorem head?_pendingWakeups_snoc (tid : Int) (history : List Step) (step : Step) :
    (pendingWakeups tid (history ++ [step])).head? =
      step.event.waitAfter step.before tid (pendingWakeups tid history).head? := by
  rw [pendingWakeups_snoc]
  unfold Event.waitAfter
  split
  · rfl
  · rw [List.head?_append]
    cases step.event.wakeup? step.before tid <;> rfl

/-- No thread is the waker of its own wait. -/
theorem waker_ne_of_pending {tid : Int} {history : List Step} {w : Wakeup}
    (h : (pendingWakeups tid history).head? = some w) : w.waker ≠ some tid := by
  obtain ⟨step, -, hw⟩ := List.mem_filterMap.1 (List.mem_of_mem_head? h)
  exact Event.waker_ne_of_wakeup? hw

theorem Event.switched?_eq_some {e : Event} {cpu : Nat} {next : Option Int}
    (h : e.switched? = some (cpu, next)) :
    ∃ tid, e.turn? = some tid ∧ next = if tid = 0 then none else some tid := by
  unfold switched? at h
  split at h
  · rename_i tid hk hcpu hprev hnext
    cases h
    exact ⟨tid, turn?_of_switch hk hcpu hprev hnext, rfl⟩
  · cases h

/-- What a switch tells of the wakeup that its thread waited from: how long ago that was, and which
thread it found on its CPU, as that thread is in the state after the switch. -/
structure Switch.Answers (taken : Switch) (wakeup : Option Wakeup) (s : State) : Prop where
  latency : taken.latency = wakeup.map fun w => taken.time - w.time
  waker : taken.waker = (wakeup.bind (·.waker)).bind s.thread?
  known : taken.waker.map (·.tid) = wakeup.bind (·.waker)

namespace Scheduling

variable {s : State} {time : Int} {cpu : Nat} {prev next : Int} {taken : Switch}

theorem switchReport_eq_ok_iff : switchReport s time cpu prev next = .ok taken ↔
    ∃ latency, elapsed (s.threadOrFresh next).lastWakeup (some time) = .ok latency ∧
      taken = { time, cpu, prevTid := prev, next := s.threadOrFresh next, nextTid := next,
                waker := (s.threadOrFresh next).lastWaker.bind s.thread?, latency } := by
  unfold switchReport
  simp only [checked_bind_eq_ok_iff, Except.ok.injEq, eq_comm (a := taken)]

theorem latency_of_elapsed {wakeup : Option Wakeup} {latency : Option Int}
    (h : elapsed (wakeup.map (·.time)) (some time) = .ok latency) :
    latency = wakeup.map fun w => time - w.time := by
  cases wakeup with
  | none => exact (Except.ok.inj h).symm
  | some w =>
    obtain ⟨d, hd, h⟩ := checked_bind_eq_ok_iff.1 h
    obtain ⟨-, rfl⟩ := checkedSub_eq_ok_iff.1 hd
    exact (Except.ok.inj h).symm

/-- A switch tells of the wakeup that the state remembers. The thread that runs next is not its own
waker, so that its wait is over afterwards does not show in the waker. -/
theorem answers_of_report {wakeup : Option Wakeup} (hknown : s.Knows next)
    (hw : s.Awaits next wakeup) (hother : ∀ w, wakeup = some w → w.waker ≠ some next)
    (hwaker : ∀ waker, wakeup.bind (·.waker) = some waker →
      ∃ t, (s.adjustThread next Thread.clearWakeup).thread? waker = some t ∧ t.tid = waker)
    (h : switchReport s time cpu prev next = .ok taken) :
    taken.Answers wakeup (s.adjustThread next Thread.clearWakeup) := by
  obtain ⟨thread, ht⟩ := hknown
  unfold State.Awaits at hw
  rw [State.standby_of_thread? ht] at hw
  obtain ⟨hwakeup, hremembered⟩ := hw
  have hwakeup : thread.lastWakeup = wakeup.map (·.time) := hwakeup
  have hremembered : thread.lastWaker = wakeup.bind (·.waker) := hremembered
  obtain ⟨latency, hlatency, rfl⟩ := switchReport_eq_ok_iff.1 h
  rw [State.threadOrFresh_of_thread? ht, hwakeup] at hlatency
  have hfound : (s.threadOrFresh next).lastWaker.bind s.thread? =
      (wakeup.bind (·.waker)).bind (s.adjustThread next Thread.clearWakeup).thread? := by
    rw [State.threadOrFresh_of_thread? ht, hremembered]
    cases hw : wakeup.bind (·.waker) with
    | none => rfl
    | some waker =>
      obtain ⟨w, hsome, hwaker⟩ := Option.bind_eq_some_iff.1 hw
      have hne : waker ≠ next := fun heq => hother w hsome (by rw [hwaker, heq])
      rw [Option.bind_some, Option.bind_some, State.thread?_adjustThread, if_neg hne]
  refine ⟨latency_of_elapsed hlatency, hfound, ?_⟩
  rw [hfound]
  cases hw : wakeup.bind (·.waker) with
  | none => rfl
  | some waker =>
    obtain ⟨t, ht, htid⟩ := hwaker waker hw
    rw [Option.bind_some, ht, Option.map_some, htid]

end Scheduling

namespace Run

variable {settings : Settings} {history : List Step} {r : Replay} {e : Event} {p : Replay.Progress}

/-- Scheduling remembers the first wakeup of every wait. -/
theorem awaits (h : Run settings history r) (tid : Int) :
    r.state.Awaits tid (pendingWakeups tid history).head? := by
  induction h with
  | start =>
    unfold State.Awaits
    rw [State.standby_of_none (s := (Replay.ofSettings settings).state) rfl]
    exact ⟨rfl, rfl⟩
  | next h hp ih =>
    rw [head?_pendingWakeups_snoc]
    exact h.waitStep hp tid _ ih

/-- The thread that a switch puts on a CPU is known from then on. -/
theorem knows_turn (h : Run settings history r) (hp : r.process e = .ok p) {tid : Int}
    (ht : e.turn? = some tid) : p.replay.state.Knows tid := by
  have hk : e.kind? = some .schedSwitch := by
    by_contra hk
    rw [Event.turn?_eq_none hk] at ht
    cases ht
  obtain ⟨o, ho, hs, -⟩ := h.turn_run hp hk trivial
  rcases Scheduling.switch_report hk ho with
    ⟨hnone, -⟩ | ⟨cpu, prev, next, taken, o₁, hturn, -, -, -, h₁, -, hstate, -⟩
  · rw [hnone] at ht
    cases ht
  · obtain rfl : next = tid := Option.some.inj (hturn.symm.trans ht)
    rw [hs, hstate]
    exact (Scheduling.knows_takeOver h₁).2.adjustThread next _

/-- Whoever runs is known and not the idle thread. -/
theorem knows_running (h : Run settings history r) {cpu : Nat} {tid : Int}
    (hr : r.state.running? cpu = some tid) : tid ≠ 0 ∧ r.state.Knows tid := by
  induction h with
  | start => cases hr
  | @next history r e p h hp ih =>
    rw [(h.callStep hp).running cpu] at hr
    have hkept : r.state.running? cpu = some tid → tid ≠ 0 ∧ p.replay.state.Knows tid := fun hr =>
      ⟨(ih hr).1, (h.linkStep hp).1.threads tid (ih hr).2⟩
    cases hsw : e.switched? with
    | none =>
      rw [hsw] at hr
      exact hkept hr
    | some switch =>
      obtain ⟨c, next⟩ := switch
      obtain ⟨turn, hturn, hnext⟩ := Event.switched?_eq_some hsw
      rw [hsw] at hr
      dsimp only at hr
      split at hr
      · rw [hnext] at hr
        split at hr
        · cases hr
        · cases hr
          exact ⟨‹_›, h.knows_turn hp hturn⟩
      · exact hkept hr

/-- Whoever woke a thread that still waits is known. -/
theorem knows_waker (h : Run settings history r) {tid waker : Int}
    (hw : (r.state.standby tid).waker = some waker) : r.state.Knows waker := by
  induction h with
  | start =>
    rw [State.standby_of_none rfl] at hw
    cases hw
  | @next history r e p h hp ih =>
    have hwithin := (h.linkStep hp).1
    have hafter := (h.waitStep hp tid _ (h.awaits tid)).2
    rw [hafter] at hw
    obtain ⟨w, hw, hwaker⟩ := Option.bind_eq_some_iff.1 hw
    unfold Event.waitAfter at hw
    split at hw
    · cases hw
    rcases Option.or_eq_some_iff.1 hw with hbefore | ⟨-, hnow⟩
    · refine hwithin.threads waker (ih ?_)
      rw [(h.awaits tid).2, hbefore]
      exact hwaker
    · unfold Event.wakeup? at hnow
      split at hnow
      · cases hnow
        obtain ⟨cpu, -, hrunning⟩ := Option.bind_eq_some_iff.1 hwaker
        exact hwithin.threads waker (h.knows_running hrunning).2
      · cases hnow

/-- A complete switch is told for the CPU and then for the thread, with nothing told of a switch
before. Both tell how long ago the first wakeup was that found the thread nowhere running since it
last took over a CPU or was made by a fork, and which thread ran on the CPU of that wakeup; without
such a wakeup they tell neither. The thread waits for nothing then. -/
theorem switch_answers (h : Run settings history r) (hp : r.process e = .ok p)
    (hk : e.kind? = some .schedSwitch) {cpu : Nat} {prev next : Int} (hcpu : e.cpu? = some cpu)
    (hprev : e.int? "prev_tid" = some prev) (hnext : e.int? "next_tid" = some next) :
    ∃ taken earlier thread,
      notificationsOf p.signals = earlier ++ [.switchPerCpu taken, .switchPerThread taken] ∧
      (∀ n ∈ earlier, ¬ n.TellsSwitch) ∧
      taken.time = e.time ∧ taken.cpu = cpu ∧ taken.prevTid = prev ∧ taken.nextTid = next ∧
      taken.Answers (pendingWakeups next history).head? p.replay.state ∧
      p.replay.state.thread? next = some thread ∧ thread.lastWakeup = none ∧
      thread.lastWaker = none := by
  obtain ⟨o, ho, hs, hl⟩ := h.turn_run hp hk trivial
  rcases Scheduling.switch_report hk ho with
    ⟨hnone, -⟩ | ⟨cpu', prev', next', taken, o₁, -, hcpu', hprev', hnext', h₁, htaken, hstate, hsig⟩
  · rw [Event.turn?_of_switch hk hcpu hprev hnext] at hnone
    cases hnone
  obtain rfl : cpu' = cpu := Option.some.inj (hcpu'.symm.trans hcpu)
  obtain rfl : prev' = prev := Option.some.inj (hprev'.symm.trans hprev)
  obtain rfl : next' = next := Option.some.inj (hnext'.symm.trans hnext)
  have haside := (Scheduling.aside_takeOver e cpu' prev' next').obeys r.state o₁ h₁
  have hstandby : o₁.state.standby = r.state.standby := haside.1.2.2.2.1
  have hknown := (Scheduling.knows_takeOver h₁).2
  have hfinal : p.replay.state = o₁.state.adjustThread next' Thread.clearWakeup := hs.trans hstate
  have hwaker : ∀ waker, (pendingWakeups next' history).head?.bind (·.waker) = some waker →
      ∃ t, p.replay.state.thread? waker = some t ∧ t.tid = waker := by
    intro waker hw
    have hremembered : (r.state.standby next').waker = some waker := by
      rw [(h.awaits next').2]
      exact hw
    have hknows := h.knows_waker hremembered
    obtain ⟨t, ht⟩ := (h.linkStep hp).1.threads waker hknows
    exact ⟨t, ht, (h.next hp).callsSound.tid_of_thread? ht⟩
  have hanswers : taken.Answers (pendingWakeups next' history).head? p.replay.state := by
    rw [hfinal] at hwaker ⊢
    exact Scheduling.answers_of_report hknown
      (State.awaits_of_standby_eq (congrFun hstandby next') (h.awaits next'))
      (fun w hw => waker_ne_of_pending hw) hwaker htaken
  obtain ⟨thread, ht⟩ := hknown
  refine ⟨taken, notificationsOf o₁.signals, thread.clearWakeup, ?_, haside.1.2.2.2.2, ?_⟩
  · rw [hl, hsig, notificationsOf_append]
    rfl
  obtain ⟨latency, -, rfl⟩ := Scheduling.switchReport_eq_ok_iff.1 htaken
  refine ⟨rfl, rfl, rfl, rfl, hanswers, ?_, rfl, rfl⟩
  rw [hfinal, State.thread?_adjustThread, if_pos rfl, ht]
  rfl

/-- A thread is woken while it runs, which means nothing, and then three times while it waits: by a
thread that runs elsewhere, from an idle CPU, and by a thread that has come to run there since. -/
def wokenThrice : List Event :=
  [.recorded 1 10 "sched_switch" [("prev_tid", .signed 0), ("next_tid", .signed 5)],
   .recorded 0 20 "sched_switch" [("prev_tid", .signed 0), ("next_tid", .signed 7)],
   .recorded 1 30 "sched_waking" [("tid", .signed 7), ("target_cpu", .unsigned 0)],
   .recorded 0 40 "sched_switch" [("prev_tid", .signed 7), ("next_tid", .signed 0)],
   .recorded 1 50 "sched_waking" [("tid", .signed 7), ("target_cpu", .unsigned 0)],
   .recorded 0 60 "sched_wakeup" [("tid", .signed 7)],
   .recorded 1 70 "sched_switch" [("prev_tid", .signed 5), ("next_tid", .signed 6)],
   .recorded 1 80 "sched_wakeup" [("tid", .signed 7)]]

/-- The thread takes over a CPU. -/
def takenOver : Event :=
  .recorded 0 90 "sched_switch" [("prev_tid", .signed 0), ("next_tid", .signed 7)]

/-- The first wakeup that found the thread waiting counts, with the thread that ran there then. -/
theorem switch_answers_wokenThrice : ∃ history r p taken,
    Run {} history r ∧ r.process takenOver = .ok p ∧
    notificationsOf p.signals = [.switchPerCpu taken, .switchPerThread taken] ∧
    (pendingWakeups 7 history).length = 3 ∧ taken.latency = some 40 ∧
    taken.waker.map (·.tid) = some 5 := by
  have hshows : Replay.showsNext {} wokenThrice takenOver (fun history r p =>
      (pendingWakeups 7 history).length = 3 ∧
        (pendingWakeups 7 history).head? = some ⟨50, some 5⟩ ∧
        (notificationsOf p.signals).length = 2) = true := by decide +kernel
  have hk : takenOver.kind? = some .schedSwitch := by decide +kernel
  have hcpu : takenOver.cpu? = some 0 := by decide +kernel
  have hprev : takenOver.int? "prev_tid" = some 0 := by decide +kernel
  have hnext : takenOver.int? "next_tid" = some 7 := by decide +kernel
  obtain ⟨history, r, p, h, hp, htest⟩ := Run.of_showsNext hshows
  obtain ⟨hlength, hhead, hcount⟩ := of_decide_eq_true htest
  obtain ⟨taken, earlier, thread, htold, -, htime, -, -, -, hanswers, -⟩ :=
    switch_answers h hp hk hcpu hprev hnext
  obtain rfl : earlier = [] := by
    rw [htold, List.length_append] at hcount
    exact List.length_eq_zero_iff.1 (Nat.add_right_cancel (hcount.trans (Nat.zero_add 2).symm))
  refine ⟨history, r, p, taken, h, hp, htold, hlength, ?_, ?_⟩
  · rw [hanswers.latency, hhead, htime]
    decide +kernel
  · rw [hanswers.known, hhead]
    rfl

end Run

end KernelReplay
