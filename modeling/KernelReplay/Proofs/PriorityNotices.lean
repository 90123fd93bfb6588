import KernelReplay.Proofs.CountersTold
import KernelReplay.Proofs.PriorityFrames

/-
  What is told of priorities. An event tells of the priority of a thread only as it changes it
  (`Run.priorityStep`), except that the snapshot of a thread may show the priority of one of which none
  is known, and that a fork which makes a thread takes its priority away without a word. So among the
  steps since such a fork the priorities that are told differ from one to the next, the last of them is
  the priority that is known, and where none is told the known one was shown (`Run.priorities_told`).
-/

namespace KernelReplay

open Law Update

/-- A snapshot says which priority a thread has. -/
def Event.ShowsPriority (e : Event) (tid prio : Int) : Prop :=
  (∃ pid, e.member? = some (tid, pid)) ∧ e.int? "prio" = some prio

/-- A snapshot among the steps says which priority a thread has. -/
def ShownAmong (steps : List Step) (tid prio : Int) : Prop :=
  ∃ step ∈ steps, step.event.ShowsPriority tid prio

/-- The priorities told of a thread in some steps, in order. -/
def prioritiesAmong (tid : Int) (steps : List Step) : List Int :=
  toldPriorities tid (steps.flatMap (·.signals))

theorem prioritiesAmong_append (tid : Int) (steps more : List Step) :
    prioritiesAmong tid (steps ++ more) = prioritiesAmong tid steps ++ prioritiesAmong tid more := by
  unfold prioritiesAmong
  rw [List.flatMap_append, toldPriorities_append]

/-- The state before an event, the event, its signals and the state after it, as far as it matters
which priorities are known. -/
structure PriorityStep (e : Event) (s : State) (l : List Signal) (s' : State) : Prop where
  idle : toldPriorities 0 l = []
  learned : ∀ tid, e.forked? ≠ some tid →
    Learns (e.ShowsPriority tid) (s.prio? tid) (toldPriorities tid l) (s'.prio? tid)
  forked : ∀ tid, e.forked? = some tid → s'.prio? tid = none

theorem PriorityStep.of_priorities {e : Event} {s s' : State} {l : List Signal}
    (hfork : e.forked? = none) (h : (priorities e.ShowsPriority).rel s l s') :
    PriorityStep e s l s' where
  idle := h.1
  learned tid _ := h.2 tid
  forked tid htid := by
    rw [hfork] at htid
    cases htid

theorem PriorityStep.of_fork {e : Event} {s : State} {o : Outcome Unit}
    (hk : e.kind? = some .schedFork) (h : Scheduling.fork e s = .ok o) :
    PriorityStep e s o.signals o.state where
  idle := (Scheduling.fork_priorities hk h 0).1
  learned tid htid := by
    obtain ⟨huntold, hkept⟩ := Scheduling.fork_priorities hk h tid
    rw [huntold, hkept, if_neg htid]
    exact .idle _
  forked tid htid := by rw [(Scheduling.fork_priorities hk h tid).2, if_pos htid]

/-- An event of any kind but a fork tells what it changes, or shows it. -/
theorem Subsystem.priorities_effect {kind : EventKind} {e : Event} (hk : e.kind? = some kind)
    (hfork : kind ≠ .schedFork) (remaps : List Remap) :
    Obeys (priorities e.ShowsPriority) (effect kind e remaps) := by
  refine obeys_effect priorities_of_standing (Scheduling.priorities_apply hfork e)
    (IoRequests.priorities_apply kind e) ?_ remaps
  refine Snapshot.priorities_apply fun tid pid prio hprocess htid hpid hprio => ?_
  subst hprocess
  exact ⟨⟨pid, Event.member?_of_snapshot hk htid hpid⟩, hprio⟩

namespace Run

variable {settings : Settings} {history past recent : List Step} {r : Replay} {e : Event}
  {p : Replay.Progress}

/-- Every event tells or shows what it changes of a priority, but for the fork that makes the thread,
after which none is known. -/
theorem priorityStep (h : Run settings history r) (hp : r.process e = .ok p) :
    PriorityStep e r.state p.signals p.replay.state := by
  rcases h.step_cases hp with ⟨hnone, hs, hl⟩ | ⟨kind, remaps, o, hk, ho, hs, hl⟩
  · rw [hs, hl]
    exact .of_priorities (Event.forked?_eq_none (by simp [hnone])) ((priorities _).idle r.state)
  by_cases hfork : kind = .schedFork
  · subst hfork
    obtain ⟨o', ho', hs', hl'⟩ := h.update_run hp hk (Subsystem.effect_schedFork e)
    rw [hs', hl']
    exact .of_fork hk ho'
  · rw [hs, hl]
    refine .of_priorities (Event.forked?_eq_none ?_)
      (Subsystem.priorities_effect hk hfork remaps r.state o ho)
    rw [hk]
    exact fun heq => hfork (Option.some.inj heq)

/-- Nothing is told of the priority of the idle thread. -/
theorem idle_untold (h : Run settings history r) : prioritiesAmong 0 history = [] := by
  induction h with
  | start => rfl
  | next h hp ih =>
    rw [prioritiesAmong_append, ih, List.nil_append]
    unfold prioritiesAmong
    rw [List.flatMap_singleton]
    exact (h.priorityStep hp).idle

/-- What is known of a priority is what was learned of it since the fork that made the thread. -/
theorem learns_sinceFork (h : Run settings history r) (tid : Int) :
    Learns (ShownAmong (stepsSinceFork tid history) tid) none
      (prioritiesAmong tid (stepsSinceFork tid history)) (r.state.prio? tid) := by
  induction h with
  | start => exact .idle none
  | @next history r e p h hp ih =>
    unfold stepsSinceFork at ih ⊢
    by_cases htid : e.forked? = some tid
    · rw [List.rtakeWhile_concat_neg _ _ _ (by simp [htid]), (h.priorityStep hp).forked tid htid]
      exact .idle none
    · rw [List.rtakeWhile_concat_pos _ _ _ (by simpa using htid), prioritiesAmong_append]
      refine (ih.mono fun prio => ?_).trans ?_
      · rintro ⟨step, hmem, hshown⟩
        exact ⟨step, List.mem_append_left _ hmem, hshown⟩
      · unfold prioritiesAmong
        rw [List.flatMap_singleton]
        refine ((h.priorityStep hp).learned tid htid).mono fun prio hshown => ?_
        exact ⟨_, List.mem_append_right _ List.mem_cons_self, hshown⟩

/-- The steps since a fork end with any that no fork is among. -/
theorem stepsSinceFork_append {tid : Int} (h : ∀ step ∈ recent, step.event.forked? ≠ some tid)
    (past : List Step) : stepsSinceFork tid (past ++ recent) = stepsSinceFork tid past ++ recent := by
  unfold stepsSinceFork List.rtakeWhile
  rw [List.reverse_append, List.takeWhile_append_of_pos (by simpa using h), List.reverse_append,
    List.reverse_reverse]

/-- What is told of a priority is what has changed. Nothing is told of the idle thread. With no fork
between them that makes the thread, two priorities told in a row differ, the last one told is the one
that is known, and where none is told none is known, or one that a snapshot of the thread showed. -/
theorem priorities_told (h : Run settings history r) (tid : Int) :
    prioritiesAmong 0 history = [] ∧
    (∀ past recent later, history = past ++ recent ++ later →
      (∀ step ∈ recent, step.event.forked? ≠ some tid) →
      (prioritiesAmong tid recent).IsChain (· ≠ ·)) ∧
    (∀ prio, (prioritiesAmong tid (stepsSinceFork tid history)).getLast? = some prio →
      r.state.prio? tid = some prio) ∧
    (prioritiesAmong tid (stepsSinceFork tid history) = [] → r.state.prio? tid = none ∨
      ∃ prio, ShownAmong (stepsSinceFork tid history) tid prio ∧ r.state.prio? tid = some prio) := by
  refine ⟨h.idle_untold, ?_, fun prio => (h.learns_sinceFork tid).eq_last, fun huntold => ?_⟩
  · rintro past recent later rfl hrecent
    obtain ⟨r₀, h₀⟩ := h.of_append
    have hlearns := h₀.learns_sinceFork tid
    rw [stepsSinceFork_append hrecent, prioritiesAmong_append] at hlearns
    exact hlearns.isChain.right_of_append
  · have hlearns := h.learns_sinceFork tid
    rw [huntold] at hlearns
    exact hlearns.of_untold

/-- A snapshot shows the priority of a thread, which is told as it changes twice in a switch from the
thread to itself. Then the thread is made anew, and another snapshot shows its priority. -/
def reshownThread : List Event :=
  [.recorded 0 10 "lttng_statedump_process_state"
     [("tid", .signed 7), ("pid", .signed 7), ("prio", .signed 20)],
   .recorded 0 20 "sched_switch" [("prev_tid", .signed 0), ("prev_prio", .signed 20),
     ("next_tid", .signed 7), ("next_prio", .signed 20)],
   .recorded 0 30 "sched_switch" [("prev_tid", .signed 7), ("prev_prio", .signed 21),
     ("next_tid", .signed 7), ("next_prio", .signed 20)],
   .recorded 0 40 "sched_process_fork" [("parent_tid", .signed 1), ("child_tid", .signed 7)],
   .recorded 0 50 "lttng_statedump_process_state"
     [("tid", .signed 7), ("pid", .signed 7), ("prio", .signed 25)]]

theorem priorities_told_reshownThread : ∃ history r, Run {} history r ∧
    prioritiesAmong 7 history = [21, 20] ∧ prioritiesAmong 0 history = [] ∧
    prioritiesAmong 7 (stepsSinceFork 7 history) = [] ∧ r.state.prio? 7 = some 25 ∧
    ShownAmong (stepsSinceFork 7 history) 7 25 := by
  have hshows : Replay.showsSteps {} reshownThread (fun history r =>
      prioritiesAmong 7 history = [21, 20] ∧
        prioritiesAmong 7 (stepsSinceFork 7 history) = [] ∧ r.state.prio? 7 = some 25) = true := by
    decide +kernel
  obtain ⟨history, r, h, htest⟩ := Run.of_showsSteps hshows
  obtain ⟨hall, huntold, hprio⟩ := of_decide_eq_true htest
  obtain ⟨hidle, -, -, hshown⟩ := priorities_told h 7
  refine ⟨history, r, h, hall, hidle, huntold, hprio, ?_⟩
  rcases hshown huntold with hnone | ⟨prio, hamong, hknown⟩
  · rw [hprio] at hnone
    cases hnone
  · obtain rfl := Option.some.inj (hprio.symm.trans hknown)
    exact hamong

end Run

end KernelReplay
