import KernelReplay.Proofs.StoredTimes

/-
  Runs of events in the order of their times. A state remembers only times of events that were
  replayed, so none of them is later than the last event; what is told of something that ends was
  computed from when it began and when it ended, so it lasted no negative time
  (`Run.times_in_order`). The stamps of a soft interrupt are in order as its phases are: a handler
  that runs was entered after it was raised.
-/

namespace KernelReplay

/-- Events come in the order of their times. -/
def Chronological (history : List Step) : Prop :=
  (history.map (·.event.time)).Pairwise (· ≤ ·)

theorem Chronological.of_snoc {history : List Step} {step : Step}
    (h : Chronological (history ++ [step])) :
    Chronological history ∧ ∀ time, Seen history time → time ≤ step.event.time := by
  unfold Chronological at h
  rw [List.map_append, List.pairwise_append] at h
  obtain ⟨hhistory, -, hlast⟩ := h
  refine ⟨hhistory, ?_⟩
  rintro time ⟨step', hmem, rfl⟩
  exact hlast _ (List.mem_map_of_mem hmem) _ (by simp)

/-- The time of the last event is the latest. -/
theorem Chronological.le_last {history : List Step} (h : Chronological history) {time : Int}
    (ht : Seen history time) : ∃ last, history.getLast? = some last ∧ time ≤ last.event.time := by
  rcases List.eq_nil_or_concat history with rfl | ⟨before, last, rfl⟩
  · obtain ⟨step, hmem, -⟩ := ht
    cases hmem
  rw [List.concat_eq_append] at h ht ⊢
  refine ⟨last, by simp, ?_⟩
  obtain ⟨step, hmem, rfl⟩ := ht
  rcases List.mem_append.1 hmem with hmem | hmem
  · exact h.of_snoc.2 _ ⟨step, hmem, rfl⟩
  · obtain rfl := List.mem_singleton.1 hmem
    exact Int.le_refl _

/-! ## Stamps of soft interrupts -/

/-- The stamps that a soft interrupt has are in order. -/
structure SoftIrq.InOrder (irq : SoftIrq) : Prop where
  entered : ∀ r b, irq.raised = some r → irq.begun = some b → r ≤ b
  ended : ∀ b t, irq.begun = some b → irq.ended = some t → b ≤ t
  unentered : ∀ r t, irq.raised = some r → irq.ended = some t → r ≤ t

/-- The stamps of a soft interrupt that was entered. -/
theorem SoftIrq.inOrder_of_entered {vector : Int} {cpu : Nat} {raise : Option Int} {begun time : Int}
    (hraise : ∀ r, raise = some r → r ≤ begun) (htime : begun ≤ time) :
    SoftIrq.InOrder
      { vector, cpu, raised := raise, begun := some begun, ended := some time } := by
  refine ⟨fun r b hr hb => ?_, fun b t hb ht => ?_, fun r t hr ht => ?_⟩
  · cases hb
    exact hraise r hr
  · cases hb
    cases ht
    exact htime
  · cases ht
    exact Int.le_trans (hraise r hr) htime

namespace SoftIrqPhase

/-- A handler that runs was entered after its raise. -/
def Ordered : SoftIrqPhase → Prop
  | running raise begun | runningRaised raise begun _ => ∀ r, raise = some r → r ≤ begun
  | _ => True

variable {phase : SoftIrqPhase} {time : Int}

theorem Ordered.next (h : phase.Ordered) (hpast : ∀ τ ∈ phase.stamps, τ ≤ time)
    (action : SoftIrqAction) : (phase.next time action).Ordered := by
  cases phase with
  | idle =>
    cases action with
    | raise | exit => trivial
    | entry =>
      intro r hr
      cases hr
  | raised raise =>
    cases action with
    | raise | exit => trivial
    | entry =>
      intro r hr
      cases hr
      exact hpast raise (by simp [stamps])
  | running raise begun | runningRaised raise begun again =>
    cases action with
    | raise => exact h
    | entry =>
      intro r hr
      exact hpast r (by simp [stamps, hr])
    | exit => trivial

theorem Ordered.ended (h : phase.Ordered) (hpast : ∀ τ ∈ phase.stamps, τ ≤ time) {cpu : Nat}
    {vector : Int} {irq : SoftIrq} (hirq : phase.ended? cpu vector time = some irq) :
    irq.InOrder := by
  cases phase with
  | idle => cases hirq
  | raised raise =>
    cases hirq
    refine ⟨fun r b _ hb => (by cases hb), fun b t hb => (by cases hb), fun r t hr ht => ?_⟩
    cases hr
    cases ht
    exact hpast raise (by simp [stamps])
  | running raise begun | runningRaised raise begun again =>
    cases hirq
    exact SoftIrq.inOrder_of_entered h (hpast begun (by simp [stamps]))

end SoftIrqPhase

theorem softIrqPhase_ordered {past : List Event} (h : (past.map Event.time).Pairwise (· ≤ ·))
    (cpu : Nat) (vector : Int) : (softIrqPhase past cpu vector).Ordered := by
  induction past using List.reverseRecOn with
  | nil => trivial
  | append_singleton past e ih =>
    rw [List.map_append, List.pairwise_append] at h
    obtain ⟨hpast, -, hlast⟩ := h
    rw [softIrqPhase_snoc]
    cases e.softIrq? cpu vector with
    | none => exact ih hpast
    | some action =>
      refine (ih hpast).next (fun τ hτ => ?_) action
      obtain ⟨e', hmem, rfl⟩ := softIrqPhase_stamps hτ
      exact hlast _ (List.mem_map_of_mem hmem) _ (by simp)

/-! ## What is told -/

/-- What is told of something that ends does not end before it began. -/
def Notification.InOrder : Notification → Prop
  | .switchPerCpu taken | .switchPerThread taken => ∀ d, taken.latency = some d → 0 ≤ d
  | .syscallExit _ call _ => ∃ d, call.duration = some d ∧ 0 ≤ d
  | .requestExit rq _ _ => ∃ d, rq.duration = some d ∧ 0 ≤ d
  | .blockComplete rq _ => ∃ d, rq.duration = some d ∧ 0 ≤ d
  | .irqExit irq => ∃ t, irq.ended = some t ∧ irq.begun ≤ t
  | .softIrqExit irq => irq.InOrder
  | _ => True

namespace Run

variable {settings : Settings} {history : List Step} {r : Replay} {e : Event} {p : Replay.Progress}

section Told

variable (h : Run settings history r) (hp : r.process e = .ok p)
  (hlatest : ∀ time, Seen history time → time ≤ e.time)
include h hp hlatest

theorem switch_inOrder {taken : Switch} (hn : .switchPerCpu taken ∈ notificationsOf p.signals ∨
    .switchPerThread taken ∈ notificationsOf p.signals) :
    ∀ d, taken.latency = some d → 0 ≤ d := by
  intro d hd
  obtain ⟨next, hw⟩ := (h.facetStep hp).switched taken hn
  unfold Scheduling.waited at hw
  rw [hd] at hw
  obtain ⟨a, b, ha, hb, hd⟩ := elapsed_eq_some hw
  have hbegun := hlatest a (h.seen_wakeup ha)
  cases hb
  omega

theorem syscallExit_inOrder {thread : Thread} {call : Call} {cpu : Nat}
    (hn : .syscallExit thread call cpu ∈ notificationsOf p.signals) :
    ∃ d, call.duration = some d ∧ 0 ≤ d := by
  have hexit : (thread, call, cpu) ∈ callExits p.signals := List.mem_filterMap.2 ⟨_, hn, rfl⟩
  have hstep := h.callStep hp
  by_cases hnone : ∀ tid, e.Leaves r.state.running? tid → r.state.call? tid = none
  · rw [hstep.silent hnone] at hexit
    cases hexit
  · simp only [Classical.not_forall] at hnone
    obtain ⟨tid, hleaves, hcall⟩ := hnone
    obtain ⟨begunCall, hbegun⟩ := Option.ne_none_iff_exists'.1 hcall
    obtain ⟨_, _, ended, -, -, hfinish, htold⟩ := hstep.told tid begunCall hleaves hbegun
    rw [htold] at hexit
    cases List.mem_singleton.1 hexit
    obtain ⟨-, rfl⟩ := Call.finish_eq_ok_iff.1 hfinish
    have := hlatest _ (h.seen_call hbegun)
    exact ⟨_, rfl, by omega⟩

theorem requestExit_inOrder {rq : IoRequest} {thread owner : Thread}
    (hn : .requestExit rq thread owner ∈ notificationsOf p.signals) :
    ∃ d, rq.duration = some d ∧ 0 ≤ d := by
  obtain ⟨tid, call, request, hc, hrq, hfinish⟩ := (h.facetStep hp).finished rq thread owner hn
  have := hlatest _ (h.seen_request hc hrq)
  exact ⟨_, IoRequest.finish_duration hfinish, by omega⟩

theorem blockComplete_inOrder {rq : BlockRequest} {thread : Option Thread}
    (hn : .blockComplete rq thread ∈ notificationsOf p.signals) :
    ∃ d, rq.duration = some d ∧ 0 ≤ d := by
  have hexit : rq ∈ blockExits p.signals := List.mem_filterMap.2 ⟨_, hn, rfl⟩
  cases h.blockStep hp with
  | issue _ _ told | idle _ told =>
    rw [told] at hexit
    cases hexit
  | complete place rq' completed _ waiting succeeds told =>
    rw [told] at hexit
    obtain rfl := List.mem_singleton.1 hexit
    obtain ⟨-, rfl⟩ := BlockRequest.complete_eq_ok_iff.1 succeeds
    have := hlatest _ (h.seen_blockRequest waiting)
    exact ⟨_, rfl, by omega⟩

theorem irqExit_inOrder {irq : HardIrq} (hn : .irqExit irq ∈ notificationsOf p.signals) :
    ∃ t, irq.ended = some t ∧ irq.begun ≤ t := by
  have hexit : irq ∈ irqExits p.signals := List.mem_filterMap.2 ⟨_, hn, rfl⟩
  rw [(h.interruptStep hp).hardExits, Option.mem_toList] at hexit
  unfold Event.endedHardIrq? at hexit
  split at hexit
  · rename_i cpu he
    obtain ⟨id, -, hirq⟩ := Option.bind_eq_some_iff.1 hexit
    obtain ⟨begunIrq, hbegun, rfl⟩ := Option.map_eq_some_iff.1 hirq
    have hseen := h.seen_hardIrq (Option.filter_eq_some_iff.1 hbegun).1
    exact ⟨e.time, rfl, hlatest _ hseen⟩
  · cases hexit

theorem softIrqExit_inOrder (hordered : Chronological history) {irq : SoftIrq}
    (hn : .softIrqExit irq ∈ notificationsOf p.signals) : irq.InOrder := by
  have hexit : irq ∈ softIrqExits p.signals := List.mem_filterMap.2 ⟨_, hn, rfl⟩
  have hstep := (h.interruptStep hp).softExits
  unfold Event.endedSoftIrq? at hstep
  split at hstep
  · rename_i cpu vector he
    rw [h.softIrqExits_of_exit hp he, Option.mem_toList] at hexit
    have hpast : ((history.map (·.event)).map Event.time).Pairwise (· ≤ ·) := by
      rw [List.map_map]
      exact hordered
    refine (softIrqPhase_ordered hpast cpu vector).ended (fun τ hτ => ?_) hexit
    obtain ⟨e', hmem, rfl⟩ := softIrqPhase_stamps hτ
    exact hlatest _ (seen_of_mem_events hmem)
  · rw [hstep] at hexit
    cases hexit

/-- Nothing that an event tells to be over ended before it began. -/
theorem inOrder_of_process (hordered : Chronological history) :
    ∀ n ∈ notificationsOf p.signals, n.InOrder := by
  intro n hn
  cases n with
  | switchPerCpu taken => exact h.switch_inOrder hp hlatest (Or.inl hn)
  | switchPerThread taken => exact h.switch_inOrder hp hlatest (Or.inr hn)
  | syscallExit thread call cpu => exact h.syscallExit_inOrder hp hlatest hn
  | requestExit rq thread owner => exact h.requestExit_inOrder hp hlatest hn
  | blockComplete rq thread => exact h.blockComplete_inOrder hp hlatest hn
  | irqExit irq => exact h.irqExit_inOrder hp hlatest hn
  | softIrqExit irq => exact h.softIrqExit_inOrder hp hlatest hordered hn
  | _ => trivial

end Told

/-- Where events come in the order of their times, no wait, syscall, request or interrupt that is told
of ended before it began, and no time in the state is later than the last event. -/
theorem times_in_order (h : Run settings history r) (hordered : Chronological history) :
    (∀ step ∈ history, ∀ n ∈ notificationsOf step.signals, n.InOrder) ∧
    ∀ time, r.state.Stores time →
      ∃ last, history.getLast? = some last ∧ time ≤ last.event.time := by
  refine ⟨?_, fun time ht => hordered.le_last (h.seen_of_stores ht)⟩
  induction h with
  | start => simp
  | @next history r e p h hp ih =>
    obtain ⟨hpast, hlatest⟩ := hordered.of_snoc
    intro step hmem
    rcases List.mem_append.1 hmem with hmem | hmem
    · exact ih hpast step hmem
    · rw [List.mem_singleton.1 hmem]
      exact h.inOrder_of_process hp hlatest hpast

end Run

/-- A thread that is woken, takes over its CPU and begins to read. -/
def wokenReader : List Event :=
  [.recorded 0 10 "sched_wakeup" [("tid", .signed 7), ("target_cpu", .unsigned 0)],
   .recorded 0 30 "sched_switch" [("prev_tid", .signed 0), ("next_tid", .signed 7)],
   .recorded 0 40 "syscall_entry_read" [("fd", .signed 3)],
   .recorded 0 40 "irq_handler_entry" [("irq", .signed 9)]]

theorem wokenReader_in_order : ∃ history r call, Run {} history r ∧ Chronological history ∧
    (∀ step ∈ history, ∀ n ∈ notificationsOf step.signals, n.InOrder) ∧
    r.state.call? 7 = some call ∧
    ∃ last, history.getLast? = some last ∧ call.begun ≤ last.event.time := by
  have hgives : Replay.gives {} wokenReader
      (fun p => (p.replay.state.call? 7).isSome) = true := by decide +kernel
  obtain ⟨history, p, h, he, -, htest⟩ := Run.of_gives hgives
  obtain ⟨call, hcall⟩ := Option.isSome_iff_exists.1 htest
  have hordered : Chronological history := by
    have htimes : (wokenReader.map Event.time).Pairwise (· ≤ ·) := by decide +kernel
    rwa [← he, List.map_map] at htimes
  obtain ⟨thread, hthread, hc⟩ := Option.bind_eq_some_iff.1 hcall
  obtain ⟨htold, hstored⟩ := h.times_in_order hordered
  exact ⟨history, p.replay, call, h, hordered, htold, hcall, hstored _ (.call hthread hc)⟩

end KernelReplay
