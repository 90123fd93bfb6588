import KernelReplay.Proofs.FacetSteps

/-
  What an event does to the facets of a state. `FacetStep` says it once for every event: CPUs handle
  other interrupts only after an event about interrupts, other requests are pending only after one
  about block requests, and of threads at most a wakeup at the time of the event or one more
  migration is remembered. What the event tells of waits and of I/O requests is computed from what
  the state before it remembers (`Run.facetStep`).
-/

namespace KernelReplay

open Law Update

namespace EventKind

/-- Events about interrupts. -/
def IsInterrupt : EventKind → Prop
  | .irqEntry | .irqExit | .softIrqRaise | .softIrqEntry | .softIrqExit => True
  | _ => False

/-- Events that begin or end block requests. -/
def IsBlock : EventKind → Prop
  | .blockIssue | .blockComplete => True
  | _ => False

/-- Events that change what scheduling remembers of threads. -/
def IsTurn : EventKind → Prop
  | .schedSwitch | .schedMigrate | .schedWakeup | .schedFork => True
  | _ => False

end EventKind

namespace Subsystem

variable {kind : EventKind} (e : Event) (remaps : List Remap)

theorem effect_interrupt (h : kind.IsInterrupt) :
    effect kind e remaps = Interrupts.apply kind e >>= fun _ => pure remaps := by
  cases kind <;> first
    | exact h.elim
    | simp only [effect, Scheduling.apply, Paging.apply, Syscalls.apply, IoRequests.apply,
        Snapshot.apply, BlockRequests.apply, Traffic.apply, pure_bind]

theorem effect_block (h : kind.IsBlock) :
    effect kind e remaps = BlockRequests.apply kind e remaps := by
  cases kind <;> first
    | exact h.elim
    | simp only [effect, Scheduling.apply, Paging.apply, Interrupts.apply, Syscalls.apply,
        IoRequests.apply, Snapshot.apply, Traffic.apply, pure_bind, bind_pure]

theorem effect_turn (h : kind.IsTurn) :
    effect kind e remaps = Scheduling.apply kind e >>= fun _ => pure remaps := by
  cases kind <;> first
    | exact h.elim
    | simp only [effect, Paging.apply, Interrupts.apply, Syscalls.apply, IoRequests.apply,
        Snapshot.apply, BlockRequests.apply, Traffic.apply, pure_bind]

/-- An event of any other kind touches no facet, and replaying it succeeds. -/
theorem aside_effect (hi : ¬ kind.IsInterrupt) (hb : ¬ kind.IsBlock) (ht : ¬ kind.IsTurn)
    (hx : kind ≠ .syscallExit) : Fulfils aside (effect kind e remaps) := by
  have hscheduling : Fulfils aside (Scheduling.apply kind e) := by
    cases kind <;> first
      | exact (ht trivial).elim
      | exact Scheduling.aside_exec e
      | exact Scheduling.aside_setPriority e
      | exact fulfils_pure _
  have hinterrupts : Fulfils aside (Interrupts.apply kind e) := by
    cases kind <;> first
      | exact (hi trivial).elim
      | exact fulfils_pure _
  have hsyscalls : Fulfils aside (Syscalls.apply kind e) := by
    cases kind <;> first
      | exact (hx rfl).elim
      | exact Syscalls.aside_entry e
      | exact fulfils_pure _
  have hrequests : Fulfils aside (IoRequests.apply kind e) := by
    cases kind <;> first
      | exact (hx rfl).elim
      | exact IoRequests.aside_entry e
      | exact IoRequests.aside_pagesWritten e
      | exact IoRequests.aside_kswapdWakeup e
      | exact IoRequests.aside_pageFree
      | exact fulfils_pure _
  have hblocks : Fulfils aside (BlockRequests.apply kind e remaps) := by
    cases kind <;> first
      | exact (hb trivial).elim
      | exact fulfils_pure _
  refine hscheduling.bind fun _ => (Paging.aside_apply kind e).bind fun _ => ?_
  refine hinterrupts.bind fun _ => hsyscalls.bind fun _ => hrequests.bind fun _ => ?_
  refine (Snapshot.aside_apply kind e).bind fun _ => hblocks.bind fun _ => ?_
  exact (Traffic.aside_apply kind e).bind fun _ => fulfils_pure _

end Subsystem

/-- The event is of no kind in a class. -/
def Event.Avoids (e : Event) (K : EventKind → Prop) : Prop :=
  ∀ kind, e.kind? = some kind → ¬ K kind

/-- The state before an event, the event, its signals and the state after it, as far as the facets
of the state are concerned. -/
structure FacetStep (e : Event) (s : State) (l : List Signal) (s' : State) : Prop where
  tracing : tracingKept.rel s l s'
  handlers : e.Avoids EventKind.IsInterrupt → handlersKept.rel s l s'
  pending : e.Avoids EventKind.IsBlock → pendingKept.rel s l s'
  /-- A wakeup that is remembered was before, or is the event. -/
  woken : ∀ tid τ, (s'.standby tid).wakeup = some τ →
    (s.standby tid).wakeup = some τ ∨ τ = e.time
  migrated : ∀ tid, (s'.standby tid).migrations ≤ (s.standby tid).migrations + 1
  switched : ∀ taken, .switchPerCpu taken ∈ notificationsOf l ∨
    .switchPerThread taken ∈ notificationsOf l →
      ∃ next, Scheduling.waited s next e.time = .ok taken.latency
  /-- A request that is told to be over is that of a syscall. -/
  finished : ∀ rq thread owner, .requestExit rq thread owner ∈ notificationsOf l →
    ∃ tid call request, s.call? tid = some call ∧ call.request = some request ∧
      request.finish e.time (e.int? "ret") = .ok rq
  /-- Only the exit of a syscall ends a request. -/
  unfinished : e.kind? ≠ some .syscallExit → requestsUntold.rel s l s'

namespace FacetStep

variable {e : Event} {s s' : State} {l : List Signal}

theorem untold_switch (h : ∀ n ∈ notificationsOf l, ¬ n.TellsSwitch) (taken : Switch) :
    ¬ (.switchPerCpu taken ∈ notificationsOf l ∨ .switchPerThread taken ∈ notificationsOf l) := by
  rintro (hn | hn)
  · exact h _ hn trivial
  · exact h _ hn trivial

/-- What scheduling remembers does not change, and no request is told to be over. -/
theorem of_standbyKept (ht : tracingKept.rel s l s')
    (hh : e.Avoids EventKind.IsInterrupt → handlersKept.rel s l s')
    (hp : e.Avoids EventKind.IsBlock → pendingKept.rel s l s') (hs : standbyKept.rel s l s')
    (hr : requestsUntold.rel s l s') : FacetStep e s l s' := by
  obtain ⟨hstandby, hn⟩ := hs
  have hstandby : s'.standby = s.standby := hstandby
  refine ⟨ht, hh, hp, fun tid τ hτ => Or.inl ?_, fun tid => ?_, fun taken h => ?_, ?_, fun _ => hr⟩
  · rwa [hstandby] at hτ
  · rw [hstandby]
    exact Nat.le_succ _
  · exact (untold_switch hn taken h).elim
  · exact fun rq thread owner hrq => (hr _ hrq trivial).elim

theorem of_aside (h : aside.rel s l s') : FacetStep e s l s' := by
  obtain ⟨⟨ht, hh, hp, hs⟩, hr⟩ := h
  exact of_standbyKept ht (fun _ => hh) (fun _ => hp) hs hr

theorem of_interrupt {kind : EventKind} (hk : e.kind? = some kind) (hi : kind.IsInterrupt)
    (h : asideButInterrupts.rel s l s') : FacetStep e s l s' := by
  obtain ⟨ht, hp, hs, hr⟩ := h
  exact of_standbyKept ht (fun hnone => (hnone kind hk hi).elim) (fun _ => hp) hs hr

theorem of_block {kind : EventKind} (hk : e.kind? = some kind) (hb : kind.IsBlock)
    (h : asideButBlocks.rel s l s') : FacetStep e s l s' := by
  obtain ⟨ht, hh, hs, hr⟩ := h
  exact of_standbyKept ht (fun _ => hh) (fun hnone => (hnone kind hk hb).elim) hs hr

theorem of_waits (h : (asideButWaits e.time).rel s l s') : FacetStep e s l s' := by
  obtain ⟨ht, hh, hp, hs, hn, hr⟩ := h
  refine ⟨ht, fun _ => hh, fun _ => hp, fun tid => (hs tid).1, fun tid => ?_, fun taken h => ?_, ?_,
    fun _ => hr⟩
  · exact Nat.le_succ_of_le (hs tid).2
  · exact (untold_switch hn taken h).elim
  · exact fun rq thread owner hrq => (hr _ hrq trivial).elim

theorem of_switch {o : Outcome Unit} (h : Scheduling.switch e s = .ok o) :
    FacetStep e s o.signals o.state := by
  rcases Scheduling.switch_turn h with haside | ⟨next, taken, s₁, l₁, hw, haside, hs, hl⟩
  · exact of_aside haside
  obtain ⟨⟨ht, hh, hp, hstandby, hn⟩, hr⟩ := haside
  have hstandby : s₁.standby = s.standby := hstandby
  -- The end of the wait, which is announced twice.
  have hafter : ∀ k, o.state.standby k =
      if k = next then { s.standby k with wakeup := none, waker := none } else s.standby k := by
    intro k
    rw [hs, ← hstandby]
    exact State.standby_adjustThread (g := fun b => { b with wakeup := none, waker := none })
      s₁ next k (fun _ => rfl) rfl
  have hhandlers : handlersKept.rel s₁ [.notification (.switchPerCpu taken),
      .notification (.switchPerThread taken)] o.state :=
    ⟨by rw [hs]; rfl, by simp [sending, Notification.TellsInterrupt]⟩
  have hpending : pendingKept.rel s₁ [.notification (.switchPerCpu taken),
      .notification (.switchPerThread taken)] o.state :=
    ⟨by rw [hs]; rfl, by simp [sending, Notification.TellsBlock]⟩
  have htracing : o.state.tracing = s₁.tracing := by
    rw [hs]
    rfl
  have huntold : requestsUntold.rel s₁ [.notification (.switchPerCpu taken),
      .notification (.switchPerThread taken)] o.state := by
    simp [requestsUntold, sending, Notification.EndsRequest]
  have huntold := requestsUntold.chain hr huntold
  rw [hl]
  refine ⟨htracing.trans ht, fun _ => handlersKept.chain hh hhandlers,
    fun _ => pendingKept.chain hp hpending, fun tid τ hτ => Or.inl ?_, fun tid => ?_,
    fun taken' h => ⟨next, ?_⟩, fun rq thread owner hrq => (huntold _ hrq trivial).elim,
    fun _ => huntold⟩
  · rw [hafter] at hτ
    split at hτ
    · cases hτ
    · exact hτ
  · rw [hafter]
    split <;> exact Nat.le_succ _
  · obtain rfl : taken' = taken := by
      rw [notificationsOf_append, List.mem_append, List.mem_append] at h
      rcases h with (h | h) | (h | h)
      · exact (untold_switch hn taken' (Or.inl h)).elim
      · simpa using h
      · exact (untold_switch hn taken' (Or.inr h)).elim
      · simpa using h
    exact hw

theorem of_migrate {o : Outcome Unit} (h : Scheduling.migrate e s = .ok o) :
    FacetStep e s o.signals o.state := by
  rcases Scheduling.migrate_cases h with ⟨hs, hl⟩ | ⟨tid, t, ht, haside⟩
  · rw [hs, hl]
    exact of_aside (aside.idle s)
  obtain ⟨⟨htracing, hh, hp, hstandby, hn⟩, hr⟩ := haside
  have hafter : ∀ k, o.state.standby k = if k = tid then
      { s.standby k with migrations := (s.standby k).migrations + 1 } else s.standby k := by
    intro k
    rw [congrFun hstandby k, State.standby_setThread]
    split
    · rename_i hk
      rw [hk, ht]
    · rfl
  have hhandlers : handlersKept.rel s [] (s.setThread tid t) := ⟨rfl, by simp [sending]⟩
  have hpending : pendingKept.rel s [] (s.setThread tid t) := ⟨rfl, by simp [sending]⟩
  refine ⟨htracing, fun _ => handlersKept.chain_silent hhandlers hh,
    fun _ => pendingKept.chain_silent hpending hp, fun k τ hτ => Or.inl ?_, fun k => ?_,
    fun taken h => (untold_switch hn taken h).elim,
    fun rq thread owner hrq => (hr _ hrq trivial).elim, fun _ => hr⟩
  · rw [hafter] at hτ
    split at hτ <;> exact hτ
  · rw [hafter]
    split
    · exact Nat.le_refl _
    · exact Nat.le_succ _

theorem of_exits {o : Outcome Unit} (hk : e.kind? = some .syscallExit)
    (h : (Syscalls.exit e >>= fun _ => IoRequests.exit e) s = .ok o) :
    FacetStep e s o.signals o.state := by
  obtain ⟨⟨ht, hh, hp, hstandby, hn⟩, hr⟩ := Syscalls.requestsTold_exits h
  have hstandby : o.state.standby = s.standby := hstandby
  refine ⟨ht, fun _ => hh, fun _ => hp, fun tid τ hτ => Or.inl ?_, fun tid => ?_, fun taken h => ?_,
    fun rq thread owner hrq => hr _ hrq rq thread owner rfl, fun hne => (hne hk).elim⟩
  · rwa [hstandby] at hτ
  · rw [hstandby]
    exact Nat.le_succ _
  · exact (untold_switch hn taken h).elim

/-- An event that changes what scheduling remembers does to facets what `FacetStep` says. -/
theorem of_turn {kind : EventKind} (ht : kind.IsTurn) {o : Outcome Unit}
    (h : Scheduling.apply kind e s = .ok o) : FacetStep e s o.signals o.state := by
  cases kind <;> first
    | exact ht.elim
    | exact of_switch h
    | exact of_migrate h
    | exact of_waits (Scheduling.asideButWaits_wakeup e s o h)
    | exact of_waits ((Scheduling.asideButWaits_fork e).obeys s o h)

end FacetStep

namespace Run

variable {settings : Settings} {history : List Step} {r : Replay} {e : Event} {p : Replay.Progress}

/-- Every event of a run does to the facets of the state what `FacetStep` says. -/
theorem facetStep (h : Run settings history r) (hp : r.process e = .ok p) :
    FacetStep e r.state p.signals p.replay.state := by
  rcases h.step_cases hp with ⟨-, hs, hl⟩ | ⟨kind, remaps, o, hk, ho, hs, hl⟩
  · rw [hs, hl]
    exact FacetStep.of_aside (aside.idle _)
  by_cases hi : kind.IsInterrupt
  · obtain ⟨o', h', hs', hl'⟩ := h.update_run hp hk fun remaps =>
      Subsystem.effect_interrupt e remaps hi
    rw [hs', hl']
    exact .of_interrupt hk hi ((Interrupts.asideButInterrupts_apply kind e).obeys _ o' h')
  by_cases hb : kind.IsBlock
  · rw [Subsystem.effect_block e remaps hb] at ho
    rw [hs, hl]
    exact .of_block hk hb (BlockRequests.asideButBlocks_apply kind e remaps _ o ho)
  by_cases ht : kind.IsTurn
  · obtain ⟨o', h', hs', hl'⟩ := h.update_run hp hk fun remaps =>
      Subsystem.effect_turn e remaps ht
    rw [hs', hl']
    exact .of_turn ht h'
  by_cases hx : kind = .syscallExit
  · subst hx
    obtain ⟨o', h', hs', hl'⟩ := h.exit_run hp hk
    rw [hs', hl']
    exact .of_exits hk h'
  · rw [hs, hl]
    exact .of_aside ((Subsystem.aside_effect e remaps hi hb ht hx).obeys _ o ho)

end Run

end KernelReplay
