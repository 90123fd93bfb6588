import KernelReplay.Proofs.StoredTimes

/-
  Replays that never leave the ranges of their words. What an event can ask a replay to compute are
  differences of its time and a time in the state, the negation of an error, a corrected priority and
  the successor of a counter. A time in the state was the time of an earlier event and a counter is
  at most the number of earlier events, so bounds on the events of a run are bounds on all of these
  (`Run.process_succeeds`), and replaying admissible events comes to its end
  (`run_succeeds_of_admissible`).
-/

namespace KernelReplay

open Law Update

/-- The least signed word, which has no negation. -/
def minSigned : Int := -0x8000_0000_0000_0000

/-- Values of an event that leave room for the calculations of a replay: its time is not negative,
the result of a syscall can be negated, and a priority that is to be corrected by `offset` can be. -/
structure Event.Admissible (e : Event) (offset : Bool) : Prop where
  time : 0 ≤ e.time
  ret : e.kind? = some .syscallExit → e.int? "ret" ≠ some minSigned
  prio : offset = true → e.kind? = some .schedWakeup → ∀ prio, e.int? "prio" = some prio →
    minSigned + 100 ≤ prio

theorem Event.fitsSigned_time (e : Event) : FitsSigned e.time :=
  ⟨Int64.le_toInt e.timestamp, Int64.toInt_lt e.timestamp⟩

theorem FieldValue.fitsSigned_int? {value : FieldValue} {v : Int} (h : value.int? = some v) :
    FitsSigned v := by
  cases value with
  | signed w =>
    cases h
    exact ⟨Int64.le_toInt w, Int64.toInt_lt w⟩
  | unsigned w =>
    dsimp only [FieldValue.int?] at h
    split at h
    · rename_i hlt
      cases h
      exact ⟨by omega, by omega⟩
    · cases h
  | text | list => cases h

theorem Event.fitsSigned_int? {e : Event} {name : String} {v : Int} (h : e.int? name = some v) :
    FitsSigned v := by
  obtain ⟨value, -, hv⟩ := Option.bind_eq_some_iff.1 h
  exact FieldValue.fitsSigned_int? hv

/-- The result of an admissible event can be negated. -/
theorem Event.Admissible.fitsSigned_neg_ret {e : Event} {offset : Bool} (h : e.Admissible offset)
    (hk : e.kind? = some .syscallExit) {r : Int} (hr : e.int? "ret" = some r) : FitsSigned (-r) := by
  have hne : r ≠ minSigned := fun heq => h.ret hk (heq ▸ hr)
  obtain ⟨hle, hlt⟩ := Event.fitsSigned_int? hr
  unfold minSigned at hne
  exact ⟨by omega, by omega⟩

/-- A priority that is not among the lowest can be corrected. -/
theorem Event.fitsSigned_corrected {e : Event} {name : String} {prio : Int}
    (hp : e.int? name = some prio) (hle : minSigned + 100 ≤ prio) : FitsSigned (prio - 100) := by
  obtain ⟨-, hlt⟩ := Event.fitsSigned_int? hp
  unfold minSigned at hle
  exact ⟨by omega, by omega⟩

namespace Run

variable {settings : Settings} {history : List Step} {r : Replay}

/-! ## What a run leaves -/

theorem processed_eq (h : Run settings history r) : r.processed = history.length := by
  induction h with
  | start => rfl
  | next _ hp ih =>
    obtain ⟨o, processed, -, hcount, rfl⟩ := Replay.process_eq_ok_iff.1 hp
    obtain ⟨-, rfl⟩ := checkedSucc_eq_ok_iff.1 hcount
    simp [ih]

/-- A thread was moved at most as often as there were events. -/
theorem migrations_le (h : Run settings history r) (tid : Int) :
    (r.state.standby tid).migrations ≤ history.length := by
  induction h with
  | start =>
    rw [State.standby_of_none rfl]
    exact Nat.le_refl _
  | next h hp ih =>
    have hstep := (h.facetStep hp).migrated tid
    rw [List.length_append, List.length_singleton]
    omega

/-- Whether priorities are to be corrected is what the settings say of it. -/
theorem priorityOffset_eq (h : Run settings history r) :
    r.state.priorityOffset = settings.needsPriorityFix := by
  induction h with
  | start => rfl
  | @next history r e p h hp ih =>
    have hkept : p.replay.state.tracing = r.state.tracing := (h.facetStep hp).tracing
    exact (congrArg Prod.snd hkept).trans ih

/-! ## The next event -/

section Next

variable {e : Event} (h : Run settings history r)
  (hpast : ∀ step ∈ history, 0 ≤ step.event.time)
  (hadm : e.Admissible settings.needsPriorityFix)
include h hpast hadm

omit h in
/-- The time since an event that was replayed is in range. -/
theorem fitsSigned_since {time : Int} (ht : Seen history time) : FitsSigned (e.time - time) := by
  obtain ⟨step, hmem, rfl⟩ := ht
  have hbegun := hpast step hmem
  have hended := hadm.time
  obtain ⟨-, hlt⟩ := e.fitsSigned_time
  obtain ⟨-, hlt'⟩ := step.event.fitsSigned_time
  exact ⟨by omega, by omega⟩

theorem scheduling_succeeds {kind : EventKind} (hcount : FitsWord (history.length + 1))
    (hk : e.kind? = some kind) (ht : kind.IsTurn) :
    FulfilsAt any (Scheduling.apply kind e) r.state := by
  cases kind <;> try exact ht.elim
  case schedSwitch =>
    refine Scheduling.switch_succeeds fun next => ?_
    exact elapsed_succeeds fun woken hw => fitsSigned_since hpast hadm (h.seen_wakeup hw)
  case schedMigrate =>
    refine Scheduling.migrate_succeeds fun tid _ => ?_
    have hle := h.migrations_le tid
    unfold FitsWord at hcount ⊢
    omega
  case schedWakeup =>
    refine Scheduling.wakeup_succeeds fun hset prio hp => ?_
    rw [h.priorityOffset_eq] at hset
    exact Event.fitsSigned_corrected hp (hadm.prio hset hk prio hp)
  case schedFork => exact (Scheduling.asideButWaits_fork e).any _

theorem blocks_succeed {kind : EventKind} (hb : kind.IsBlock) (remaps : List Remap) :
    FulfilsAt any (BlockRequests.apply kind e remaps) r.state := by
  cases kind <;> try exact hb.elim
  case blockIssue =>
    refine FulfilsAt.bind (fulfilsAt_whenSome fun rq _ => ?_) fun _ _ _ => fulfilsAt_pure _
    exact (BlockRequests.asideButBlocks_place rq).any _
  case blockComplete =>
    show FulfilsAt any (BlockRequests.completion e remaps) r.state
    unfold BlockRequests.completion
    split
    · refine FulfilsAt.bind (BlockRequests.complete_succeeds fun rq hrq => ?_) fun _ _ _ =>
        fulfilsAt_pure _
      exact fitsSigned_since hpast hadm (h.seen_blockRequest hrq)
    · exact fulfilsAt_pure _

theorem exits_succeed (hk : e.kind? = some .syscallExit) :
    FulfilsAt any (Syscalls.exit e >>= fun _ => IoRequests.exit e) r.state := by
  refine Syscalls.exits_succeed (fun tid call _ hc => ?_) fun tid call rq _ hc hrq => ?_
  · have hfits := fitsSigned_since hpast hadm (h.seen_call hc)
    exact ⟨_, Call.finish_eq_ok_iff.2 ⟨hfits, rfl⟩⟩
  · have hfits := fitsSigned_since hpast hadm (h.seen_request hc hrq)
    exact IoRequest.finish_succeeds hfits fun ret hret => hadm.fitsSigned_neg_ret hk hret

theorem effect_succeeds {kind : EventKind} (hcount : FitsWord (history.length + 1))
    (hk : e.kind? = some kind) (remaps : List Remap) :
    FulfilsAt any (Subsystem.effect kind e remaps) r.state := by
  by_cases hi : kind.IsInterrupt
  · rw [Subsystem.effect_interrupt e remaps hi]
    have hdone := (Interrupts.asideButInterrupts_apply kind e).any r.state
    exact hdone.bind fun _ _ _ => fulfilsAt_pure _
  by_cases hb : kind.IsBlock
  · rw [Subsystem.effect_block e remaps hb]
    exact h.blocks_succeed hpast hadm hb remaps
  by_cases ht : kind.IsTurn
  · rw [Subsystem.effect_turn e remaps ht]
    have hdone := h.scheduling_succeeds hpast hadm hcount hk ht
    exact hdone.bind fun _ _ _ => fulfilsAt_pure _
  by_cases hx : kind = .syscallExit
  · subst hx
    rw [Subsystem.effect_syscallExit]
    exact (h.exits_succeed hpast hadm hk).bind fun _ _ _ => fulfilsAt_pure _
  · exact (Subsystem.aside_effect e remaps hi hb ht hx).any _

/-- After events at times that are not negative, an admissible event is replayed, whatever the order
of the times, unless it is one more event than a word counts. -/
theorem process_succeeds (hcount : FitsWord (history.length + 1)) : ∃ p, r.process e = .ok p := by
  obtain ⟨remaps, hremaps⟩ := h.subsystems
  have hprocessed := checkedSucc_eq_ok_iff.2 ⟨h.processed_eq.symm ▸ hcount, rfl⟩
  have hall : ∃ o, Subsystem.applyAll e r.subsystems r.state = .ok o := by
    rw [hremaps]
    cases hk : e.kind? with
    | none =>
      rw [Subsystem.applyAll_of_no_kind hk]
      exact ⟨_, rfl⟩
    | some kind =>
      rw [Subsystem.applyAll_standardWith hk]
      have hdone := h.effect_succeeds hpast hadm hcount hk remaps
      obtain ⟨o, ho, -⟩ := hdone.bind (f := fun left => pure (Subsystem.standardWith left))
        fun _ _ _ => fulfilsAt_pure _
      exact ⟨o, ho⟩
  obtain ⟨o, ho⟩ := hall
  exact ⟨_, Replay.process_eq_ok_iff.2 ⟨o, _, ho, hprocessed, rfl⟩⟩

end Next

/-- Where a run has not left the ranges, admissible events do not leave them either. -/
theorem run_succeeds (h : Run settings history r) {events : List Event}
    (hcount : FitsWord (history.length + events.length))
    (hpast : ∀ step ∈ history, 0 ≤ step.event.time)
    (hadm : ∀ e ∈ events, e.Admissible settings.needsPriorityFix) : ∃ p, r.run events = .ok p := by
  induction events generalizing history r with
  | nil => exact ⟨_, rfl⟩
  | cons e rest ih =>
    have he := hadm e List.mem_cons_self
    rw [List.length_cons] at hcount
    have hnext : FitsWord (history.length + 1) := by
      unfold FitsWord at hcount ⊢
      omega
    obtain ⟨first, hfirst⟩ := h.process_succeeds hpast he hnext
    have hlast : ∃ last, first.replay.run rest = .ok last := by
      refine ih (h.next hfirst) ?_ (fun step hmem => ?_) fun e' hmem =>
        hadm e' (List.mem_cons_of_mem _ hmem)
      · rwa [List.length_append, List.length_singleton, Nat.add_assoc, Nat.add_comm 1]
      · rcases List.mem_append.1 hmem with hmem | hmem
        · exact hpast step hmem
        · rw [List.mem_singleton.1 hmem]
          exact he.time
    obtain ⟨last, hlast⟩ := hlast
    exact ⟨_, Replay.run_cons_eq_ok_iff.2 ⟨first, last, hfirst, hlast, rfl⟩⟩

end Run

/-- Admissible events, fewer than `2 ^ 64`, are all replayed, whatever the settings, the order of the
times, the names and the fields: nothing that is computed leaves its range. -/
theorem run_succeeds_of_admissible (settings : Settings) {events : List Event}
    (hcount : FitsWord events.length)
    (hadm : ∀ e ∈ events, e.Admissible settings.needsPriorityFix) :
    ∃ p, (Replay.ofSettings settings).run events = .ok p ∧ p.replay.processed = events.length := by
  have hfits : FitsWord (([] : List Step).length + events.length) := by
    rwa [List.length_nil, Nat.zero_add]
  obtain ⟨p, hp⟩ := Run.start.run_succeeds hfits (fun _ hmem => (by cases hmem)) hadm
  obtain ⟨history, h, rfl, -⟩ := Run.run_eq_ok_iff.1 hp
  exact ⟨p, hp, by rw [h.processed_eq, List.length_map]⟩

/-- Settings of a tracer whose priorities are to be corrected. -/
def offsetSettings : Settings := { tracerVersion := some { major := 2, minor := 6, patch := 0 } }

/-- Values at the ends of what is admissible, with times that go back: the least priority that can be
corrected, the longest wait before its wakeup, and the greatest error. -/
def extremeEvents : List Event :=
  [.recorded 0 0x7FFF_FFFF_FFFF_FFFF "sched_wakeup"
     [("tid", .signed 7), ("prio", .signed (-0x7FFF_FFFF_FFFF_FF9C))],
   .recorded 0 0 "sched_switch" [("prev_tid", .signed 0), ("next_tid", .signed 7)],
   .recorded 0 0x7FFF_FFFF_FFFF_FFFF "syscall_entry_read" [("fd", .signed 3)],
   .recorded 0 0 "syscall_exit_read" [("ret", .signed (-0x7FFF_FFFF_FFFF_FFFF))]]

theorem extremeEvents_run : FitsWord extremeEvents.length ∧
    offsetSettings.needsPriorityFix = true ∧
    (∀ e ∈ extremeEvents, e.Admissible offsetSettings.needsPriorityFix) ∧
    ∃ p, (Replay.ofSettings offsetSettings).run extremeEvents = .ok p ∧ p.replay.processed = 4 := by
  have hlength : FitsWord extremeEvents.length := by decide
  have hset : offsetSettings.needsPriorityFix = true := by decide
  have hadm : ∀ e ∈ extremeEvents, e.Admissible offsetSettings.needsPriorityFix := by
    have htime : ∀ e ∈ extremeEvents, 0 ≤ e.time := by decide +kernel
    have hret : ∀ e ∈ extremeEvents, e.int? "ret" ≠ some minSigned := by decide +kernel
    have hprio : ∀ e ∈ extremeEvents, ∀ prio ∈ e.int? "prio", minSigned + 100 ≤ prio := by
      decide +kernel
    exact fun e he => ⟨htime e he, fun _ => hret e he, fun _ _ prio hp => hprio e he prio hp⟩
  exact ⟨hlength, hset, hadm, run_succeeds_of_admissible offsetSettings hlength hadm⟩

end KernelReplay
