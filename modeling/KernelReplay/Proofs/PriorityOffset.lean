import KernelReplay.Proofs.Courses
import KernelReplay.Proofs.EventSpellings
import KernelReplay.Proofs.Slices

/-
  The priorities that old tracers report. Tracers before version 2.7.1 report the priority of a
  woken thread 100 too high, and a replay with such a version corrects it. It does nothing else with
  the version: its course is that of a replay which knows of no version, through the events with the
  priorities lowered in them (`priorityOffset_course`). A later version makes no difference at all.
-/

namespace KernelReplay

open Update

/-! ## Versions -/

namespace TracerVersion

/-- The numbers of a version, in the order in which they count. -/
def numbers (v : TracerVersion) : List Nat := [v.major.toNat, v.minor.toNat, v.patch.toNat]

/-- A version reports priorities too high exactly if its numbers come before 2.7.1, whatever its
suffix. -/
theorem hasPriorityOffset_iff (v : TracerVersion) :
    v.hasPriorityOffset = true ↔ v.numbers < [2, 7, 1] := by
  unfold hasPriorityOffset
  rw [decide_eq_true_iff]
  show (compare v.major 2).then ((compare v.minor 7).then (compare v.patch 1)) = .lt ↔ _
  simp only [numbers, Ordering.then_eq_lt, Std.compare_eq_lt, Std.compare_eq_iff_eq,
    List.cons_lt_cons_iff, UInt32.lt_iff_toNat_lt, ← UInt32.toNat_inj]
  simp

end TracerVersion

/-! ## Lowered events -/

theorem wakeupNames_spell : Spells wakeupNames [.schedWakeup] :=
  .of_table (by decide) (by decide) (by decide)

namespace Event

/-- A wakeup with the priority that a current tracer would report, and any other event as it is. -/
def lowered (e : Event) : Event :=
  if e.name ∈ wakeupNames then
    match e.int? "prio" with
    | some prio => e.withField "prio" (.signed (.ofInt (prio - 100)))
    | none => e
  else
    e

/-- If the event is a wakeup, the priority that it reports can be lowered. -/
def Lowers (e : Event) : Prop :=
  e.name ∈ wakeupNames → ∀ prio, e.int? "prio" = some prio → minSigned + 100 ≤ prio

theorem lowered_of_not_wakeup {e : Event} (h : e.name ∉ wakeupNames) : e.lowered = e := if_neg h

/-- A field of another name is as it was. -/
theorem field?_lowered (e : Event) {name : String} (h : name ≠ "prio") :
    e.lowered.field? name = e.field? name := by
  unfold lowered
  split
  · split
    · exact Table.get?_insert_of_ne h
    · rfl
  · rfl

theorem contextField?_lowered (e : Event) : e.lowered.contextField? = e.contextField? := by
  unfold lowered
  split
  · split <;> rfl
  · rfl

/-- The priority of a wakeup is lowered. -/
theorem prio_lowered {e : Event} (h : e.name ∈ wakeupNames) (hl : e.Lowers) :
    e.lowered.int? "prio" = (e.int? "prio").map (· - 100) := by
  unfold lowered
  rw [if_pos h]
  cases hp : e.int? "prio" with
  | none => exact hp
  | some prio =>
    obtain ⟨hle, hlt⟩ := fitsSigned_corrected hp (hl h prio hp)
    show ((e.fields.insert "prio" _).get? "prio").bind FieldValue.int? = some (prio - 100)
    rw [Table.get?_insert_self]
    exact congrArg some (Int64.toInt_ofInt_of_le hle hlt)

theorem cpu?_lowered (e : Event) : e.lowered.cpu? = e.cpu? := by
  unfold cpu?
  rw [field?_lowered e (by decide), contextField?_lowered]

theorem time_lowered (e : Event) : e.lowered.time = e.time := by
  unfold lowered
  split
  · split <;> rfl
  · rfl

theorem kind?_lowered (e : Event) : e.lowered.kind? = e.kind? := by
  unfold lowered
  split
  · split <;> rfl
  · rfl

end Event

/-! ## Veils over the version -/

/-- Under this veil it is not known which version recorded the trace. -/
def Veil.unversioned : Veil := { Veil.sheer with version := fun _ => none }

/-- Under this veil it is not known either whether priorities are to be corrected. -/
def Veil.uncorrected : Veil := { Veil.unversioned with offset := fun _ => false }

/-- Under the veils, only what is known of the version differs. -/
theorem Veil.state_unversioned (s : State) :
    Veil.unversioned.state s = { s with tracerVersion := none } :=
  Veil.state_of_threads rfl rfl s

theorem Veil.state_uncorrected (s : State) :
    Veil.uncorrected.state s = { s with tracerVersion := none, priorityOffset := false } :=
  Veil.state_of_threads rfl rfl s

/-- Whether priorities are to be corrected counts for wakeups alone. -/
theorem Veil.uncorrected_spares {kind : EventKind} (h : kind ≠ .schedWakeup) :
    Veil.uncorrected.Spares kind := by
  cases kind <;> first
    | exact (h rfl).elim
    | exact trivial
    | exact rfl
    | exact ⟨rfl, fun _ => rfl⟩
    | exact ⟨rfl, rfl⟩

/-- The version counts for nothing. -/
theorem Veil.unversioned_spares (kind : EventKind) : Veil.unversioned.Spares kind := by
  cases kind <;> first
    | exact trivial
    | exact rfl
    | exact ⟨rfl, fun _ => rfl⟩
    | exact ⟨rfl, rfl⟩

/-- A replay under a veil over other things than threads and packets has the course of the replay,
veiled, if it goes through each event as the replay goes through its counterpart. -/
theorem Replay.course_veiled {v : Veil} (hfreed : v.freed = id) (hwoke : v.woke = id)
    (hbytes : v.bytes = id) {P : Replay → Prop} {E : Event → Event → Prop}
    (hstep : ∀ {r : Replay} {e e'}, P r → E e e' →
      (v.replay r).process e' = (r.process e).map v.progress)
    (hkept : ∀ {r : Replay} {e p}, P r → r.process e = .ok p → P p.replay)
    {events events' : List Event} (h : List.Forall₂ E events events') {r : Replay} (hr : P r) :
    (v.replay r).course events' = (r.course events).mapStates v.state := by
  have hsignal : ∀ l : List Signal, l.map v.signal = l := fun l => by
    have hid : v.signal = id := by
      funext signal
      cases signal with
      | notification n => exact congrArg _ (Veil.notification_eq_self hfreed hwoke hbytes n)
      | diagnostic => rfl
    rw [hid, List.map_id]
  refine Replay.course_alter (fun {r e e'} hr he => ?_) hkept h hr
  show ((v.replay r).process e').map Progress.shown = _
  rw [hstep hr he]
  cases r.process e with
  | error => rfl
  | ok p =>
    show Except.ok (v.replay p.replay, notificationsOf (p.signals.map v.signal)) = _
    rw [hsignal]
    rfl

/-! ## Courses with a version -/

namespace Run

variable {settings : Settings} {history : List Step} {r : Replay}

/-- A wakeup with its priority lowered does to a replay which does not correct it what the wakeup
does to one that does; no other event looks at priorities so. -/
theorem process_lowered (h : Run settings history r) (hset : settings.needsPriorityFix = true)
    {e : Event} (hl : e.Lowers) :
    (Veil.uncorrected.replay r).process e.lowered =
      (r.process e).map Veil.uncorrected.progress := by
  by_cases hname : e.name ∈ wakeupNames
  · have hk : e.kind? = some .schedWakeup := kind_of_wakeupNames _ hname
    have hk' : e.lowered.kind? = some .schedWakeup := by rw [e.kind?_lowered, hk]
    have hwakeup : BlindAt Veil.uncorrected (Scheduling.wakeup e) (Scheduling.wakeup e.lowered)
        r.state := by
      refine Scheduling.blindAt_wakeup ?_ ?_ e.cpu?_lowered e.time_lowered fun s hs => ?_
      · unfold Event.int?
        rw [e.field?_lowered (by decide)]
      · unfold Event.cpuField? Event.nat?
        rw [e.field?_lowered (by decide)]
      · rw [Event.prio_lowered hname hl, Option.map_map]
        have hoffset : s.priorityOffset = true := by rw [hs, h.priorityOffset_eq, hset]
        refine Option.map_congr fun prio hp => ?_
        have hfits : FitsSigned (prio - 100) := Event.fitsSigned_corrected hp (hl hname prio hp)
        show Except.ok (prio - 100) = Scheduling.wakeupPriority s prio
        unfold Scheduling.wakeupPriority
        rw [if_pos hoffset, checkedSub_eq_ok_iff.2 ⟨hfits, rfl⟩]
    -- No other rules act on a wakeup, so what the scheduler does is all that becomes of it.
    obtain ⟨remaps, hr⟩ := h.subsystems
    refine Replay.process_of_blindAt ?_
    have hturn : EventKind.IsTurn .schedWakeup := trivial
    rw [hr, Subsystem.applyAll_standardWith hk, Subsystem.applyAll_standardWith hk',
      Subsystem.effect_turn e remaps hturn, Subsystem.effect_turn e.lowered remaps hturn]
    exact (hwakeup.bind fun _ _ => blindAt_pure remaps).bind fun o _ =>
      blindAt_pure (Subsystem.standardWith o.value)
  · rw [Event.lowered_of_not_wakeup hname]
    refine Replay.process_veiled (Veil.renders_of_spares fun kind hk => ?_) r
    refine Veil.uncorrected_spares fun hwakeup => hname ?_
    exact (wakeupNames_spell.mem_iff e).2 (hwakeup ▸ hk)

end Run

/-- A replay with a version before 2.7.1 has the course of a replay without one through the events
with lowered priorities, and with any other version it has the course of a replay without one. -/
theorem priorityOffset_course (version : TracerVersion) (events : List Event) :
    (version.numbers < [2, 7, 1] → (∀ e ∈ events, e.Lowers) →
      (Replay.ofSettings {}).course (events.map Event.lowered) =
        ((Replay.ofSettings { tracerVersion := version }).course events).mapStates
          fun s => { s with tracerVersion := none, priorityOffset := false }) ∧
    (¬ version.numbers < [2, 7, 1] →
      (Replay.ofSettings {}).course events =
        ((Replay.ofSettings { tracerVersion := version }).course events).mapStates
          fun s => { s with tracerVersion := none }) := by
  rw [← version.hasPriorityOffset_iff]
  refine ⟨fun hset hlowers => ?_, fun hset => ?_⟩
  · have hfix : Settings.needsPriorityFix { tracerVersion := version } = true := hset
    have hpairs : List.Forall₂ (fun e e' => e.Lowers ∧ e' = e.lowered) events
        (events.map Event.lowered) :=
      List.forall₂_map_right_iff.2 (List.forall₂_same.2 fun e he => ⟨hlowers e he, rfl⟩)
    have hcourse := Replay.course_veiled (v := Veil.uncorrected)
      (P := fun r => ∃ history, Run { tracerVersion := version } history r) rfl rfl rfl
      (fun ⟨_, hrun⟩ ⟨hl, he⟩ => he ▸ hrun.process_lowered hfix hl)
      (fun ⟨_, hrun⟩ hp => ⟨_, hrun.next hp⟩)
      hpairs ⟨_, Run.start⟩
    rw [funext Veil.state_uncorrected] at hcourse
    exact hcourse
  · have hstart : Veil.unversioned.replay (Replay.ofSettings { tracerVersion := version }) =
        Replay.ofSettings {} := by
      have hfix : Settings.needsPriorityFix { tracerVersion := version } = false :=
        Bool.eq_false_iff.2 hset
      unfold Veil.replay Replay.ofSettings State.ofSettings
      rw [Veil.state_unversioned, hfix]
      rfl
    have hrenders : List.Forall₂ Veil.unversioned.Renders events events :=
      List.forall₂_same.2 fun _ _ =>
        Veil.renders_of_spares fun kind _ => Veil.unversioned_spares kind
    have hcourse := Replay.course_veiled (v := Veil.unversioned) (P := fun _ => True) rfl rfl rfl
      (fun _ he => Replay.process_veiled he _) (fun _ _ => trivial) hrenders
      (r := Replay.ofSettings { tracerVersion := version }) trivial
    rw [hstart, funext Veil.state_unversioned] at hcourse
    exact hcourse

/-- The last version that reports priorities too high, in a form that counts as no release. -/
def lastOffset : TracerVersion := { major := 2, minor := 7, patch := 0, suffix := some "-rc2" }

/-- A thread is woken, takes over a CPU, is woken while it runs, and another one is woken. -/
def offsetWakeups : List Event :=
  [.recorded 0 10 "sched_wakeup" [("tid", .signed 7), ("prio", .signed 120)],
   .recorded 0 20 "sched_switch"
     [("prev_tid", .signed 0), ("next_tid", .signed 7), ("next_prio", .signed 20)],
   .recorded 0 30 "sched_waking" [("tid", .signed 7), ("prio", .signed 130)],
   .recorded 0 40 "sched_wakeup_new" [("tid", .signed 8), ("prio", .unsigned 139)]]

/-- Both threads have corrected priorities, and the switch tells nothing new of the first one. -/
theorem priorityOffset_course_offsetWakeups :
    lastOffset.numbers < [2, 7, 1] ∧ (∀ e ∈ offsetWakeups, e.Lowers) ∧
    (Replay.ofSettings {}).course (offsetWakeups.map Event.lowered) =
      ((Replay.ofSettings { tracerVersion := lastOffset }).course offsetWakeups).mapStates
        (fun s => { s with tracerVersion := none, priorityOffset := false }) ∧
    Replay.gives { tracerVersion := lastOffset } offsetWakeups (fun p =>
      [7, 8].map (fun tid => (p.replay.state.thread? tid).bind (·.prio)) = [some 20, some 39] ∧
        (notificationsOf p.signals).length = 4) = true ∧
    ¬ TracerVersion.priorityFixed.numbers < [2, 7, 1] ∧
    (Replay.ofSettings {}).course offsetWakeups =
      ((Replay.ofSettings { tracerVersion := TracerVersion.priorityFixed }).course
        offsetWakeups).mapStates (fun s => { s with tracerVersion := none }) := by
  have hold : lastOffset.numbers < [2, 7, 1] := by decide
  have hnew : ¬ TracerVersion.priorityFixed.numbers < [2, 7, 1] := by decide
  have hprio : ∀ e ∈ offsetWakeups, ∀ prio ∈ e.int? "prio", minSigned + 100 ≤ prio := by
    decide +kernel
  have hlowers : ∀ e ∈ offsetWakeups, e.Lowers := fun e he _ prio hp => hprio e he prio hp
  exact ⟨hold, hlowers, (priorityOffset_course _ _).1 hold hlowers, by decide +kernel, hnew,
    (priorityOffset_course _ _).2 hnew⟩

end KernelReplay
