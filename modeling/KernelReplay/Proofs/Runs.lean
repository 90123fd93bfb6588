import KernelReplay.Replay
import KernelReplay.Update.Laws

/-
  Runs of a replay. A `Run` is what can be reached from a start by replaying events one after the
  other, with a record of every step; `run_eq_ok_iff` says that it is what `Replay.run` computes. An
  event does to the state what the rules of its kind say, in the standard order of the subsystems
  (`Run.step_cases`), so a law that the rules of every kind obey holds of every step of a run.
-/

namespace KernelReplay

open Update

namespace Subsystem

/-- The subsystems in the standard order, with remaps remembered. -/
def standardWith (remaps : List Remap) : List Subsystem :=
  [scheduling, paging, interrupts, syscalls, ioRequests, snapshot, blockRequests remaps, traffic]

/-- What an event of a kind means, subsystem by subsystem, and the remaps after it. -/
def effect (kind : EventKind) (e : Event) (remaps : List Remap) : Update (List Remap) := do
  Scheduling.apply kind e
  Paging.apply kind e
  Interrupts.apply kind e
  Syscalls.apply kind e
  IoRequests.apply kind e
  Snapshot.apply kind e
  let remaps ← BlockRequests.apply kind e remaps
  Traffic.apply kind e
  pure remaps

theorem applyAll_standardWith {e : Event} {kind : EventKind} (h : e.kind? = some kind)
    (remaps : List Remap) :
    applyAll e (standardWith remaps) = effect kind e remaps >>= fun r => pure (standardWith r) := by
  simp only [standardWith, applyAll, Subsystem.apply, h, applyKind, effect, bind_assoc, pure_bind]

theorem effect_schedSwitch (e : Event) (remaps : List Remap) :
    effect .schedSwitch e remaps = Scheduling.switch e >>= fun _ => pure remaps := by
  simp only [effect, Scheduling.apply, Paging.apply, Interrupts.apply, Syscalls.apply,
    IoRequests.apply, Snapshot.apply, BlockRequests.apply, Traffic.apply, pure_bind]

theorem effect_schedFork (e : Event) (remaps : List Remap) :
    effect .schedFork e remaps = Scheduling.fork e >>= fun _ => pure remaps := by
  simp only [effect, Scheduling.apply, Paging.apply, Interrupts.apply, Syscalls.apply,
    IoRequests.apply, Snapshot.apply, BlockRequests.apply, Traffic.apply, pure_bind]

theorem effect_syscallEntry (e : Event) (remaps : List Remap) :
    effect .syscallEntry e remaps =
      (Syscalls.entry e >>= fun _ => IoRequests.entry e) >>= fun _ => pure remaps := by
  simp only [bind_assoc, effect, Scheduling.apply, Paging.apply, Interrupts.apply, Syscalls.apply,
    IoRequests.apply, Snapshot.apply, BlockRequests.apply, Traffic.apply, pure_bind]

theorem effect_syscallExit (e : Event) (remaps : List Remap) :
    effect .syscallExit e remaps =
      (Syscalls.exit e >>= fun _ => IoRequests.exit e) >>= fun _ => pure remaps := by
  simp only [bind_assoc, effect, Scheduling.apply, Paging.apply, Interrupts.apply, Syscalls.apply,
    IoRequests.apply, Snapshot.apply, BlockRequests.apply, Traffic.apply, pure_bind]

/-- Events about pages are for two subsystems. -/
theorem effect_pages {kind : EventKind}
    (h : kind ∈ [.pageAlloc, .pageFree, .pageFreeKmem, .pagesWritten, .kswapdWakeup]) (e : Event)
    (remaps : List Remap) : effect kind e remaps =
      (Paging.apply kind e >>= fun _ => IoRequests.apply kind e) >>= fun _ => pure remaps := by
  simp only [List.mem_cons, List.not_mem_nil, or_false] at h
  rcases h with rfl | rfl | rfl | rfl | rfl <;>
    simp only [bind_assoc, effect, Scheduling.apply, Interrupts.apply, Syscalls.apply,
      Snapshot.apply, BlockRequests.apply, Traffic.apply, pure_bind]

theorem applyAll_of_no_kind {e : Event} (h : e.kind? = none) (l : List Subsystem) :
    applyAll e l = pure l := by
  induction l with
  | nil => rfl
  | cons u rest ih => simp only [applyAll, Subsystem.apply, h, ih, pure_bind]

end Subsystem

open Subsystem

theorem Replay.process_eq_ok_iff {r : Replay} {e : Event} {p : Replay.Progress} :
    r.process e = .ok p ↔ ∃ o processed, applyAll e r.subsystems r.state = .ok o ∧
      checkedSucc r.processed = .ok processed ∧
      p = { replay := { state := o.state, subsystems := o.value, processed },
            signals := o.signals } := by
  unfold Replay.process
  simp only [checked_bind_eq_ok_iff, Except.ok.injEq, exists_and_left, eq_comm (a := p)]

/-- With the subsystems in the standard order, an event of a kind is replayed by the rules of its kind
and then counted. -/
theorem Replay.process_of_kind {r : Replay} {e : Event} {kind : EventKind} {remaps : List Remap}
    (hr : r.subsystems = standardWith remaps) (hk : e.kind? = some kind) :
    r.process e = (effect kind e remaps r.state).bind fun o =>
      (checkedSucc r.processed).map fun processed =>
        { replay := { state := o.state, subsystems := standardWith o.value, processed }
          signals := o.signals } := by
  unfold Replay.process
  rw [hr, applyAll_standardWith hk, bind_pure_run]
  cases effect kind e remaps r.state with
  | error f => rfl
  | ok o => cases checkedSucc r.processed <;> rfl

section Update

variable {r : Replay} {e : Event} {kind : EventKind} {remaps : List Remap} {u : Update Unit}
  (hr : r.subsystems = standardWith remaps) (hk : e.kind? = some kind)
  (hu : effect kind e remaps = u >>= fun _ => pure remaps)

include hr hk hu

/-- An event whose rules do not tell of remaps is replayed by what they do to the state. -/
theorem Replay.process_of_update : r.process e = (u r.state).bind fun o =>
    (checkedSucc r.processed).map fun processed =>
      { replay := { state := o.state, subsystems := r.subsystems, processed }
        signals := o.signals } := by
  rw [process_of_kind hr hk, hu, bind_pure_run _ fun _ => remaps, hr]
  cases u r.state <;> rfl

theorem Replay.process_of_update_ok {o : Outcome Unit} (ho : u r.state = .ok o)
    (hcount : FitsWord (r.processed + 1)) : r.process e = .ok
      { replay := { state := o.state, subsystems := r.subsystems, processed := r.processed + 1 }
        signals := o.signals } := by
  rw [process_of_update hr hk hu, ho, checkedSucc_eq_ok_iff.2 ⟨hcount, rfl⟩]
  rfl

end Update

theorem Replay.run_cons_eq_ok_iff {r : Replay} {e : Event} {rest : List Event}
    {p : Replay.Progress} :
    r.run (e :: rest) = .ok p ↔ ∃ first last, r.process e = .ok first ∧
      first.replay.run rest = .ok last ∧
      p = { last with signals := first.signals ++ last.signals } := by
  rw [Replay.run]
  simp only [checked_bind_eq_ok_iff, Except.ok.injEq, exists_and_left, eq_comm (a := p)]

/-- An event before others, as far as the replay goes. -/
theorem Replay.run_cons_replay (r : Replay) (e : Event) (rest : List Event) :
    (r.run (e :: rest)).map (·.replay) =
      (r.process e).bind fun p => (p.replay.run rest).map (·.replay) := by
  rw [Replay.run]
  cases r.process e with
  | error f => rfl
  | ok p =>
    show ((p.replay.run rest).bind _).map _ = (p.replay.run rest).map _
    cases p.replay.run rest <;> rfl

theorem Replay.run_singleton (r : Replay) (e : Event) : r.run [e] = r.process e := by
  rw [Replay.run]
  cases r.process e with
  | error f => rfl
  | ok p => exact congrArg (fun l => Except.ok { p with signals := l }) (List.append_nil p.signals)

/-- A list is split at each of its positions. -/
theorem split_at_position {α : Type} {l : List α} {i : Nat} {x : α} (h : l[i]? = some x) :
    l = l.take i ++ x :: l.drop (i + 1) ∧ (l.take i).length = i := by
  obtain ⟨hi, rfl⟩ := List.getElem?_eq_some_iff.1 h
  rw [List.getElem_cons_drop, List.take_append_drop]
  exact ⟨rfl, List.length_take_of_le (Nat.le_of_lt hi)⟩

/-- A list with one more at its end is split there or before. -/
theorem split_snoc {α : Type} {past before rest : List α} {x y : α}
    (h : past ++ [x] = before ++ y :: rest) :
    (past = before ∧ x = y ∧ rest = []) ∨
      ∃ rest', past = before ++ y :: rest' ∧ rest = rest' ++ [x] := by
  rcases List.eq_nil_or_concat rest with rfl | ⟨rest', z, rfl⟩
  · obtain ⟨hpast, hlast⟩ := List.append_inj' h rfl
    exact Or.inl ⟨hpast, List.singleton_inj.1 hlast, rfl⟩
  · rw [List.concat_eq_append, ← List.cons_append, ← List.append_assoc] at h
    obtain ⟨hpast, hlast⟩ := List.append_inj' h rfl
    rw [List.concat_eq_append, List.singleton_inj.1 hlast]
    exact Or.inr ⟨rest', hpast, rfl⟩

/-- One replayed event. -/
structure Step where
  before : State
  event : Event
  after : State
  signals : List Signal

/-- What is reached from a start, with the steps that lead there. -/
inductive Run (settings : Settings) : List Step → Replay → Prop
  | start : Run settings [] (.ofSettings settings)
  | next {history : List Step} {r : Replay} {e : Event} {p : Replay.Progress} :
      Run settings history r → r.process e = .ok p →
      Run settings (history ++ [⟨r.state, e, p.replay.state, p.signals⟩]) p.replay

namespace Run

variable {settings : Settings} {history : List Step} {r : Replay} {e : Event} {p : Replay.Progress}

/-- The subsystems stay in the standard order. -/
theorem subsystems (h : Run settings history r) : ∃ remaps, r.subsystems = standardWith remaps := by
  induction h with
  | start => exact ⟨[], rfl⟩
  | @next history r e p _ hp ih =>
    obtain ⟨remaps, hr⟩ := ih
    obtain ⟨o, processed, ho, -, rfl⟩ := Replay.process_eq_ok_iff.1 hp
    rw [hr] at ho
    cases hk : e.kind? with
    | none =>
      rw [applyAll_of_no_kind hk] at ho
      cases ho
      exact ⟨remaps, rfl⟩
    | some kind =>
      rw [applyAll_standardWith hk] at ho
      obtain ⟨o₁, o₂, -, h₂, rfl⟩ := bind_eq_ok_iff.1 ho
      cases h₂
      exact ⟨o₁.value, rfl⟩

/-- An event does what the rules of its kind say, and nothing if it has none. -/
theorem step_cases (h : Run settings history r) (hp : r.process e = .ok p) :
    (e.kind? = none ∧ p.replay.state = r.state ∧ p.signals = []) ∨
    ∃ kind remaps o, e.kind? = some kind ∧ effect kind e remaps r.state = .ok o ∧
      p.replay.state = o.state ∧ p.signals = o.signals := by
  obtain ⟨remaps, hr⟩ := h.subsystems
  obtain ⟨o, processed, ho, -, rfl⟩ := Replay.process_eq_ok_iff.1 hp
  rw [hr] at ho
  cases hk : e.kind? with
  | none =>
    rw [applyAll_of_no_kind hk] at ho
    cases ho
    exact Or.inl ⟨rfl, rfl, rfl⟩
  | some kind =>
    rw [applyAll_standardWith hk] at ho
    obtain ⟨o₁, o₂, h₁, h₂, rfl⟩ := bind_eq_ok_iff.1 ho
    cases h₂
    exact Or.inr ⟨kind, remaps, o₁, rfl, h₁, rfl, List.append_nil _⟩

/-- An event whose rules tell of no remaps does what they do to the state. -/
theorem update_run (h : Run settings history r) (hp : r.process e = .ok p) {kind : EventKind}
    (hk : e.kind? = some kind) {u : Update Unit}
    (hu : ∀ remaps, effect kind e remaps = u >>= fun _ => pure remaps) :
    ∃ o, u r.state = .ok o ∧ p.replay.state = o.state ∧ p.signals = o.signals := by
  rcases h.step_cases hp with ⟨hnone, -, -⟩ | ⟨kind', remaps, o, hk', ho, hs, hl⟩
  · rw [hk] at hnone
    cases hnone
  · obtain rfl : kind' = kind := Option.some.inj (hk'.symm.trans hk)
    rw [hu remaps] at ho
    obtain ⟨o', ho', hs', hl'⟩ := run_of_bind_pure ho
    exact ⟨o', ho', hs.trans hs', hl.trans hl'⟩

/-- The entry of a syscall is what the two subsystems that begin syscalls make of it. -/
theorem entry_run (h : Run settings history r) (hp : r.process e = .ok p)
    (hk : e.kind? = some .syscallEntry) :
    ∃ o, (Syscalls.entry e >>= fun _ => IoRequests.entry e) r.state = .ok o ∧
      p.replay.state = o.state ∧ p.signals = o.signals :=
  h.update_run hp hk (effect_syscallEntry e)

/-- The exit of a syscall is what the two subsystems that end syscalls make of it. -/
theorem exit_run (h : Run settings history r) (hp : r.process e = .ok p)
    (hk : e.kind? = some .syscallExit) :
    ∃ o, (Syscalls.exit e >>= fun _ => IoRequests.exit e) r.state = .ok o ∧
      p.replay.state = o.state ∧ p.signals = o.signals :=
  h.update_run hp hk (effect_syscallExit e)

/-- The last step of a run replays its event after the run before it. -/
theorem of_snoc {step : Step} (h : Run settings (history ++ [step]) r) :
    ∃ r₀ p, Run settings history r₀ ∧ r₀.process step.event = .ok p ∧ step.before = r₀.state ∧
      step.after = p.replay.state ∧ step.signals = p.signals ∧ r = p.replay := by
  generalize hall : history ++ [step] = all at h
  cases h with
  | start => simp at hall
  | @next history' r₀ e p h₀ hp =>
    obtain ⟨rfl, hstep⟩ := List.append_inj' hall rfl
    obtain rfl := List.singleton_inj.1 hstep
    exact ⟨r₀, p, h₀, hp, rfl, rfl, rfl, rfl⟩

/-- The first part of a run is a run. -/
theorem of_append {past recent : List Step} (h : Run settings (past ++ recent) r) :
    ∃ r₀, Run settings past r₀ := by
  generalize hall : past ++ recent = all at h
  induction h generalizing recent with
  | start =>
    obtain ⟨rfl, -⟩ := List.append_eq_nil_iff.1 hall
    exact ⟨_, .start⟩
  | next h hp ih =>
    rcases List.eq_nil_or_concat recent with rfl | ⟨recent, last, rfl⟩
    · rw [List.append_nil] at hall
      exact ⟨_, hall ▸ h.next hp⟩
    · rw [List.concat_eq_append, ← List.append_assoc] at hall
      exact ih (List.append_inj' hall rfl).1

/-- Each step of a run replays its event after the run before it. -/
theorem of_split {past rest : List Step} {step : Step}
    (h : Run settings (past ++ step :: rest) r) :
    ∃ r₀ p, Run settings past r₀ ∧ r₀.process step.event = .ok p ∧ step.before = r₀.state ∧
      step.after = p.replay.state ∧ step.signals = p.signals := by
  rw [List.append_cons] at h
  obtain ⟨r', h'⟩ := h.of_append
  obtain ⟨r₀, p, h₀, hp, hbefore, hafter, hsignals, -⟩ := h'.of_snoc
  exact ⟨r₀, p, h₀, hp, hbefore, hafter, hsignals⟩

/-! ## Runs and their computation -/

theorem extend {events : List Event} (h : Run settings history r) (hp : r.run events = .ok p) :
    ∃ more, Run settings (history ++ more) p.replay ∧ more.map (·.event) = events ∧
      more.flatMap (·.signals) = p.signals := by
  induction events generalizing history r p with
  | nil =>
    cases hp
    exact ⟨[], by simpa using h, rfl, rfl⟩
  | cons e rest ih =>
    obtain ⟨first, last, he, hl, rfl⟩ := Replay.run_cons_eq_ok_iff.1 hp
    obtain ⟨more, hm, hev, hsig⟩ := ih (h.next he) hl
    refine ⟨⟨r.state, e, first.replay.state, first.signals⟩ :: more, ?_, ?_, ?_⟩
    · simpa using hm
    · simp [hev]
    · simp [hsig]

theorem run_snoc {r : Replay} {events : List Event} {q : Replay.Progress}
    (hp : r.run events = .ok p) (hq : p.replay.process e = .ok q) :
    r.run (events ++ [e]) = .ok { q with signals := p.signals ++ q.signals } := by
  induction events generalizing r p with
  | nil =>
    cases hp
    exact Replay.run_cons_eq_ok_iff.2 ⟨q, _, hq, rfl, by simp⟩
  | cons e' rest ih =>
    obtain ⟨first, last, he, hl, rfl⟩ := Replay.run_cons_eq_ok_iff.1 hp
    exact Replay.run_cons_eq_ok_iff.2 ⟨first, _, he, ih hl hq, by simp⟩

/-- Runs are what `Replay.run` computes. -/
theorem run_eq_ok_iff {events : List Event} :
    (Replay.ofSettings settings).run events = .ok p ↔
      ∃ history, Run settings history p.replay ∧ history.map (·.event) = events ∧
        history.flatMap (·.signals) = p.signals := by
  constructor
  · intro hp
    simpa using Run.start.extend hp
  · rintro ⟨history, h, rfl, hs⟩
    suffices ∀ {history r}, Run settings history r → (Replay.ofSettings settings).run
        (history.map (·.event)) = .ok { replay := r, signals := history.flatMap (·.signals) } by
      rw [this h, hs]
    intro history r h
    induction h with
    | start => rfl
    | next _ hp ih => simpa using run_snoc ih hp

end Run

/-! ## Runs of given events -/

/-- An event recorded on a CPU. -/
def Event.recorded (cpu : UInt32) (timestamp : Int64) (name : String)
    (fields : List (String × FieldValue)) : Event :=
  Event.onCpu { timestamp, name, fields := .ofList fields } cpu

/-- Whether replaying events from the start gives what a test accepts. -/
def Replay.gives (settings : Settings) (events : List Event) (test : Replay.Progress → Bool) :
    Bool :=
  match (Replay.ofSettings settings).run events with
  | .ok p => test p
  | .error _ => false

theorem Replay.run_of_gives {settings : Settings} {events : List Event}
    {test : Replay.Progress → Bool} (h : Replay.gives settings events test = true) :
    ∃ p, (Replay.ofSettings settings).run events = .ok p ∧ test p = true := by
  unfold Replay.gives at h
  split at h
  · rename_i p hp
    exact ⟨p, hp, h⟩
  · cases h

theorem Run.of_gives {settings : Settings} {events : List Event} {test : Replay.Progress → Bool}
    (h : Replay.gives settings events test = true) :
    ∃ history p, Run settings history p.replay ∧ history.map (·.event) = events ∧
      history.flatMap (·.signals) = p.signals ∧ test p = true := by
  obtain ⟨p, hp, htest⟩ := Replay.run_of_gives h
  obtain ⟨history, hr, he, hs⟩ := Run.run_eq_ok_iff.1 hp
  exact ⟨history, p, hr, he, hs, htest⟩

/-- The steps of replaying events, and what they reach. -/
def Replay.steps (r : Replay) : List Event → Except Overflow (List Step × Replay)
  | [] => .ok ([], r)
  | e :: rest => do
    let p ← r.process e
    let (more, last) ← p.replay.steps rest
    .ok (⟨r.state, e, p.replay.state, p.signals⟩ :: more, last)

theorem Run.extend_steps {settings : Settings} {history more : List Step} {r last : Replay}
    {events : List Event} (h : Run settings history r) (hs : r.steps events = .ok (more, last)) :
    Run settings (history ++ more) last := by
  induction events generalizing history r more with
  | nil =>
    cases hs
    rwa [List.append_nil]
  | cons e rest ih =>
    obtain ⟨p, hp, hs⟩ := checked_bind_eq_ok_iff.1 hs
    obtain ⟨⟨more', last'⟩, hmore, hs⟩ := checked_bind_eq_ok_iff.1 hs
    cases hs
    simpa using ih (h.next hp) hmore

/-- Whether the steps of replaying events from the start, and what they reach, are what a test
accepts. -/
def Replay.showsSteps (settings : Settings) (events : List Event)
    (test : List Step → Replay → Bool) : Bool :=
  match (Replay.ofSettings settings).steps events with
  | .ok (history, r) => test history r
  | .error _ => false

theorem Run.of_showsSteps {settings : Settings} {events : List Event}
    {test : List Step → Replay → Bool} (h : Replay.showsSteps settings events test = true) :
    ∃ history r, Run settings history r ∧ test history r = true := by
  unfold Replay.showsSteps at h
  split at h
  · rename_i history r hs
    exact ⟨history, r, by simpa using Run.start.extend_steps hs, h⟩
  · cases h

/-- Whether one more event after events from the start gives what a test accepts. -/
def Replay.showsNext (settings : Settings) (events : List Event) (e : Event)
    (test : List Step → Replay → Replay.Progress → Bool) : Bool :=
  Replay.showsSteps settings events fun history r =>
    match r.process e with
    | .ok p => test history r p
    | .error _ => false

theorem Run.of_showsNext {settings : Settings} {events : List Event} {e : Event}
    {test : List Step → Replay → Replay.Progress → Bool}
    (h : Replay.showsNext settings events e test = true) :
    ∃ history r p, Run settings history r ∧ r.process e = .ok p ∧ test history r p = true := by
  obtain ⟨history, r, hr, htest⟩ := Run.of_showsSteps h
  split at htest
  · rename_i p hp
    exact ⟨history, r, p, hr, hp, htest⟩
  · cases htest

/-- Whether events from the start, and others after them, reach what a test accepts. -/
def Replay.showsLater (settings : Settings) (events later : List Event)
    (test : List Step → Replay → List Step → Replay → Bool) : Bool :=
  Replay.showsSteps settings events fun history r =>
    match r.steps later with
    | .ok (more, last) => test history r more last
    | .error _ => false

theorem Run.of_showsLater {settings : Settings} {events later : List Event}
    {test : List Step → Replay → List Step → Replay → Bool}
    (h : Replay.showsLater settings events later test = true) :
    ∃ history r more last, Run settings history r ∧ Run settings (history ++ more) last ∧
      test history r more last = true := by
  obtain ⟨history, r, hr, htest⟩ := Run.of_showsSteps h
  split at htest
  · rename_i more last hsteps
    exact ⟨history, r, more, last, hr, hr.extend_steps hsteps, htest⟩
  · cases htest

end KernelReplay
