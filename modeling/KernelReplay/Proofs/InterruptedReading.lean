import KernelReplay.Proofs.Runs

/-
  Readers that fail. Reading stops at the first failure, with the events before it replayed, and
  tells the number of the event that could not be read (`tryRun_map_ok_append`). Whoever goes on with
  what comes after each failure (`Replay.Resumes`) loses nothing: a step at a time, an event is
  replayed before the rest is read on, and a failure is told and nothing else. So the end is that of
  one run over the events alone, and each failure has the number that its event would have had
  (`Replay.resumed_reading`).
-/

namespace KernelReplay

/-- The events that could be read. -/
def readEvents (items : List (Except String Event)) : List Event :=
  items.filterMap fun
    | .ok e => some e
    | .error _ => none

/-- What comes after the first failure. -/
def afterFailure : List (Except String Event) → List (Except String Event)
  | [] => []
  | .ok _ :: rest => afterFailure rest
  | .error _ :: rest => rest

/-- The failures of a reader, where `count` events were replayed before: each has the number of the
event that could not be read. -/
def failuresFrom (count : Nat) : List (Except String Event) → List ReadFailure
  | [] => []
  | .ok _ :: rest => failuresFrom (count + 1) rest
  | .error cause :: rest => { number := count + 1, cause } :: failuresFrom count rest

theorem afterFailure_append (events : List Event) (cause : String)
    (rest : List (Except String Event)) :
    afterFailure (events.map .ok ++ .error cause :: rest) = rest := by
  induction events with
  | nil => rfl
  | cons e events ih => exact ih

/-- A failure is told after those before it, and counts no event. -/
theorem getElem?_failuresFrom (count : Nat) (before : List (Except String Event)) (cause : String)
    (rest : List (Except String Event)) :
    (failuresFrom count (before ++ .error cause :: rest))[(failuresFrom count before).length]? =
      some { number := count + (readEvents before).length + 1, cause } := by
  induction before generalizing count with
  | nil => rfl
  | cons item before ih =>
    cases item with
    | error cause' => exact ih count
    | ok e =>
      have hcount : count + (readEvents (.ok e :: before)).length =
          count + 1 + (readEvents before).length := by
        show count + ((readEvents before).length + 1) = _
        omega
      rw [hcount]
      exact ih (count + 1)

namespace Replay

/-- What is reached, after signals sent before. -/
def Progress.after (signals : List Signal) (p : Progress) : Progress :=
  { p with signals := signals ++ p.signals }

theorem Progress.after_start (p : Progress) :
    ({ replay := p.replay, signals := [] } : Progress).after p.signals = p := by
  unfold after
  rw [List.append_nil]

theorem Progress.after_after (p : Progress) (l m : List Signal) :
    (p.after m).after l = p.after (l ++ m) := by
  unfold after
  rw [List.append_assoc]

/-! ## Reading up to a failure -/

theorem tryRun_ok (r : Replay) (e : Event) (rest : List (Except String Event)) :
    r.tryRun (.ok e :: rest) = (r.process e).bind fun first =>
      (first.replay.tryRun rest).map fun (last, failure) => (last.after first.signals, failure) := by
  rw [tryRun]
  cases r.process e with
  | error f => rfl
  | ok first =>
    show (first.replay.tryRun rest).bind _ = (first.replay.tryRun rest).map _
    cases first.replay.tryRun rest <;> rfl

theorem tryRun_error (r : Replay) (cause : String) (rest : List (Except String Event)) :
    r.tryRun (.error cause :: rest) = (checkedSucc r.processed).map fun number =>
      ({ replay := r, signals := [] }, some { number, cause }) := by
  rw [tryRun]
  cases checkedSucc r.processed <;> rfl

/-- Events that can be read are replayed, and reading goes on from there. -/
theorem tryRun_map_ok_append (r : Replay) (events : List Event) (items : List (Except String Event)) :
    r.tryRun (events.map .ok ++ items) = (r.run events).bind fun p =>
      (p.replay.tryRun items).map fun (q, failure) => (q.after p.signals, failure) := by
  induction events generalizing r with
  | nil =>
    show r.tryRun items = (r.tryRun items).map _
    cases r.tryRun items <;> rfl
  | cons e rest ih =>
    rw [List.map_cons, List.cons_append, tryRun_ok, run]
    cases r.process e with
    | error f => rfl
    | ok first =>
      show (first.replay.tryRun (rest.map .ok ++ items)).map _ =
        ((first.replay.run rest).bind fun last => .ok (last.after first.signals)).bind _
      rw [ih]
      cases first.replay.run rest with
      | error f => rfl
      | ok last =>
        show ((last.replay.tryRun items).map _).map _ = (last.replay.tryRun items).map _
        cases last.replay.tryRun items with
        | error f => rfl
        | ok read => exact congrArg (fun q => Except.ok (q, read.2)) (Progress.after_after ..)

theorem tryRun_map_ok (r : Replay) (events : List Event) :
    r.tryRun (events.map .ok) = (r.run events).map fun p => (p, none) := by
  have h := r.tryRun_map_ok_append events []
  rw [List.append_nil] at h
  rw [h]
  cases r.run events with
  | error f => rfl
  | ok p => exact congrArg (fun q => Except.ok (q, none)) p.after_start

theorem tryRun_failure (r : Replay) (events : List Event) (cause : String)
    (rest : List (Except String Event)) :
    r.tryRun (events.map .ok ++ .error cause :: rest) = (r.run events).bind fun p =>
      (checkedSucc p.replay.processed).map fun number => (p, some { number, cause }) := by
  rw [tryRun_map_ok_append]
  cases r.run events with
  | error f => rfl
  | ok p =>
    dsimp only [Except.bind]
    rw [tryRun_error]
    cases checkedSucc p.replay.processed with
    | error f => rfl
    | ok number =>
      exact congrArg (fun q => Except.ok (q, some (ReadFailure.mk number cause))) p.after_start

/-! ## Reading on -/

/-- Reading goes on after each failure, with what comes after it, until nothing fails. -/
inductive Resumes : Replay → List (Except String Event) → Progress → List ReadFailure → Prop
  | finish {r : Replay} {items : List (Except String Event)} {p : Progress} :
      r.tryRun items = .ok (p, none) → Resumes r items p []
  | goOn {r : Replay} {items : List (Except String Event)} {p q : Progress} {f : ReadFailure}
      {failures : List ReadFailure} :
      r.tryRun items = .ok (p, some f) → Resumes p.replay (afterFailure items) q failures →
      Resumes r items (q.after p.signals) (f :: failures)

variable {r : Replay} {e : Event} {cause : String} {rest : List (Except String Event)} {p : Progress}
  {failures : List ReadFailure}

theorem tryRun_ok_eq_ok_iff {failure : Option ReadFailure} :
    r.tryRun (.ok e :: rest) = .ok (p, failure) ↔ ∃ first last, r.process e = .ok first ∧
      first.replay.tryRun rest = .ok (last, failure) ∧ p = last.after first.signals := by
  rw [tryRun]
  simp only [checked_bind_eq_ok_iff, Prod.exists, Except.ok.injEq, Prod.mk.injEq]
  constructor
  · rintro ⟨first, he, last, failure, hl, rfl, rfl⟩
    exact ⟨first, last, he, hl, rfl⟩
  · rintro ⟨first, last, he, hl, rfl⟩
    exact ⟨first, he, last, failure, hl, rfl, rfl⟩

theorem tryRun_error_eq_ok_iff {failure : Option ReadFailure} :
    r.tryRun (.error cause :: rest) = .ok (p, failure) ↔ FitsWord (r.processed + 1) ∧
      p = { replay := r, signals := [] } ∧ failure = some { number := r.processed + 1, cause } := by
  rw [tryRun_error]
  unfold checkedSucc
  split <;> simp [Except.map, *, eq_comm]

theorem resumes_nil_iff : r.Resumes [] p failures ↔
    p = { replay := r, signals := [] } ∧ failures = [] := by
  constructor
  · rintro (h | ⟨h, -⟩)
    · cases h
      exact ⟨rfl, rfl⟩
    · cases h
  · rintro ⟨rfl, rfl⟩
    exact .finish rfl

/-- An event is replayed before reading goes on. -/
theorem resumes_ok_iff : r.Resumes (.ok e :: rest) p failures ↔ ∃ first last,
    r.process e = .ok first ∧ first.replay.Resumes rest last failures ∧
      p = last.after first.signals := by
  constructor
  · rintro (h | ⟨h, hrest⟩)
    · obtain ⟨first, last, he, hl, rfl⟩ := tryRun_ok_eq_ok_iff.1 h
      exact ⟨first, last, he, .finish hl, rfl⟩
    · obtain ⟨first, last, he, hl, rfl⟩ := tryRun_ok_eq_ok_iff.1 h
      exact ⟨first, _, he, .goOn hl hrest, (Progress.after_after ..).symm⟩
  · rintro ⟨first, last, he, hl | ⟨hl, hrest⟩, rfl⟩
    · exact .finish (tryRun_ok_eq_ok_iff.2 ⟨first, last, he, hl, rfl⟩)
    · rw [Progress.after_after]
      exact .goOn (tryRun_ok_eq_ok_iff.2 ⟨first, _, he, hl, rfl⟩) hrest

/-- A failure is told, and nothing else happens. -/
theorem resumes_error_iff : r.Resumes (.error cause :: rest) p failures ↔
    FitsWord (r.processed + 1) ∧ ∃ later, r.Resumes rest p later ∧
      failures = { number := r.processed + 1, cause } :: later := by
  constructor
  · rintro (h | ⟨h, hrest⟩)
    · obtain ⟨-, -, hnone⟩ := tryRun_error_eq_ok_iff.1 h
      cases hnone
    · obtain ⟨hcount, rfl, hf⟩ := tryRun_error_eq_ok_iff.1 h
      cases hf
      exact ⟨hcount, _, hrest, rfl⟩
  · rintro ⟨hcount, later, hrest, rfl⟩
    exact .goOn (tryRun_error_eq_ok_iff.2 ⟨hcount, rfl, rfl⟩) hrest

/-- Every event is counted. -/
theorem processed_of_process (h : r.process e = .ok p) : p.replay.processed = r.processed + 1 := by
  obtain ⟨o, processed, -, hcount, rfl⟩ := process_eq_ok_iff.1 h
  exact (checkedSucc_eq_ok_iff.1 hcount).2.symm

/-- Reading on reaches what one run over the events reaches, if the number of each failure is one. -/
theorem resumes_iff {items : List (Except String Event)} : r.Resumes items p failures ↔
    r.run (readEvents items) = .ok p ∧ failures = failuresFrom r.processed items ∧
      ∀ f ∈ failures, FitsWord f.number := by
  induction items generalizing r p failures with
  | nil =>
    rw [resumes_nil_iff]
    show _ ↔ Except.ok (ε := Overflow) _ = .ok p ∧ failures = [] ∧ _
    constructor
    · rintro ⟨rfl, rfl⟩
      exact ⟨rfl, rfl, nofun⟩
    · rintro ⟨hp, rfl, -⟩
      exact ⟨(Except.ok.inj hp).symm, rfl⟩
  | cons item rest ih =>
    cases item with
    | ok e =>
      rw [resumes_ok_iff]
      show _ ↔ r.run (e :: readEvents rest) = .ok p ∧
        failures = failuresFrom (r.processed + 1) rest ∧ _
      rw [run_cons_eq_ok_iff]
      constructor
      · rintro ⟨first, last, he, hrest, rfl⟩
        obtain ⟨hrun, hfailures, hfits⟩ := ih.1 hrest
        rw [processed_of_process he] at hfailures
        exact ⟨⟨first, last, he, hrun, rfl⟩, hfailures, hfits⟩
      · rintro ⟨⟨first, last, he, hrun, rfl⟩, hfailures, hfits⟩
        rw [← processed_of_process he] at hfailures
        exact ⟨first, last, he, ih.2 ⟨hrun, hfailures, hfits⟩, rfl⟩
    | error cause =>
      rw [resumes_error_iff]
      show _ ↔ r.run (readEvents rest) = .ok p ∧
        failures = { number := r.processed + 1, cause } :: failuresFrom r.processed rest ∧ _
      constructor
      · rintro ⟨hcount, later, hrest, rfl⟩
        obtain ⟨hrun, rfl, hfits⟩ := ih.1 hrest
        exact ⟨hrun, rfl, List.forall_mem_cons.2 ⟨hcount, hfits⟩⟩
      · rintro ⟨hrun, rfl, hfits⟩
        obtain ⟨hcount, hfits⟩ := List.forall_mem_cons.1 hfits
        exact ⟨hcount, _, ih.2 ⟨hrun, rfl, hfits⟩, rfl⟩

/-- Reading that is interrupted loses nothing. Up to the first failure the events are replayed as in a
run, and the failure is told with the number of the next event; without a failure it is the run. Reading
on after each failure ends, with what a run over the events alone reaches, and exactly the failures of the
reader are told, each with one more than the count of the events replayed before it. -/
theorem resumed_reading (r : Replay) (items : List (Except String Event)) :
    (∀ events, items = events.map .ok → r.tryRun items = (r.run events).map fun p => (p, none)) ∧
    (∀ events cause rest, items = events.map .ok ++ .error cause :: rest →
      r.tryRun items = ((r.run events).bind fun p =>
        (checkedSucc p.replay.processed).map fun number => (p, some { number, cause })) ∧
      afterFailure items = rest) ∧
    (∀ p failures, r.Resumes items p failures ↔ r.run (readEvents items) = .ok p ∧
      failures = failuresFrom r.processed items ∧ ∀ f ∈ failures, FitsWord f.number) ∧
    ∀ before cause rest, items = before ++ .error cause :: rest →
      (failuresFrom r.processed items)[(failuresFrom r.processed before).length]? =
        some { number := r.processed + (readEvents before).length + 1, cause } := by
  refine ⟨?_, ?_, fun p failures => resumes_iff, ?_⟩
  · rintro events rfl
    exact r.tryRun_map_ok events
  · rintro events cause rest rfl
    exact ⟨r.tryRun_failure events cause rest, afterFailure_append events cause rest⟩
  · rintro before cause rest rfl
    exact getElem?_failuresFrom r.processed before cause rest

/-- A thread takes over a CPU, and gives it up again. -/
def switches : List Event :=
  [.recorded 0 10 "sched_switch" [("prev_tid", .signed 0), ("next_tid", .signed 7)],
   .recorded 0 30 "sched_switch" [("prev_tid", .signed 7), ("next_tid", .signed 0)]]

/-- A stream that is torn after each switch. -/
def tornSwitches : List (Except String Event) :=
  switches.flatMap fun e => [.ok e, .error "truncated packet"]

/-- Reading stops while the thread runs, and ends with both switches replayed. -/
theorem resumed_reading_tornSwitches : ∃ p q : Progress,
    (ofSettings {}).tryRun tornSwitches =
      .ok (p, some { number := 2, cause := "truncated packet" }) ∧
    p.replay.state.running? 0 = some 7 ∧ afterFailure tornSwitches = tornSwitches.drop 2 ∧
    (ofSettings {}).Resumes tornSwitches q [{ number := 2, cause := "truncated packet" },
      { number := 3, cause := "truncated packet" }] ∧
    (ofSettings {}).run switches = .ok q ∧ q.replay.state.running? 0 = none := by
  obtain ⟨-, hstops, hresumes, -⟩ := resumed_reading (ofSettings {}) tornSwitches
  have hbegins : gives {} (switches.take 1) (fun p =>
      p.replay.processed = 1 ∧ p.replay.state.running? 0 = some 7) = true := by decide +kernel
  have hends : gives {} switches (fun q => q.replay.state.running? 0 = none) = true := by
    decide +kernel
  obtain ⟨p, hfirst, htest⟩ := run_of_gives hbegins
  obtain ⟨q, hall, hidle⟩ := run_of_gives hends
  obtain ⟨hcount, hruns⟩ := of_decide_eq_true htest
  obtain ⟨htry, hafter⟩ := hstops (switches.take 1) "truncated packet" (tornSwitches.drop 2) rfl
  rw [hfirst] at htry
  refine ⟨p, q, htry.trans ?_, hruns, hafter, ?_, hall, of_decide_eq_true hidle⟩
  · dsimp only [Except.bind]
    rw [hcount]
    rfl
  · exact (hresumes q _).2 ⟨hall, rfl, by decide⟩

end Replay

end KernelReplay
