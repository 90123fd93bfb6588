import Mathlib
import KernelReplay.Proofs.ExitSequences
import KernelReplay.Proofs.FacetRuns
import KernelReplay.Proofs.PageSteps
import KernelReplay.Proofs.Slices

/-
  What a request that is told to be over has counted of pages. It counts from the entry of its
  syscall to the exit, and only what happened there: the pages allocated on any CPU; the pages
  written back, once for each CPU that its thread ran on; whether a CPU that its thread ran on woke
  the thread that reclaims pages; and from then on the pages freed, once for each CPU that was
  charged to its thread (`Run.pressure_told`). Each count stops at the greatest word. Who runs, and
  who is charged, is said by switches and by what is known of threads; the requests in flight have
  no part in it.
-/

namespace KernelReplay

open Law Update

/-! ## What a step adds -/

namespace State

/-- The thread that a CPU is charged to for a page freed: the one that runs on it or, where that is
the one that reclaims pages, the one that ran before it, if one is known that is not the idle
thread. -/
def charged? (s : State) (cpu : Nat) : Option Int := do
  let tid ← s.running? cpu
  let displaced := do
    let thread ← s.thread? tid
    let prev ← thread.prevTid
    if thread.comm = "kswapd0" ∧ 0 < prev then some prev else none
  some (displaced.getD tid)

/-- How many CPUs have a thread to them. -/
def cpusWith (s : State) (who : Nat → Option Int) (tid : Int) : Nat :=
  s.cpus.keys.countP fun cpu => who cpu = some tid

theorem charged?_eq (s : State) (cpu : Nat) :
    s.charged? cpu = (s.running? cpu).map (IoRequests.chargedTo s) := by
  unfold charged? IoRequests.chargedTo
  cases s.running? cpu with
  | none => rfl
  | some tid =>
    cases ht : s.thread? tid with
    | none => simp [ht]
    | some t =>
      cases hprev : t.prevTid with
      | none => simp [ht, hprev]
      | some prev =>
        by_cases hcomm : t.comm = "kswapd0" <;> by_cases hpos : 0 < prev <;>
          simp [ht, hprev, hcomm, hpos, Option.filter]

/-- Each CPU that runs a thread stands once in the list of those that run. -/
theorem count_running (s : State) (f : Int → Int) (tid : Int) :
    (s.running.map f).count tid = s.cpusWith (fun cpu => (s.running? cpu).map f) tid := by
  have hcurrent : ∀ entry ∈ s.cpus.toList, s.running? entry.1 = entry.2.current := by
    rintro ⟨cpu, c⟩ hmem
    unfold running?
    rw [Table.mem_toList_iff.1 hmem]
    rfl
  unfold cpusWith running Table.keys Table.values List.count
  rw [List.countP_map, List.countP_map, List.filterMap_map, List.countP_filterMap]
  refine List.countP_congr fun entry hmem => ?_
  simp only [Function.comp_apply, hcurrent entry hmem]
  cases entry.2.current <;> simp

end State

namespace Step

variable (step : Step) (tid : Int)

/-- A page is allocated. -/
def allocates : Bool := step.event.name ∈ ["mm_page_alloc", "kmem_mm_page_alloc"]

/-- The pages written back while a thread runs, once for each CPU that it runs on. -/
def written : Nat :=
  if step.event.name = "writeback_pages_written" then
    (step.event.nat? "pages").getD 0 * step.before.cpusWith step.before.running? tid
  else 0

/-- A CPU that a thread runs on wakes the thread that reclaims pages. -/
def wakes : Bool :=
  step.event.name = "mm_vmscan_wakeup_kswapd" ∧ step.event.actor? step.before.running? = some tid

/-- The CPUs that are charged to a thread when a page is freed. -/
def freed : Nat :=
  if step.event.name = "mm_page_free" then step.before.cpusWith step.before.charged? tid else 0

/-- The step with other requests in flight before it. -/
def withRequests (f : Int → IoRequest → IoRequest) : Step :=
  { step with
    before := { step.before with
      threads := step.before.threads.map fun k thread => thread.mapRequest (f k) } }

end Step

/-- What the request of a thread counts in steps in which its syscall goes on. -/
def pressureOver (tid : Int) (steps : List Step) : Pressure :=
  { allocated := min (steps.countP (·.allocates)) maxWord
    written := min (steps.map (·.written tid)).sum maxWord
    woke := steps.any (·.wakes tid)
    freed := min ((steps.dropWhile fun step => !step.wakes tid).map (·.freed tid)).sum maxWord }

namespace Step

variable {step : Step} {tid : Int}

theorem allocates_eq : step.allocates = decide (step.event.kind? = some .pageAlloc) := by
  have hspell : Spells ["mm_page_alloc", "kmem_mm_page_alloc"] [.pageAlloc] :=
    .of_table (by decide) (by decide) (by decide)
  unfold allocates
  rw [decide_eq_decide, hspell.mem_iff]

theorem written_eq : step.written tid = if step.event.kind? = some .pagesWritten then
    (step.event.nat? "pages").getD 0 * step.before.running.count tid else 0 := by
  have hspell : Spells ["writeback_pages_written"] [.pagesWritten] :=
    .of_table (by decide) (by decide) (by decide)
  have hcount : step.before.running.count tid =
      step.before.cpusWith step.before.running? tid := by
    have hcount := step.before.count_running id tid
    simpa using hcount
  unfold written
  simp only [← hspell.mem_iff, List.mem_singleton, hcount]

theorem wakes_eq : step.wakes tid = (decide (step.event.kind? = some .kswapdWakeup) &&
    decide (step.event.actor? step.before.running? = some tid)) := by
  have hspell : Spells ["mm_vmscan_wakeup_kswapd"] [.kswapdWakeup] :=
    .of_table (by decide) (by decide) (by decide)
  unfold wakes
  simp only [← hspell.mem_iff, List.mem_singleton, Bool.decide_and]

theorem freed_eq : step.freed tid = if step.event.kind? = some .pageFree then
    (step.before.running.map (IoRequests.chargedTo step.before)).count tid else 0 := by
  have hspell : Spells ["mm_page_free"] [.pageFree] :=
    .of_table (by decide) (by decide) (by decide)
  unfold freed
  rw [State.count_running, ← funext step.before.charged?_eq]
  simp only [← hspell.mem_iff, List.mem_singleton]

end Step

/-- Which requests are in flight has no part in what a step adds. -/
theorem pressureOver_withRequests (f : Int → IoRequest → IoRequest) (tid : Int)
    (steps : List Step) : pressureOver tid (steps.map (·.withRequests f)) = pressureOver tid steps := by
  have hcharged : ∀ step : Step, (step.withRequests f).before.charged? = step.before.charged? := by
    intro step
    funext cpu
    unfold State.charged?
    refine congrArg (Option.bind _) (funext fun k => ?_)
    have hthread : (step.withRequests f).before.thread? k =
        (step.before.thread? k).map fun thread => thread.mapRequest (f k) := Table.get?_map ..
    rw [hthread]
    cases step.before.thread? k <;> rfl
  have hallocates : ∀ step : Step, (step.withRequests f).allocates = step.allocates := fun _ => rfl
  have hwritten : ∀ step : Step, (step.withRequests f).written tid = step.written tid :=
    fun _ => rfl
  have hwakes : ∀ step : Step, (step.withRequests f).wakes tid = step.wakes tid := fun _ => rfl
  have hfreed : ∀ step : Step, (step.withRequests f).freed tid = step.freed tid := by
    intro step
    unfold Step.freed
    rw [hcharged]
    rfl
  have hdropped : (steps.map (·.withRequests f)).dropWhile (fun step => !step.wakes tid) =
      (steps.dropWhile fun step => !step.wakes tid).map (·.withRequests f) := by
    rw [List.dropWhile_map]
    rfl
  unfold pressureOver
  rw [hdropped, List.map_map, List.map_map, List.countP_map, List.any_map]
  simp only [Function.comp_def, hallocates, hwritten, hwakes, hfreed]

/-! ## Counting step by step -/

namespace Pressure

/-- Pages written back for a thread on several CPUs are counted for each of them. -/
theorem iterate_write (pages n a : Nat) {x : Pressure} (h : x.written = min a maxWord) :
    (write pages)^[n] x = { x with written := min (a + pages * n) maxWord } := by
  induction n with
  | zero =>
    rw [Nat.mul_zero, Nat.add_zero, ← h]
    rfl
  | succ n ih =>
    rw [Function.iterate_succ_apply', ih]
    unfold write saturatingAdd
    dsimp only
    rw [Nat.mul_succ, ← Nat.add_assoc]
    congr 1
    omega

theorem iterate_wake (n : Nat) (x : Pressure) :
    wake^[n] x = { x with woke := x.woke || decide (0 < n) } := by
  cases n with
  | zero => simp
  | succ n =>
    rw [Function.iterate_succ_apply']
    have hwake : ∀ m, wake (wake^[m] x) = wake x := by
      intro m
      induction m with
      | zero => rfl
      | succ m ih =>
        rw [Function.iterate_succ_apply', ih]
        rfl
    rw [hwake]
    simp [wake]

/-- A page freed counts for each CPU that is charged, once the thread that reclaims pages is woken.
-/
theorem iterate_free (n a : Nat) {x : Pressure} (h : x.freed = min a maxWord) :
    free^[n] x = { x with freed := min (a + if x.woke then n else 0) maxWord } := by
  induction n with
  | zero =>
    rw [ite_self, Nat.add_zero, ← h]
    rfl
  | succ n ih =>
    rw [Function.iterate_succ_apply', ih]
    unfold free saturatingAdd
    dsimp only
    split
    · congr 1
      omega
    · rfl

end Pressure

/-- What is freed in one more step counts if the thread that reclaims pages has been woken before.
-/
theorem freed_snoc (tid : Int) (steps : List Step) (step : Step) :
    (((steps ++ [step]).dropWhile fun step => !step.wakes tid).map (·.freed tid)).sum =
      ((steps.dropWhile fun step => !step.wakes tid).map (·.freed tid)).sum +
        if steps.any (·.wakes tid) then step.freed tid else 0 := by
  induction steps with
  | nil =>
    by_cases hwakes : step.wakes tid = true
    · have hfreed : step.freed tid = 0 := by
        rw [Step.wakes_eq, Bool.and_eq_true, decide_eq_true_iff] at hwakes
        rw [Step.freed_eq, if_neg (by rw [hwakes.1]; decide)]
      simp [hwakes, hfreed]
    · simp [hwakes]
  | cons first rest ih =>
    by_cases hwakes : first.wakes tid = true
    · simp [hwakes, Nat.add_assoc]
    · simpa [hwakes] using ih

/-- One more step adds what its event does. -/
theorem pressureOver_snoc (tid : Int) (steps : List Step) (step : Step) :
    pressureOver tid (steps ++ [step]) =
      Pressure.after step.event step.before tid (pressureOver tid steps) := by
  have hsnoc : pressureOver tid (steps ++ [step]) =
      { allocated := min (steps.countP (·.allocates) + if step.allocates then 1 else 0) maxWord
        written := min ((steps.map (·.written tid)).sum + step.written tid) maxWord
        woke := steps.any (·.wakes tid) || step.wakes tid
        freed := min (((steps.dropWhile fun step => !step.wakes tid).map (·.freed tid)).sum +
          if steps.any (·.wakes tid) then step.freed tid else 0) maxWord } := by
    unfold pressureOver
    rw [freed_snoc]
    simp [List.countP_append, List.countP_cons]
  rw [hsnoc, Step.allocates_eq, Step.written_eq, Step.wakes_eq, Step.freed_eq]
  unfold Pressure.after
  cases hk : step.event.kind? with
  | none => simp [pressureOver]
  | some kind =>
    cases kind
    case pageAlloc =>
      have hcounted : min (steps.countP (·.allocates) + 1) maxWord =
          saturatingAdd (min (steps.countP (·.allocates)) maxWord) 1 := by
        unfold saturatingAdd
        omega
      simp [pressureOver, Pressure.allocate, hcounted]
    case pagesWritten =>
      cases hpages : step.event.nat? "pages" with
      | none => simp [pressureOver]
      | some pages =>
        dsimp only [Option.map_some, Option.getD_some]
        rw [Pressure.iterate_write _ _ _ (x := pressureOver tid steps) rfl]
        simp [pressureOver]
    case kswapdWakeup =>
      have hactor : 0 < (step.event.actor? step.before.running?).toList.count tid ↔
          step.event.actor? step.before.running? = some tid := by
        rw [List.count_pos_iff, Option.mem_toList]
      simp only [Pressure.iterate_wake, hactor]
      simp [pressureOver]
    case pageFree =>
      dsimp only
      rw [Pressure.iterate_free _ _ (x := pressureOver tid steps) rfl]
      simp [pressureOver]
    all_goals simp [pressureOver]

/-! ## Syscalls in flight -/

/-- The steps at the end of a history in which a thread's syscall has gone on since its entry. -/
structure Stay (history : List Step) (tid : Int) (entry : Step) (mid : List Step) : Prop where
  split : ∃ before, history = before ++ entry :: mid
  enters : entry.event.Enters entry.before.running? tid
  stays : ∀ step ∈ mid, ¬ step.event.Displaces step.before.running? tid

namespace Stay

variable {history mid : List Step} {tid : Int} {entry step : Step}

theorem begin (history : List Step) (h : step.event.Enters step.before.running? tid) :
    Stay (history ++ [step]) tid step [] :=
  ⟨⟨history, rfl⟩, h, fun _ hmem => (List.not_mem_nil hmem).elim⟩

theorem go (h : Stay history tid entry mid)
    (hd : ¬ step.event.Displaces step.before.running? tid) :
    Stay (history ++ [step]) tid entry (mid ++ [step]) := by
  obtain ⟨before, hsplit⟩ := h.split
  refine ⟨⟨before, by rw [hsplit, List.append_assoc, List.cons_append]⟩, h.enters, fun s hmem => ?_⟩
  rcases List.mem_append.1 hmem with hmem | hmem
  · exact h.stays s hmem
  · rwa [List.mem_singleton.1 hmem]

end Stay

namespace Run

variable {settings : Settings} {history : List Step} {r : Replay} {e : Event} {p : Replay.Progress}

/-- A thread in a syscall has been in it since the entry, and its request, if it carries one, has
counted what happened since. -/
theorem stay_of_mark (h : Run settings history r) {tid : Int} {mark : String × Int}
    (hm : r.state.mark? tid = some mark) : ∃ entry mid, Stay history tid entry mid ∧
      mark = (syscallName entry.event.name, entry.event.time) ∧
      ∀ x, r.state.pressure? tid = some x → x = pressureOver tid mid := by
  induction h generalizing mark with
  | start => cases hm
  | @next history r e p h hp ih =>
    have hcalls := h.callStep hp
    have hpages := h.pressureStep hp
    by_cases hent : e.Enters r.state.running? tid
    · exact ⟨_, [], .begin history hent, Option.some.inj (hm.symm.trans (hcalls.entered tid hent)),
        hpages.began tid hent⟩
    by_cases hend : e.Leaves r.state.running? tid ∨ e.forked? = some tid
    · rw [hcalls.ended tid hend] at hm
      cases hm
    · have hd : ¬ e.Displaces r.state.running? tid := by
        intro hd
        rcases hd with hd | hd
        · exact hent hd
        · exact hend hd
      rw [hcalls.other tid hd] at hm
      obtain ⟨entry, mid, hstay, hentry, hcounted⟩ := ih hm
      refine ⟨entry, _, hstay.go hd, hentry, fun x hx => ?_⟩
      rw [hpages.other tid hd] at hx
      obtain ⟨x', hx', rfl⟩ := Option.map_eq_some_iff.1 hx
      rw [pressureOver_snoc, hcounted x' hx']

end Run

/-! ## Requests told to be over -/

/-- A request that is finished is the only one that is told to be over. -/
theorem IoRequests.requestExit_of_finish {e : Event} {s : State} {o : Outcome Unit} {cpu : Nat}
    {tid : Int} {request : IoRequest} (hs : s.CallsSound) (hknown : s.Knows tid)
    (h : finish e cpu tid request s = .ok o) {rq : IoRequest} {thread owner : Thread}
    (hn : .requestExit rq thread owner ∈ notificationsOf o.signals) :
    request.finish e.time (e.int? "ret") = .ok rq ∧ thread.tid = tid := by
  obtain ⟨finished, o₁, o₂, thread', leader, hf, hsettle, ht, -, hclose, -, htold⟩ :=
    finish_parts hknown h
  -- what is done before and after tells of descriptors only
  have hbefore := ((aside_settle finished e tid _ cpu).obeys _ o₁ hsettle).2
  have hcloses : Fulfils aside (whenSome (closed? finished.body (e.int? "ret"))
      fun number => Descriptors.close (s.fdOwner tid) number e.time (some cpu)) :=
    fulfils_whenSome fun number => Descriptors.aside_close _ number e.time _
  have hafter := (hcloses.obeys _ o₂ hclose).2
  have heq : Notification.requestExit rq thread owner = .requestExit finished thread' leader := by
    rw [htold, notificationsOf_append, notificationsOf_notification, List.mem_append,
      List.mem_cons] at hn
    rcases hn with hn | hn | hn
    · exact (hbefore _ hn trivial).elim
    · exact hn
    · exact (hafter _ hn trivial).elim
  obtain ⟨rfl, rfl, -⟩ := Notification.requestExit.inj heq
  have hkept : callsKept.rel s o₁.signals o₁.state :=
    obeys_ite (callsKept_applyBody _ _ _ _ _) (obeys_pure _) _ o₁ hsettle
  exact ⟨hf, (hs.of_bare_eq hkept.2.1).tid_of_thread? ht⟩

namespace Syscalls

/-- The request that an exit tells to be over is that of the syscall which the thread leaves, with
what it has counted. -/
theorem requestExit_of_exits {e : Event} {s : State} {o : Outcome Unit} (hs : s.CallsSound)
    (h : (Syscalls.exit e >>= fun _ => IoRequests.exit e) s = .ok o) {rq : IoRequest}
    {thread owner : Thread} (hn : .requestExit rq thread owner ∈ notificationsOf o.signals) :
    thread.tid = rq.tid ∧ e.actor? s.running? = some rq.tid ∧
      s.mark? rq.tid = some (rq.syscall, rq.begun) ∧ s.pressure? rq.tid = some rq.pressure := by
  rcases exit_cases h with
    ⟨-, -, hsilent⟩ | ⟨cpu, tid, t, call, ended, o', hc, hr, ht, hcall, -, hrest, -, hsignals⟩
  · rw [hsilent] at hn
    cases hn
  rw [hsignals, notificationsOf_notification] at hn
  have hn : .requestExit rq thread owner ∈ notificationsOf o'.signals := by
    rcases List.mem_cons.1 hn with hn | hn
    · cases hn
    · exact hn
  split at hrest
  · rcases whenSome_cases hrest with ⟨-, rfl⟩ | ⟨request, hrequest, hfinish⟩
    · cases hn
    have htid : t.tid = tid := hs.tid_of_thread? ht
    have hleft : (s.setThread tid { t with call := none }).CallsSound :=
      hs.setThread htid fun _ hnone => by cases hnone
    have hknown : (s.setThread tid { t with call := none }).Knows tid :=
      ⟨_, by rw [State.thread?_setThread, if_pos rfl]⟩
    obtain ⟨hf, hthread⟩ := IoRequests.requestExit_of_finish hleft hknown hfinish hn
    have hcall? : s.call? tid = some call := by
      unfold State.call?
      rw [ht]
      exact hcall
    have hpending := (hs.pending tid call hcall?).request request hrequest
    obtain ⟨errno, body, rfl, -⟩ := IoRequest.finish_cases hf
    obtain rfl : request.tid = tid := hpending.tid
    refine ⟨hthread, Option.bind_eq_some_iff.2 ⟨cpu, hc, hr⟩, ?_, ?_⟩
    · unfold State.mark?
      rw [hcall?]
      exact congrArg some (Prod.ext hpending.syscall.symm hpending.begun.symm)
    · unfold State.pressure?
      rw [hcall?, Option.bind_some, hrequest]
      rfl
  · cases hrest
    cases hn

end Syscalls

namespace Run

variable {settings : Settings} {history : List Step} {r : Replay} {e : Event} {p : Replay.Progress}

/-- Before every step of a run, the threads that run are those that the last switches put on their
CPUs. -/
theorem running?_before (h : Run settings history r) {past rest : List Step} {step : Step}
    (hsplit : history = past ++ step :: rest) :
    step.before.running? = runningAfter (past.map (·.event)) := by
  subst hsplit
  obtain ⟨r₀, p, h₀, -, hbefore, -⟩ := h.of_split
  rw [hbefore]
  exact h₀.running?_eq

/-- A request that is told to be over has counted exactly what happened between the entry of its
syscall and the exit. -/
theorem pressure_told (h : Run settings history r) (hp : r.process e = .ok p) {rq : IoRequest}
    {thread owner : Thread} (hn : .requestExit rq thread owner ∈ notificationsOf p.signals) :
    thread.tid = rq.tid ∧ e.Leaves r.state.running? rq.tid ∧
    (∃ entry mid, Stay history rq.tid entry mid ∧
      rq.syscall = syscallName entry.event.name ∧ rq.begun = entry.event.time ∧
      rq.pagesAllocated = min (mid.countP (·.allocates)) maxWord ∧
      rq.pagesWritten = min (mid.map (·.written rq.tid)).sum maxWord ∧
      rq.wokeKswapd = mid.any (·.wakes rq.tid) ∧
      rq.pagesFreed = min ((mid.dropWhile fun step => !step.wakes rq.tid).map
        (·.freed rq.tid)).sum maxWord ∧
      ∀ f, pressureOver rq.tid (mid.map (·.withRequests f)) = rq.pressure) ∧
    r.state.running? = runningAfter (history.map (·.event)) ∧
    ∀ past step rest, history = past ++ step :: rest →
      step.before.running? = runningAfter (past.map (·.event)) := by
  have hk : e.kind? = some .syscallExit := by
    by_contra hk
    exact (h.facetStep hp).unfinished hk _ hn trivial
  obtain ⟨o, ho, -, hl⟩ := h.exit_run hp hk
  rw [hl] at hn
  obtain ⟨hthread, hactor, hmark, hpressure⟩ := Syscalls.requestExit_of_exits h.callsSound ho hn
  obtain ⟨entry, mid, hstay, hentry, hcounted⟩ := h.stay_of_mark hmark
  obtain ⟨hname, hbegun⟩ := Prod.mk.inj hentry
  have hpressure : rq.pressure = pressureOver rq.tid mid := hcounted _ hpressure
  exact ⟨hthread, ⟨hk, hactor⟩, ⟨entry, mid, hstay, hname, hbegun,
    congrArg Pressure.allocated hpressure, congrArg Pressure.written hpressure,
    congrArg Pressure.woke hpressure, congrArg Pressure.freed hpressure,
    fun f => by rw [pressureOver_withRequests, hpressure]⟩, h.running?_eq,
    fun past step rest => h.running?_before⟩

end Run

/-- A thread reads while it runs on two CPUs. A page is allocated, pages are written back, and
pages are freed before and after the thread wakes the one that reclaims them, which then takes its
place on one of the CPUs. -/
def pressedRead : List Event :=
  [.recorded 0 10 "sched_switch" [("prev_tid", .signed 0), ("next_tid", .signed 7)],
   .recorded 0 20 "syscall_entry_read" [("fd", .signed 3)],
   .recorded 1 30 "sched_switch" [("prev_tid", .signed 0), ("next_tid", .signed 7)],
   .recorded 2 40 "kmem_mm_page_alloc" [],
   .recorded 2 50 "writeback_pages_written" [("pages", .unsigned 5)],
   .recorded 0 60 "mm_page_free" [],
   .recorded 1 70 "mm_vmscan_wakeup_kswapd" [],
   .recorded 0 80 "sched_switch"
     [("prev_tid", .signed 7), ("next_tid", .signed 50), ("next_comm", .text "kswapd0")],
   .recorded 2 90 "mm_page_free" []]

/-- The read ends on the CPU that is left to it. -/
def pressedReadEnd : Event := .recorded 1 100 "syscall_exit_read" [("ret", .signed 5)]

/-- The read counts one page allocated, five written back on each of two CPUs, and one freed for
each of the two CPUs that are charged to it. -/
theorem Run.pressure_told_pressedRead : ∃ history r p rq thread owner, Run {} history r ∧
    r.process pressedReadEnd = .ok p ∧ .requestExit rq thread owner ∈ notificationsOf p.signals ∧
    ∃ entry mid, Stay history rq.tid entry mid ∧ mid.countP (·.allocates) = 1 ∧
      (mid.map (·.written rq.tid)).sum = 10 ∧ mid.any (·.wakes rq.tid) = true ∧
      ((mid.dropWhile fun step => !step.wakes rq.tid).map (·.freed rq.tid)).sum = 2 := by
  have hshows : Replay.showsNext {} pressedRead pressedReadEnd (fun _ _ p =>
      (requestExits p.signals).map (·.pressure) =
        [{ allocated := 1, written := 10, woke := true, freed := 2 }]) = true := by
    decide +kernel
  obtain ⟨history, r, p, h, hp, htest⟩ := Run.of_showsNext hshows
  obtain ⟨rq, hexits, hpressure⟩ := List.map_eq_singleton_iff.1 (of_decide_eq_true htest)
  obtain ⟨thread, owner, hn⟩ := mem_requestExits (hexits ▸ List.mem_cons_self)
  obtain ⟨-, -, ⟨entry, mid, hstay, -, -, hallocated, hwritten, hwoke, hfreed, -⟩, -⟩ :=
    pressure_told h hp hn
  have hmax : 10 < maxWord := by decide
  have hallocated' := congrArg Pressure.allocated hpressure
  have hwritten' := congrArg Pressure.written hpressure
  have hwoke' := congrArg Pressure.woke hpressure
  have hfreed' := congrArg Pressure.freed hpressure
  simp only [IoRequest.pressure] at hallocated' hwritten' hwoke' hfreed'
  exact ⟨history, r, p, rq, thread, owner, h, hp, hn, entry, mid, hstay, by omega, by omega,
    by rw [← hwoke, hwoke'], by omega⟩

end KernelReplay
