import Mathlib.Logic.Function.Iterate
import KernelReplay.Proofs.CallSteps
import KernelReplay.Proofs.PageRules

/-
  What an event does to the pages that requests in flight count. `PressureStep` says it once for
  every event: who enters a syscall has counted nothing, and whose syscall goes on counts what the
  event is about, once for each CPU that runs or charges its thread (`Pressure.after`). The counts
  of a request are looked at apart from the rest of it, which other events change.
-/

namespace KernelReplay

open Law Update

/-- What a request in flight has counted of pages, and whether it has woken the thread that reclaims
them. -/
structure Pressure where
  allocated : Nat := 0
  written : Nat := 0
  woke : Bool := false
  freed : Nat := 0
  deriving DecidableEq

/-- What a request has counted of pages. -/
def IoRequest.pressure (rq : IoRequest) : Pressure :=
  { allocated := rq.pagesAllocated, written := rq.pagesWritten, woke := rq.wokeKswapd
    freed := rq.pagesFreed }

/-- What the request that a thread has in flight has counted of pages. -/
def State.pressure? (s : State) (tid : Int) : Option Pressure :=
  ((s.call? tid).bind (·.request)).map IoRequest.pressure

namespace Pressure

/-- A page more is allocated. -/
def allocate (x : Pressure) : Pressure := { x with allocated := saturatingAdd x.allocated 1 }

/-- Pages more are written back. -/
def write (pages : Nat) (x : Pressure) : Pressure :=
  { x with written := saturatingAdd x.written pages }

/-- The thread that reclaims pages is woken. -/
def wake (x : Pressure) : Pressure := { x with woke := true }

/-- A page more is freed, which counts after that thread is woken. -/
def free (x : Pressure) : Pressure :=
  if x.woke then { x with freed := saturatingAdd x.freed 1 } else x

/-- What an event adds for a thread whose syscall goes on. -/
def after (e : Event) (s : State) (tid : Int) : Pressure → Pressure :=
  match e.kind? with
  | some .pageAlloc => allocate
  | some .pagesWritten =>
    ((e.nat? "pages").map fun pages => (write pages)^[s.running.count tid]).getD id
  | some .kswapdWakeup => wake^[(e.actor? s.running?).toList.count tid]
  | some .pageFree => free^[(s.running.map (IoRequests.chargedTo s)).count tid]
  | _ => id

/-- Events of all other kinds add nothing. -/
theorem after_eq_id {e : Event} (h : ∀ kind, e.kind? = some kind →
      kind ∉ [.pageAlloc, .pagesWritten, .kswapdWakeup, .pageFree]) (s : State) (tid : Int) :
    after e s tid = id := by
  unfold after
  cases hk : e.kind? with
  | none => rfl
  | some kind =>
    have hkind := h kind hk
    cases kind <;> first
      | rfl
      | exact (hkind (by decide)).elim

end Pressure

theorem IoRequests.pressure_countFreed (rq : IoRequest) :
    (countFreed rq).pressure = rq.pressure.free := by
  unfold countFreed Pressure.free
  show _ = if rq.wokeKswapd then _ else _
  split <;> rfl

/-! ## Changes of requests -/

namespace State

variable {s s' : State}

theorem pressure?_of_bare_eq (h : s'.bare = s.bare) : s'.pressure? = s.pressure? := by
  funext k
  rw [pressure?, pressure?, call?_of_bare_eq h]

theorem pressure?_setThread (s : State) (tid k : Int) (t : Thread) :
    (s.setThread tid t).pressure? k =
      if k = tid then (t.call.bind (·.request)).map IoRequest.pressure else s.pressure? k := by
  unfold pressure?
  rw [call?_setThread]
  split <;> rfl

variable {f : IoRequest → IoRequest} {g : Pressure → Pressure}
  (h : ∀ rq, (f rq).pressure = g rq.pressure)

include h

/-- A change of requests shows in what they have counted. -/
theorem pressure?_mapRequest {call call' : Option Call}
    (hcall : call' = call.map fun c => { c with request := c.request.map f }) :
    (call'.bind (·.request)).map IoRequest.pressure =
      ((call.bind (·.request)).map IoRequest.pressure).map g := by
  subst hcall
  cases call with
  | none => rfl
  | some c =>
    show (c.request.map f).map IoRequest.pressure = (c.request.map IoRequest.pressure).map g
    rw [Option.map_map, Option.map_map]
    exact congrArg (c.request.map ·) (funext h)

theorem pressure?_adjustRequest (s : State) (tid k : Int) :
    (s.adjustRequest tid f).pressure? k =
      if k = tid then (s.pressure? k).map g else s.pressure? k := by
  have hcall : (s.adjustRequest tid f).call? k = if k = tid then (s.call? k).map fun c =>
      { c with request := c.request.map f } else s.call? k :=
    s.call?_adjustThread tid k (Option.map fun c => { c with request := c.request.map f }) rfl
  unfold pressure?
  split
  · rename_i hk
    rw [if_pos hk] at hcall
    exact pressure?_mapRequest h hcall
  · rename_i hk
    rw [if_neg hk] at hcall
    rw [hcall]

/-- A change made for each of a list of threads is made as often as a thread is listed. -/
theorem pressure?_adjustRequests (s : State) (tids : List Int) (k : Int) :
    (s.adjustRequests tids f).pressure? k = (s.pressure? k).map g^[tids.count k] := by
  induction tids generalizing s with
  | nil => exact Option.map_id'.symm
  | cons tid rest ih =>
    rw [adjustRequests_cons, ih, pressure?_adjustRequest h]
    by_cases hk : k = tid
    · rw [if_pos hk, hk, List.count_cons_self, Function.iterate_succ, Option.map_map]
    · rw [if_neg hk, List.count_cons_of_ne (Ne.symm hk)]

omit h

theorem pressure?_allocated (s : State) (k : Int) :
    (Paging.allocated s).pressure? k = (s.pressure? k).map Pressure.allocate := by
  refine pressure?_mapRequest (f := Paging.countAllocated) (fun _ => rfl) ?_
  unfold call? thread? Paging.allocated
  rw [Table.get?_map]
  cases s.threads.get? k <;> rfl

end State

/-! ## Rules that count nothing -/

namespace Law

/-- Requests have counted the same. -/
def pressureKept : Law := keeping State.pressure?

end Law

theorem pressureKept_of_callsKept {s s' : State} {l : List Signal} (h : callsKept.rel s l s') :
    pressureKept.rel s l s' :=
  State.pressure?_of_bare_eq h.2.1

theorem pressureKept_of_quiet {s s' : State} {l : List Signal} (h : quiet.rel s l s') :
    pressureKept.rel s l s' :=
  pressureKept_of_callsKept (callsKept_of_quiet h)

theorem Scheduling.pressureKept_apply {kind : EventKind} (hfork : kind ≠ .schedFork) (e : Event) :
    Obeys pressureKept (apply kind e) := by
  cases kind
  case schedSwitch =>
    intro s o h
    exact State.pressure?_of_bare_eq (State.bare_of_holdings_eq (holdingsKept_switch e s o h).1)
  case schedMigrate => exact (quiet_migrate e).mono pressureKept_of_quiet
  case schedWakeup => exact (quiet_wakeup e).mono pressureKept_of_quiet
  case schedFork => exact (hfork rfl).elim
  case schedExec => exact (callsKept_exec e).mono pressureKept_of_callsKept
  case schedSetPriority => exact (quiet_setPriority e).mono pressureKept_of_quiet
  all_goals exact obeys_pure _

namespace Traffic

/-- A guess of where the bytes of a request go counts nothing. -/
theorem pressureKept_guessFor (tid : Int) (s : State) : pressureKept.rel s [] (guessFor tid s) := by
  unfold guessFor
  split
  · exact pressureKept.idle s
  · dsimp only
    split
    · exact pressureKept_of_callsKept (callsKept_adjustFd _ _ _ s)
    · have hguess : ∀ rq : IoRequest, (guessSocket rq).pressure = rq.pressure := by
        intro rq
        unfold guessSocket
        split <;> rfl
      funext k
      rw [State.pressure?_adjustRequest (g := id) hguess, Option.map_id_apply, ite_self]

theorem pressureKept_apply (kind : EventKind) (e : Event) : Obeys pressureKept (apply kind e) := by
  cases kind
  case netTransmit =>
    refine obeys_whenSome fun iface => ?_
    refine Obeys.modify_bind (fun s => pressureKept_of_quiet (quiet_of_eq rfl rfl)) ?_
    refine Obeys.bind ((quiet_notify ⟨id, id⟩).mono pressureKept_of_quiet) fun _ => ?_
    exact obeys_get.bind fun s => obeys_whenSome fun tid =>
      obeys_modify (pressureKept_guessFor tid)
  case netReceive => exact (quiet_receive e).mono pressureKept_of_quiet
  all_goals exact obeys_pure _

end Traffic

namespace Subsystem

variable {kind : EventKind}

/-- Events that begin no request, end none and are about nothing that requests count. -/
theorem pressureKept_effect
    (hcalls : kind ∉ [.schedFork, .syscallEntry, .syscallExit])
    (hpages : kind ∉ [.pageAlloc, .pagesWritten, .kswapdWakeup, .pageFree]) (e : Event)
    (remaps : List Remap) : Obeys pressureKept (effect kind e remaps) := by
  have hfork : kind ≠ .schedFork := by
    rintro rfl
    exact hcalls (by decide)
  have hpaging : Obeys pressureKept (Paging.apply kind e) := by
    cases kind
    case pageAlloc | pageFree => exact (hpages (by decide)).elim
    case pageFreeKmem => exact (Paging.quiet_free e).mono pressureKept_of_quiet
    all_goals exact obeys_pure _
  have hsyscalls : Obeys pressureKept (Syscalls.apply kind e) := by
    cases kind
    case syscallEntry | syscallExit => exact (hcalls (by decide)).elim
    all_goals exact obeys_pure _
  have hrequests : Obeys pressureKept (IoRequests.apply kind e) := by
    cases kind
    case syscallEntry | syscallExit => exact (hcalls (by decide)).elim
    case pagesWritten | kswapdWakeup | pageFree => exact (hpages (by decide)).elim
    all_goals exact obeys_pure _
  refine (Scheduling.pressureKept_apply hfork e).bind fun _ => hpaging.bind fun _ => ?_
  refine ((Interrupts.quiet_apply kind e).mono pressureKept_of_quiet).bind fun _ => ?_
  refine hsyscalls.bind fun _ => hrequests.bind fun _ => ?_
  refine ((Snapshot.callsKept_apply kind e).mono pressureKept_of_callsKept).bind fun _ => ?_
  refine ((BlockRequests.quiet_apply kind e remaps).mono pressureKept_of_quiet).bind fun _ => ?_
  exact (Traffic.pressureKept_apply kind e).bind fun _ => obeys_pure _

/-- An event about pages adds for every thread what `Pressure.after` says. -/
theorem pressure?_effect {e : Event} (hk : e.kind? = some kind)
    (hpages : kind ∈ [.pageAlloc, .pagesWritten, .kswapdWakeup, .pageFree]) {remaps : List Remap}
    {s : State} {o : Outcome (List Remap)} (h : effect kind e remaps s = .ok o) (k : Int) :
    o.state.pressure? k = (s.pressure? k).map (Pressure.after e s k) := by
  have hmem : kind ∈ [.pageAlloc, .pageFree, .pageFreeKmem, .pagesWritten, .kswapdWakeup] := by
    simp only [List.mem_cons, List.not_mem_nil, or_false] at hpages
    rcases hpages with rfl | rfl | rfl | rfl <;> decide
  rw [effect_pages hmem] at h
  obtain ⟨o', h', hs, -⟩ := run_of_bind_pure h
  obtain ⟨o₁, o₂, h₁, h₂, rfl⟩ := bind_eq_ok_iff.1 h'
  rw [hs]
  show o₂.state.pressure? k = _
  unfold Pressure.after
  rw [hk]
  simp only [List.mem_cons, List.not_mem_nil, or_false] at hpages
  rcases hpages with rfl | rfl | rfl | rfl
  · cases h₂
    cases (Paging.alloc_run e s).symm.trans h₁
    exact State.pressure?_allocated s k
  · cases h₁
    cases (IoRequests.pagesWritten_run e s).symm.trans h₂
    dsimp only
    cases e.nat? "pages" with
    | none => exact Option.map_id'.symm
    | some pages =>
      exact State.pressure?_adjustRequests (g := Pressure.write pages) (fun _ => rfl) s _ k
  · cases h₁
    cases (IoRequests.kswapdWakeup_run e s).symm.trans h₂
    exact State.pressure?_adjustRequests (g := Pressure.wake) (fun _ => rfl) s _ k
  · cases (Paging.free_run e s).symm.trans h₁
    cases (IoRequests.pageFree_run (Paging.freed s)).symm.trans h₂
    exact State.pressure?_adjustRequests IoRequests.pressure_countFreed (Paging.freed s) _ k

end Subsystem

/-! ## Entering a syscall -/

/-- A request that is in flight has counted nothing. -/
def State.Unpressed (s : State) (tid : Int) : Prop := ∀ x, s.pressure? tid = some x → x = {}

namespace Law

/-- Only the request of one thread changes, and one that has counted nothing goes on so. -/
def pressureBegun (tid : Int) : Law :=
  (maintaining fun s => s.Unpressed tid).both
    { rel := fun s _ s' => ∀ k, k ≠ tid → s'.pressure? k = s.pressure? k
      idle := fun _ _ _ => rfl
      chain := fun h h' k hk => (h' k hk).trans (h k hk) }

end Law

theorem pressureBegun_of_pressureKept {tid : Int} {s s' : State} {l : List Signal}
    (h : pressureKept.rel s l s') : (pressureBegun tid).rel s l s' := by
  have hkept : s'.pressure? = s.pressure? := h
  refine ⟨fun hs x hx => hs x ?_, fun k _ => congrFun hkept k⟩
  rwa [hkept] at hx

namespace IoRequests

theorem pressureBegun_attach (e : Event) (tid : Int) (syscall : String) (body : IoBody) :
    Obeys (pressureBegun tid) (attach e tid syscall body) := by
  refine obeys_get.bind fun s => obeys_ite (obeys_modify fun s => ?_) ?_
  · have hcall : ∀ k, (s.adjustThread tid fun t => { t with call := t.call.map fun c =>
        { c with request := some { tid, syscall, begun := e.time, body } } }).call? k =
          if k = tid then (s.call? k).map fun c =>
            { c with request := some { tid, syscall, begun := e.time, body } } else s.call? k :=
      fun k => s.call?_adjustThread tid k (Option.map fun c =>
        { c with request := some { tid, syscall, begun := e.time, body } }) rfl
    refine ⟨fun _ x hx => ?_, fun k hk => ?_⟩
    · unfold State.pressure? at hx
      rw [hcall, if_pos rfl] at hx
      cases hc : s.call? tid with
      | none =>
        rw [hc] at hx
        cases hx
      | some c =>
        rw [hc] at hx
        cases hx
        rfl
    · unfold State.pressure?
      rw [hcall, if_neg hk]
  · exact (quiet_report _).mono fun h => pressureBegun_of_pressureKept (pressureKept_of_quiet h)

theorem state_entry_of_no_actor {e : Event} {s : State} {o : Outcome Unit}
    (hactor : e.actor? s.running? = none) (h : entry e s = .ok o) : o.state = s := by
  rcases whenSome_cases h with ⟨-, rfl⟩ | ⟨kind, -, h⟩
  · rfl
  rw [get_bind_run] at h
  rcases whenSome_cases h with ⟨-, rfl⟩ | ⟨tid, htid, -⟩
  · rfl
  · cases hactor.symm.trans htid

theorem pressureBegun_entry {e : Event} {s : State} {tid : Int}
    (htid : e.actor? s.running? = some tid) : ObeysAt (pressureBegun tid) (entry e) s := by
  refine obeysAt_whenSome fun kind _ => ObeysAt.get_bind (obeysAt_whenSome fun k hk => ?_)
  obtain rfl : tid = k := Option.some.inj (htid.symm.trans hk)
  have hgroup : Obeys (pressureBegun tid) (learnGroup e tid) :=
    (quiet_learnGroup e tid).mono fun h => pressureBegun_of_pressureKept (pressureKept_of_quiet h)
  have hclose : ∀ owner target, Obeys (pressureBegun tid)
      (Descriptors.close owner target e.time e.cpu?) := fun owner target =>
    (Descriptors.callsKept_close owner target e.time e.cpu?).mono fun h =>
      pressureBegun_of_pressureKept (pressureKept_of_callsKept h)
  refine Obeys.bind hgroup (fun _ => obeys_ite ?_ ?_) s
  · refine obeys_whenSome fun args => obeys_get.bind fun s => ?_
    exact (obeys_whenSome fun target => hclose _ target).bind fun _ =>
      pressureBegun_attach e tid _ _
  · exact obeys_whenSome fun body => pressureBegun_attach e tid _ body

end IoRequests

/-! ## Steps -/

/-- An event has one kind. -/
theorem Event.kind_not_mem {e : Event} {kind : EventKind} (hk : e.kind? = some kind)
    {kinds : List EventKind} (h : kind ∉ kinds) :
    ∀ kind', e.kind? = some kind' → kind' ∉ kinds := by
  intro kind' hk'
  rwa [← Option.some.inj (hk.symm.trans hk')]

/-- The state before an event, the event and the state after it, as far as it matters what requests
have counted of pages. -/
structure PressureStep (e : Event) (s s' : State) : Prop where
  began : ∀ tid, e.Enters s.running? tid → ∀ x, s'.pressure? tid = some x → x = {}
  other : ∀ tid, ¬ e.Displaces s.running? tid →
    s'.pressure? tid = (s.pressure? tid).map (Pressure.after e s tid)

namespace PressureStep

variable {e : Event} {s s' : State} {kind : EventKind}

/-- An event that is about no pages and no entry leaves what other threads have counted. -/
theorem of_unpressed (hk : ∀ kind, e.kind? = some kind →
      kind ∉ [.syscallEntry, .pageAlloc, .pagesWritten, .kswapdWakeup, .pageFree])
    (h : ∀ tid, ¬ e.Displaces s.running? tid → s'.pressure? tid = s.pressure? tid) :
    PressureStep e s s' where
  began tid henters := (hk _ henters.1 (by decide)).elim
  other tid hd := by
    have hafter : Pressure.after e s tid = id :=
      Pressure.after_eq_id (fun kind hkind hmem => hk kind hkind (List.mem_cons_of_mem _ hmem))
        s tid
    rw [h tid hd, hafter, Option.map_id_apply]

theorem of_pages (hk : e.kind? = some kind)
    (hpages : kind ∈ [.pageAlloc, .pagesWritten, .kswapdWakeup, .pageFree]) {remaps : List Remap}
    {o : Outcome (List Remap)} (h : Subsystem.effect kind e remaps s = .ok o) :
    PressureStep e s o.state where
  began tid henters := by
    rw [← Option.some.inj (henters.1.symm.trans hk)] at hpages
    exact absurd hpages (by decide)
  other tid _ := Subsystem.pressure?_effect hk hpages h tid

theorem of_fork {o : Outcome Unit} (hk : e.kind? = some .schedFork)
    (h : Scheduling.fork e s = .ok o) : PressureStep e s o.state := by
  refine PressureStep.of_unpressed (Event.kind_not_mem hk (by decide)) fun tid hd => ?_
  rcases Scheduling.fork_cases hk h with
    ⟨-, hs, -⟩ | ⟨child, s₁, owner, thread, d, hf, hq, -, hs, -⟩
  · rw [hs]
  · have hne : tid ≠ child := by
      rintro rfl
      exact hd (Or.inr (Or.inr hf))
    rw [hs, State.pressure?_setThread, if_neg hne]
    exact congrFun (pressureKept_of_quiet hq) tid

theorem of_exit {o : Outcome Unit} (hk : e.kind? = some .syscallExit)
    (h : (Syscalls.exit e >>= fun _ => IoRequests.exit e) s = .ok o) :
    PressureStep e s o.state := by
  refine PressureStep.of_unpressed (Event.kind_not_mem hk (by decide)) fun k hd => ?_
  rcases Syscalls.exit_cases h with
    ⟨-, hs, -⟩ | ⟨cpu, tid, thread, call, ended, o', hc, hr, -, -, -, hrest, hs, -⟩
  · rw [hs]
  · have hne : k ≠ tid := by
      rintro rfl
      exact hd (Or.inr (Or.inl ⟨hk, Option.bind_eq_some_iff.2 ⟨cpu, hc, hr⟩⟩))
    have hkept : callsKept.rel (s.setThread tid { thread with call := none }) o'.signals
        o'.state := by
      split at hrest
      · exact obeys_whenSome (IoRequests.callsKept_finish e cpu tid) _ o' hrest
      · exact obeys_pure () _ o' hrest
    rw [hs, pressureKept_of_callsKept hkept, State.pressure?_setThread, if_neg hne]

/-- The first subsystem puts the thread into a syscall without a request, the second one attaches
one that has counted nothing. -/
theorem of_entry {o : Outcome Unit} (hk : e.kind? = some .syscallEntry)
    (h : (Syscalls.entry e >>= fun _ => IoRequests.entry e) s = .ok o) :
    PressureStep e s o.state := by
  have hafter : ∀ k, Pressure.after e s k = id :=
    Pressure.after_eq_id (Event.kind_not_mem hk (by decide)) s
  obtain ⟨o₁, o₂, h₁, h₂, rfl⟩ := bind_eq_ok_iff.1 h
  show PressureStep e s o₂.state
  obtain ⟨hrunning, -, -⟩ := Syscalls.entry_marks h₁
  rcases Syscalls.entry_cases h₁ with ⟨-, ⟨hactor, hs⟩ | ⟨tid, hactor, hs⟩⟩
  · rw [hs] at h₂
    rw [IoRequests.state_entry_of_no_actor hactor h₂]
    refine ⟨fun k henters => ?_, fun k _ => by rw [hafter, Option.map_id_apply]⟩
    cases hactor.symm.trans henters.2
  · have hset : ∀ k, o₁.state.pressure? k = if k = tid then none else s.pressure? k := by
      intro k
      rw [hs]
      exact s.pressure?_setThread tid k _
    rw [← hrunning] at hactor
    obtain ⟨hbegun, hother⟩ := IoRequests.pressureBegun_entry hactor o₂ h₂
    have hnone : o₁.state.Unpressed tid := by
      intro x hx
      rw [hset, if_pos rfl] at hx
      cases hx
    rw [hrunning] at hactor
    refine ⟨fun k henters => ?_, fun k hd => ?_⟩
    · obtain rfl : tid = k := Option.some.inj (hactor.symm.trans henters.2)
      exact hbegun hnone
    · have hne : k ≠ tid := by
        rintro rfl
        exact hd (Or.inl ⟨hk, hactor⟩)
      rw [hother k hne, hset, if_neg hne, hafter, Option.map_id_apply]

end PressureStep

/-- Every event of a run does to the counts of requests what `PressureStep` says. -/
theorem Run.pressureStep {settings : Settings} {history : List Step} {r : Replay} {e : Event}
    {p : Replay.Progress} (h : Run settings history r) (hp : r.process e = .ok p) :
    PressureStep e r.state p.replay.state := by
  rcases h.step_cases hp with ⟨hk, hs, -⟩ | ⟨kind, remaps, o, hk, ho, hs, -⟩
  · rw [hs]
    exact .of_unpressed (by simp [hk]) fun tid _ => rfl
  by_cases hfork : kind = .schedFork
  · subst hfork
    obtain ⟨o', h', hs', -⟩ := h.update_run hp hk (Subsystem.effect_schedFork e)
    rw [hs']
    exact .of_fork hk h'
  by_cases hentry : kind = .syscallEntry
  · subst hentry
    obtain ⟨o', h', hs', -⟩ := h.entry_run hp hk
    rw [hs']
    exact .of_entry hk h'
  by_cases hexit : kind = .syscallExit
  · subst hexit
    obtain ⟨o', h', hs', -⟩ := h.exit_run hp hk
    rw [hs']
    exact .of_exit hk h'
  rw [hs]
  by_cases hpages : kind ∈ [.pageAlloc, .pagesWritten, .kswapdWakeup, .pageFree]
  · exact .of_pages hk hpages ho
  · have hcalls : kind ∉ [.schedFork, .syscallEntry, .syscallExit] := by simp [hfork, hentry, hexit]
    have hkept := Subsystem.pressureKept_effect hcalls hpages e remaps r.state o ho
    refine .of_unpressed (fun kind' hk' hmem => ?_) fun tid _ => congrFun hkept tid
    rw [← Option.some.inj (hk.symm.trans hk')] at hmem
    rcases List.mem_cons.1 hmem with heq | hmem
    · exact hentry heq
    · exact hpages hmem

end KernelReplay
