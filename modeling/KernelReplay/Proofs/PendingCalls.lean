import KernelReplay.Proofs.EventReadings
import KernelReplay.Proofs.Frames

/-
  Syscalls in flight. A syscall is pending from its entry to its exit: nothing is known of its end,
  and a request that it carries asks for what its name says and has not been finished
  (`Call.Pending`). All rules but those that begin or end syscalls keep every syscall pending and
  every thread in its own (`Law.callsTended`): they count pages for a request, note a guess of where
  its bytes go, or attach it to a syscall just entered.
-/

namespace KernelReplay

open Law Update

/-! ## Pending syscalls -/

/-- What the request of a syscall of a class asks for before the syscall's exit. -/
def IoBody.Pending : SyscallClass → IoBody → Prop
  | .diskOpen, .opening o | .socket, .opening o | .accept, .opening o | .dup, .opening o =>
    o.fd = none
  | .close, .close _ | .sync, .sync _ _ | .connect, .connect _ _ => True
  | .read, .transfer t => t.operation = .read ∧ t.source = none ∧ t.target = none ∧
    t.returned = none ∧ t.guess = none
  | .write, .transfer t => t.operation = .write ∧ t.source = none ∧ t.target = none ∧
    t.returned = none ∧ (t.guess = none ∨ t.guess = some .maybeNet)
  | .readWrite, .transfer t => t.operation = .readWrite ∧ t.fd = none ∧ t.returned = none ∧
    t.guess = none
  | _, _ => False

/-- A request that a thread makes in a syscall and that is not finished. -/
structure IoRequest.Pending (rq : IoRequest) (tid : Int) (call : Call) : Prop where
  body : ∃ kind, SyscallClass.ofName? call.name = some kind ∧ rq.body.Pending kind
  tid : rq.tid = tid
  syscall : rq.syscall = call.name
  begun : rq.begun = call.begun
  ended : rq.ended = none
  duration : rq.duration = none
  errno : rq.errno = none

/-- A syscall that a thread has entered and not left. -/
structure Call.Pending (call : Call) (tid : Int) : Prop where
  ended : call.ended = none
  ret : call.ret = none
  duration : call.duration = none
  request : ∀ rq, call.request = some rq → rq.Pending tid call

theorem Call.pending_fresh (name : String) (begun tid : Int) : Call.Pending { name, begun } tid :=
  ⟨rfl, rfl, rfl, fun _ h => by cases h⟩

/-- Threads are held under their own numbers, and their syscalls are pending. -/
structure State.CallsSound (s : State) : Prop where
  numbered : ∀ tid, (s.holdings tid).tid = tid
  pending : ∀ tid call, s.call? tid = some call → call.Pending tid

/-- The name and the start of a syscall. -/
def Call.mark (call : Call) : String × Int := (call.name, call.begun)

/-- The name and the start of the syscall that a thread is in. -/
def State.mark? (s : State) (tid : Int) : Option (String × Int) := (s.call? tid).map Call.mark

/-- The ends of syscalls that signals announce. -/
def callExits (l : List Signal) : List (Thread × Call × Nat) :=
  (notificationsOf l).filterMap fun
    | .syscallExit thread call cpu => some (thread, call, cpu)
    | _ => none

theorem callExits_of_not_endsCall {l : List Signal} (h : ∀ n ∈ notificationsOf l, ¬ n.EndsCall) :
    callExits l = [] := by
  unfold callExits
  rw [List.filterMap_eq_nil_iff]
  intro n hn
  split
  · exact (h _ hn trivial).elim
  · rfl

namespace Law

/-- The same threads run and are in the same syscalls, whose requests may change while pending. -/
def callsTended : Law :=
  (keeping State.running?).both <| (keeping State.mark?).both <|
    (maintaining State.CallsSound).both <| sending fun n => ¬ n.EndsCall

end Law

theorem State.CallsSound.of_bare_eq {s s' : State} (h : s.CallsSound) (hb : s'.bare = s.bare) :
    s'.CallsSound := by
  have hb : ∀ k, (s'.holdings k).bare = (s.holdings k).bare := congrFun hb
  constructor
  · intro tid
    have := congrArg Holdings.tid (hb tid)
    exact this.trans (h.numbered tid)
  · intro tid call hc
    refine h.pending tid call ?_
    rw [State.call?_eq_holdings] at hc ⊢
    exact (congrArg Holdings.call (hb tid)).symm.trans hc

theorem State.call?_of_bare_eq {s s' : State} (hb : s'.bare = s.bare) : s'.call? = s.call? := by
  funext k
  have h := congrArg Holdings.call (congrFun hb k)
  rw [State.call?_eq_holdings, State.call?_eq_holdings]
  exact h

theorem State.mark?_of_bare_eq {s s' : State} (h : s'.bare = s.bare) : s'.mark? = s.mark? := by
  funext k
  rw [State.mark?, State.mark?, State.call?_of_bare_eq h]

theorem State.CallsSound.tid_of_thread? {s : State} (h : s.CallsSound) {tid : Int} {thread : Thread}
    (ht : s.thread? tid = some thread) : thread.tid = tid := by
  have hnum := h.numbered tid
  rwa [holdings_of_thread? ht] at hnum

/-- Putting in a thread with a pending syscall, or none, keeps every syscall pending. -/
theorem State.CallsSound.setThread {s : State} (h : s.CallsSound) {tid : Int} {t : Thread}
    (ht : t.tid = tid) (hc : ∀ call, t.call = some call → call.Pending tid) :
    (s.setThread tid t).CallsSound := by
  constructor
  · intro k
    rw [State.holdings_setThread]
    split
    · rename_i hk
      rw [hk]
      exact ht
    · exact h.numbered k
  · intro k call hcall
    rw [State.call?_setThread] at hcall
    split at hcall
    · rename_i hk
      rw [hk]
      exact hc call hcall
    · exact h.pending k call hcall

theorem State.mark?_setThread (s : State) (tid k : Int) (t : Thread) :
    (s.setThread tid t).mark? k = if k = tid then t.call.map Call.mark else s.mark? k := by
  unfold State.mark?
  rw [State.call?_setThread]
  split <;> rfl

theorem callsTended_of_callsKept {s s' : State} {l : List Signal} (h : callsKept.rel s l s') :
    callsTended.rel s l s' := by
  obtain ⟨hr, hb, hn⟩ := h
  exact ⟨hr, State.mark?_of_bare_eq hb, fun hs => hs.of_bare_eq hb, hn⟩

theorem callsTended_of_quiet {s s' : State} {l : List Signal} (h : quiet.rel s l s') :
    callsTended.rel s l s' := callsTended_of_callsKept (callsKept_of_quiet h)

/-! ## Requests in flight that count pages or keep a guess -/

/-- Page counters say nothing of what a request asks for. -/
theorem IoRequest.Pending.withPages {rq : IoRequest} {tid : Int} {c : Call} (h : rq.Pending tid c)
    (allocated freed written : Nat) (woke : Bool) :
    IoRequest.Pending
      { rq with
        pagesAllocated := allocated
        pagesFreed := freed
        pagesWritten := written
        wokeKswapd := woke } tid c :=
  ⟨h.body, h.tid, h.syscall, h.begun, h.ended, h.duration, h.errno⟩

/-- Where only requests change, and into pending ones, the law is kept. -/
theorem callsTended_of_requests {s s' : State} (g : Int → Call → Option IoRequest)
    (hr : s'.running? = s.running?) (hn : ∀ k, (s'.holdings k).tid = (s.holdings k).tid)
    (hc : ∀ k, s'.call? k = (s.call? k).map fun c => { c with request := g k c })
    (hg : ∀ k c rq, s.call? k = some c → c.Pending k → g k c = some rq → rq.Pending k c) :
    callsTended.rel s [] s' := by
  refine ⟨hr, ?_, fun hs => ⟨fun k => (hn k).trans (hs.numbered k), ?_⟩, by simp [sending]⟩
  · show s'.mark? = s.mark?
    funext k
    rw [State.mark?, State.mark?, hc]
    cases s.call? k <;> rfl
  · intro k call hcall
    rw [hc] at hcall
    obtain ⟨c, hk, rfl⟩ := Option.map_eq_some_iff.1 hcall
    have hp := hs.pending k c hk
    refine ⟨hp.ended, hp.ret, hp.duration, fun rq hrq => ?_⟩
    have h := hg k c rq hk hp hrq
    exact ⟨h.body, h.tid, h.syscall, h.begun, h.ended, h.duration, h.errno⟩

/-- The law is kept where the request of one thread changes into a pending one. -/
theorem callsTended_adjustThread (s : State) (tid : Int) (g : Call → Option IoRequest)
    (hg : ∀ c rq, s.call? tid = some c → c.Pending tid → g c = some rq → rq.Pending tid c) :
    callsTended.rel s [] (s.adjustThread tid fun t =>
      { t with call := t.call.map fun c => { c with request := g c } }) := by
  refine callsTended_of_requests (fun k c => if k = tid then g c else c.request) rfl ?_ ?_ ?_
  · exact State.view_adjustThread_of_eq fun _ => rfl
  · intro k
    refine (s.call?_adjustThread tid k (Option.map fun c => { c with request := g c }) rfl).trans ?_
    split
    · rfl
    · simp
  · intro k c rq hc hp hrq
    split at hrq
    · rename_i hk
      subst hk
      exact hg c rq hc hp hrq
    · exact hp.request rq hrq

theorem callsTended_adjustRequest (s : State) (tid : Int) {f : IoRequest → IoRequest}
    (hf : ∀ c rq, s.call? tid = some c → rq.Pending tid c → (f rq).Pending tid c) :
    callsTended.rel s [] (s.adjustRequest tid f) := by
  refine callsTended_adjustThread s tid (fun c => c.request.map f) fun c rq hc hp hrq => ?_
  obtain ⟨rq', hrq', rfl⟩ := Option.map_eq_some_iff.1 hrq
  exact hf c rq' hc (hp.request rq' hrq')

theorem Paging.callsTended_alloc (e : Event) : Obeys callsTended (alloc e) := by
  refine Obeys.modify_bind (fun s => ?_) ?_
  · refine callsTended_of_requests (fun _ c => c.request.map countAllocated) rfl ?_ ?_ ?_
    · exact State.view_mapThreads_of_eq (s := { s with pageCount := _ }) fun _ => rfl
    · intro k
      unfold State.call? State.thread?
      rw [Table.get?_map]
      cases s.threads.get? k <;> rfl
    · intro k c rq _ hp hrq
      obtain ⟨rq', hrq', rfl⟩ := Option.map_eq_some_iff.1 hrq
      exact (hp.request rq' hrq').withPages _ _ _ _
  · exact (quiet_announce e fun _ _ => ⟨id, id⟩).mono callsTended_of_quiet

namespace IoRequests

theorem callsTended_pagesWritten (e : Event) : Obeys callsTended (pagesWritten e) := by
  refine obeys_whenSome fun pages => obeys_get.bind fun s => obeys_forEach fun tid => ?_
  exact obeys_modify fun s => callsTended_adjustRequest s tid fun c rq _ h => h.withPages _ _ _ _

theorem callsTended_kswapdWakeup (e : Event) : Obeys callsTended (kswapdWakeup e) := by
  refine obeys_get.bind fun s => obeys_whenSome fun tid => ?_
  exact obeys_modify fun s => callsTended_adjustRequest s tid fun c rq _ h => h.withPages _ _ _ _

theorem callsTended_pageFree : Obeys callsTended pageFree := by
  refine obeys_get.bind fun s => obeys_forEach fun tid => ?_
  refine obeys_modify fun s => callsTended_adjustRequest s _ fun c rq _ h => ?_
  unfold countFreed
  split
  · exact h.withPages _ _ _ _
  · exact h

end IoRequests

namespace Traffic

/-- A thread with a descriptor that it writes to is in a write. -/
theorem ofName?_of_writtenFd? {t : Thread} {c : Call} {number : Int} (h : writtenFd? t = some number)
    (hc : t.call = some c) : SyscallClass.ofName? c.name = some .write := by
  unfold writtenFd? at h
  by_cases hw : SyscallClass.ofName? c.name = some .write
  · exact hw
  · simp [hc, hw] at h

theorem pending_guessSocket {rq : IoRequest} {tid : Int} {c : Call}
    (hw : SyscallClass.ofName? c.name = some .write) (h : rq.Pending tid c) :
    (guessSocket rq).Pending tid c := by
  obtain ⟨kind, hk, hb⟩ := h.body
  obtain rfl : SyscallClass.write = kind := Option.some.inj (hw.symm.trans hk)
  unfold guessSocket
  split
  · rename_i t ht
    rw [ht] at hb
    obtain ⟨ho, hs, htg, hr, -⟩ := hb
    exact ⟨⟨.write, hw, ho, hs, htg, hr, Or.inr rfl⟩, h.tid, h.syscall, h.begun, h.ended,
      h.duration, h.errno⟩
  · exact h

theorem callsTended_guessFor (tid : Int) (s : State) : callsTended.rel s [] (guessFor tid s) := by
  unfold guessFor
  split
  · exact callsTended.idle s
  · rename_i number hn
    dsimp only
    split
    · exact callsTended_of_callsKept (callsKept_adjustFd _ _ _ s)
    · refine callsTended_adjustRequest s tid fun c rq hc h => pending_guessSocket ?_ h
      obtain ⟨t, ht, hw⟩ := Option.bind_eq_some_iff.1 hn
      refine ofName?_of_writtenFd? hw ?_
      unfold State.call? at hc
      rwa [ht] at hc

theorem callsTended_transmit (e : Event) : Obeys callsTended (transmit e) := by
  refine obeys_whenSome fun iface => ?_
  refine Obeys.modify_bind (fun s => callsTended_of_quiet (quiet_of_eq rfl rfl)) ?_
  refine Obeys.bind ((quiet_notify ⟨id, id⟩).mono callsTended_of_quiet) fun _ => ?_
  exact obeys_get.bind fun s => obeys_whenSome fun tid => obeys_modify (callsTended_guessFor tid)

end Traffic

/-! ## Entering a syscall -/

namespace IoRequests

theorem pending_body? {e : Event} {kind : SyscallClass} {syscall : String} {body : IoBody}
    (h : body? e kind syscall = some body) : body.Pending kind := by
  cases kind <;> simp only [body?, Option.some.injEq, Option.map_eq_some_iff, reduceCtorEq] at h
  case close | connect =>
    obtain ⟨fd, -, rfl⟩ := h
    trivial
  case sync =>
    subst h
    split <;> trivial
  case readWrite =>
    subst h
    unfold transferBetween
    split <;> exact ⟨rfl, rfl, rfl, rfl⟩
  case read =>
    subst h
    exact ⟨rfl, rfl, rfl, rfl, rfl⟩
  case write =>
    subst h
    exact ⟨rfl, rfl, rfl, rfl, Or.inl rfl⟩
  all_goals
    subst h
    rfl

theorem pending_copyRequest (source : Option Fd) (cloexec : Bool) :
    (IoBody.opening (copyRequest source cloexec)).Pending .dup := by
  cases source <;> rfl

/-- A request attached to the syscall that it was made for is pending. -/
theorem callsTended_attach {e : Event} {tid : Int} {syscall : String} {kind : SyscallClass}
    {body : IoBody} {s : State} (hm : s.mark? tid = some (syscall, e.time))
    (hk : SyscallClass.ofName? syscall = some kind) (hb : body.Pending kind) :
    ObeysAt callsTended (attach e tid syscall body) s := by
  refine ObeysAt.get_bind ?_
  split
  · refine obeysAt_of_run rfl (callsTended_adjustThread s tid (fun _ => some _) ?_)
    intro c rq hc _ hrq
    cases hrq
    obtain ⟨c', hc', hmark⟩ := Option.map_eq_some_iff.1 hm
    obtain rfl : c' = c := Option.some.inj (hc'.symm.trans hc)
    obtain ⟨rfl, hbegun⟩ := Prod.mk.inj hmark
    exact ⟨⟨kind, hk, hb⟩, rfl, rfl, hbegun.symm, rfl, rfl, rfl⟩
  · exact (quiet_report _).mono callsTended_of_quiet s

/-- The syscall that a thread is in after an update that keeps the law. -/
theorem mark?_after {α : Type} {u : Update α} {s : State} {o : Outcome α} (hu : Obeys callsTended u)
    (ho : u s = .ok o) : o.state.mark? = s.mark? := (hu s o ho).2.1

theorem callsTended_entry {e : Event} {s : State}
    (hm : ∀ tid, e.actor? s.running? = some tid → s.mark? tid = some (syscallName e.name, e.time)) :
    ObeysAt callsTended (entry e) s := by
  refine obeysAt_whenSome fun kind hk => ObeysAt.get_bind (obeysAt_whenSome fun tid htid => ?_)
  have hgroup := (quiet_learnGroup e tid).mono callsTended_of_quiet
  refine ObeysAt.bind (hgroup s) fun o ho => ?_
  have hm : o.state.mark? tid = some (syscallName e.name, e.time) :=
    (congrFun (mark?_after hgroup ho) tid).trans (hm tid htid)
  split
  · rename_i hdup
    subst hdup
    refine obeysAt_whenSome fun args _ => ObeysAt.get_bind ?_
    have hclose : Obeys callsTended (whenSome (args.target.filter (· ≠ args.source)) fun target =>
        Descriptors.close (o.state.fdOwner tid) target e.time e.cpu?) :=
      obeys_whenSome fun target =>
        (Descriptors.callsKept_close _ target e.time e.cpu?).mono callsTended_of_callsKept
    refine ObeysAt.bind (hclose _) fun o' ho' => ?_
    exact callsTended_attach ((congrFun (mark?_after hclose ho') tid).trans hm) hk
      (pending_copyRequest _ _)
  · exact obeysAt_whenSome fun body hbody => callsTended_attach hm hk (pending_body? hbody)

end IoRequests

end KernelReplay
