import KernelReplay.Proofs.CallSteps

/-
  What an event does to tables of descriptors. An event other than a fork does to them what a
  `TableLaw` allows, but for the exit of a transfer, which in between counts its bytes, once, for
  the descriptors that it names and for its thread (`Run.tableStep`). That a transfer in flight has
  counted none before is a property of pending syscalls.
-/

namespace KernelReplay

open Law Update

/-- The second state is the first, with the bytes of at most one finished transfer counted for a
thread that is known. -/
def Counted (limit : Nat) (s s' : State) : Prop :=
  s' = s ∨ ∃ t tid owner bytes, t.returned = some bytes ∧ bytes ≤ limit ∧
    s.Knows tid ∧ s' = IoRequests.countBytes t tid owner s

theorem Counted.refl (limit : Nat) (s : State) : Counted limit s s := Or.inl rfl

/-- Counting one side of a transfer changes a descriptor, if it is in the table, and the bytes of the
thread. -/
theorem IoRequests.countSide_cases (owner tid : Int) (side : Option Int) (onFd : Fd → Fd)
    (onThread : FdType → IoCounts → IoCounts) (s : State) :
    countSide owner tid side onFd onThread s = s ∨
    ∃ number thread fd, side = some number ∧ s.thread? owner = some thread ∧
      thread.fds.get? number = some fd ∧ countSide owner tid side onFd onThread s =
        (s.setThread owner { thread with fds := thread.fds.insert number (onFd fd) }).adjustThread tid
          fun t => { t with io := onThread (onFd fd).type t.io } := by
  unfold countSide
  split
  · rename_i fd number hfd
    obtain ⟨thread, ht, hf⟩ := Descriptors.ownFd?_eq_some_iff.1 hfd
    refine Or.inr ⟨number, thread, fd, rfl, ht, hf, ?_⟩
    unfold State.adjustFd
    rw [State.adjustThread_eq_setThread ht, Table.adjust_eq_insert hf]
  · exact Or.inl rfl

theorem known_countSide {s : State} {k : Int} (owner tid : Int) (side : Option Int) (onFd : Fd → Fd)
    (onThread : FdType → IoCounts → IoCounts) (h : s.Knows k) :
    (IoRequests.countSide owner tid side onFd onThread s).Knows k := by
  rcases IoRequests.countSide_cases owner tid side onFd onThread s with
    hs | ⟨number, thread, fd, -, -, -, hs⟩
  · rwa [hs]
  · rw [hs]
    exact (h.setThread owner _).adjustThread tid _

/-- A transfer that has not ended has moved nothing yet. -/
theorem IoBody.Pending.returned {kind : SyscallClass} {t : Transfer}
    (h : IoBody.Pending kind (.transfer t)) : t.returned = none := by
  cases kind
  case read => exact h.2.2.2.1
  case write => exact h.2.2.2.1
  case readWrite => exact h.2.2.1
  all_goals exact h.elim

/-- Finishing a request leaves its body or completes it with a result that is not negative. -/
theorem IoRequest.finish_body {rq rq' : IoRequest} {time : Int} {ret : Option Int}
    (h : rq.finish time ret = .ok rq') :
    rq'.body = rq.body ∨ ∃ n, ret = some n ∧ rq'.body = rq.body.complete n := by
  obtain ⟨errno, body, rfl, hresult⟩ := IoRequest.finish_cases h
  rcases hresult with ⟨-, -, rfl⟩ | ⟨n, rfl, ⟨-, -, rfl⟩ | ⟨-, -, rfl⟩⟩
  · exact Or.inl rfl
  · exact Or.inl rfl
  · exact Or.inr ⟨n, rfl, rfl⟩

/-- A finished transfer has moved what its syscall returned. -/
theorem IoRequest.returned_of_finish {rq rq' : IoRequest} {tid time : Int} {call : Call}
    {ret : Option Int} (hp : rq.Pending tid call) (h : rq.finish time ret = .ok rq') {t : Transfer}
    {bytes : Nat} (hb : rq'.body = .transfer t) (ht : t.returned = some bytes) :
    bytes ≤ (ret.getD 0).toNat := by
  obtain ⟨kind, -, hbody⟩ := hp.body
  rcases IoRequest.finish_body h with heq | ⟨n, rfl, heq⟩
  · rw [← heq, hb] at hbody
    rw [hbody.returned] at ht
    cases ht
  · rw [hb] at heq
    cases hq : rq.body with
    | transfer t₀ =>
      rw [hq] at heq
      have hreturned : t.returned = some n.toNat := by rw [IoBody.transfer.inj heq]; rfl
      obtain rfl : bytes = n.toNat := Option.some.inj (ht.symm.trans hreturned)
      exact Nat.le_refl _
    | opening _ | close _ | sync _ _ | connect _ _ =>
      rw [hq] at heq
      cases heq

theorem Descriptors.known_ensure (tid owner : Int) (fd : Fd) (time : Int) (cpu : Option Nat) :
    Obeys (maintaining fun s => s.Knows tid) (ensure owner fd time cpu) := by
  refine obeys_get.bind fun s => obeys_ite (obeys_pure _) ?_
  refine Obeys.modify_bind (fun s hs => hs.setThread owner _) ?_
  refine obeys_get.bind fun s => ?_
  split
  · exact obeys_notify fun s => id
  · exact obeys_pure _

namespace TableLaw

variable {L : Law}

/-- A request that succeeded does to a table what the law allows. If it is a transfer, the descriptors
that it names are made first, and then its bytes are counted. -/
theorem applyBody (hL : TableLaw L) {body : IoBody} {e : Event} {tid owner : Int} {cpu : Nat}
    {s : State} {o : Outcome Unit} (h : IoRequests.applyBody body e tid owner cpu s = .ok o) :
    ((∀ t, body ≠ .transfer t) ∧ L.rel s o.signals o.state) ∨
    ∃ t s₁, body = .transfer t ∧
      forEach ([t.fd, t.source, t.target].filterMap id)
        (fun number => Descriptors.ensure owner { number } e.time (some cpu)) s =
          .ok ⟨(), s₁, o.signals⟩ ∧
      L.rel s o.signals s₁ ∧ o.state = IoRequests.countBytes t tid owner s₁ := by
  have hensure : ∀ fd : Fd, fd.io = {} → Obeys L (Descriptors.ensure owner fd e.time (some cpu)) :=
    fun fd hio => hL.ensure owner e.time (some cpu) hio
  cases body with
  | opening r =>
    exact Or.inl ⟨by simp, obeys_whenSome (fun number => hensure (r.descriptor number) rfl) s o h⟩
  | close fd => exact Or.inl ⟨by simp, obeys_pure () s o h⟩
  | sync fd size =>
    exact Or.inl ⟨by simp, obeys_whenSome (fun number => hensure { number } rfl) s o h⟩
  | connect number address =>
    refine Or.inl ⟨by simp, obeys_whenSome (fun filename => ?_) s o h⟩
    refine Obeys.modify_bind (hL.adjustFd owner number ?_ ?_) (hL.announceUpdate _ _ _ _)
    · exact fun _ => rfl
    · exact fun _ => rfl
  | transfer t =>
    obtain ⟨o₁, o₂, h₁, h₂, rfl⟩ := bind_eq_ok_iff.1 h
    cases h₂
    have hrel := obeys_forEach (fun number => hensure { number } rfl) s o₁ h₁
    rw [List.append_nil]
    exact Or.inr ⟨t, o₁.state, rfl, h₁, hrel, rfl⟩

/-- What a finished request does to a table: what the law allows, and then its bytes are counted. -/
theorem settle (hL : TableLaw L) {request : IoRequest} {e : Event} {tid owner : Int} {cpu : Nat}
    {s : State} {o : Outcome Unit} {limit : Nat}
    (hbytes : ∀ t bytes, request.body = .transfer t → t.returned = some bytes → bytes ≤ limit)
    (hknown : s.Knows tid)
    (h : IoRequests.settle request e tid owner cpu s = .ok o) :
    ∃ s₁, L.rel s o.signals s₁ ∧ Counted limit s₁ o.state := by
  unfold IoRequests.settle at h
  split at h
  · rcases hL.applyBody h with ⟨-, hrel⟩ | ⟨t, s₁, hb, hmade, hrel, hcounted⟩
    · exact ⟨o.state, hrel, Counted.refl limit _⟩
    · have hknown₁ : s₁.Knows tid := obeys_forEach (fun number =>
        Descriptors.known_ensure tid owner { number } e.time (some cpu)) s _ hmade hknown
      refine ⟨s₁, hrel, ?_⟩
      cases hr : t.returned with
      | none =>
        left
        simp [hcounted, IoRequests.countBytes, hr]
      | some bytes =>
        exact Or.inr ⟨t, tid, owner, bytes, hr, hbytes t bytes hb hr, hknown₁, hcounted⟩
  · cases h
    exact ⟨s, L.idle s, Counted.refl limit s⟩

theorem finish (hL : TableLaw L) {e : Event} {cpu : Nat} {tid : Int} {request : IoRequest}
    {call : Call} {s : State} {o : Outcome Unit} (hp : request.Pending tid call)
    (hknown : s.Knows tid)
    (h : IoRequests.finish e cpu tid request s = .ok o) :
    ∃ s₁ s₂ l₁ l₂, L.rel s l₁ s₁ ∧ Counted ((e.int? "ret").getD 0).toNat s₁ s₂ ∧
      L.rel s₂ l₂ o.state ∧ o.signals = l₁ ++ l₂ := by
  obtain ⟨o₁, o₂, h₁, h₂, rfl⟩ := bind_eq_ok_iff.1 h
  obtain ⟨finished, hf, rfl⟩ := compute_eq_ok_iff.1 h₁
  rw [get_bind_run] at h₂
  obtain ⟨o₃, o₄, h₃, h₄, rfl⟩ := bind_eq_ok_iff.1 h₂
  obtain ⟨s₁, hrel, hcounted⟩ := hL.settle
    (fun t bytes hb hr => IoRequest.returned_of_finish hp hf hb hr) hknown h₃
  have hclose : Obeys L (whenSome (IoRequests.closed? finished.body (e.int? "ret")) fun number =>
      Descriptors.close (s.fdOwner tid) number e.time (some cpu)) :=
    obeys_whenSome fun number => hL.closeFd (s.fdOwner tid) number e.time (some cpu)
  have hannounce := hL.quiet (IoRequests.quiet_announceExit finished tid (s.fdOwner tid))
  have hrest := hannounce.bind fun _ => hclose
  exact ⟨s₁, o₃.state, o₃.signals, o₄.signals, hrel, hcounted, hrest _ o₄ h₄, rfl⟩

/-- The exit of a syscall does to tables what the law allows, and in between counts bytes once. -/
theorem exitParts (hL : TableLaw L) {e : Event} {s : State} {o : Outcome Unit} (hs : s.CallsSound)
    (h : (Syscalls.exit e >>= fun _ => IoRequests.exit e) s = .ok o) :
    ∃ s₁ s₂ l₁ l₂, L.rel s l₁ s₁ ∧ Counted ((e.int? "ret").getD 0).toNat s₁ s₂ ∧
      L.rel s₂ l₂ o.state ∧ o.signals = l₁ ++ l₂ := by
  have hexit := Syscalls.exit_cases h
  rcases hexit with
    ⟨-, hstate, hn⟩ | ⟨cpu, tid, thread, call, ended, o', -, -, ht, hc, -, hrest, hstate, hl⟩
  · have hrel : L.rel s o.signals s := hL.rest ⟨rfl, by simp [sending, hn]⟩
    exact ⟨s, s, o.signals, [], hrel, Counted.refl _ _, hstate ▸ L.idle s, by simp⟩
  · have hleft : L.rel s [.notification (.syscallExit { thread with call := some ended } ended cpu)]
        (s.setThread tid { thread with call := none }) :=
      hL.rest ⟨(Syscalls.tablesKept_setCall ht none).1, by simp [sending, Notification.TellsTables]⟩
    have hknown : (s.setThread tid { thread with call := none }).Knows tid :=
      ⟨_, by rw [State.thread?_setThread, if_pos rfl]⟩
    have hcall : s.call? tid = some call := by
      rw [State.call?, ht]
      exact hc
    rw [hstate, hl]
    split at hrest
    · cases hreq : call.request with
      | none =>
        rw [hreq] at hrest
        cases hrest
        exact ⟨_, _, _, [], hleft, Counted.refl _ _, L.idle _, rfl⟩
      | some request =>
        rw [hreq] at hrest
        have hp := (hs.pending tid call hcall).request request hreq
        obtain ⟨s₁, s₂, l₁, l₂, h₁, hcounted, h₂, hl'⟩ := hL.finish hp hknown hrest
        exact ⟨s₁, s₂, _ :: l₁, l₂, L.chain hleft h₁, hcounted, h₂, by rw [hl']; rfl⟩
    · cases hrest
      exact ⟨_, _, _, [], hleft, Counted.refl _ _, L.idle _, rfl⟩

end TableLaw

namespace Run

variable {L : Law} {settings : Settings} {history : List Step} {r : Replay} {e : Event}
  {p : Replay.Progress}

/-- Every event of a run other than the exit of a syscall does to tables what the law allows, except
that a fork makes a thread with copies of a table and announces each. -/
theorem tableStep_of_ne_exit (hL : TableLaw L) (h : Run settings history r)
    (hp : r.process e = .ok p) (hexit : e.kind? ≠ some .syscallExit) :
    (e.forked? = none ∧ L.rel r.state p.signals p.replay.state) ∨
    ∃ tid s₁ owner thread d, e.forked? = some tid ∧ quiet.rel r.state [] s₁ ∧
      thread = Scheduling.child e tid (s₁.fds owner) ∧ p.replay.state = s₁.setThread tid thread ∧
      p.signals = .diagnostic d ::
        thread.fds.toList.map fun q => .notification (.fd .create q.2 thread e.time e.cpu?) := by
  rcases h.step_cases hp with ⟨hk, hs, hl⟩ | ⟨kind, remaps, o, hk, ho, hs, hl⟩
  · refine Or.inl ⟨Event.forked?_eq_none (by simp [hk]), ?_⟩
    rw [hs, hl]
    exact L.idle _
  · by_cases hfork : kind = .schedFork
    · subst hfork
      obtain ⟨o', h', hs', hl'⟩ := h.update_run hp hk (Subsystem.effect_schedFork e)
      rw [hs', hl']
      rcases Scheduling.fork_cases hk h' with ⟨hf, hs₁, hl₁⟩ | hmade
      · rw [hs₁, hl₁]
        exact Or.inl ⟨hf, L.idle _⟩
      · exact Or.inr hmade
    · refine Or.inl ⟨Event.forked?_eq_none (by simp [hk, hfork]), ?_⟩
      rw [hs, hl]
      exact hL.effect hfork (by simpa [hk] using hexit) e remaps r.state o ho

/-- Every event of a run does to tables what the law allows, with the bytes of at most one transfer
counted on the way, except that a fork makes a thread with copies of a table and announces each. -/
theorem tableStep (hL : TableLaw L) (h : Run settings history r) (hp : r.process e = .ok p) :
    (e.forked? = none ∧ ∃ s₁ s₂ l₁ l₂, L.rel r.state l₁ s₁ ∧ Counted e.returned s₁ s₂ ∧
      L.rel s₂ l₂ p.replay.state ∧ p.signals = l₁ ++ l₂) ∨
    ∃ tid s₁ owner thread d, e.forked? = some tid ∧ quiet.rel r.state [] s₁ ∧
      thread = Scheduling.child e tid (s₁.fds owner) ∧ p.replay.state = s₁.setThread tid thread ∧
      p.signals = .diagnostic d ::
        thread.fds.toList.map fun q => .notification (.fd .create q.2 thread e.time e.cpu?) := by
  by_cases hexit : e.kind? = some .syscallExit
  · obtain ⟨o, ho, hs, hl⟩ := h.exit_run hp hexit
    have hret : e.returned = ((e.int? "ret").getD 0).toNat := by rw [Event.returned, if_pos hexit]
    rw [hs, hl, hret]
    exact Or.inl ⟨Event.forked?_eq_none (by simp [hexit]), hL.exitParts h.callsSound ho⟩
  · rcases h.tableStep_of_ne_exit hL hp hexit with ⟨hf, hrel⟩ | hmade
    · exact Or.inl ⟨hf, _, _, p.signals, [], hrel, Counted.refl _ _, L.idle _, by simp⟩
    · exact Or.inr hmade

end Run

end KernelReplay
