import KernelReplay.Proofs.Courses
import KernelReplay.Proofs.RangeSafety
import KernelReplay.Proofs.SettledRequests
import KernelReplay.Proofs.TableFrames

/-
  A guess that waits. A packet that leaves while a thread writes to an unknown descriptor is taken for
  a sign that the descriptor is a socket. If the table has the descriptor, its type changes at once; if
  it does not, the guess waits with the request, and the descriptor is made and given its type when the
  request is finished. The two ways differ only in where the guess is kept meanwhile: a replay in which
  it waits is, step by step, one in which it has been put into the table (`State.placeGuess`), and the
  end of the syscall brings both to the same state (`Run.deferred_guess`).
-/

namespace KernelReplay

open Law Update

/-! ## Guesses in requests and in tables -/

/-- The request without a guess. -/
def IoRequest.withoutGuess (rq : IoRequest) : IoRequest :=
  match rq.body with
  | .transfer t => { rq with body := .transfer { t with guess := none } }
  | _ => rq

theorem IoRequest.withoutGuess_guessSocket (rq : IoRequest) :
    (Traffic.guessSocket rq).withoutGuess = rq.withoutGuess := by
  obtain ⟨tid, syscall, begun, ended, duration, errno, allocated, freed, written, woke, body⟩ := rq
  cases body <;> rfl

theorem FdType.orGuess_none (type : FdType) : type.orGuess none = type := by
  cases type <;> rfl

/-- A guess changes nothing where the type is that of a guess. -/
theorem FdType.orGuess_maybeNet {guess : Option FdType}
    (h : guess = none ∨ guess = some .maybeNet) :
    (FdType.unknown.orGuess guess).orGuess (some .maybeNet) = .maybeNet := by
  rcases h with rfl | rfl <;> rfl

namespace State

variable {s : State} {tid owner number : Int} {cpu : Nat} {guess : Option FdType} {fd : Fd}

/-- Puts a descriptor into the table of a thread that is known. -/
def putFd (s : State) (owner : Int) (fd : Fd) : State :=
  s.adjustThread owner fun t => { t with fds := t.fds.insert fd.number fd }

theorem thread?_putFd (s : State) (owner k : Int) (fd : Fd) :
    (s.putFd owner fd).thread? k = (s.thread? k).map fun t =>
      { t with fds := if k = owner then t.fds.insert fd.number fd else t.fds } := by
  rw [putFd, thread?_adjustThread]
  by_cases hk : k = owner <;> simp [hk]

theorem fdOwner_putFd (s : State) (owner k : Int) (fd : Fd) :
    (s.putFd owner fd).fdOwner k = s.fdOwner k :=
  s.fdOwner_adjustThread owner k fun _ => rfl

theorem adjustFd_putFd (s : State) (owner : Int) (fd : Fd) {f : Fd → Fd}
    (hf : (f fd).number = fd.number) :
    (s.putFd owner fd).adjustFd owner fd.number f = s.putFd owner (f fd) := by
  unfold adjustFd putFd adjustThread
  congr 1
  refine Table.ext_get? fun k => ?_
  simp only [Table.get?_adjust]
  by_cases hk : k = owner
  · cases s.threads.get? k with
    | none => simp [hk]
    | some t =>
      simp only [hk, if_true, Option.map_some, hf]
      congr 2
      refine Table.ext_get? fun n => ?_
      rw [Table.get?_adjust, Table.get?_insert, Table.get?_insert]
      by_cases hn : n = fd.number <;> simp [hn]
  · simp [hk]

theorem adjustRequest_adjustRequest (s : State) (tid : Int) (f g : IoRequest → IoRequest) :
    (s.adjustRequest tid f).adjustRequest tid g = s.adjustRequest tid (g ∘ f) := by
  unfold adjustRequest adjustThread
  congr 1
  refine Table.ext_get? fun k => ?_
  simp only [Table.get?_adjust]
  by_cases hk : k = tid
  · simp only [hk, if_true, Option.map_map]
    congr 1
    funext t
    exact t.mapRequest_mapRequest f g
  · simp [hk]

/-- A thread that runs on a CPU writes to a number that is not in the table it uses. Its request keeps
a guess. -/
structure Writes (s : State) (cpu : Nat) (tid number : Int) (guess : Option FdType) : Prop where
  running : s.running? cpu = some tid
  calls : ∃ call rq t, s.call? tid = some call ∧ SyscallClass.ofName? call.name = some .write ∧
    call.request = some rq ∧ rq.body = .transfer t ∧ t.fd = some number ∧ t.guess = guess
  missing : s.ownFd? (s.fdOwner tid) number = none

/-- The guess that a thread's request keeps is taken off it, and is the type of a fresh descriptor in
the table that the thread uses. -/
def placeGuess (tid number : Int) (guess : Option FdType) (s : State) : State :=
  (s.adjustRequest tid IoRequest.withoutGuess).putFd (s.fdOwner tid)
    { number, type := FdType.unknown.orGuess guess }

theorem fdOwner_placeGuess (s : State) (k : Int) :
    (s.placeGuess tid number guess).fdOwner k = s.fdOwner k := by
  rw [placeGuess, fdOwner_putFd, fdOwner_adjustRequest]

theorem updateIface_placeGuess (s : State) (name : String) (f : Iface → Iface) :
    (s.placeGuess tid number guess).updateIface name f =
      (s.updateIface name f).placeGuess tid number guess := rfl

/-- Every thread as it is but for the guess. -/
theorem thread?_placeGuess (s : State) (k : Int) :
    (s.placeGuess tid number guess).thread? k = (s.thread? k).map fun t =>
      { if k = tid then t.mapRequest IoRequest.withoutGuess else t with
        fds := if k = s.fdOwner tid then
            t.fds.insert number { number, type := FdType.unknown.orGuess guess }
          else t.fds } := by
  rw [placeGuess, thread?_putFd, thread?_adjustRequest, Option.map_map]
  congr 1
  funext t
  by_cases hk : k = tid <;> simp [hk, Thread.mapRequest]

theorem call?_placeGuess {call : Call} (h : s.call? tid = some call) :
    (s.placeGuess tid number guess).call? tid =
      some { call with request := call.request.map IoRequest.withoutGuess } := by
  obtain ⟨thread, ht, hcall⟩ := Option.bind_eq_some_iff.1 h
  rw [call?, thread?_placeGuess, ht]
  simp [Thread.mapRequest, hcall]

theorem fds_placeGuess (h : s.Knows tid) :
    (s.placeGuess tid number guess).fds (s.fdOwner tid) =
      (s.fds (s.fdOwner tid)).insert number { number, type := FdType.unknown.orGuess guess } := by
  obtain ⟨owner, ho⟩ := s.knows_fdOwner h
  unfold fds
  rw [thread?_placeGuess, ho]
  simp

end State

namespace State.Writes

variable {s : State} {tid number : Int} {cpu : Nat} {guess : Option FdType}

theorem writtenFd? (h : s.Writes cpu tid number guess) :
    (s.thread? tid).bind Traffic.writtenFd? = some number := by
  obtain ⟨call, rq, t, hcall, hwrite, hrq, hbody, hfd, -⟩ := h.calls
  obtain ⟨thread, ht, hcall⟩ := Option.bind_eq_some_iff.1 hcall
  rw [ht, Option.bind_some, Traffic.writtenFd?, hcall]
  simp [hwrite, hrq, hbody, IoBody.fd?, hfd]

theorem knows (h : s.Writes cpu tid number guess) : s.Knows tid := by
  obtain ⟨call, -, -, hcall, -⟩ := h.calls
  obtain ⟨thread, ht, -⟩ := Option.bind_eq_some_iff.1 hcall
  exact ⟨thread, ht⟩

/-- What interfaces have sent has no part in it. -/
theorem updateIface (h : s.Writes cpu tid number guess) (name : String) (f : Iface → Iface) :
    (s.updateIface name f).Writes cpu tid number guess := ⟨h.running, h.calls, h.missing⟩

/-- Nothing but the request is changed where the descriptor is not in the table. -/
theorem guessFor_eq (h : s.Writes cpu tid number guess) :
    Traffic.guessFor tid s = s.adjustRequest tid Traffic.guessSocket := by
  unfold Traffic.guessFor
  rw [h.writtenFd?]
  dsimp only
  rw [h.missing, if_neg (by simp)]

theorem guessFor (h : s.Writes cpu tid number guess) :
    (Traffic.guessFor tid s).Writes cpu tid number (some .maybeNet) := by
  obtain ⟨call, rq, t, hcall, hwrite, hrq, hbody, hfd, -⟩ := h.calls
  rw [h.guessFor_eq]
  have hkept : (s.adjustRequest tid Traffic.guessSocket).fds (s.fdOwner tid) =
      s.fds (s.fdOwner tid) :=
    State.fds_of_tablesKept (tablesKept_adjustRequest tid Traffic.guessSocket s) _
  refine ⟨h.running, ⟨{ call with request := call.request.map Traffic.guessSocket },
    Traffic.guessSocket rq, { t with guess := some .maybeNet }, ?_, hwrite, ?_, ?_, hfd, rfl⟩, ?_⟩
  · have hcall' := s.call?_adjustThread tid tid
      (Option.map fun c => { c with request := c.request.map Traffic.guessSocket }) rfl
    rw [if_pos rfl, hcall] at hcall'
    exact hcall'
  · rw [hrq]
    rfl
  · rw [Traffic.guessSocket, hbody]
  · rw [State.fdOwner_adjustRequest, State.ownFd?, hkept]
    exact h.missing

/-- There is nothing to take off a request that keeps no guess. -/
theorem placeGuess_none (h : s.Writes cpu tid number none) :
    s.placeGuess tid number none = s.putFd (s.fdOwner tid) { number } := by
  obtain ⟨call, rq, t, hcall, -, hrq, hbody, -, hguess⟩ := h.calls
  obtain ⟨thread, ht, hcall⟩ := Option.bind_eq_some_iff.1 hcall
  have hsame : rq.withoutGuess = rq := by
    obtain ⟨tid, syscall, begun, ended, duration, errno, allocated, freed, written, woke, body⟩ := rq
    obtain ⟨operation, fd, source, target, size, returned, guess⟩ := t
    cases hbody
    cases hguess
    rfl
  have hthread : thread.mapRequest IoRequest.withoutGuess = thread := by
    obtain ⟨tid, pid, comm, prio, call', fds, prevTid, wakeup, waker, migrations, io⟩ := thread
    cases hcall
    obtain ⟨name, begun, ended, ret, duration, request⟩ := call
    cases hrq
    simp only [Thread.mapRequest, Option.map_some, hsame]
  rw [State.placeGuess, State.adjustRequest, State.adjustThread_eq_setThread ht, hthread,
    State.setThread_of_thread? ht]
  rfl

/-- A guess reaches the descriptor at once where it has been put into the table. -/
theorem guessFor_placeGuess (h : s.Writes cpu tid number guess)
    (hguess : guess = none ∨ guess = some .maybeNet) :
    Traffic.guessFor tid (s.placeGuess tid number guess) =
      (Traffic.guessFor tid s).placeGuess tid number (some .maybeNet) := by
  obtain ⟨call, rq, t, hcall, hwrite, hrq, hbody, hfd, -⟩ := h.calls
  obtain ⟨thread, ht, hcall⟩ := Option.bind_eq_some_iff.1 hcall
  have hwritten : ((s.placeGuess tid number guess).thread? tid).bind Traffic.writtenFd? =
      some number := by
    rw [State.thread?_placeGuess, ht, Option.map_some, Option.bind_some, Traffic.writtenFd?]
    simp [Thread.mapRequest, hcall, hwrite, hrq, hbody, IoRequest.withoutGuess, IoBody.fd?, hfd]
  have hthere : ((s.placeGuess tid number guess).ownFd? (s.fdOwner tid) number).isSome := by
    rw [State.ownFd?, State.fds_placeGuess h.knows, Table.get?_insert, if_pos rfl]
    rfl
  have hdirect : Traffic.guessFor tid (s.placeGuess tid number guess) =
      (s.placeGuess tid number guess).adjustFd (s.fdOwner tid) number
        (·.guessed (some .maybeNet)) := by
    unfold Traffic.guessFor
    rw [hwritten]
    dsimp only
    rw [State.fdOwner_placeGuess, if_pos hthere]
  rw [hdirect, h.guessFor_eq, State.placeGuess, State.placeGuess, State.fdOwner_adjustRequest,
    State.adjustRequest_adjustRequest]
  have hrequests : IoRequest.withoutGuess ∘ Traffic.guessSocket = IoRequest.withoutGuess :=
    funext IoRequest.withoutGuess_guessSocket
  rw [hrequests]
  refine (State.adjustFd_putFd _ _ _ ?_).trans ?_
  · rw [Fd.guessed_eq]
  · rw [Fd.guessed_eq]
    dsimp only
    rw [FdType.orGuess_maybeNet hguess]
    rfl

end State.Writes

/-! ## What a write leaves -/

/-- The transfer writes to one descriptor, and reads from none. -/
structure Transfer.WritesTo (t : Transfer) (number : Int) : Prop where
  operation : t.operation = .write
  fd : t.fd = some number
  source : t.source = none
  target : t.target = none

namespace Transfer.WritesTo

variable {t : Transfer} {number : Int} (h : t.WritesTo number)

include h

theorem numbers_eq : t.numbers = [number] := by
  rw [Transfer.numbers, h.fd, h.source, h.target]
  rfl

theorem readFrom_eq : t.readFrom = none := by rw [Transfer.readFrom, h.operation]

theorem writtenTo_eq : t.writtenTo = some number := by rw [Transfer.writtenTo, h.operation, h.fd]

/-- The descriptor is made if it has to be, takes the guess and counts the bytes. -/
theorem fdAfter_eq (n : Int) (fds : Table Int Fd) (k : Int) :
    (IoBody.transfer t).fdAfter n fds k =
      if k = number then some (((fdOrFresh fds number).guessed t.guess).countWrite n.toNat)
      else fds.get? k := by
  unfold IoBody.fdAfter
  dsimp only
  rw [h.numbers_eq]
  by_cases hk : k = number
  · rw [if_pos (List.mem_singleton.2 hk), if_pos hk, hk, Transfer.pass_eq, h.readFrom_eq,
      h.writtenTo_eq, if_pos rfl]
    rfl
  · rw [if_neg (mt List.mem_singleton.1 hk), if_neg hk]

theorem countsAfter_eq (n : Int) (fds : Table Int Fd) (io : IoCounts) :
    (IoBody.transfer t).countsAfter n fds io =
      io.addWrite ((fdOrFresh fds number).type.orGuess t.guess) n.toNat := by
  unfold IoBody.countsAfter Transfer.countsAfter
  dsimp only
  rw [h.readFrom_eq, h.writtenTo_eq, IoCounts.addWrite, Tally.add_eq_plus]

end Transfer.WritesTo

/-- A request that has no guess is as pending as one that has. -/
theorem IoRequest.Pending.withoutGuess {rq : IoRequest} {tid : Int} {call : Call}
    (h : rq.Pending tid call) : rq.withoutGuess.Pending tid call := by
  unfold IoRequest.withoutGuess
  split
  · rename_i t ht
    obtain ⟨kind, hkind, hbody⟩ := h.body
    rw [ht] at hbody
    refine ⟨⟨kind, hkind, ?_⟩, h.tid, h.syscall, h.begun, h.ended, h.duration, h.errno⟩
    cases kind <;> first
      | exact hbody.elim
      | exact ⟨hbody.1, hbody.2.1, hbody.2.2.1, hbody.2.2.2.1, rfl⟩
      | exact ⟨hbody.1, hbody.2.1, hbody.2.2.1, rfl⟩
      | exact ⟨hbody.1, hbody.2.1, hbody.2.2.1, hbody.2.2.2.1, Or.inl rfl⟩
  · exact h

theorem State.CallsSound.placeGuess {s : State} (h : s.CallsSound) (tid number : Int)
    (guess : Option FdType) : (s.placeGuess tid number guess).CallsSound := by
  have hrequest := (callsTended_adjustRequest s tid (f := IoRequest.withoutGuess)
    fun _ _ _ => IoRequest.Pending.withoutGuess).2.2.1 h
  refine (callsTended_of_callsKept (callsKept_adjustThread _ (fun _ => ?_) _)).2.2.1 hrequest
  rfl

theorem State.afterExit_adjustRequest (s : State) (tid owner : Int) (f : IoRequest → IoRequest)
    (fds : Table Int Fd) (count : IoCounts → IoCounts) :
    (s.adjustRequest tid f).afterExit tid owner fds count = s.afterExit tid owner fds count := by
  unfold State.afterExit State.adjustRequest State.adjustThread
  congr 1
  refine Table.ext_get? fun k => ?_
  rw [Table.get?_map, Table.get?_map, Table.get?_adjust]
  by_cases hk : k = tid <;> cases s.threads.get? k <;> simp [hk, Thread.mapRequest]

theorem State.afterExit_putFd (s : State) (tid owner : Int) (fd : Fd) (fds : Table Int Fd)
    (count : IoCounts → IoCounts) :
    (s.putFd owner fd).afterExit tid owner fds count = s.afterExit tid owner fds count := by
  unfold State.afterExit State.putFd State.adjustThread
  congr 1
  refine Table.ext_get? fun k => ?_
  rw [Table.get?_map, Table.get?_map, Table.get?_adjust]
  by_cases hk : k = owner <;> cases s.threads.get? k <;> simp [hk]

/-! ## The end of the syscall -/

/-- The state after a thread has left a write that moved bytes to a descriptor of a type, which was not
in the table. -/
def State.afterWrite (s : State) (tid number : Int) (type : FdType) (bytes : Nat) : State :=
  s.afterExit tid (s.fdOwner tid)
    ((s.fds (s.fdOwner tid)).insert number (({ number, type } : Fd).countWrite bytes))
    (·.addWrite type bytes)

section Exit

variable {x : Event} {s : State} {cpu : Nat} {tid number n : Int} {guess : Option FdType}
  (hx : x.cpu? = some cpu) (hret : x.int? "ret" = some n) (hn : 0 ≤ n)

include hx hret hn

/-- The exit of a write that succeeded, unless the time that it took is out of range. -/
theorem Syscalls.exits_write {call : Call} {rq : IoRequest} {t : Transfer} (hs : s.CallsSound)
    (hr : s.running? cpu = some tid) (hcall : s.call? tid = some call)
    (hrq : call.request = some rq) (hbody : rq.body = .transfer t) (ht : t.WritesTo number) :
    ((Syscalls.exit x >>= fun _ => IoRequests.exit x) s).map (·.state) =
      (checkedSub x.time call.begun).map fun _ => s.afterExit tid (s.fdOwner tid)
        ((s.fds (s.fdOwner tid)).insert number
          (((fdOrFresh (s.fds (s.fdOwner tid)) number).guessed t.guess).countWrite n.toNat))
        (·.addWrite ((fdOrFresh (s.fds (s.fdOwner tid)) number).type.orGuess t.guess) n.toNat) := by
  obtain ⟨thread, hthread, hthreadcall⟩ := Option.bind_eq_some_iff.1 hcall
  have hact : x.actor? s.running? = some tid := Option.bind_eq_some_iff.2 ⟨cpu, hx, hr⟩
  by_cases hfits : FitsSigned (x.time - call.begun)
  · have hp := (hs.pending tid call hcall).request rq hrq
    obtain ⟨o, ho, -⟩ := Syscalls.exits_succeed (e := x) (s := s)
      (fun tid' call' hact' hcall' => by
        obtain rfl := Option.some.inj (hact.symm.trans hact')
        obtain rfl := Option.some.inj (hcall.symm.trans hcall')
        exact ⟨_, Call.finish_eq_ok_iff.2 ⟨hfits, rfl⟩⟩)
      (fun tid' call' rq' hact' hcall' hrq' => by
        obtain rfl := Option.some.inj (hact.symm.trans hact')
        obtain rfl := Option.some.inj (hcall.symm.trans hcall')
        obtain rfl := Option.some.inj (hrq.symm.trans hrq')
        refine IoRequest.finish_succeeds (hp.begun.symm ▸ hfits) fun ret hret' => ?_
        obtain rfl := Option.some.inj (hret.symm.trans hret')
        have hsigned := Event.fitsSigned_int? hret
        unfold FitsSigned at hsigned ⊢
        omega)
    obtain ⟨fds, hfds, hstate⟩ := exits_settle hs hact hcall ho hrq hret (Or.inl hn)
    rw [hbody, State.fds_withoutCall] at hfds hstate
    have htable : fds = (s.fds (s.fdOwner tid)).insert number
        (((fdOrFresh (s.fds (s.fdOwner tid)) number).guessed t.guess).countWrite n.toNat) := by
      refine Table.ext_get? fun k => ?_
      rw [hfds, ht.fdAfter_eq, Table.get?_insert]
    have hcounts := funext (ht.countsAfter_eq n (s.fds (s.fdOwner tid)))
    rw [ho, checkedSub_eq_ok_iff.2 ⟨hfits, rfl⟩, Except.map, Except.map, hstate, htable, hcounts,
      State.rework_withoutCall]
  · have hover : checkedSub x.time call.begun = .error .subtract := if_neg hfits
    have hfinish : call.finish x.time (x.int? "ret") = .error .subtract := by
      rw [Call.finish, hover]
      rfl
    have hleave : (Syscalls.exit x >>= fun _ => IoRequests.exit x) s = .error .subtract := by
      refine bind_eq_error_iff.2 (Or.inl ?_)
      rw [exit_run hx hr hthread hthreadcall, leave, hfinish]
      rfl
    rw [hleave, hover]
    rfl

/-- The exit finds the guess where it waits and where it has been put alike. -/
theorem State.Writes.exits (hs : s.CallsSound) (h : s.Writes cpu tid number guess) :
    ∃ call, s.call? tid = some call ∧
      ((Syscalls.exit x >>= fun _ => IoRequests.exit x) s).map (·.state) =
        (checkedSub x.time call.begun).map (fun _ =>
          s.afterWrite tid number (FdType.unknown.orGuess guess) n.toNat) ∧
      ((Syscalls.exit x >>= fun _ => IoRequests.exit x) (s.placeGuess tid number guess)).map
        (·.state) = (checkedSub x.time call.begun).map (fun _ =>
          s.afterWrite tid number (FdType.unknown.orGuess guess) n.toNat) := by
  obtain ⟨call, rq, t, hcall, hwrite, hrq, hbody, hfd, rfl⟩ := h.calls
  have ht : t.WritesTo number := by
    obtain ⟨kind, hkind, hpending⟩ := ((hs.pending tid call hcall).request rq hrq).body
    obtain rfl : SyscallClass.write = kind := Option.some.inj (hwrite.symm.trans hkind)
    rw [hbody] at hpending
    exact ⟨hpending.1, hfd, hpending.2.1, hpending.2.2.1⟩
  have hfresh : fdOrFresh (s.fds (s.fdOwner tid)) number = { number } := by
    have hmissing : (s.fds (s.fdOwner tid)).get? number = none := h.missing
    rw [fdOrFresh, hmissing]
    rfl
  refine ⟨call, hcall, ?_, ?_⟩
  · rw [Syscalls.exits_write hx hret hn hs h.running hcall hrq hbody ht, hfresh, Fd.guessed_eq]
    rfl
  · have hrq' : call.request.map IoRequest.withoutGuess = some rq.withoutGuess := by
      rw [hrq, Option.map_some]
    have hbody' : rq.withoutGuess.body = .transfer { t with guess := none } := by
      rw [IoRequest.withoutGuess, hbody]
    have ht' : Transfer.WritesTo { t with guess := none } number :=
      ⟨ht.operation, ht.fd, ht.source, ht.target⟩
    have hplaced := Syscalls.exits_write hx hret hn (hs.placeGuess tid number t.guess) h.running
      (State.call?_placeGuess hcall) hrq' hbody' ht'
    have hthere : fdOrFresh ((s.fds (s.fdOwner tid)).insert number
        { number, type := FdType.unknown.orGuess t.guess }) number =
          { number, type := FdType.unknown.orGuess t.guess } := by
      rw [fdOrFresh, Table.get?_insert, if_pos rfl]
      rfl
    rw [hplaced, State.fdOwner_placeGuess, State.fds_placeGuess h.knows, hthere, Fd.guessed_eq,
      FdType.orGuess_none, Table.insert_insert, State.placeGuess, State.afterExit_putFd,
      State.afterExit_adjustRequest]
    rfl

end Exit

/-! ## Packets -/

/-- A packet leaves through an interface that is named, while a CPU runs. -/
structure Event.Transmits (e : Event) (cpu : Nat) : Prop where
  kind : e.kind? = some .netTransmit
  cpu : e.cpu? = some cpu
  iface : (e.text? "name").isSome

theorem Traffic.transmit_run {e : Event} {cpu : Nat} (h : e.Transmits cpu) (tid : Int) :
    ∃ name signals, ∀ s : State, s.running? cpu = some tid →
      transmit e s =
        .ok ⟨(), guessFor tid (s.updateIface name (·.send (bytes e))), signals⟩ := by
  obtain ⟨name, hname⟩ := Option.isSome_iff_exists.1 h.iface
  refine ⟨name, [.notification (.transmit name (bytes e) e.cpu?)], fun s hr => ?_⟩
  unfold transmit
  have hrunning : (e.cpu?.bind (s.updateIface name (·.send (bytes e))).running?) = some tid := by
    rw [h.cpu]
    exact hr
  rw [hname, whenSome_some, modify_bind_run, bind_run, notify_run]
  dsimp only
  rw [get_bind_run, hrunning, whenSome_some, modify_run]
  rfl

namespace Replay

variable {r : Replay} {remaps : List Remap} {e : Event} {cpu : Nat} {tid number : Int}
  {guess : Option FdType}

/-- A packet that leaves while a thread writes may give the thread a guess. -/
theorem process_transmit (hr : r.subsystems = Subsystem.standardWith remaps)
    (h : e.Transmits cpu) (tid : Int) : ∃ name signals, ∀ s : State, s.running? cpu = some tid →
      ({ r with state := s } : Replay).process e = (checkedSucc r.processed).map fun processed =>
        { replay :=
            { state := Traffic.guessFor tid (s.updateIface name (·.send (Traffic.bytes e)))
              subsystems := r.subsystems
              processed }
          signals } := by
  obtain ⟨name, signals, hrun⟩ := Traffic.transmit_run h tid
  refine ⟨name, signals, fun s hs => ?_⟩
  rw [process_of_update (r := { r with state := s }) hr h.kind (Subsystem.effect_netTransmit e remaps),
    hrun s hs]
  rfl

theorem process_exit (hr : r.subsystems = Subsystem.standardWith remaps)
    (hk : e.kind? = some .syscallExit) (s : State) :
    (({ r with state := s } : Replay).process e).map (·.replay) =
      (((Syscalls.exit e >>= fun _ => IoRequests.exit e) s).map (·.state)).bind fun s =>
        (checkedSucc r.processed).map fun processed =>
          { state := s, subsystems := r.subsystems, processed } := by
  rw [process_of_update (r := { r with state := s }) hr hk (Subsystem.effect_syscallExit e remaps)]
  cases (Syscalls.exit e >>= fun _ => IoRequests.exit e) s with
  | error f => rfl
  | ok o => cases checkedSucc r.processed <;> rfl

end Replay

/-! ## Runs -/

/-- The second state comes of the first one by a write of a thread, which made the descriptor that it
wrote to in the table that the thread uses. -/
structure State.Wrote (s s' : State) (tid number : Int) (type : FdType) (bytes : Nat) : Prop where
  descriptor : s'.ownFd? (s.fdOwner tid) number = some (({ number, type } : Fd).countWrite bytes)
  thread : (s'.thread? tid).map (·.io) = (s.thread? tid).map fun t => t.io.addWrite type bytes

theorem State.wrote_afterWrite {s : State} {tid : Int} (h : s.Knows tid) (number : Int)
    (type : FdType) (bytes : Nat) :
    s.Wrote (s.afterWrite tid number type bytes) tid number type bytes := by
  obtain ⟨owner, ho⟩ := s.knows_fdOwner h
  constructor
  · rw [State.ownFd?, State.fds, State.afterWrite, State.thread?_afterExit, ho]
    simp
  · rw [State.afterWrite, State.thread?_afterExit]
    cases s.thread? tid <;> simp

/-- A guess that waits is no part of what a write makes. -/
theorem State.Writes.wrote_of_guessFor {s s' : State} {cpu : Nat} {tid number : Int}
    {guess : Option FdType} {type : FdType} {bytes : Nat} (h : s.Writes cpu tid number guess)
    (hw : (Traffic.guessFor tid s).Wrote s' tid number type bytes) :
    s.Wrote s' tid number type bytes := by
  obtain ⟨hdescriptor, hthread⟩ := hw
  rw [h.guessFor_eq] at hdescriptor hthread
  refine ⟨by rwa [State.fdOwner_adjustRequest] at hdescriptor, hthread.trans ?_⟩
  rw [State.thread?_adjustRequest, Option.map_map]
  cases s.thread? tid <;> simp [Thread.mapRequest]

namespace Run

variable {settings : Settings} {history : List Step} {r : Replay} {packets : List Event} {x : Event}
  {cpu : Nat} {tid number n : Int} {guess : Option FdType}

section Write

variable (hpackets : ∀ e ∈ packets, e.Transmits cpu) (hk : x.kind? = some .syscallExit)
  (hx : x.cpu? = some cpu) (hret : x.int? "ret" = some n) (hn : 0 ≤ n)

include hk hx hret hn

theorem exit_of_writes (h : Run settings history r) (hw : r.state.Writes cpu tid number guess) :
    ((r.alter (State.placeGuess tid number guess)).process x).map (·.replay) =
        (r.process x).map (·.replay) ∧
      ∀ p, r.process x = .ok p →
        r.state.Wrote p.replay.state tid number (FdType.unknown.orGuess guess) n.toNat := by
  obtain ⟨remaps, hr⟩ := h.subsystems
  obtain ⟨call, -, hwaits, hplaced⟩ := hw.exits hx hret hn h.callsSound
  have hexit := Replay.process_exit hr hk r.state
  refine ⟨?_, fun p hp => ?_⟩
  · refine (Replay.process_exit hr hk _).trans ?_
    rw [hplaced, ← hwaits]
    exact hexit.symm
  · have hreplay : (r.process x).map (·.replay) = .ok p.replay := by rw [hp]; rfl
    rw [hwaits] at hexit
    have hok := hexit.symm.trans hreplay
    cases hsub : checkedSub x.time call.begun with
    | error f =>
      rw [hsub] at hok
      cases hok
    | ok d =>
      cases hsucc : checkedSucc r.processed with
      | error f =>
        rw [hsub, hsucc] at hok
        cases hok
      | ok processed =>
        rw [hsub, hsucc] at hok
        rw [← Except.ok.inj hok]
        exact State.wrote_afterWrite hw.knows ..

include hpackets

/-- The induction is on the packets, of which the first gives a guess and all others give the same. -/
theorem run_of_writes (h : Run settings history r) (hw : r.state.Writes cpu tid number guess)
    (hguess : guess = none ∨ guess = some .maybeNet) :
    ((r.alter (State.placeGuess tid number guess)).run (packets ++ [x])).map (·.replay) =
        (r.run (packets ++ [x])).map (·.replay) ∧
      ∀ p, r.run (packets ++ [x]) = .ok p → r.state.Wrote p.replay.state tid number
        (FdType.unknown.orGuess (if packets = [] then guess else some .maybeNet)) n.toNat := by
  induction packets generalizing history r guess with
  | nil =>
    rw [List.nil_append, Replay.run_singleton, Replay.run_singleton]
    exact h.exit_of_writes hk hx hret hn hw
  | cons e rest ih =>
    obtain ⟨he, hrest⟩ := List.forall_mem_cons.1 hpackets
    obtain ⟨remaps, hr⟩ := h.subsystems
    obtain ⟨name, signals, hprocess⟩ := Replay.process_transmit hr he tid
    have hwaits : r.process e = _ := hprocess r.state hw.running
    have hplaced : (r.alter (State.placeGuess tid number guess)).process e = _ :=
      hprocess (r.state.placeGuess tid number guess) hw.running
    rw [List.cons_append]
    cases hcount : checkedSucc r.processed with
    | error f =>
      rw [hcount] at hwaits hplaced
      refine ⟨?_, fun p hp => ?_⟩
      · rw [Replay.run_cons_replay, Replay.run_cons_replay, hwaits, hplaced]
        rfl
      · obtain ⟨first, -, hfirst, -⟩ := Replay.run_cons_eq_ok_iff.1 hp
        rw [hwaits] at hfirst
        cases hfirst
    | ok processed =>
      rw [hcount] at hwaits hplaced
      have hnext := hw.updateIface name (·.send (Traffic.bytes e))
      rw [State.updateIface_placeGuess, hnext.guessFor_placeGuess hguess] at hplaced
      obtain ⟨hsame, hwrote⟩ := ih hrest (h.next hwaits) hnext.guessFor (Or.inr rfl)
      rw [ite_self] at hwrote
      refine ⟨?_, fun p hp => ?_⟩
      · rw [Replay.run_cons_replay, Replay.run_cons_replay, hwaits, hplaced]
        exact hsame
      · obtain ⟨first, last, hfirst, hlast, rfl⟩ := Replay.run_cons_eq_ok_iff.1 hp
        obtain rfl := Except.ok.inj (hwaits.symm.trans hfirst)
        rw [if_neg (List.cons_ne_nil e rest)]
        have hwritten := hnext.wrote_of_guessFor (hwrote last hlast)
        exact ⟨hwritten.descriptor, hwritten.thread⟩

/-- A guess that waits with a request comes to what the guess does to a descriptor that is there: it
does not matter whether the descriptor that a thread writes to is found in the table or made at the end
of the write. It is a socket if a packet left in between, and of unknown type if none did. -/
theorem deferred_guess (h : Run settings history r) (hw : r.state.Writes cpu tid number none) :
    ((r.alter (·.putFd (r.state.fdOwner tid) { number })).run (packets ++ [x])).map (·.replay) =
        (r.run (packets ++ [x])).map (·.replay) ∧
      ∀ p, r.run (packets ++ [x]) = .ok p →
        p.replay.state.ownFd? (r.state.fdOwner tid) number = some
          (if packets = [] then
            { number, io := { write := { total := n.toNat, other := n.toNat } } }
          else
            { number, type := .maybeNet, io := { write := { total := n.toNat, net := n.toNat } } }) ∧
        (p.replay.state.thread? tid).map (·.io) = (r.state.thread? tid).map fun t =>
          t.io.addWrite (if packets = [] then .unknown else .maybeNet) n.toNat := by
  obtain ⟨hsame, hwrote⟩ := h.run_of_writes hpackets hk hx hret hn hw (Or.inl rfl)
  have hput : r.alter (State.placeGuess tid number none) =
      r.alter (·.putFd (r.state.fdOwner tid) { number }) := by
    rw [Replay.alter, hw.placeGuess_none]
    rfl
  have hfits : n.toNat ≤ maxWord := by
    have hsigned := Event.fitsSigned_int? hret
    unfold FitsSigned at hsigned
    unfold maxWord
    omega
  have hcounted : saturatingAdd 0 n.toNat = n.toNat := by
    rw [saturatingAdd_comm, saturatingAdd_zero hfits]
  refine ⟨hput ▸ hsame, fun p hp => ?_⟩
  obtain ⟨hdescriptor, hthread⟩ := hwrote p hp
  by_cases hnone : packets = []
  · rw [if_pos hnone] at hdescriptor hthread
    rw [if_pos hnone, if_pos hnone]
    refine ⟨hdescriptor.trans ?_, hthread⟩
    simp [FdType.orGuess, Fd.countWrite, IoCounts.addWrite, Tally.add, hcounted]
  · rw [if_neg hnone] at hdescriptor hthread
    rw [if_neg hnone, if_neg hnone]
    refine ⟨hdescriptor.trans ?_, hthread⟩
    simp [FdType.orGuess, Fd.countWrite, IoCounts.addWrite, Tally.add, hcounted]

end Write

/-- A thread of another's group writes to a descriptor that was never seen. -/
def unseenWrite : List Event :=
  [.recorded 0 10 "sched_switch" [("prev_tid", .signed 0), ("next_tid", .signed 7)],
   .recorded 0 20 "lttng_statedump_process_state" [("tid", .signed 7), ("pid", .signed 5)],
   .recorded 0 30 "syscall_entry_write" [("fd", .signed 9), ("count", .unsigned 100)]]

/-- The packets that leave meanwhile. -/
def unseenPackets : List Event :=
  [.recorded 0 40 "net_dev_xmit" [("name", .text "eth0"), ("len", .unsigned 60)],
   .recorded 0 50 "net_dev_xmit" [("name", .text "eth0"), ("len", .unsigned 40)]]

def unseenWriteEnd : Event := .recorded 0 60 "syscall_exit_write" [("ret", .signed 100)]

/-- The leader's table has a socket in the end, whether or not it had the descriptor before. -/
theorem deferred_guess_unseenWrite : ∃ history r p p', Run {} history r ∧
    r.run (unseenPackets ++ [unseenWriteEnd]) = .ok p ∧
    (r.alter (·.putFd 5 { number := 9 })).run (unseenPackets ++ [unseenWriteEnd]) = .ok p' ∧
    r.state.ownFd? 5 9 = none ∧ p'.replay = p.replay ∧
    p.replay.state.ownFd? 5 9 =
      some { number := 9, type := .maybeNet, io := { write := { total := 100, net := 100 } } } ∧
    (p.replay.state.thread? 7).map (·.io) = some { write := { total := 100, net := 100 } } := by
  have hshows : Replay.showsSteps {} unseenWrite (fun _ r =>
      r.state.running? 0 = some 7 ∧ r.state.fdOwner 7 = 5 ∧ r.state.ownFd? 5 9 = none ∧
      (r.state.call? 7).map (·.name) = some "write" ∧
      ((r.state.call? 7).bind (·.request)).map (·.body) =
        some (.transfer { operation := .write, fd := some 9, size := some 100 }) ∧
      (r.state.thread? 7).map (·.io) = some {} ∧
      (r.run (unseenPackets ++ [unseenWriteEnd])).toBool) = true := by
    decide +kernel
  obtain ⟨history, r, h, htest⟩ := Run.of_showsSteps hshows
  obtain ⟨hrunning, howner, hmissing, hname, hbody, hthread, hruns⟩ := of_decide_eq_true htest
  obtain ⟨call, rq, hcall, hrq, hbody⟩ := State.exists_request hbody
  have hwrite : SyscallClass.ofName? call.name = some .write := by
    rw [hcall] at hname
    have hname : call.name = "write" := Option.some.inj hname
    rw [hname]
    decide +kernel
  have hw : r.state.Writes 0 7 9 none :=
    ⟨hrunning, ⟨call, rq, _, hcall, hwrite, hrq, hbody, rfl, rfl⟩, by rw [howner]; exact hmissing⟩
  have hpackets : ∀ e ∈ unseenPackets, e.Transmits 0 := by
    intro e he
    rcases List.mem_cons.1 he with rfl | he
    · exact ⟨by decide +kernel, by decide +kernel, by decide +kernel⟩
    · rw [List.mem_singleton.1 he]
      exact ⟨by decide +kernel, by decide +kernel, by decide +kernel⟩
  have hend : unseenWriteEnd.kind? = some .syscallExit := by decide +kernel
  have hret : unseenWriteEnd.int? "ret" = some 100 := by decide +kernel
  obtain ⟨hsame, hwrote⟩ :=
    deferred_guess hpackets hend (by decide +kernel) hret (by decide) h hw
  rw [howner] at hsame hwrote
  cases hp : r.run (unseenPackets ++ [unseenWriteEnd]) with
  | error f =>
    rw [hp] at hruns
    cases hruns
  | ok p =>
    obtain ⟨hdescriptor, hio⟩ := hwrote p hp
    rw [hp] at hsame
    cases hp' : (r.alter (·.putFd 5 { number := 9 })).run (unseenPackets ++ [unseenWriteEnd]) with
    | error f =>
      rw [hp'] at hsame
      cases hsame
    | ok p' =>
      rw [hp'] at hsame
      refine ⟨history, r, p, p', h, hp, hp', hmissing, Except.ok.inj hsame, hdescriptor, ?_⟩
      obtain ⟨thread, ht, hzero⟩ := Option.map_eq_some_iff.1 hthread
      rw [hio, ht, Option.map_some, hzero]
      decide

end Run

end KernelReplay
