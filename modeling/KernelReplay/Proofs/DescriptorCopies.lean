import KernelReplay.Proofs.FailedCalls

/-
  Copies of descriptors. A call that makes one attaches at its entry what the copy is of, as the table
  of its thread has it before the number chosen for the copy is freed (`IoRequests.entry_request`), and
  makes it at its exit, where it is told unless the number is taken (`Syscalls.exits_tell_opening`). So a
  call that succeeded, its entry and its exit next to each other, puts a copy under the number that it
  returns and does nothing else to tables and counts (`Run.copies_made`).
-/

namespace KernelReplay

open Law Update

/-! ## What is asked for -/

/-- A call asks for a copy of a descriptor under a number that it chooses. -/
inductive Event.AsksCopyAt (e : Event) : Int → Int → Bool → Prop
  | dup2 {source target : Int} (name : syscallName e.name = "dup2")
    (copied : e.int? "oldfd" = some source) (chosen : e.int? "newfd" = some target) :
    AsksCopyAt e source target false
  | dup3 {source target : Int} (name : syscallName e.name = "dup3")
    (copied : e.int? "oldfd" = some source) (chosen : e.int? "newfd" = some target) :
    AsksCopyAt e source target ((e.int? "flags").any hasCloexec)

/-- A call asks for a copy of a descriptor under any number that is free. -/
inductive Event.AsksCopy (e : Event) : Int → Bool → Prop
  | dup {source : Int} (name : syscallName e.name = "dup")
    (copied : e.int? "fildes" = some source) : AsksCopy e source false
  | fcntl {source : Int} (name : syscallName e.name = "fcntl") (command : e.int? "cmd" = some 0)
    (copied : e.int? "fd" = some source) : AsksCopy e source false
  | fcntlCloexec {source : Int} (name : syscallName e.name = "fcntl")
    (command : e.int? "cmd" = some 1030) (copied : e.int? "fd" = some source) :
    AsksCopy e source true

namespace IoRequests

variable {e : Event} {source target : Int} {cloexec : Bool}

theorem dupArguments?_of_asksCopyAt (h : e.AsksCopyAt source target cloexec) :
    dupArguments? e (syscallName e.name) = some { source, target := some target, cloexec } := by
  cases h with
  | dup2 name copied chosen =>
    rw [name]
    dsimp only [dupArguments?]
    rw [copied, chosen]
    rfl
  | dup3 name copied chosen =>
    rw [name]
    dsimp only [dupArguments?]
    rw [copied, chosen]
    rfl

theorem dupArguments?_of_asksCopy (h : e.AsksCopy source cloexec) :
    dupArguments? e (syscallName e.name) = some { source, cloexec } := by
  cases h with
  | dup name copied =>
    rw [name]
    dsimp only [dupArguments?]
    rw [copied]
    rfl
  | fcntl name command copied =>
    rw [name]
    dsimp only [dupArguments?]
    rw [command, copied]
    rfl
  | fcntlCloexec name command copied =>
    rw [name]
    dsimp only [dupArguments?]
    rw [command, copied]
    rfl

/-- What asks for a copy is of the `dup` family. -/
theorem class_of_dupArguments? {args : DupArguments}
    (h : dupArguments? e (syscallName e.name) = some args) :
    SyscallClass.ofName? (syscallName e.name) = some .dup := by
  unfold dupArguments? at h
  split at h
  case h_5 => cases h
  all_goals
    rename_i hname
    rw [hname]
    decide

end IoRequests

/-- The copy of a descriptor under a number. Nothing is counted for it yet. -/
def Fd.copy (source : Option Fd) (number : Int) (cloexec : Bool) : Fd :=
  { number
    filename := (source.map (·.filename)).getD "unknown"
    type := (source.map (·.type)).getD .unknown
    family := source.bind (·.family)
    cloexec }

theorem IoRequests.descriptor_copyRequest (source : Option Fd) (number : Int) (cloexec : Bool) :
    (copyRequest source cloexec).descriptor number = .copy source number cloexec := by
  cases source <;> rfl

/-! ## The entry -/

namespace IoRequests

variable {e : Event} {tid : Int} {s : State} {o : Outcome Unit} {args : DupArguments}

theorem attach_request {syscall : String} {body : IoBody} {call : Call}
    (hcall : s.call? tid = some call) (h : attach e tid syscall body s = .ok o) :
    (o.state.call? tid).bind (·.request) = some { tid, syscall, begun := e.time, body } := by
  have hcall' : (s.thread? tid).bind (·.call) = some call := hcall
  unfold attach at h
  rw [get_bind_run, hcall', if_pos (by rfl)] at h
  cases h
  rw [State.call?_adjustThread s tid tid (Option.map _) rfl, if_pos rfl, hcall]
  rfl

/-- The copy is one of what the table has before the number that is chosen is freed. -/
theorem enterDup_request {syscall : String} {call : Call} (hargs : dupArguments? e syscall = some args)
    (hcall : s.call? tid = some call) (h : enterDup e tid syscall s = .ok o) :
    o.state.fdOwner tid = s.fdOwner tid ∧ ∃ rq, (o.state.call? tid).bind (·.request) = some rq ∧
      rq.body = .opening (copyRequest ((s.fds (s.fdOwner tid)).get? args.source) args.cloexec) := by
  unfold enterDup at h
  rw [hargs, whenSome_some, get_bind_run] at h
  obtain ⟨o₁, o₂, h₁, h₂, rfl⟩ := bind_eq_ok_iff.1 h
  have hclosed : o₁.state.fdOwner tid = s.fdOwner tid ∧ o₁.state.call? tid = some call := by
    rcases whenSome_cases h₁ with ⟨-, rfl⟩ | ⟨number, -, hclose⟩
    · exact ⟨rfl, hcall⟩
    · have hkept := Descriptors.callsKept_close _ _ _ _ s o₁ hclose
      rw [State.call?_of_bare_eq hkept.2.1, Descriptors.close_rework tid hclose, State.fdOwner_rework]
      exact ⟨rfl, hcall⟩
  have hattached := attach_request hclosed.2 h₂
  exact ⟨(fdOwner_attach h₂ tid).trans hclosed.1, _, hattached, rfl⟩

/-- The entry of a call that makes a copy says what of, by the table that the thread uses by then. -/
theorem entry_request {call : Call} (hargs : dupArguments? e (syscallName e.name) = some args)
    (hact : e.actor? s.running? = some tid) (hcall : s.call? tid = some call)
    (h : entry e s = .ok o) :
    ∃ rq, (o.state.call? tid).bind (·.request) = some rq ∧ rq.body = .opening
      (copyRequest ((s.fds (o.state.fdOwner tid)).get? args.source) args.cloexec) := by
  have hact : e.cpu?.bind s.running? = some tid := hact
  unfold entry at h
  rw [class_of_dupArguments? hargs, whenSome_some, get_bind_run, hact, whenSome_some] at h
  obtain ⟨o₁, o₂, h₁, h₂, rfl⟩ := bind_eq_ok_iff.1 h
  rw [if_pos rfl] at h₂
  have hlearned := quiet_learnGroup e tid s o₁ h₁
  have hcall₁ : o₁.state.call? tid = some call := by
    rw [State.call?_of_bare_eq (State.bare_of_holdings_eq hlearned.2.1)]
    exact hcall
  obtain ⟨howner, rq, hrq, hbody⟩ := enterDup_request hargs hcall₁ h₂
  rw [State.fds_of_tablesKept (tablesKept_of_quiet hlearned), ← howner] at hbody
  exact ⟨rq, hrq, hbody⟩

end IoRequests

/-! ## The exit -/

theorem Descriptors.notices_ensure {s : State} {owner time : Int} {cpu : Option Nat} {fd : Fd}
    {o : Outcome Unit} (hs : s.Keyed) (h : ensure owner fd time cpu s = .ok o) :
    fdNotices o.signals =
      if fd.number ∈ s.fds owner then [] else [⟨.create, owner, fd.number⟩] := by
  cases hown : s.ownFd? owner fd.number with
  | some own =>
    rw [ensure_run_of_some (by rw [hown]; rfl)] at h
    cases h
    exact (if_pos (Table.mem_of_get? hown)).symm
  | none =>
    rw [ensure_run_of_none hown] at h
    cases h
    have htid : (withFd s owner fd).tid = owner := hs.tids owner
    rw [if_neg (Table.not_mem_of_get? hown)]
    show [FdNotice.mk .create (withFd s owner fd).tid fd.number] = _
    rw [htid]

/-- A descriptor that a request has opened is told, unless its number was taken. -/
theorem Syscalls.exits_tell_opening {e : Event} {s : State} {o : Outcome Unit} {tid n : Int}
    {rq : IoRequest} {request : OpenRequest} (hs : s.CallsSound) (hkeyed : s.Keyed)
    (h : (Syscalls.exit e >>= fun _ => IoRequests.exit e) s = .ok o)
    (hsuccess : e.Succeeds s tid rq n) (hbody : rq.body = .opening request) :
    fdNotices o.signals =
      if n ∈ s.fds (s.fdOwner tid) then [] else [⟨.create, s.fdOwner tid, n⟩] := by
  obtain ⟨cpu, o₁, o₂, happly, hclose, htold⟩ := exits_apply hs h hsuccess
  rw [hbody] at happly hclose
  cases hclose
  have happly : Descriptors.ensure (s.fdOwner tid) (request.descriptor n) e.time (some cpu)
      (s.withoutCall tid) = .ok o₁ := happly
  have hleft := hkeyed.of_tablesKept (s.tablesKept_withoutCall tid)
  rw [htold, Descriptors.notices_ensure hleft happly, State.fds_withoutCall]
  exact List.append_nil _

/-- A request that opens a descriptor puts it under the number it is given, unless that is taken, and
does nothing else. -/
theorem Syscalls.exits_open {e : Event} {s : State} {o : Outcome Unit} {tid n : Int}
    {rq : IoRequest} {request : OpenRequest} (hs : s.CallsSound)
    (h : (Syscalls.exit e >>= fun _ => IoRequests.exit e) s = .ok o)
    (hsuccess : e.Succeeds s tid rq n) (hbody : rq.body = .opening request) :
    (∀ k, o.state.fds k = if k = s.fdOwner tid then (s.fds k).insertNew n (request.descriptor n)
      else s.fds k) ∧ ∀ k, (o.state.holdings k).io = (s.holdings k).io := by
  obtain ⟨call, hcall, hrq⟩ := Option.bind_eq_some_iff.1 hsuccess.request
  obtain ⟨fds, hfds, hstate⟩ := exits_settle hs hsuccess.leaves.2 hcall h hrq hsuccess.ret
    hsuccess.succeeded
  rw [hbody] at hfds hstate
  obtain ⟨thread, ht, -⟩ := Option.bind_eq_some_iff.1 hcall
  have hknown : (s.withoutCall tid).Knows (s.fdOwner tid) :=
    State.knows_withoutCall (s.knows_fdOwner ⟨thread, ht⟩)
  have hnew : fds = (s.fds (s.fdOwner tid)).insertNew n (request.descriptor n) := by
    refine Table.ext_get? fun number => ?_
    rw [hfds, State.fds_withoutCall, Table.get?_insertNew]
    rfl
  have hcounts : ∀ table, (IoBody.opening request).countsAfter n table = id := fun _ => rfl
  rw [hcounts] at hstate
  refine ⟨fun k => ?_, fun k => ?_⟩
  · rw [hstate]
    split
    · rename_i hk
      rw [hk, State.fds_rework hknown, hnew]
    · rename_i hk
      rw [State.fds_rework_of_ne hk, State.fds_withoutCall]
  · rw [hstate, State.io_rework]
    exact State.io_of_atRest_eq (s.tablesKept_withoutCall tid).1 k

/-! ## Runs -/

/-- The table of an owner gets a copy of a descriptor of its own, or of one that is not known, under a
number; no other table changes, and no counts. -/
structure Copies (s s' : State) (owner source number : Int) (cloexec : Bool) : Prop where
  fds : ∀ k, s'.fds k = if k = owner then
    (s.fds k).insert number (.copy ((s.fds k).get? source) number cloexec) else s.fds k
  io : ∀ k, (s'.holdings k).io = (s.holdings k).io

/-- A thread makes a call, whose entry and exit are next to each other, on one CPU. -/
structure Replay.Calls (r : Replay) (e : Event) (p : Replay.Progress) (x : Event)
    (q : Replay.Progress) (tid : Int) : Prop where
  entered : r.process e = .ok p
  left : p.replay.process x = .ok q
  enters : e.Enters r.state.running? tid
  exit : x.kind? = some .syscallExit
  cpu : x.cpu? = e.cpu?

namespace Run

variable {settings : Settings} {history : List Step} {r : Replay} {e x : Event}
  {p q : Replay.Progress} {tid n source target : Int} {cloexec : Bool} {args : IoRequests.DupArguments}

theorem leaves_of_calls (h : Run settings history r) (hc : r.Calls e p x q tid) :
    x.Leaves p.replay.state.running? tid := by
  refine ⟨hc.exit, ?_⟩
  rw [Event.actor?, (h.in_call_of_enters hc.entered hc.enters).1, hc.cpu]
  exact hc.enters.2

/-- After the entry of a call that makes a copy, its request says what of. -/
theorem entry_request (h : Run settings history r) (hp : r.process e = .ok p)
    (henters : e.Enters r.state.running? tid)
    (hargs : IoRequests.dupArguments? e (syscallName e.name) = some args) :
    ∃ rq, (p.replay.state.call? tid).bind (·.request) = some rq ∧ rq.body = .opening
      (IoRequests.copyRequest ((r.state.fds (p.replay.state.fdOwner tid)).get? args.source)
        args.cloexec) := by
  obtain ⟨o, ho, hs, -⟩ := h.entry_run hp henters.1
  obtain ⟨o₁, o₂, h₁, h₂, rfl⟩ := bind_eq_ok_iff.1 ho
  obtain ⟨hrunning, -, hmarks⟩ := Syscalls.entry_marks h₁
  have hmark := (hmarks tid).trans (if_pos henters.2)
  obtain ⟨call, hcall, -⟩ := Option.map_eq_some_iff.1 hmark
  have hact : e.actor? o₁.state.running? = some tid := hrunning ▸ henters.2
  obtain ⟨rq, hrq, hbody⟩ := IoRequests.entry_request hargs hact hcall h₂
  rw [State.fds_of_tablesKept (Syscalls.tablesKept_entry e r.state o₁ h₁)] at hbody
  rw [hs]
  exact ⟨rq, hrq, hbody⟩

/-- The exit of a call that succeeded makes the copy under the number that it returns and tells it,
unless the number is taken. -/
theorem exit_copies (h : Run settings history r) (hc : r.Calls e p x q tid)
    (hargs : IoRequests.dupArguments? e (syscallName e.name) = some args)
    (hret : x.int? "ret" = some n) (hn : 0 ≤ n) :
    let owner := p.replay.state.fdOwner tid
    (∀ k, q.replay.state.fds k = if k = owner then (p.replay.state.fds k).insertNew n
      (.copy ((r.state.fds k).get? args.source) n args.cloexec) else p.replay.state.fds k) ∧
    (∀ k, (q.replay.state.holdings k).io = (p.replay.state.holdings k).io) ∧
    fdNotices q.signals =
      if n ∈ p.replay.state.fds owner then [] else [⟨.create, owner, n⟩] := by
  have hbetween := h.next hc.entered
  obtain ⟨rq, hrq, hbody⟩ := h.entry_request hc.entered hc.enters hargs
  have hsuccess : x.Succeeds p.replay.state tid rq n :=
    ⟨h.leaves_of_calls hc, hrq, hret, Or.inl hn⟩
  obtain ⟨o, ho, hs, hl⟩ := hbetween.exit_run hc.left hc.exit
  obtain ⟨hfds, hio⟩ := Syscalls.exits_open hbetween.callsSound ho hsuccess hbody
  rw [hs, hl]
  refine ⟨fun k => ?_, hio,
    Syscalls.exits_tell_opening hbetween.callsSound hbetween.keyed_view.1 ho hsuccess hbody⟩
  rw [hfds k]
  split
  · rename_i hk
    rw [hk, IoRequests.descriptor_copyRequest]
  · rfl

/-- A copy under a number that the call chooses takes the place of what was there. -/
theorem copies_at (h : Run settings history r) (hc : r.Calls e p x q tid)
    (hasks : e.AsksCopyAt source target cloexec) (hne : target ≠ source)
    (hret : x.int? "ret" = some target) (hsucceeded : 0 ≤ target) :
    let owner := p.replay.state.fdOwner tid
    Copies r.state q.replay.state owner source target cloexec ∧
    fdNotices p.signals = (if target ∈ r.state.fds owner then [⟨.close, owner, target⟩] else []) ∧
    fdNotices q.signals = [⟨.create, owner, target⟩] := by
  have hargs := IoRequests.dupArguments?_of_asksCopyAt hasks
  have htarget : e.dupTarget? = some target := by
    rw [← IoRequests.target_dupArguments?, hargs, Option.bind_some]
    simp [hne]
  obtain ⟨hfds, hio, htold⟩ := h.exit_copies hc hargs hret hsucceeded
  rcases h.entry_frees hc.entered hc.enters with ⟨hnone, -⟩ | ⟨number, hnumber, hfrees⟩
  · rw [htarget] at hnone
    cases hnone
  obtain rfl : target = number := Option.some.inj (htarget.symm.trans hnumber)
  have hfreed : target ∉ p.replay.state.fds (p.replay.state.fdOwner tid) := by
    rw [hfrees.fds, if_pos rfl, Table.mem_iff, Table.get?_erase_self]
    exact Bool.false_ne_true
  refine ⟨⟨fun k => ?_, fun k => (hio k).trans (hfrees.io k)⟩, hfrees.told, htold.trans (if_neg hfreed)⟩
  rw [hfds k]
  split
  · rename_i hk
    rw [hk, Table.insertNew, if_neg hfreed, hfrees.fds, if_pos rfl]
    exact Table.insert_erase _ _ _
  · rename_i hk
    rw [hfrees.fds, if_neg hk]

/-- A call that frees no number leaves the copying to its exit. -/
theorem entry_of_untargeted (h : Run settings history r) (hc : r.Calls e p x q tid)
    (htarget : e.dupTarget? = none) : tablesKept.rel r.state p.signals p.replay.state := by
  rcases h.entry_frees hc.entered hc.enters with ⟨-, hkept⟩ | ⟨number, hnumber, -⟩
  · exact hkept
  · rw [htarget] at hnumber
    cases hnumber

/-- A copy under any number that is free is added to what was there. -/
theorem copies_anywhere (h : Run settings history r) (hc : r.Calls e p x q tid)
    (hasks : e.AsksCopy source cloexec) (hret : x.int? "ret" = some n) (hsucceeded : 0 ≤ n)
    (hfree : n ∉ r.state.fds (p.replay.state.fdOwner tid)) :
    let owner := p.replay.state.fdOwner tid
    Copies r.state q.replay.state owner source n cloexec ∧
    fdNotices p.signals = [] ∧ fdNotices q.signals = [⟨.create, owner, n⟩] := by
  have hargs := IoRequests.dupArguments?_of_asksCopy hasks
  have htarget : e.dupTarget? = none := by
    rw [← IoRequests.target_dupArguments?, hargs]
    rfl
  have hkept := h.entry_of_untargeted hc htarget
  have hsame := State.fds_of_tablesKept hkept
  obtain ⟨hfds, hio, htold⟩ := h.exit_copies hc hargs hret hsucceeded
  rw [hsame, if_neg hfree] at htold
  refine ⟨⟨fun k => ?_, fun k => (hio k).trans (State.io_of_atRest_eq hkept.1 k)⟩,
    fdNotices_of_not_tellsTables hkept.2, htold⟩
  rw [hfds k, hsame]
  split
  · rename_i hk
    rw [hk, Table.insertNew, if_neg hfree]
  · rfl

/-- Nothing is done where a descriptor is to be copied onto itself, whatever the call returns. -/
theorem copies_onto_itself (h : Run settings history r) (hc : r.Calls e p x q tid)
    (hasks : e.AsksCopyAt source source cloexec) (hret : x.int? "ret" = some source)
    (hmem : source ∈ r.state.fds (p.replay.state.fdOwner tid)) :
    (∀ k, q.replay.state.fds k = r.state.fds k ∧
      (q.replay.state.holdings k).io = (r.state.holdings k).io) ∧
    fdNotices p.signals = [] ∧ fdNotices q.signals = [] := by
  have hargs := IoRequests.dupArguments?_of_asksCopyAt hasks
  have htarget : e.dupTarget? = none := by
    rw [← IoRequests.target_dupArguments?, hargs, Option.bind_some]
    simp
  have hkept := h.entry_of_untargeted hc htarget
  have hsame := State.fds_of_tablesKept hkept
  have hentered := fdNotices_of_not_tellsTables hkept.2
  by_cases hsucceeded : 0 ≤ source
  · obtain ⟨hfds, hio, htold⟩ := h.exit_copies hc hargs hret hsucceeded
    rw [hsame, if_pos hmem] at htold
    refine ⟨fun k => ⟨?_, (hio k).trans (State.io_of_atRest_eq hkept.1 k)⟩, hentered, htold⟩
    rw [hfds k, hsame]
    split
    · rename_i hk
      rw [hk, Table.insertNew, if_pos hmem]
    · rfl
  · obtain ⟨-, call, hcall, hname⟩ := h.in_call_of_enters hc.entered hc.enters
    have hleft : tablesKept.rel p.replay.state q.signals q.replay.state := by
      refine (h.next hc.entered).exit_of_failed hc.left (h.leaves_of_calls hc) hcall hret
        (Int.not_le.1 hsucceeded) fun _ => ?_
      rw [hname, IoRequests.class_of_dupArguments? hargs]
      decide
    refine ⟨fun k => ⟨?_, ?_⟩, hentered, fdNotices_of_not_tellsTables hleft.2⟩
    · rw [State.fds_of_tablesKept hleft, hsame]
    · rw [State.io_of_atRest_eq hleft.1, State.io_of_atRest_eq hkept.1]

/-- What a call that copies a descriptor does if it is successful. A negative result says that a call
failed, so a successful one has returned `0 ≤ target` where it chose `target`, and `0 ≤ n` where it did
not choose. The owner is the one whose table the thread uses once the entry has learned its group. A
copy under a number that the call chooses takes the place of what was there, which is told to go at the
entry; a copy under any number that is free is added; and either is told once, at the exit. Where a
descriptor is to be copied onto itself nothing is done. -/
theorem copies_made (h : Run settings history r) (hc : r.Calls e p x q tid) :
    let owner := p.replay.state.fdOwner tid
    (∀ source target cloexec, e.AsksCopyAt source target cloexec → target ≠ source →
      x.int? "ret" = some target → 0 ≤ target →
      Copies r.state q.replay.state owner source target cloexec ∧
      fdNotices p.signals =
        (if target ∈ r.state.fds owner then [⟨.close, owner, target⟩] else []) ∧
      fdNotices q.signals = [⟨.create, owner, target⟩]) ∧
    (∀ source cloexec, e.AsksCopyAt source source cloexec → x.int? "ret" = some source →
      source ∈ r.state.fds owner →
      (∀ k, q.replay.state.fds k = r.state.fds k ∧
        (q.replay.state.holdings k).io = (r.state.holdings k).io) ∧
      fdNotices p.signals = [] ∧ fdNotices q.signals = []) ∧
    ∀ source cloexec n, e.AsksCopy source cloexec → x.int? "ret" = some n → 0 ≤ n →
      n ∉ r.state.fds owner →
      Copies r.state q.replay.state owner source n cloexec ∧
      fdNotices p.signals = [] ∧ fdNotices q.signals = [⟨.create, owner, n⟩] :=
  ⟨fun _ _ _ hasks hne hret hn => h.copies_at hc hasks hne hret hn,
    fun _ _ hasks hret hmem => h.copies_onto_itself hc hasks hret hmem,
    fun _ _ _ hasks hret hn hfree => h.copies_anywhere hc hasks hret hn hfree⟩

/-- Whether a thread makes a call after events from the start, and what it finds is what a test
accepts. -/
def showsCall (events : List Event) (e x : Event) (tid : Int) (test : State → Int → Bool) : Bool :=
  Replay.showsPair {} events e x fun r p _ =>
    e.kind? = some .syscallEntry ∧ e.actor? r.state.running? = some tid ∧
      x.kind? = some .syscallExit ∧ x.cpu? = e.cpu? ∧ test r.state (p.replay.state.fdOwner tid)

theorem of_showsCall {events : List Event} {test : State → Int → Bool}
    (h : showsCall events e x tid test = true) :
    ∃ history r p q, Run {} history r ∧ r.Calls e p x q tid ∧
      test r.state (p.replay.state.fdOwner tid) = true := by
  obtain ⟨history, r, p, q, hr, hp, hq, htest⟩ := of_showsPair h
  obtain ⟨hentry, hact, hexit, hcpu, htest⟩ := of_decide_eq_true htest
  exact ⟨history, r, p, q, hr, ⟨hp, hq, ⟨hentry, hact⟩, hexit, hcpu⟩, htest⟩

/-- A file is copied to a place that is free, and marked to be closed when a program is executed. -/
def fcntlOfFile : Event :=
  .recorded 0 50 "syscall_entry_fcntl" [("fd", .signed 3), ("cmd", .unsigned 1030)]

/-- A file is copied onto itself. -/
def dupOntoItself : Event :=
  .recorded 0 50 "sys_dup3" [("oldfd", .signed 3), ("newfd", .signed 3)]

/-- In the table of its leader, a thread copies a descriptor that is not there to the place of a file,
the file onto itself, or the file to a place that is free. -/
theorem copies_made_openedForLeader :
    (∃ history r p q, Run {} history r ∧
      r.Calls dupOfMissing p (.recorded 0 60 "syscall_exit_dup2" [("ret", .signed 3)]) q 7 ∧
      q.replay.state.ownFd? 5 3 = some { number := 3, filename := "unknown" } ∧
      fdNotices p.signals = [⟨.close, 5, 3⟩] ∧ fdNotices q.signals = [⟨.create, 5, 3⟩]) ∧
    (∃ history r p q, Run {} history r ∧
      r.Calls dupOntoItself p (.recorded 0 60 "exit_syscall" [("ret", .signed 3)]) q 7 ∧
      3 ∈ r.state.fds 5 ∧ q.replay.state.fds 5 = r.state.fds 5 ∧
      fdNotices p.signals = [] ∧ fdNotices q.signals = []) ∧
    ∃ history r p q, Run {} history r ∧
      r.Calls fcntlOfFile p (.recorded 0 60 "syscall_exit_fcntl" [("ret", .signed 6)]) q 7 ∧
      q.replay.state.ownFd? 5 6 =
        some { number := 6, filename := "/etc/hosts", type := .disk, cloexec := true } ∧
      fdNotices p.signals = [] ∧ fdNotices q.signals = [⟨.create, 5, 6⟩] := by
  refine ⟨?_, ?_, ?_⟩
  · have hshows : showsCall openedForLeader dupOfMissing
        (.recorded 0 60 "syscall_exit_dup2" [("ret", .signed 3)]) 7 (fun s owner =>
          owner = 5 ∧ 3 ∈ s.fds 5 ∧ (s.fds 5).get? 9 = none) = true := by decide +kernel
    obtain ⟨history, r, p, q, h, hc, htest⟩ := of_showsCall hshows
    obtain ⟨howner, hmem, hnone⟩ := of_decide_eq_true htest
    have hasks : dupOfMissing.AsksCopyAt 9 3 false :=
      .dup2 (by decide +kernel) (by decide +kernel) (by decide +kernel)
    obtain ⟨hcopies, hclosed, hmade⟩ := (copies_made h hc).1 9 3 false hasks (by decide)
      (by decide +kernel) (by decide)
    rw [howner] at hcopies hclosed hmade
    refine ⟨history, r, p, q, h, hc, ?_, hclosed.trans (if_pos hmem), hmade⟩
    rw [State.ownFd?, hcopies.fds, if_pos rfl, Table.get?_insert_self, hnone]
    rfl
  · have hshows : showsCall openedForLeader dupOntoItself
        (.recorded 0 60 "exit_syscall" [("ret", .signed 3)]) 7 (fun s owner =>
          owner = 5 ∧ 3 ∈ s.fds 5) = true := by decide +kernel
    obtain ⟨history, r, p, q, h, hc, htest⟩ := of_showsCall hshows
    obtain ⟨howner, hmem⟩ := of_decide_eq_true htest
    have hasks : dupOntoItself.AsksCopyAt 3 3 false :=
      .dup3 (by decide +kernel) (by decide +kernel) (by decide +kernel)
    obtain ⟨hsame, huntold⟩ := (copies_made h hc).2.1 3 false hasks (by decide +kernel)
      (by rw [howner]; exact hmem)
    exact ⟨history, r, p, q, h, hc, hmem, (hsame 5).1, huntold⟩
  · have hshows : showsCall openedForLeader fcntlOfFile
        (.recorded 0 60 "syscall_exit_fcntl" [("ret", .signed 6)]) 7 (fun s owner =>
          owner = 5 ∧ 6 ∉ s.fds 5 ∧ (s.fds 5).get? 3 =
            some { number := 3, filename := "/etc/hosts", type := .disk }) = true := by
      decide +kernel
    obtain ⟨history, r, p, q, h, hc, htest⟩ := of_showsCall hshows
    obtain ⟨howner, hfree, hfile⟩ := of_decide_eq_true htest
    have hasks : fcntlOfFile.AsksCopy 3 true :=
      .fcntlCloexec (by decide +kernel) (by decide +kernel) (by decide +kernel)
    obtain ⟨hcopies, huntold, hmade⟩ := (copies_made h hc).2.2 3 true 6 hasks (by decide +kernel)
      (by decide) (by rw [howner]; exact hfree)
    rw [howner] at hcopies hmade
    refine ⟨history, r, p, q, h, hc, ?_, huntold, hmade⟩
    rw [State.ownFd?, hcopies.fds, if_pos rfl, Table.get?_insert_self, hfile]
    rfl

end Run

end KernelReplay
