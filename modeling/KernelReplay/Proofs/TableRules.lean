import KernelReplay.Proofs.EventReadings
import KernelReplay.Proofs.Frames
import KernelReplay.Proofs.Runs

/-
  What rules do to tables of descriptors, out of few parts. A descriptor is made, changes in place,
  is reported, goes, or moves with its whole table to the leader of its thread. A law that allows
  these (`TableLaw`) is obeyed by every rule that does nothing else to a table. A fork, which gives
  a new thread a whole table, and the counting of bytes are left to the laws that need them.
-/

namespace KernelReplay

open Law Update

namespace Descriptors

variable {s : State} {owner number time : Int} {cpu : Option Nat} {thread : Thread} {fd : Fd}

theorem ownFd?_eq_some_iff : s.ownFd? owner number = some fd ↔
    ∃ thread, s.thread? owner = some thread ∧ thread.fds.get? number = some fd := by
  unfold State.ownFd? State.fds
  cases s.thread? owner <;> simp

theorem announce_run (change : FdChange) (ht : s.thread? owner = some thread)
    (hf : thread.fds.get? number = some fd) :
    announce change owner number time cpu s =
      .ok ⟨(), s, [.notification (.fd change fd thread time cpu)]⟩ := by
  have ho : s.ownFd? owner number = some fd := ownFd?_eq_some_iff.2 ⟨thread, ht, hf⟩
  unfold announce
  rw [get_bind_run, ht, ho]
  rfl

theorem announce_run_of_none (change : FdChange) (h : s.ownFd? owner number = none) :
    announce change owner number time cpu s = .ok ⟨(), s, []⟩ := by
  unfold announce
  rw [get_bind_run, h]
  cases s.thread? owner <;> rfl

theorem ensure_run_of_some (h : (s.ownFd? owner fd.number).isSome) :
    ensure owner fd time cpu s = .ok ⟨(), s, []⟩ := by
  unfold ensure
  rw [get_bind_run, if_pos h]
  rfl

/-- The thread of a number with one more descriptor. -/
def withFd (s : State) (owner : Int) (fd : Fd) : Thread :=
  { s.threadOrFresh owner with fds := (s.threadOrFresh owner).fds.insert fd.number fd }

theorem ensure_run_of_none (h : s.ownFd? owner fd.number = none) :
    ensure owner fd time cpu s = .ok ⟨(), s.setThread owner (withFd s owner fd),
      [.notification (.fd .create fd (withFd s owner fd) time cpu)]⟩ := by
  unfold ensure
  rw [get_bind_run, h, if_neg (by simp), modify_bind_run]
  refine announce_run .create ?_ ?_
  · simp [State.updateThread, State.thread?_setThread, withFd]
  · simp [withFd]

theorem close_run (ht : s.thread? owner = some thread) (hf : thread.fds.get? number = some fd) :
    close owner number time cpu s =
      .ok ⟨(), s.setThread owner { thread with fds := thread.fds.erase number },
        [.notification (.fd .close fd thread time cpu)]⟩ := by
  unfold close
  rw [bind_run, announce_run .close ht hf]
  simp [State.adjustThread_eq_setThread ht]

theorem close_run_of_none (h : s.ownFd? owner number = none) :
    close owner number time cpu s = .ok ⟨(), s, []⟩ := by
  have herase : s.adjustThread owner (fun t => { t with fds := t.fds.erase number }) = s := by
    cases ht : s.thread? owner with
    | none => exact State.adjustThread_of_none ht _
    | some thread =>
      have hf : thread.fds.get? number = none := by
        simpa [State.ownFd?, State.fds, ht] using h
      rw [State.adjustThread_eq_setThread ht, Table.erase_of_none hf]
      exact State.setThread_of_thread? ht
  unfold close
  rw [bind_run, announce_run_of_none .close h]
  simp [herase]

end Descriptors

theorem Fd.number_guessed (fd : Fd) (guess : Option FdType) :
    (fd.guessed guess).number = fd.number := by
  unfold Fd.guessed
  split <;> rfl

theorem Fd.io_guessed (fd : Fd) (guess : Option FdType) : (fd.guessed guess).io = fd.io := by
  unfold Fd.guessed
  split <;> rfl

namespace Snapshot

/-- Folds one descriptor of a thread into the table of its leader. -/
def absorbAt (leader : Table Int Fd) (p : Int × Fd) : Table Int Fd :=
  leader.insert p.1 (((leader.get? p.1).map (·.absorb p.2)).getD p.2)

theorem mergeFds_eq_foldl (leader thread : Table Int Fd) :
    mergeFds leader thread = thread.toList.foldl absorbAt leader := by
  unfold mergeFds
  congr 1
  funext t p
  unfold absorbAt
  dsimp only
  cases t.get? p.1 <;> rfl

theorem moveFds_eq {s : State} {tid pid : Int} {t p : Thread} (ht : s.thread? tid = some t)
    (hp : s.thread? pid = some p) (hne : tid ≠ pid) :
    moveFds tid pid s = (s.setThread tid { t with fds := ∅ }).setThread pid
      { p with fds := mergeFds p.fds t.fds } := by
  have hfds : s.fds tid = t.fds := by simp [State.fds, ht]
  unfold moveFds
  rw [State.adjustThread_eq_setThread ht, State.adjustThread_eq_setThread (t := p), hfds]
  rw [State.thread?_setThread, if_neg hne.symm, hp]

end Snapshot

/-- A law that allows what rules other than forks and transfers do to tables. -/
structure TableLaw (L : Law) : Prop where
  rest : ∀ {s l s'}, tablesKept.rel s l s' → L.rel s l s'
  create : ∀ {s owner} fd time cpu, s.ownFd? owner fd.number = none → fd.io = {} →
    L.rel s [.notification (.fd .create fd (Descriptors.withFd s owner fd) time cpu)]
      (s.setThread owner (Descriptors.withFd s owner fd))
  /-- The name or the type of a descriptor changes. -/
  alter : ∀ {s owner number thread fd fd'}, s.thread? owner = some thread →
    thread.fds.get? number = some fd → fd'.number = fd.number → fd'.io = fd.io →
    L.rel s [] (s.setThread owner { thread with fds := thread.fds.insert number fd' })
  update : ∀ {s owner number thread fd time cpu}, s.thread? owner = some thread →
    thread.fds.get? number = some fd → L.rel s [.notification (.fd .update fd thread time cpu)] s
  close : ∀ {s owner number thread fd time cpu}, s.thread? owner = some thread →
    thread.fds.get? number = some fd → L.rel s [.notification (.fd .close fd thread time cpu)]
      (s.setThread owner { thread with fds := thread.fds.erase number })
  /-- A thread's table is folded into its leader's. -/
  merge : ∀ {s tid pid t p}, s.thread? tid = some t → s.thread? pid = some p → tid ≠ pid →
    L.rel s
      [.notification (.createParent { t with fds := ∅ }
        { p with fds := Snapshot.mergeFds p.fds t.fds })]
      ((s.setThread tid { t with fds := ∅ }).setThread pid
        { p with fds := Snapshot.mergeFds p.fds t.fds })

namespace TableLaw

variable {L : Law}

theorem quiet (hL : TableLaw L) {α : Type} {u : Update α} (h : Obeys Law.quiet u) : Obeys L u :=
  h.mono fun h => hL.rest (tablesKept_of_quiet h)

theorem adjustFd (hL : TableLaw L) (owner number : Int) {f : Fd → Fd}
    (hn : ∀ fd, (f fd).number = fd.number) (hio : ∀ fd, (f fd).io = fd.io) (s : State) :
    L.rel s [] (s.adjustFd owner number f) := by
  unfold State.adjustFd
  cases ht : s.thread? owner with
  | none =>
    rw [State.adjustThread_of_none ht]
    exact L.idle s
  | some thread =>
    rw [State.adjustThread_eq_setThread ht]
    cases hf : thread.fds.get? number with
    | none =>
      rw [Table.adjust_of_none hf, State.setThread_of_thread? ht]
      exact L.idle s
    | some fd =>
      rw [Table.adjust_eq_insert hf]
      exact hL.alter ht hf (hn fd) (hio fd)

theorem announceUpdate (hL : TableLaw L) (owner number time : Int) (cpu : Option Nat) :
    Obeys L (Descriptors.announce .update owner number time cpu) := by
  intro s
  cases h : s.ownFd? owner number with
  | none => exact obeysAt_of_run (Descriptors.announce_run_of_none _ h) (L.idle s)
  | some fd =>
    obtain ⟨thread, ht, hf⟩ := Descriptors.ownFd?_eq_some_iff.1 h
    exact obeysAt_of_run (Descriptors.announce_run _ ht hf) (hL.update ht hf)

theorem ensure (hL : TableLaw L) (owner : Int) {fd : Fd} (time : Int) (cpu : Option Nat)
    (hio : fd.io = {}) : Obeys L (Descriptors.ensure owner fd time cpu) := by
  intro s
  cases h : s.ownFd? owner fd.number with
  | none => exact obeysAt_of_run (Descriptors.ensure_run_of_none h) (hL.create fd time cpu h hio)
  | some fd' => exact obeysAt_of_run (Descriptors.ensure_run_of_some (by simp [h])) (L.idle s)

theorem closeFd (hL : TableLaw L) (owner number time : Int) (cpu : Option Nat) :
    Obeys L (Descriptors.close owner number time cpu) := by
  intro s
  cases h : s.ownFd? owner number with
  | none => exact obeysAt_of_run (Descriptors.close_run_of_none h) (L.idle s)
  | some fd =>
    obtain ⟨thread, ht, hf⟩ := Descriptors.ownFd?_eq_some_iff.1 h
    exact obeysAt_of_run (Descriptors.close_run ht hf) (hL.close ht hf)

theorem exec (hL : TableLaw L) (e : Event) : Obeys L (Scheduling.exec e) := by
  refine obeys_whenSome fun tid => ?_
  refine Obeys.modify_bind (fun s => hL.rest (tablesKept_of_quiet (quiet_updateThread tid ?_ s))) ?_
  · exact fun _ => rfl
  refine obeys_get.bind fun s => obeys_forEach fun number => ?_
  exact hL.closeFd _ number e.time e.cpu?

theorem processState (hL : TableLaw L) (e : Event) : Obeys L (Snapshot.processState e) := by
  refine obeys_whenSome fun tid => obeys_whenSome fun pid s => ?_
  refine ObeysAt.modify_bind (hL.rest (tablesKept_of_quiet (quiet_updateThread tid ?_ s))) ?_
  · exact fun _ => rfl
  generalize hs : s.updateThread tid _ = s₁
  obtain ⟨t, ht⟩ : ∃ t, s₁.thread? tid = some t :=
    ⟨_, by rw [← hs, State.thread?_updateThread, if_pos rfl]⟩
  split
  · exact obeysAt_pure _
  · rename_i hne
    refine ObeysAt.modify_bind (hL.rest (tablesKept_of_quiet (quiet_admitGroup _ _ _ _))) ?_
    obtain ⟨p, hp⟩ := s₁.thread?_admitGroup pid pid ((e.text? "name").getD "")
    rw [← s₁.thread?_admitGroup_of_ne pid ((e.text? "name").getD "") (Ne.symm hne)] at ht
    refine obeysAt_of_run (o := ⟨(), _, _⟩) ?_ (hL.merge ht hp (Ne.symm hne))
    rw [modify_bind_run, get_bind_run, Snapshot.moveFds_eq ht hp (Ne.symm hne)]
    rw [State.thread?_setThread, if_neg (Ne.symm hne), State.thread?_setThread, if_pos rfl]
    rw [State.thread?_setThread, if_pos rfl]
    rfl

theorem fileDescriptor (hL : TableLaw L) (e : Event) : Obeys L (Snapshot.fileDescriptor e) := by
  refine obeys_whenSome fun pid => obeys_whenSome fun number => obeys_whenSome fun filename s => ?_
  refine ObeysAt.modify_bind (hL.rest (tablesKept_of_quiet (quiet_admitGroup _ _ _ _))) ?_
  obtain ⟨p, hp⟩ := State.thread?_admitGroup s pid pid ""
  generalize (if s.threads.contains pid then s else s.setThread pid (.ofGroup pid pid "")) = s at hp
  refine ObeysAt.get_bind ?_
  split
  · refine ObeysAt.modify_bind (hL.adjustFd pid number ?_ ?_ s) ?_
    · exact fun _ => rfl
    · exact fun _ => rfl
    · exact hL.announceUpdate pid number e.time e.cpu? _
  · rename_i hnone
    have hnone : s.ownFd? pid number = none := by simpa using hnone
    have hw : Descriptors.withFd s pid (Snapshot.reported e number filename) =
        { p with fds := p.fds.insert number (Snapshot.reported e number filename) } := by
      simp [Descriptors.withFd, State.threadOrFresh, hp, Snapshot.reported]
    refine obeysAt_of_run (o := ⟨(), _, _⟩) ?_
      (hL.create (Snapshot.reported e number filename) e.time e.cpu? hnone rfl)
    rw [modify_bind_run, State.adjustThread_eq_setThread hp, hw]
    exact Descriptors.announce_run .create (by simp [State.thread?_setThread]) (by simp)

theorem snapshot (hL : TableLaw L) (kind : EventKind) (e : Event) :
    Obeys L (Snapshot.apply kind e) := by
  cases kind
  case processState => exact hL.processState e
  case fileDescriptor => exact hL.fileDescriptor e
  case blockDevice => exact hL.quiet (Snapshot.quiet_blockDevice e)
  all_goals exact obeys_pure _

theorem ioEntry (hL : TableLaw L) (e : Event) : Obeys L (IoRequests.entry e) := by
  refine obeys_whenSome fun kind => obeys_get.bind fun s => obeys_whenSome fun tid => ?_
  refine (hL.quiet (IoRequests.quiet_learnGroup e tid)).bind fun _ => obeys_ite ?_ ?_
  · refine obeys_whenSome fun args => obeys_get.bind fun s => ?_
    refine Obeys.bind (obeys_whenSome fun target => hL.closeFd _ target e.time e.cpu?) fun _ => ?_
    exact (IoRequests.tablesKept_attach _ _ _ _).mono hL.rest
  · exact obeys_whenSome fun body => (IoRequests.tablesKept_attach _ _ _ _).mono hL.rest

theorem guessFor (hL : TableLaw L) (tid : Int) (s : State) : L.rel s [] (Traffic.guessFor tid s) := by
  unfold Traffic.guessFor
  split
  · exact L.idle s
  · dsimp only
    split
    · exact hL.adjustFd _ _ (fun fd => fd.number_guessed _) (fun fd => fd.io_guessed _) s
    · exact hL.rest (tablesKept_adjustRequest tid _ s)

theorem transmit (hL : TableLaw L) (e : Event) : Obeys L (Traffic.transmit e) := by
  refine obeys_whenSome fun iface => ?_
  refine Obeys.modify_bind (fun s => hL.rest (tablesKept_of_quiet (quiet_of_eq rfl rfl))) ?_
  refine Obeys.bind (hL.quiet (quiet_notify ⟨id, id⟩)) fun _ => ?_
  exact obeys_get.bind fun s => obeys_whenSome fun tid => obeys_modify (hL.guessFor tid)

theorem scheduling (hL : TableLaw L) {kind : EventKind} (hfork : kind ≠ .schedFork) (e : Event) :
    Obeys L (Scheduling.apply kind e) := by
  cases kind
  case schedSwitch =>
    exact (Scheduling.holdingsKept_switch e).mono fun h => hL.rest (tablesKept_of_holdingsKept h)
  case schedMigrate => exact hL.quiet (Scheduling.quiet_migrate e)
  case schedWakeup => exact hL.quiet (Scheduling.quiet_wakeup e)
  case schedFork => exact (hfork rfl).elim
  case schedExec => exact hL.exec e
  case schedSetPriority => exact hL.quiet (Scheduling.quiet_setPriority e)
  all_goals exact obeys_pure _

theorem paging (hL : TableLaw L) (kind : EventKind) (e : Event) : Obeys L (Paging.apply kind e) := by
  cases kind
  case pageAlloc => exact (Paging.tablesKept_alloc e).mono hL.rest
  case pageFree | pageFreeKmem => exact hL.quiet (Paging.quiet_free e)
  all_goals exact obeys_pure _

theorem syscalls (hL : TableLaw L) {kind : EventKind} (hexit : kind ≠ .syscallExit) (e : Event) :
    Obeys L (Syscalls.apply kind e) := by
  cases kind
  case syscallEntry => exact (Syscalls.tablesKept_entry e).mono hL.rest
  case syscallExit => exact (hexit rfl).elim
  all_goals exact obeys_pure _

theorem ioRequests (hL : TableLaw L) {kind : EventKind} (hexit : kind ≠ .syscallExit) (e : Event) :
    Obeys L (IoRequests.apply kind e) := by
  cases kind
  case syscallEntry => exact hL.ioEntry e
  case syscallExit => exact (hexit rfl).elim
  case pagesWritten => exact (IoRequests.tablesKept_pagesWritten e).mono hL.rest
  case kswapdWakeup => exact (IoRequests.tablesKept_kswapdWakeup e).mono hL.rest
  case pageFree => exact IoRequests.tablesKept_pageFree.mono hL.rest
  all_goals exact obeys_pure _

theorem traffic (hL : TableLaw L) (kind : EventKind) (e : Event) :
    Obeys L (Traffic.apply kind e) := by
  cases kind
  case netTransmit => exact hL.transmit e
  case netReceive => exact hL.quiet (Traffic.quiet_receive e)
  all_goals exact obeys_pure _

/-- What the law allows holds of every event but forks and the exits of syscalls. -/
theorem effect (hL : TableLaw L) {kind : EventKind} (hfork : kind ≠ .schedFork)
    (hexit : kind ≠ .syscallExit) (e : Event) (remaps : List Remap) :
    Obeys L (Subsystem.effect kind e remaps) := by
  refine (hL.scheduling hfork e).bind fun _ => ?_
  refine (hL.paging kind e).bind fun _ => ?_
  refine (hL.quiet (Interrupts.quiet_apply kind e)).bind fun _ => ?_
  refine (hL.syscalls hexit e).bind fun _ => ?_
  refine (hL.ioRequests hexit e).bind fun _ => ?_
  refine (hL.snapshot kind e).bind fun _ => ?_
  refine (hL.quiet (BlockRequests.quiet_apply kind e remaps)).bind fun _ => ?_
  exact (hL.traffic kind e).bind fun _ => obeys_pure _

end TableLaw

/-! ## Forks -/

namespace Scheduling

/-- Announcing descriptors that a table has changes nothing and sends them in order. -/
theorem announceAll_run {s : State} {tid : Int} {thread : Thread} (ht : s.thread? tid = some thread)
    (time : Int) (cpu : Option Nat) {l : List (Int × Fd)}
    (hl : ∀ p ∈ l, thread.fds.get? p.1 = some p.2) :
    forEach (l.map (·.1)) (fun number => Descriptors.announce .create tid number time cpu) s =
      .ok ⟨(), s, l.map fun p => .notification (.fd .create p.2 thread time cpu)⟩ := by
  induction l with
  | nil => rfl
  | cons p rest ih =>
    have hp : thread.fds.get? p.1 = some p.2 := hl p (by simp)
    rw [List.map_cons, forEach_cons, bind_run, Descriptors.announce_run .create ht hp]
    dsimp only
    rw [ih fun q hq => hl q (by simp [hq])]
    rfl

theorem announceKeys_run (s : State) (tid : Int) (thread : Thread) (time : Int) (cpu : Option Nat) :
    forEach thread.fds.keys (fun number => Descriptors.announce .create tid number time cpu)
        (s.setThread tid thread) =
      .ok ⟨(), s.setThread tid thread,
        thread.fds.toList.map fun p => .notification (.fd .create p.2 thread time cpu)⟩ :=
  announceAll_run (by rw [State.thread?_setThread, if_pos rfl]) time cpu fun _ hp =>
    Table.mem_toList_iff.1 hp

/-- The state once a fork has told of the group and the name of the parent. -/
def toldParent (e : Event) (parent : Int) (s : State) : State :=
  s.updateThread parent fun t =>
    { t with
      pid := (e.int? "parent_pid").or t.pid
      comm := (e.text? "parent_comm").getD t.comm }

theorem quiet_toldParent (e : Event) (parent : Int) (s : State) :
    quiet.rel s [] (toldParent e parent s) := by
  refine quiet_updateThread parent ?_ s
  exact fun _ => rfl

/-- The thread that a fork makes, with copies of the table that the parent uses by then. -/
def forkedChild (e : Event) (parent tid : Int) (s : State) : Thread :=
  child e tid ((toldParent e parent s).fds ((toldParent e parent s).fdOwner parent))

theorem fork_run {e : Event} {parent tid : Int} (hc : e.int? "child_tid" = some tid)
    (hp : (e.int? "parent_tid").or (e.int? "parent_pid") = some parent) (s : State) :
    fork e s = .ok ⟨(), (toldParent e parent s).setThread tid (forkedChild e parent tid s),
      .diagnostic (.fork parent tid (forkedChild e parent tid s).fds.size) ::
        (forkedChild e parent tid s).fds.toList.map fun p =>
          .notification (.fd .create p.2 (forkedChild e parent tid s) e.time e.cpu?)⟩ := by
  unfold fork
  rw [hc, whenSome_some, hp, whenSome_some, modify_bind_run, get_bind_run, bind_run, report_run]
  dsimp only
  rw [modify_bind_run, announceKeys_run (s.updateThread parent _) tid _ e.time e.cpu?]
  rfl

/-- A fork that names both threads makes the child, with copies of a table of the state, and
announces each of them. -/
theorem fork_cases {e : Event} {s : State} {o : Outcome Unit} (hk : e.kind? = some .schedFork)
    (h : fork e s = .ok o) :
    (e.forked? = none ∧ o.state = s ∧ o.signals = []) ∨
    ∃ tid s₁ owner thread d, e.forked? = some tid ∧ quiet.rel s [] s₁ ∧
      thread = child e tid (s₁.fds owner) ∧ o.state = s₁.setThread tid thread ∧
      o.signals = .diagnostic d ::
        thread.fds.toList.map fun p => .notification (.fd .create p.2 thread e.time e.cpu?) := by
  unfold Event.forked?
  rw [hk]
  cases hc : e.int? "child_tid" with
  | none =>
    unfold fork at h
    rw [hc] at h
    cases h
    exact Or.inl ⟨rfl, rfl, rfl⟩
  | some tid =>
    cases hp : (e.int? "parent_tid").or (e.int? "parent_pid") with
    | none =>
      unfold fork at h
      rw [hc, whenSome_some, hp] at h
      cases h
      exact Or.inl ⟨rfl, rfl, rfl⟩
    | some parent =>
      rw [fork_run hc hp] at h
      cases h
      exact Or.inr ⟨tid, _, _, _, _, rfl, quiet_toldParent e parent s, rfl, rfl, rfl⟩

end Scheduling

end KernelReplay
