import KernelReplay.Proofs.DescriptorViews
import KernelReplay.Proofs.LinkSteps
import KernelReplay.Proofs.SettledRequests

/-
  What each rule that changes tables of descriptors makes of them, and what it tells of it
  (`fdNotices`). The entry of a syscall may free a number, the exec of a program closes what is marked
  for it, a snapshot reports a descriptor or folds a thread's table into its leader's, and a packet may
  settle the type of a descriptor. Each changes the table of one owner; a fold changes two.
-/

namespace KernelReplay

open Law Update

/-! ## What is told -/

/-- A change to a descriptor, by owner and number. -/
structure FdNotice where
  change : FdChange
  owner : Int
  number : Int
  deriving DecidableEq, Repr

/-- The change to a descriptor that a notification tells. -/
def Notification.fdNotice? : Notification → Option FdNotice
  | .fd change told owner _ _ => some ⟨change, owner.tid, told.number⟩
  | _ => none

/-- The changes to descriptors that signals tell, in order. -/
def fdNotices (l : List Signal) : List FdNotice :=
  (notificationsOf l).filterMap Notification.fdNotice?

theorem fdNotices_append (l m : List Signal) : fdNotices (l ++ m) = fdNotices l ++ fdNotices m := by
  unfold fdNotices
  rw [notificationsOf_append, List.filterMap_append]

theorem fdNotices_of_not_tellsTables {l : List Signal}
    (h : ∀ n ∈ notificationsOf l, ¬ n.TellsTables) : fdNotices l = [] := by
  unfold fdNotices
  rw [List.filterMap_eq_nil_iff]
  intro n hn
  cases n
  case fd => exact (h _ hn trivial).elim
  all_goals rfl

namespace Descriptors

variable {s : State} {owner number time : Int} {cpu : Option Nat} {o : Outcome Unit}

theorem notices_announce (hs : s.Keyed) {change : FdChange}
    (h : announce change owner number time cpu s = .ok o) :
    fdNotices o.signals = if number ∈ s.fds owner then [⟨change, owner, number⟩] else [] := by
  cases hf : s.ownFd? owner number with
  | none =>
    rw [announce_run_of_none change hf] at h
    cases h
    exact (if_neg (Table.not_mem_of_get? hf)).symm
  | some fd =>
    have hmem : number ∈ s.fds owner := Table.mem_of_get? hf
    obtain ⟨thread, ht, hf⟩ := ownFd?_eq_some_iff.1 hf
    rw [announce_run change ht hf] at h
    cases h
    rw [if_pos hmem, ← hs.tid_of_thread? ht, ← hs.number_of_thread? ht hf]
    rfl

/-- A descriptor that is there is told to go, and taken out. -/
theorem notices_close (hs : s.Keyed) (h : close owner number time cpu s = .ok o) :
    fdNotices o.signals = if number ∈ s.fds owner then [⟨.close, owner, number⟩] else [] := by
  obtain ⟨o₁, o₂, h₁, h₂, rfl⟩ := bind_eq_ok_iff.1 h
  cases h₂
  rw [fdNotices_append, notices_announce hs h₁]
  exact List.append_nil _

end Descriptors

/-! ## The entry of a syscall -/

/-- The number that a call of the `dup` family frees as it is entered: the one that it chooses for the
copy, unless that is the one to be copied. -/
def Event.dupTarget? (e : Event) : Option Int :=
  if syscallName e.name = "dup2" ∨ syscallName e.name = "dup3" then do
    let source ← e.int? "oldfd"
    let target ← e.int? "newfd"
    if target = source then none else some target
  else
    none

theorem Event.dupTarget?_of_class {e : Event}
    (h : SyscallClass.ofName? (syscallName e.name) ≠ some .dup) : e.dupTarget? = none := by
  refine if_neg ?_
  rintro (hname | hname) <;> exact h (by rw [hname]; decide)

/-- No other call of the family closes a number. -/
theorem IoRequests.target_dupArguments? (e : Event) :
    ((dupArguments? e (syscallName e.name)).bind fun args => args.target.filter (· ≠ args.source)) =
      e.dupTarget? := by
  have hchosen : ∀ cloexec : Bool,
      ((e.int? "oldfd").bind fun source =>
        some ({ source, target := e.int? "newfd", cloexec } : DupArguments)).bind
          (fun args => args.target.filter (· ≠ args.source)) =
        (e.int? "oldfd").bind fun source => (e.int? "newfd").bind fun target =>
          if target = source then none else some target := by
    intro cloexec
    cases e.int? "oldfd" with
    | none => rfl
    | some source =>
      cases e.int? "newfd" with
      | none => rfl
      | some target =>
        by_cases hsame : target = source <;> simp [hsame]
  unfold dupArguments? Event.dupTarget?
  split
  · rename_i hname
    rw [if_neg (by rw [hname]; decide)]
    cases e.int? "fildes" <;> rfl
  · rename_i hname
    rw [if_pos (Or.inl hname)]
    exact hchosen false
  · rename_i hname
    rw [if_pos (Or.inr hname)]
    exact hchosen (asksCloexec e)
  · rename_i hname
    rw [if_neg (by rw [hname]; decide)]
    cases e.int? "cmd" with
    | none => rfl
    | some command =>
      have hone : fcntlDupCloexec ≠ fcntlDup := by decide
      cases e.int? "fd" <;> by_cases hdup : command = fcntlDup <;>
        by_cases hcloexec : command = fcntlDupCloexec <;> simp [hdup, hcloexec, hone]
  · rename_i h₂ h₃ _
    rw [if_neg (by rintro (hname | hname) <;> contradiction)]
    rfl

/-- A number of the table of an owner is freed, and told to be if it was taken; no other table changes,
and no counts. -/
structure Frees (s : State) (l : List Signal) (s' : State) (owner number : Int) : Prop where
  io : ∀ k, (s'.holdings k).io = (s.holdings k).io
  fds : ∀ k, s'.fds k = if k = owner then (s.fds k).erase number else s.fds k
  told : fdNotices l = if number ∈ s.fds owner then [⟨.close, owner, number⟩] else []

theorem State.Keyed.of_tablesKept {s s' : State} {l : List Signal} (hs : s.Keyed)
    (h : tablesKept.rel s l s') : s'.Keyed :=
  (tracked_tableLaw.rest h hs).1

theorem State.Keyed.number_of_fds {s : State} (hs : s.Keyed) (owner : Int) :
    ∀ n fd, (s.fds owner).get? n = some fd → fd.number = n := by
  rw [State.fds_eq_holdings]
  exact hs.numbers owner

/-- A descriptor that is renamed stays under its number. -/
theorem State.Keyed.rename {s : State} (hs : s.Keyed) (owner number : Int) (filename : String) :
    (s.adjustFd owner number fun fd => { fd with filename }).Keyed := by
  refine (tracked_tableLaw.adjustFd owner number ?_ ?_ s hs).1
  · exact fun _ => rfl
  · exact fun _ => rfl

theorem Frees.around {s s₁ s₂ s₃ : State} {l₁ l₂ l₃ : List Signal} {owner number : Int}
    (h₁ : tablesKept.rel s l₁ s₁) (h : Frees s₁ l₂ s₂ owner number)
    (h₃ : tablesKept.rel s₂ l₃ s₃) : Frees s (l₁ ++ (l₂ ++ l₃)) s₃ owner number where
  io k := by rw [State.io_of_atRest_eq h₃.1, h.io, State.io_of_atRest_eq h₁.1]
  fds k := by rw [State.fds_of_tablesKept h₃, h.fds, State.fds_of_tablesKept h₁]
  told := by
    rw [fdNotices_append, fdNotices_append, fdNotices_of_not_tellsTables h₁.2,
      fdNotices_of_not_tellsTables h₃.2, h.told, State.fds_of_tablesKept h₁, List.nil_append,
      List.append_nil]

/-- A descriptor that gets another name is told to have changed. -/
theorem Descriptors.notices_rename {s : State} {owner number time : Int} {cpu : Option Nat}
    {filename : String} {o : Outcome Unit} (hs : s.Keyed) (hmem : number ∈ s.fds owner)
    (h : announce .update owner number time cpu
      (s.adjustFd owner number fun fd => { fd with filename }) = .ok o) :
    fdNotices o.signals = [⟨.update, owner, number⟩] := by
  rw [notices_announce (hs.rename owner number filename) h, if_pos]
  rw [Table.mem_iff, ← State.ownFd?, State.ownFd?_adjustFd, if_pos ⟨rfl, rfl⟩, Option.isSome_map]
  exact hmem

theorem Descriptors.close_frees {s : State} {owner number time : Int} {cpu : Option Nat}
    {o : Outcome Unit} (hs : s.Keyed) (h : close owner number time cpu s = .ok o) :
    Frees s o.signals o.state owner number where
  io k := by rw [close_rework owner h, State.io_rework]
  fds k := by
    rw [close_rework owner h]
    exact State.fds_rework_of_empty rfl k
  told := notices_close hs h

namespace IoRequests

variable {e : Event} {tid : Int} {s : State} {o : Outcome Unit}

theorem fdOwner_attach {syscall : String} {body : IoBody} (h : attach e tid syscall body s = .ok o)
    (k : Int) : o.state.fdOwner k = s.fdOwner k := by
  unfold attach at h
  rw [get_bind_run] at h
  split at h
  · cases h
    exact s.fdOwner_adjustThread tid k fun _ => rfl
  · cases h
    rfl

/-- Whose number a call of the `dup` family frees is known once the group of its thread is learned. -/
theorem enterDup_frees (hs : s.Keyed) (h : enterDup e tid (syscallName e.name) s = .ok o) :
    o.state.fdOwner tid = s.fdOwner tid ∧
      (e.dupTarget? = none ∧ tablesKept.rel s o.signals o.state ∨ ∃ number,
        e.dupTarget? = some number ∧ Frees s o.signals o.state (s.fdOwner tid) number) := by
  have htarget := target_dupArguments? e
  rcases whenSome_cases h with ⟨hnone, rfl⟩ | ⟨args, hargs, hdup⟩
  · rw [hnone] at htarget
    exact ⟨rfl, Or.inl ⟨htarget.symm, tablesKept.idle s⟩⟩
  rw [hargs, Option.bind_some] at htarget
  rw [get_bind_run] at hdup
  obtain ⟨o₁, o₂, h₁, h₂, rfl⟩ := bind_eq_ok_iff.1 hdup
  have hkept : tablesKept.rel o₁.state o₂.signals o₂.state := tablesKept_attach _ _ _ _ _ o₂ h₂
  rcases whenSome_cases h₁ with ⟨hnone, rfl⟩ | ⟨number, hnumber, hclose⟩
  · exact ⟨fdOwner_attach h₂ tid, Or.inl ⟨htarget.symm.trans hnone, hkept⟩⟩
  · refine ⟨?_, Or.inr ⟨number, htarget.symm.trans hnumber, ?_⟩⟩
    · rw [fdOwner_attach h₂, Descriptors.close_rework tid hclose, State.fdOwner_rework]
    · exact (Descriptors.close_frees hs hclose).around (tablesKept.idle s) hkept

/-- The entry of an I/O syscall frees the number that it chooses, if it is one that does, in the table
that its thread uses by then, and leaves tables alone otherwise. -/
theorem entry_frees (hs : s.Keyed) (h : entry e s = .ok o) :
    (∀ tid, e.actor? s.running? = some tid → e.dupTarget? = none) ∧ tablesKept.rel s o.signals o.state ∨
    ∃ tid number, e.actor? s.running? = some tid ∧ e.dupTarget? = some number ∧
      Frees s o.signals o.state (o.state.fdOwner tid) number := by
  rcases whenSome_cases h with ⟨hnone, rfl⟩ | ⟨kind, hkind, hentry⟩
  · exact Or.inl ⟨fun _ _ => Event.dupTarget?_of_class (by rw [hnone]; nofun), tablesKept.idle s⟩
  rw [get_bind_run] at hentry
  rcases whenSome_cases hentry with ⟨hnone, rfl⟩ | ⟨tid, hact, hrun⟩
  · refine Or.inl ⟨fun tid hact => ?_, tablesKept.idle s⟩
    have hact : e.cpu?.bind s.running? = some tid := hact
    rw [hnone] at hact
    cases hact
  obtain ⟨o₁, o₂, h₁, h₂, rfl⟩ := bind_eq_ok_iff.1 hrun
  have hlearned : tablesKept.rel s o₁.signals o₁.state :=
    tablesKept_of_quiet (quiet_learnGroup e tid s o₁ h₁)
  split at h₂
  · obtain ⟨howner, ⟨hnone, hkept⟩ | ⟨number, hnumber, hfrees⟩⟩ :=
      enterDup_frees (hs.of_tablesKept hlearned) h₂
    · exact Or.inl ⟨fun _ _ => hnone, tablesKept.chain hlearned hkept⟩
    · refine Or.inr ⟨tid, number, hact, hnumber, ?_⟩
      show Frees s _ o₂.state (o₂.state.fdOwner tid) number
      rw [howner, ← List.append_nil o₂.signals]
      exact hfrees.around hlearned (tablesKept.idle _)
  · rename_i hdup
    have hkept : tablesKept.rel o₁.state o₂.signals o₂.state :=
      obeys_whenSome (fun body => tablesKept_attach _ _ _ _) _ o₂ h₂
    refine Or.inl ⟨fun _ _ => Event.dupTarget?_of_class ?_, tablesKept.chain hlearned hkept⟩
    rw [hkind]
    exact fun heq => hdup (Option.some.inj heq)

end IoRequests

theorem Syscalls.entries_frees {e : Event} {s : State} {o : Outcome Unit} (hs : s.Keyed)
    (h : (Syscalls.entry e >>= fun _ => IoRequests.entry e) s = .ok o) :
    (∀ tid, e.actor? s.running? = some tid → e.dupTarget? = none) ∧ tablesKept.rel s o.signals o.state ∨
    ∃ tid number, e.actor? s.running? = some tid ∧ e.dupTarget? = some number ∧
      Frees s o.signals o.state (o.state.fdOwner tid) number := by
  obtain ⟨o₁, o₂, h₁, h₂, rfl⟩ := bind_eq_ok_iff.1 h
  have hentered : tablesKept.rel s o₁.signals o₁.state := tablesKept_entry e s o₁ h₁
  rw [← (entry_marks h₁).1]
  rcases IoRequests.entry_frees (hs.of_tablesKept hentered) h₂ with
    ⟨hnone, hkept⟩ | ⟨tid, number, hact, hnumber, hfrees⟩
  · exact Or.inl ⟨hnone, tablesKept.chain hentered hkept⟩
  · refine Or.inr ⟨tid, number, hact, hnumber, ?_⟩
    show Frees s _ o₂.state (o₂.state.fdOwner tid) number
    rw [← List.append_nil o₂.signals]
    exact hfrees.around hentered (tablesKept.idle _)

/-! ## The exec of a program -/

/-- Numbers that are closed one after the other all go. -/
theorem Descriptors.closeAll_rework {s : State} {owner time : Int} {cpu : Option Nat}
    {o : Outcome Unit} (tid : Int) {numbers : List Int}
    (h : forEach numbers (fun number => close owner number time cpu) s = .ok o) :
    ∃ f, o.state = s.rework owner tid f id ∧ ∀ fds number, (f fds).get? number =
      if number ∈ numbers then none else fds.get? number := by
  induction numbers generalizing s o with
  | nil =>
    cases h
    exact ⟨id, (s.rework_id owner tid).symm, fun fds number => (if_neg (by simp)).symm⟩
  | cons n rest ih =>
    obtain ⟨o₁, o₂, h₁, h₂, rfl⟩ := bind_eq_ok_iff.1 h
    obtain ⟨f, hs₂, hf⟩ := ih h₂
    refine ⟨f ∘ (·.erase n), ?_, fun fds number => ?_⟩
    · show o₂.state = _
      rw [hs₂, close_rework tid h₁, State.rework_rework]
      rfl
    · rw [Function.comp_apply, hf, Table.get?_erase]
      by_cases hn : number = n
      · simp [hn]
      · simp only [List.mem_cons, hn, false_or, if_false]

/-- Descriptors are closed by their numbers, which are those that they are held under. -/
theorem Descriptors.mem_marked_iff {fds : Table Int Fd}
    (h : ∀ n fd, fds.get? n = some fd → fd.number = n) (number : Int) :
    number ∈ (fds.values.filter (·.cloexec)).map (·.number) ↔
      ∃ fd, fds.get? number = some fd ∧ fd.cloexec = true := by
  rw [List.mem_map]
  constructor
  · rintro ⟨fd, hfd, rfl⟩
    obtain ⟨hvalue, hmark⟩ := List.mem_filter.1 hfd
    obtain ⟨n, hget⟩ := Table.mem_values_iff.1 hvalue
    rw [h n fd hget]
    exact ⟨fd, hget, hmark⟩
  · rintro ⟨fd, hget, hmark⟩
    exact ⟨fd, List.mem_filter.2 ⟨Table.mem_values_iff.2 ⟨number, hget⟩, hmark⟩, h number fd hget⟩

namespace Scheduling

variable {e : Event} {s : State} {o : Outcome Unit} {tid : Int}

/-- The state in which a thread has the name of the program that it executes. -/
def renamed (e : Event) (tid : Int) (s : State) : State :=
  s.updateThread tid fun t => { t with comm := (execName? e).getD t.comm }

theorem tablesKept_renamed (e : Event) (tid : Int) (s : State) :
    tablesKept.rel s [] (renamed e tid s) := by
  refine tablesKept_of_quiet (quiet_updateThread tid ?_ s)
  exact fun _ => rfl

/-- A thread that executes another program closes what is marked in the table that it uses. -/
theorem exec_run (htid : e.int? "tid" = some tid) (s : State) : exec e s =
    forEach (((s.fds (s.fdOwner tid)).values.filter (·.cloexec)).map (·.number))
      (fun number => Descriptors.close (s.fdOwner tid) number e.time e.cpu?) (renamed e tid s) := by
  have howner : (renamed e tid s).fdOwner tid = s.fdOwner tid :=
    s.fdOwner_updateThread tid fun _ => rfl
  unfold exec
  rw [htid, whenSome_some, modify_bind_run, get_bind_run]
  show forEach ((((renamed e tid s).fds ((renamed e tid s).fdOwner tid)).values.filter _).map _)
    (fun number => Descriptors.close ((renamed e tid s).fdOwner tid) number _ _) _ = _
  rw [howner, State.fds_of_tablesKept (tablesKept_renamed e tid s)]
  rfl

/-- What is marked goes from the table that a thread uses when it executes another program. -/
theorem exec_prunes (hs : s.Keyed) (htid : e.int? "tid" = some tid) (h : exec e s = .ok o) :
    (∀ k, k ≠ s.fdOwner tid → o.state.fds k = s.fds k) ∧
      ∀ number, (o.state.fds (s.fdOwner tid)).get? number =
        ((s.fds (s.fdOwner tid)).get? number).filter (!·.cloexec) := by
  rw [exec_run htid] at h
  have hfds := State.fds_of_tablesKept (tablesKept_renamed e tid s)
  obtain ⟨f, hstate, hf⟩ := Descriptors.closeAll_rework tid h
  have hempty : f ∅ = ∅ := Table.ext_get? fun number => by
    rw [hf]
    exact ite_self _
  have hmarked := Descriptors.mem_marked_iff (hs.number_of_fds (s.fdOwner tid))
  refine ⟨fun k hk => ?_, fun number => ?_⟩
  · rw [hstate, State.fds_rework_of_ne hk, hfds]
  · rw [hstate, State.fds_rework_of_empty hempty, if_pos rfl, hfds, hf]
    simp only [hmarked]
    cases hget : (s.fds (s.fdOwner tid)).get? number with
    | none => exact ite_self _
    | some fd => cases hmark : fd.cloexec <;> simp [hmark, Option.filter]

theorem exec_closes (hs : s.Keyed) (h : exec e s = .ok o) :
    (∀ k, o.state.fds k = s.fds k) ∨ ∃ tid, e.int? "tid" = some tid ∧
      (∀ k, k ≠ s.fdOwner tid → o.state.fds k = s.fds k) ∧
      ∀ number, (o.state.fds (s.fdOwner tid)).get? number =
        ((s.fds (s.fdOwner tid)).get? number).filter (!·.cloexec) := by
  cases htid : e.int? "tid" with
  | none =>
    unfold exec at h
    rw [htid] at h
    cases h
    exact Or.inl fun _ => rfl
  | some tid => exact Or.inr ⟨tid, rfl, exec_prunes hs htid h⟩

end Scheduling

/-! ## Forks -/

/-- The child of a fork starts with copies of a table. -/
theorem Scheduling.fork_copies {e : Event} {s : State} {o : Outcome Unit}
    (hk : e.kind? = some .schedFork) (h : fork e s = .ok o) :
    (∀ k, o.state.fds k = s.fds k) ∨ ∃ tid parent, e.forked? = some tid ∧
      ∀ k, o.state.fds k = if k = tid then (s.fds parent).map fun _ fd => fd.duplicate else s.fds k := by
  rcases fork_cases hk h with ⟨-, hstate, -⟩ | ⟨tid, s₁, parent, thread, d, hf, hq, rfl, hstate, -⟩
  · exact Or.inl fun k => by rw [hstate]
  · refine Or.inr ⟨tid, parent, hf, fun k => ?_⟩
    have hfds := State.fds_of_tablesKept (tablesKept_of_quiet hq)
    rw [hstate, State.fds_setThread, hfds k, ← hfds parent]
    rfl

/-! ## Snapshots -/

namespace Snapshot

variable {e : Event} {s : State} {o : Outcome Unit}

/-- A descriptor as a snapshot reports it, known before or not. -/
def afterReport (e : Event) (number : Int) (filename : String) (known : Option Fd) : Fd :=
  known.elim (reported e number filename) fun fd => { fd with filename }

/-- A reported descriptor is put into the table of its process, or changes its name there and is told
to have changed. -/
theorem fileDescriptor_reports (hs : s.Keyed) (h : fileDescriptor e s = .ok o) :
    (∀ k, o.state.fds k = s.fds k) ∨ ∃ pid number filename, e.int? "pid" = some pid ∧
      e.int? "fd" = some number ∧ e.text? "filename" = some filename ∧
      (∀ k, k ≠ pid → o.state.fds k = s.fds k) ∧
      (∀ n, (o.state.fds pid).get? n = if n = number then
        some (afterReport e number filename ((s.fds pid).get? n)) else (s.fds pid).get? n) ∧
      (number ∈ s.fds pid → ⟨.update, pid, number⟩ ∈ fdNotices o.signals) := by
  rcases whenSome_cases h with ⟨-, rfl⟩ | ⟨pid, hpid, h₁⟩
  · exact Or.inl fun _ => rfl
  rcases whenSome_cases h₁ with ⟨-, rfl⟩ | ⟨number, hnumber, h₂⟩
  · exact Or.inl fun _ => rfl
  rcases whenSome_cases h₂ with ⟨-, rfl⟩ | ⟨filename, hname, h₃⟩
  · exact Or.inl fun _ => rfl
  refine Or.inr ⟨pid, number, filename, hpid, hnumber, hname, ?_⟩
  rw [modify_bind_run, get_bind_run] at h₃
  have hknown : State.Knows (if s.threads.contains pid then s else
      s.setThread pid (.ofGroup pid pid "")) pid := s.thread?_admitGroup pid pid ""
  have hkept := tablesKept_of_quiet (quiet_admitGroup pid pid "" s)
  have hkeyed := hs.of_tablesKept hkept
  have hfds := State.fds_of_tablesKept hkept
  generalize (if s.threads.contains pid then s else s.setThread pid (.ofGroup pid pid "")) = s₁
    at h₃ hknown hkeyed hfds
  rw [← hfds pid]
  split at h₃
  · rename_i hsome
    rw [modify_bind_run] at h₃
    have hstate := (Descriptors.state_of_announce h₃).trans (s₁.adjustFd_rework pid pid number _)
    refine ⟨fun k hk => ?_, fun n => ?_, fun _ => ?_⟩
    · rw [hstate, State.fds_rework_of_ne hk, hfds]
    · rw [hstate, State.fds_rework hknown, Table.get?_adjust]
      by_cases hn : n = number
      · obtain ⟨fd, hfd⟩ := Option.isSome_iff_exists.1 hsome
        have hget : (s₁.fds pid).get? number = some fd := hfd
        rw [if_pos hn, if_pos hn, hn, hget]
        rfl
      · rw [if_neg hn, if_neg hn]
    · rw [Descriptors.notices_rename hkeyed hsome h₃]
      exact List.mem_singleton.2 rfl
  · rename_i hnone
    rw [modify_bind_run] at h₃
    have hstate := (Descriptors.state_of_announce h₃).trans
      (s₁.adjustThread_fds pid pid (·.insert number (reported e number filename)))
    refine ⟨fun k hk => ?_, fun n => ?_, fun hmem => (hnone hmem).elim⟩
    · rw [hstate, State.fds_rework_of_ne hk, hfds]
    · rw [hstate, State.fds_rework hknown, Table.get?_insert]
      by_cases hn : n = number
      · have hget : (s₁.fds pid).get? number = none := Option.not_isSome_iff_eq_none.1 hnone
        rw [if_pos hn, if_pos hn, hn, hget]
        rfl
      · rw [if_neg hn, if_neg hn]

theorem fds_named (s : State) (tid k : Int) (pid : Option Int) (comm : String) (prio : Option Int) :
    (s.updateThread tid fun t => { t with pid, comm, prio := t.prio.or prio }).fds k = s.fds k := by
  refine State.fds_of_tablesKept (tablesKept_of_quiet (quiet_updateThread tid ?_ s)) k
  exact fun _ => rfl

/-- The table of a thread is folded into that of its leader. -/
theorem processState_folds {tid pid : Int} (htid : e.int? "tid" = some tid)
    (hpid : e.int? "pid" = some pid) (hne : pid ≠ tid) (h : processState e s = .ok o) (k : Int) :
    o.state.fds k =
      if k = pid then mergeFds (s.fds pid) (s.fds tid) else if k = tid then ∅ else s.fds k := by
  unfold processState at h
  rw [htid, hpid, whenSome_some, whenSome_some, modify_bind_run, if_neg hne] at h
  have hfds := fun k => fds_named s tid k (some pid) ((e.text? "name").getD "") (e.int? "prio")
  have hknown := s.knows_updateThread tid fun t =>
    { t with pid := some pid, comm := (e.text? "name").getD "", prio := t.prio.or (e.int? "prio") }
  generalize s.updateThread tid _ = s₁ at h hfds hknown
  rw [modify_bind_run, modify_bind_run, get_bind_run] at h
  obtain ⟨parent, hp⟩ := s₁.thread?_admitGroup pid pid ((e.text? "name").getD "")
  obtain ⟨t, ht⟩ := hknown
  rw [← s₁.thread?_admitGroup_of_ne pid ((e.text? "name").getD "") (Ne.symm hne)] at ht
  have hfds₂ := fun k => (State.fds_of_tablesKept
    (tablesKept_of_quiet (quiet_admitGroup pid pid ((e.text? "name").getD "") s₁)) k).trans (hfds k)
  generalize (if s₁.threads.contains pid then s₁ else
    s₁.setThread pid (.ofGroup pid pid ((e.text? "name").getD ""))) = s₂ at h hp ht hfds₂
  have hleader : parent.fds = s.fds pid := by rw [← hfds₂, State.fds, hp]; rfl
  have hthread : t.fds = s.fds tid := by rw [← hfds₂, State.fds, ht]; rfl
  have hstate : o.state = moveFds tid pid s₂ := by
    generalize moveFds tid pid s₂ = s₃ at h ⊢
    cases ht' : s₃.thread? tid <;> cases hp' : s₃.thread? pid <;> rw [ht', hp'] at h <;>
      cases h <;> rfl
  rw [hstate, moveFds_eq ht hp (Ne.symm hne), State.fds_setThread, State.fds_setThread, hfds₂,
    ← hleader, ← hthread]

/-- Nothing but the table of a thread that has another leader is moved. -/
theorem processState_merges (h : processState e s = .ok o) :
    (∀ k, o.state.fds k = s.fds k) ∨ ∃ tid pid, e.int? "tid" = some tid ∧ e.int? "pid" = some pid ∧
      pid ≠ tid ∧ ∀ k, o.state.fds k =
        if k = pid then mergeFds (s.fds pid) (s.fds tid) else if k = tid then ∅ else s.fds k := by
  rcases whenSome_cases h with ⟨-, rfl⟩ | ⟨tid, htid, h₁⟩
  · exact Or.inl fun _ => rfl
  rcases whenSome_cases h₁ with ⟨-, rfl⟩ | ⟨pid, hpid, h₂⟩
  · exact Or.inl fun _ => rfl
  by_cases hself : pid = tid
  · rw [modify_bind_run, if_pos hself] at h₂
    cases h₂
    exact Or.inl fun k => fds_named s tid k _ _ _
  · exact Or.inr ⟨tid, pid, htid, hpid, hself, processState_folds htid hpid hself h⟩

end Snapshot

/-! ## Packets -/

/-- A packet that leaves settles at most the type of one descriptor, in the table that the running
thread uses. -/
theorem Traffic.transmit_guesses {e : Event} {s : State} {o : Outcome Unit}
    (h : transmit e s = .ok o) :
    (∀ k, o.state.fds k = s.fds k) ∨ ∃ tid number, e.actor? s.running? = some tid ∧
      ∀ k, o.state.fds k = if k = s.fdOwner tid then
        (s.fds k).adjust number (·.guessed (some .maybeNet)) else s.fds k := by
  rcases whenSome_cases h with ⟨-, rfl⟩ | ⟨iface, -, h₁⟩
  · exact Or.inl fun _ => rfl
  rw [modify_bind_run] at h₁
  obtain ⟨o₁, o₂, hnotify, h₂, rfl⟩ := bind_eq_ok_iff.1 h₁
  cases hnotify
  rw [get_bind_run] at h₂
  rcases whenSome_cases h₂ with ⟨-, rfl⟩ | ⟨tid, hact, h₃⟩
  · exact Or.inl fun _ => rfl
  cases h₃
  show (∀ k, (guessFor tid _).fds k = s.fds k) ∨ _
  unfold guessFor
  split
  · exact Or.inl fun _ => rfl
  · rename_i number _
    dsimp only
    split
    · exact Or.inr ⟨tid, number, hact, fun k => State.fds_adjustFd ..⟩
    · exact Or.inl (State.fds_of_tablesKept (tablesKept_adjustRequest tid guessSocket _))

end KernelReplay
