import KernelReplay.Proofs.Courses

/-
  Events that read alike. A rule looks at an event through what it reads there: the time, the CPU,
  the fields in the type that it asks for, and the name of a syscall that is entered. Two events in
  which all of these are the same do the same under every rule, but that the entry of a syscall is
  reported to people by the whole name of its event (`SameNews`). So a stream whose events are
  replaced by ones that read alike has the same course (`Replay.course_of_readAlike`).
-/

namespace KernelReplay

open Update

/-- The second event is of the first one's kind and reads as it does, in every way that a rule reads
events of the kind. -/
structure Event.ReadAlike (e e' : Event) : Prop where
  kind? : e'.kind? = e.kind?
  /-- The name of an entry says which syscall it is. -/
  syscall : e.kind? = some .syscallEntry → syscallName e'.name = syscallName e.name
  time : e'.time = e.time
  cpu? : e'.cpu? = e.cpu?
  int? : e'.int? = e.int?
  nat? : e'.nat? = e.nat?
  text? : e'.text? = e.text?
  ipv4? : ∀ name, (e'.field? name).bind FieldValue.ipv4? = (e.field? name).bind FieldValue.ipv4?
  hasField : ∀ name, (e'.field? name).isSome = (e.field? name).isSome
  contextInt? : ∀ name, (e'.contextField? name).bind FieldValue.int? =
    (e.contextField? name).bind FieldValue.int?
  contextText? : ∀ name, (e'.contextField? name).bind FieldValue.text? =
    (e.contextField? name).bind FieldValue.text?

namespace Event.ReadAlike

variable {e e' : Event}

theorem cpuField? (h : e.ReadAlike e') (name : String) : e'.cpuField? name = e.cpuField? name := by
  unfold Event.cpuField?
  rw [h.nat?]

theorem refl (e : Event) : e.ReadAlike e :=
  ⟨rfl, fun _ => rfl, rfl, rfl, rfl, rfl, rfl, fun _ => rfl, fun _ => rfl, fun _ => rfl,
    fun _ => rfl⟩

end Event.ReadAlike

/-! ## Rules -/

variable {e e' : Event} (h : e.ReadAlike e')

include h

namespace Scheduling

theorem switch_of_readAlike : switch e' = switch e := by
  simp only [switch, takeOver, h.cpu?, h.int?, h.text?, h.time]

theorem migrate_of_readAlike : migrate e' = migrate e := by
  simp only [migrate, h.cpu?, h.cpuField?, h.int?, h.text?, h.time]

theorem wakeup_of_readAlike : wakeup e' = wakeup e := by
  simp only [wakeup, h.cpu?, h.cpuField?, h.int?, h.time]

theorem fork_of_readAlike : fork e' = fork e := by
  simp only [fork, child, h.cpu?, h.int?, h.text?, h.time]

theorem exec_of_readAlike : exec e' = exec e := by
  simp only [exec, execName?, h.cpu?, h.contextText?, h.int?, h.text?, h.time]

theorem apply_of_readAlike (kind : EventKind) : apply kind e' = apply kind e := by
  cases kind
  case schedSwitch => exact switch_of_readAlike h
  case schedMigrate => exact migrate_of_readAlike h
  case schedWakeup => exact wakeup_of_readAlike h
  case schedFork => exact fork_of_readAlike h
  case schedExec => exact exec_of_readAlike h
  case schedSetPriority => simp only [apply, setPriority, h.int?, h.time]
  all_goals rfl

end Scheduling

namespace Paging

theorem apply_of_readAlike (kind : EventKind) : apply kind e' = apply kind e := by
  cases kind
  case pageAlloc => simp only [apply, alloc, announce, h.cpu?]
  case pageFree | pageFreeKmem => simp only [apply, free, announce, h.cpu?]
  all_goals rfl

end Paging

namespace Interrupts

theorem apply_of_readAlike (kind : EventKind) : apply kind e' = apply kind e := by
  cases kind
  case irqEntry => simp only [apply, irqEntry, h.cpu?, h.int?, h.text?, h.time]
  case irqExit => simp only [apply, irqExit, h.cpu?, h.int?, h.time]
  case softIrqRaise => simp only [apply, softIrqRaise, h.cpu?, h.int?, h.time]
  case softIrqEntry => simp only [apply, softIrqEntry, h.cpu?, h.int?, h.time]
  case softIrqExit => simp only [apply, softIrqExit, h.cpu?, h.int?, h.time]
  all_goals rfl

end Interrupts

namespace Snapshot

theorem apply_of_readAlike (kind : EventKind) : apply kind e' = apply kind e := by
  cases kind
  case processState => simp only [apply, processState, h.int?, h.text?]
  case fileDescriptor =>
    simp only [apply, fileDescriptor, reported, h.cpu?, h.int?, h.text?, h.time]
  case blockDevice => simp only [apply, blockDevice, h.nat?, h.text?]
  all_goals rfl

end Snapshot

namespace BlockRequests

theorem apply_of_readAlike (kind : EventKind) : apply kind e' = apply kind e := by
  cases kind
  case blockRemap =>
    funext remaps
    simp only [apply, remap, location?, h.nat?]
  case blockBackmerge =>
    funext remaps
    simp only [apply, backmerge, location?, h.nat?]
  case blockIssue =>
    funext remaps
    simp only [apply, issued?, location?, sectors?, h.int?, h.nat?, h.time]
  case blockComplete =>
    funext remaps
    simp only [apply, completion, location?, sectors?, h.nat?, h.time]
  all_goals rfl

end BlockRequests

namespace Traffic

theorem apply_of_readAlike (kind : EventKind) : apply kind e' = apply kind e := by
  cases kind
  case netTransmit => simp only [apply, transmit, bytes, h.cpu?, h.nat?, h.text?]
  case netReceive => simp only [apply, receive, bytes, h.cpu?, h.nat?, h.text?]
  all_goals rfl

end Traffic

namespace IoRequests

theorem body?_of_readAlike (kind : SyscallClass) (syscall : String) :
    body? e' kind syscall = body? e kind syscall := by
  simp only [body?, endpoint?, asksCloexec, transfer, transferBetween, h.int?, h.ipv4?, h.nat?,
    h.text?]

theorem attach_of_readAlike : attach e' = attach e := by
  funext tid syscall body
  simp only [attach, h.time]

theorem enterDup_of_readAlike : enterDup e' = enterDup e := by
  funext tid syscall
  simp only [enterDup, dupArguments?, asksCloexec, attach_of_readAlike h, h.cpu?, h.int?, h.time]

theorem learnGroup_of_readAlike : learnGroup e' = learnGroup e := by
  funext tid
  simp only [learnGroup, h.contextInt?, h.hasField]

theorem entry_of_readAlike (hk : e.kind? = some .syscallEntry) : entry e' = entry e := by
  simp only [entry, h.syscall hk, attach_of_readAlike h, body?_of_readAlike h,
    enterDup_of_readAlike h, learnGroup_of_readAlike h, h.cpu?]

theorem finish_of_readAlike : finish e' = finish e := by
  funext cpu tid request
  simp only [finish, settle, applyBody, h.int?, h.time]

theorem exit_of_readAlike : exit e' = exit e := by
  simp only [exit, finish_of_readAlike h, h.cpu?]

theorem apply_of_readAlike {kind : EventKind} (hk : e.kind? = some kind) :
    apply kind e' = apply kind e := by
  cases kind
  case syscallEntry => exact entry_of_readAlike h hk
  case syscallExit => exact exit_of_readAlike h
  case pagesWritten => simp only [apply, pagesWritten, h.nat?]
  case kswapdWakeup => simp only [apply, kswapdWakeup, h.cpu?]
  all_goals rfl

end IoRequests

omit h

/-! ## Up to what is reported to people -/

/-- What an update leaves behind, without what it reports to people. -/
def Outcome.told {α : Type} (o : Outcome α) : α × State × List Notification :=
  (o.value, o.state, notificationsOf o.signals)

namespace Update

variable {α β : Type}

/-- Two updates come to the same, but for what they report to people. -/
def SameNews (u u' : Update α) : Prop := ∀ s, (u' s).map Outcome.told = (u s).map Outcome.told

theorem SameNews.refl (u : Update α) : SameNews u u := fun _ => rfl

/-- Results told the same are the same overflow, or differ in what is reported alone. -/
theorem told_cases {x x' : Except Overflow (Outcome α)}
    (hx : x'.map Outcome.told = x.map Outcome.told) : (∃ f, x = .error f ∧ x' = .error f) ∨
      ∃ o o', x = .ok o ∧ x' = .ok o' ∧ o'.value = o.value ∧ o'.state = o.state ∧
        notificationsOf o'.signals = notificationsOf o.signals := by
  cases x with
  | error f =>
    cases x' with
    | error f' => exact Or.inl ⟨f, rfl, congrArg Except.error (Except.error.inj hx)⟩
    | ok o' => cases hx
  | ok o =>
    cases x' with
    | error f' => cases hx
    | ok o' =>
      obtain ⟨hvalue, hrest⟩ := Prod.mk.inj (Except.ok.inj hx)
      obtain ⟨hstate, hnews⟩ := Prod.mk.inj hrest
      exact Or.inr ⟨o, o', rfl, rfl, hvalue, hstate, hnews⟩

theorem SameNews.bind {u u' : Update α} {f f' : α → Update β} (hu : SameNews u u')
    (hf : ∀ a, SameNews (f a) (f' a)) : SameNews (u >>= f) (u' >>= f') := by
  intro s
  rw [bind_run, bind_run]
  rcases told_cases (hu s) with ⟨overflow, ho, ho'⟩ | ⟨o, o', ho, ho', hvalue, hstate, hnews⟩
  · rw [ho, ho']
  · rw [ho, ho']
    dsimp only
    rw [hvalue, hstate]
    rcases told_cases (hf o.value o.state) with
      ⟨overflow, hr, hr'⟩ | ⟨q, q', hr, hr', hvalue', hstate', hnews'⟩
    · rw [hr, hr']
    · rw [hr, hr']
      simp only [Except.map, Outcome.told, notificationsOf_append, hvalue', hstate', hnews, hnews']

end Update

namespace Syscalls

/-- The entry of a syscall reports the name of its event where no thread runs, and does nothing
else with the name than to read the syscall off it. -/
theorem sameNews_entry (h : e.ReadAlike e') (hk : e.kind? = some .syscallEntry) :
    SameNews (entry e) (entry e') := by
  intro s
  unfold entry
  rw [h.cpu?, h.syscall hk, h.time]
  cases e.cpu? with
  | none => rfl
  | some cpu =>
    rw [whenSome_some, whenSome_some, get_bind_run, get_bind_run]
    cases s.running? cpu <;> rfl

theorem sameNews_apply (h : e.ReadAlike e') {kind : EventKind} (hk : e.kind? = some kind) :
    SameNews (apply kind e) (apply kind e') := by
  cases kind
  case syscallEntry => exact sameNews_entry h hk
  case syscallExit =>
    have hexit : exit e' = exit e := by simp only [exit, leave, h.cpu?, h.int?, h.time]
    rw [apply, apply, hexit]
    exact .refl _
  all_goals exact .refl _

end Syscalls

namespace Subsystem

theorem applyKind_of_readAlike (h : e.ReadAlike e') {kind : EventKind} (hk : e.kind? = some kind)
    {u : Subsystem} (hu : u ≠ .syscalls) : u.applyKind kind e' = u.applyKind kind e := by
  cases u with
  | syscalls => exact (hu rfl).elim
  | scheduling => simp only [applyKind, Scheduling.apply_of_readAlike h]
  | paging => simp only [applyKind, Paging.apply_of_readAlike h]
  | interrupts => simp only [applyKind, Interrupts.apply_of_readAlike h]
  | ioRequests => simp only [applyKind, IoRequests.apply_of_readAlike h hk]
  | snapshot => simp only [applyKind, Snapshot.apply_of_readAlike h]
  | blockRequests => simp only [applyKind, BlockRequests.apply_of_readAlike h]
  | traffic => simp only [applyKind, Traffic.apply_of_readAlike h]

/-- An event that reads alike comes to the same under the rules of every subsystem. -/
theorem sameNews_apply (h : e.ReadAlike e') (u : Subsystem) :
    SameNews (u.apply e) (u.apply e') := by
  unfold Subsystem.apply
  rw [h.kind?]
  split
  · rename_i kind hk
    by_cases hu : u = .syscalls
    · subst hu
      exact (Syscalls.sameNews_apply h hk).bind fun _ => .refl _
    · rw [applyKind_of_readAlike h hk hu]
      exact .refl _
  · exact .refl _

theorem sameNews_applyAll (h : e.ReadAlike e') (l : List Subsystem) :
    SameNews (applyAll e l) (applyAll e' l) := by
  induction l with
  | nil => exact .refl _
  | cons u rest ih => exact (sameNews_apply h u).bind fun _ => ih.bind fun _ => .refl _

end Subsystem

namespace Replay

theorem process_of_readAlike (h : e.ReadAlike e') (r : Replay) :
    (r.process e').map Progress.shown = (r.process e).map Progress.shown := by
  unfold Replay.process
  rcases told_cases (Subsystem.sameNews_applyAll h r.subsystems r.state) with
    ⟨f, ho, ho'⟩ | ⟨o, o', ho, ho', hvalue, hstate, hnews⟩
  · rw [ho, ho']
  · rw [ho, ho']
    cases checkedSucc r.processed with
    | error f => rfl
    | ok processed =>
      show Except.ok _ = Except.ok _
      simp only [Progress.shown, hvalue, hstate, hnews]

/-- A stream of events that read alike has the same course, from every replay. -/
theorem course_of_readAlike {events events' : List Event}
    (h : List.Forall₂ Event.ReadAlike events events') (r : Replay) :
    r.course events' = r.course events :=
  course_eq (fun he => process_of_readAlike he _) h r

end Replay

end KernelReplay
