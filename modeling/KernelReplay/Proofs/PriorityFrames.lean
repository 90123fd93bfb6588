import Mathlib.Data.List.Chain
import KernelReplay.Proofs.StandingFrames
import KernelReplay.Proofs.TableRules

/-
  What rules do to the priorities that are known of threads. A value is learned by being told, and then
  it is another one than was known before, or by being shown, and then none was known (`Learns`). The
  law `priorities S` says of an update that this is how it changes the priority of every thread, where
  `S` says what may be shown of which thread, and that nothing is told of the idle thread. Rules that
  leave threads as they stand keep it whatever `S` is (`priorities_of_standing`); those of scheduling
  that change a priority tell it, and the snapshot of a thread shows it. A fork is not among them, as
  it takes the child's priority away.
-/

namespace KernelReplay

/-- What is known of a value, before and after some values are told of in turn. A value is told only if
it is not known already, and is shown only if none is known. -/
inductive Learns (Shown : Int → Prop) : Option Int → List Int → Option Int → Prop
  | idle (known : Option Int) : Learns Shown known [] known
  | shown {value : Int} {rest : List Int} {known' : Option Int} (allowed : Shown value)
    (after : Learns Shown (some value) rest known') : Learns Shown none rest known'
  | told {known known' : Option Int} {value : Int} {rest : List Int} (changed : known ≠ some value)
    (after : Learns Shown (some value) rest known') : Learns Shown known (value :: rest) known'

namespace Learns

variable {Shown Shown' : Int → Prop} {known known' known'' : Option Int} {told told' : List Int}

theorem trans (h : Learns Shown known told known') (h' : Learns Shown known' told' known'') :
    Learns Shown known (told ++ told') known'' := by
  induction h with
  | idle => exact h'
  | shown hshown _ ih => exact .shown hshown (ih h')
  | told hchanged _ ih => exact .told hchanged (ih h')

theorem mono (h : Learns Shown known told known') (hS : ∀ value, Shown value → Shown' value) :
    Learns Shown' known told known' := by
  induction h with
  | idle known => exact .idle known
  | shown hshown _ ih => exact .shown (hS _ hshown) ih
  | told hchanged _ ih => exact .told hchanged ih

theorem told_one {value : Int} (h : known ≠ some value) :
    Learns Shown known [value] (some value) :=
  .told h (.idle _)

theorem head_ne (h : Learns Shown known told known') : ∀ value ∈ told.head?, known ≠ some value := by
  cases h with
  | idle => exact fun _ hhead => by cases hhead
  | shown => exact fun _ _ hknown => by cases hknown
  | told hchanged => exact fun _ hhead => Option.some.inj hhead ▸ hchanged

/-- No value is told twice in a row. -/
theorem isChain (h : Learns Shown known told known') : told.IsChain (· ≠ ·) := by
  induction h with
  | idle => exact .nil
  | shown _ _ ih => exact ih
  | told _ hafter ih =>
    exact List.isChain_cons.2 ⟨fun next hnext heq => hafter.head_ne next hnext (heq ▸ rfl), ih⟩

/-- What is known in the end is what was told last, where something was told. -/
theorem eq_last (h : Learns Shown known told known') {last : Int} (hlast : told.getLast? = some last) :
    known' = some last := by
  induction h generalizing last with
  | idle => cases hlast
  | shown _ _ ih => exact ih hlast
  | @told known known' value rest _ hafter ih =>
    cases hrest : rest.getLast? with
    | some last' =>
      rw [List.getLast?_cons, hrest] at hlast
      obtain rfl := Option.some.inj hlast
      exact ih hrest
    | none =>
      obtain rfl := List.getLast?_eq_none_iff.1 hrest
      cases hafter
      exact hlast

/-- Where nothing is told, what is known stays, or is shown. -/
theorem of_untold (h : Learns Shown known [] known') :
    known' = known ∨ ∃ value, Shown value ∧ known' = some value := by
  cases h with
  | idle => exact Or.inl rfl
  | shown hshown hafter =>
    cases hafter
    exact Or.inr ⟨_, hshown, rfl⟩

end Learns

/-! ## Priorities -/

/-- The priority that is known of a thread. -/
def State.prio? (s : State) (tid : Int) : Option Int := (s.thread? tid).bind (·.prio)

/-- The priority that a notification tells of a thread. -/
def Notification.priority? (tid : Int) : Notification → Option Int
  | .priorityChanged _ t prio => if t = tid then some prio else none
  | _ => none

/-- The priorities that signals tell of a thread, in order. -/
def toldPriorities (tid : Int) (l : List Signal) : List Int :=
  (notificationsOf l).filterMap (·.priority? tid)

theorem toldPriorities_append (tid : Int) (l m : List Signal) :
    toldPriorities tid (l ++ m) = toldPriorities tid l ++ toldPriorities tid m := by
  unfold toldPriorities
  rw [notificationsOf_append, List.filterMap_append]

@[simp] theorem toldPriorities_nil (tid : Int) : toldPriorities tid [] = [] := rfl

theorem toldPriorities_of_untold {tid : Int} {l : List Signal}
    (h : ∀ n ∈ notificationsOf l, n.priority? tid = none) : toldPriorities tid l = [] :=
  List.filterMap_eq_nil_iff.2 h

theorem toldPriorities_changed (time t prio tid : Int) :
    toldPriorities tid [.notification (.priorityChanged time t prio)] =
      if t = tid then [prio] else [] := by
  unfold toldPriorities
  rw [notificationsOf_notification, notificationsOf_nil, List.filterMap_cons]
  unfold Notification.priority?
  split <;> simp_all

namespace State

variable {s : State}

theorem prio?_eq (s : State) (tid : Int) : s.prio? tid = (s.threadOrFresh tid).prio := by
  unfold prio? threadOrFresh
  cases s.thread? tid with
  | none =>
    unfold Thread.fresh
    split <;> rfl
  | some t => rfl

theorem prio?_setThread (s : State) (tid k : Int) (t : Thread) :
    (s.setThread tid t).prio? k = if k = tid then t.prio else s.prio? k := by
  unfold prio?
  rw [thread?_setThread]
  split <;> rfl

end State

namespace Law

/-- What is known of the priority of each thread is as it was told, or shown where it may be, and
nothing is told of the idle thread. -/
def priorities (S : Int → Int → Prop) : Law where
  rel s l s' := toldPriorities 0 l = [] ∧
    ∀ tid, Learns (S tid) (s.prio? tid) (toldPriorities tid l) (s'.prio? tid)
  idle s := ⟨rfl, fun tid => .idle (s.prio? tid)⟩
  chain h h' := by
    refine ⟨?_, fun tid => ?_⟩
    · rw [toldPriorities_append, h.1, h'.1, List.append_nil]
    · rw [toldPriorities_append]
      exact (h.2 tid).trans (h'.2 tid)

end Law

open Law Update

variable {S : Int → Int → Prop}

theorem Notification.priority?_of_untold {n : Notification} (h : ¬ n.TellsPriority) (tid : Int) :
    n.priority? tid = none := by
  cases n with
  | priorityChanged => exact (h trivial).elim
  | _ => rfl

/-- Threads that stand as they did have the priorities that they had. -/
theorem priorities_of_standing {s s' : State} {l : List Signal} (h : standing.rel s l s') :
    (priorities S).rel s l s' := by
  obtain ⟨-, hs, -, hn⟩ := h
  have huntold : ∀ tid, toldPriorities tid l = [] := fun tid =>
    toldPriorities_of_untold fun n hmem => Notification.priority?_of_untold (hn n hmem).2 tid
  refine ⟨huntold 0, fun tid => ?_⟩
  have hprio : (s'.threadOrFresh tid).prio = (s.threadOrFresh tid).prio :=
    congrArg Standing.prio (congrFun hs tid)
  rw [huntold tid, State.prio?_eq, State.prio?_eq, hprio]
  exact .idle _

/-! ## Changes of one entry -/

theorem priorities_setThread {s : State} {tid : Int} {t : Thread} (h : t.prio = s.prio? tid) :
    (priorities S).rel s [] (s.setThread tid t) := by
  refine ⟨rfl, fun k => ?_⟩
  rw [toldPriorities_nil, State.prio?_setThread]
  split
  · rename_i hk
    rw [hk, h]
    exact .idle _
  · exact .idle _

theorem priorities_updateThread (tid : Int) {f : Thread → Thread} (h : ∀ t, (f t).prio = t.prio)
    (s : State) : (priorities S).rel s [] (s.updateThread tid f) :=
  priorities_setThread ((h _).trans (s.prio?_eq tid).symm)

theorem priorities_admitGroup (tid pid : Int) (comm : String) (s : State) :
    (priorities S).rel s []
      (if s.threads.contains tid then s else s.setThread tid (.ofGroup tid pid comm)) := by
  split
  · exact (priorities S).idle s
  · rename_i h
    refine priorities_setThread ?_
    rw [State.prio?, State.thread?_of_not_contains h]
    rfl

/-! ## Scheduling -/

namespace Scheduling

/-- A priority that was not known of a thread is told as it is learned. -/
theorem priorities_tell {s : State} {tid prio : Int} (time : Int) (hidle : tid ≠ 0)
    (hknown : s.Knows tid) (hchanged : s.prio? tid ≠ some prio) :
    (priorities S).rel s [.notification (.priorityChanged time tid prio)]
      (s.adjustThread tid fun t => { t with prio := some prio }) := by
  obtain ⟨t, ht⟩ := hknown
  refine ⟨?_, fun k => ?_⟩
  · rw [toldPriorities_changed, if_neg hidle]
  · rw [toldPriorities_changed, State.adjustThread_eq_setThread ht, State.prio?_setThread]
    by_cases hk : tid = k
    · subst hk
      rw [if_pos rfl, if_pos rfl]
      exact .told_one hchanged
    · rw [if_neg hk, if_neg (Ne.symm hk)]
      exact .idle _

/-- The priority of the idle thread is not learned, and what is known already is not told. -/
theorem priorities_learnPriority (time tid prio : Int) :
    Obeys (priorities S) (learnPriority time tid prio) := by
  unfold learnPriority
  split
  · exact obeys_pure ()
  · rename_i hidle
    intro s
    refine ObeysAt.modify_bind (priorities_updateThread tid (fun _ => rfl) s) ?_
    refine ObeysAt.get_bind ?_
    split
    · exact obeysAt_pure ()
    · rename_i hchanged
      rw [← State.prio?_eq] at hchanged
      exact obeysAt_of_run rfl (priorities_tell time hidle (s.knows_admitThread tid) hchanged)

theorem priorities_takeOver (e : Event) (cpu : Nat) (prev next : Int) :
    Obeys (priorities S) (takeOver e cpu prev next) := by
  refine ((standing_admitCpu cpu).mono priorities_of_standing).bind fun _ => ?_
  refine Obeys.modify_bind (fun s => priorities_of_standing (standing_updateCpu cpu _ s)) ?_
  refine Obeys.modify_bind (priorities_updateThread prev fun _ => rfl) ?_
  refine Obeys.modify_bind (priorities_updateThread next fun _ => rfl) ?_
  refine (obeys_whenSome fun prio => priorities_learnPriority e.time prev prio).bind fun _ => ?_
  exact obeys_whenSome fun prio => priorities_learnPriority e.time next prio

theorem priorities_switch (e : Event) : Obeys (priorities S) (switch e) := by
  unfold switch
  split
  · refine (priorities_takeOver e _ _ _).bind fun _ => ?_
    exact (standing_announceSwitch _ _ _ _).mono priorities_of_standing
  · exact (standing_report _).mono priorities_of_standing

/-- A thread that a migration makes has no priority yet. -/
theorem priorities_migrate (e : Event) : Obeys (priorities S) (migrate e) := by
  refine obeys_whenSome fun tid => ?_
  refine Obeys.get_bind fun s => ObeysAt.compute_bind fun migrations _ => ?_
  refine ObeysAt.modify_bind (priorities_setThread ?_) ?_
  · unfold State.prio?
    cases s.thread? tid <;> rfl
  · refine Obeys.bind ((standing_notify ⟨id, id⟩).mono priorities_of_standing) (fun _ => ?_) _
    exact obeys_whenSome fun prio => priorities_learnPriority e.time tid prio

/-- Every rule of scheduling but the fork tells what it changes. -/
theorem priorities_apply {kind : EventKind} (hfork : kind ≠ .schedFork) (e : Event) :
    Obeys (priorities S) (apply kind e) := by
  cases kind
  case schedSwitch => exact priorities_switch e
  case schedMigrate => exact priorities_migrate e
  case schedWakeup => exact obeys_wakeup priorities_of_standing (priorities_learnPriority _)
  case schedFork => exact (hfork rfl).elim
  case schedExec => exact (standing_exec e).mono priorities_of_standing
  case schedSetPriority =>
    exact obeys_whenSome fun tid => obeys_whenSome fun prio =>
      priorities_learnPriority e.time tid prio
  all_goals exact obeys_pure _

/-- A fork takes its priority from the thread that it makes, leaves those of the others and tells of
none. -/
theorem fork_priorities {e : Event} {s : State} {o : Outcome Unit} (hk : e.kind? = some .schedFork)
    (h : fork e s = .ok o) (tid : Int) : toldPriorities tid o.signals = [] ∧
      o.state.prio? tid = if e.forked? = some tid then none else s.prio? tid := by
  rcases fork_cases hk h with ⟨hnone, hs, hl⟩ | ⟨child, -, -, -, -, hforked, -⟩
  · rw [hnone, hs, hl, if_neg (by simp)]
    exact ⟨rfl, rfl⟩
  obtain ⟨hc, parent, hp⟩ := Event.forked?_eq_some hforked
  rw [fork_run hc hp] at h
  cases h
  refine ⟨toldPriorities_of_untold fun n hn => ?_, ?_⟩
  · rw [notificationsOf_diagnostic, notificationsOf_map] at hn
    obtain ⟨_, -, rfl⟩ := List.mem_map.1 hn
    rfl
  · rw [hforked, State.prio?_setThread]
    by_cases htid : tid = child
    · rw [if_pos htid, if_pos (by rw [htid])]
      rfl
    · rw [if_neg htid, if_neg fun heq => htid (Option.some.inj heq).symm, State.prio?_eq,
        State.prio?_eq]
      refine State.part_updateThread_of_eq (v := Thread.prio) ?_ tid
      exact fun _ => rfl

end Scheduling

/-! ## Snapshots -/

namespace Snapshot

/-- The snapshot of a thread shows its priority where none is known, and tells nothing of it. -/
theorem priorities_processState {e : Event}
    (hshown : ∀ tid pid prio, e.int? "tid" = some tid → e.int? "pid" = some pid →
      e.int? "prio" = some prio → S tid prio) : Obeys (priorities S) (processState e) := by
  intro s
  refine obeysAt_whenSome fun tid htid => obeysAt_whenSome fun pid hpid => ?_
  refine ObeysAt.modify_bind ⟨rfl, fun k => ?_⟩ ?_
  · rw [toldPriorities_nil, State.updateThread, State.prio?_setThread]
    split
    · rename_i hk
      subst hk
      dsimp only
      rw [← State.prio?_eq]
      cases hknown : s.prio? k with
      | some prio => exact .idle _
      | none =>
        cases hprio : e.int? "prio" with
        | none => exact .idle _
        | some prio => exact .shown (hshown k pid prio htid hpid hprio) (.idle _)
    · exact .idle _
  refine obeys_ite (obeys_pure _) ?_ _
  refine Obeys.modify_bind (priorities_admitGroup _ _ _) ?_
  refine Obeys.modify_bind (fun s => priorities_of_standing ?_) (obeys_get.bind fun s => ?_)
  · refine standing.chain_silent (standing_adjustThread tid ?_ s)
      (standing_adjustThread pid ?_ _) <;> exact fun _ => rfl
  · split
    · exact obeys_notify fun s => ⟨rfl, fun _ => .idle _⟩
    · exact obeys_pure _

theorem priorities_fileDescriptor (e : Event) : Obeys (priorities S) (fileDescriptor e) := by
  refine obeys_whenSome fun pid => obeys_whenSome fun number => obeys_whenSome fun filename => ?_
  refine Obeys.modify_bind (priorities_admitGroup _ _ _) ?_
  refine Obeys.mono (obeys_get.bind fun s => obeys_ite ?_ ?_) priorities_of_standing
  · refine Obeys.modify_bind (standing_adjustFd pid number _) ?_
    exact Descriptors.standing_announce _ _ _ _ _
  · refine Obeys.modify_bind (standing_adjustThread pid fun _ => rfl) ?_
    exact Descriptors.standing_announce _ _ _ _ _

theorem priorities_apply {kind : EventKind} {e : Event}
    (hshown : ∀ tid pid prio, kind = .processState → e.int? "tid" = some tid →
      e.int? "pid" = some pid → e.int? "prio" = some prio → S tid prio) :
    Obeys (priorities S) (apply kind e) := by
  cases kind
  case processState => exact priorities_processState (hshown · · · rfl)
  case fileDescriptor => exact priorities_fileDescriptor e
  case blockDevice => exact (standing_blockDevice e).mono priorities_of_standing
  all_goals exact obeys_pure _

end Snapshot

/-! ## I/O requests -/

namespace IoRequests

theorem priorities_learnGroup (e : Event) (tid : Int) :
    Obeys (priorities S) (learnGroup e tid) := by
  refine obeys_ite (obeys_pure _) (obeys_whenSome fun pid => ?_)
  refine Obeys.modify_bind (priorities_updateThread tid fun _ => rfl) (Obeys.get_bind fun s => ?_)
  dsimp only
  split
  · exact obeysAt_pure _
  · refine ObeysAt.modify_bind (priorities_setThread (s.prio?_eq tid).symm) ?_
    split
    · exact obeysAt_pure _
    · rename_i hunknown
      refine ObeysAt.bind ((standing_report _).mono priorities_of_standing _) fun o ho => ?_
      cases ho
      refine obeysAt_of_run rfl (priorities_setThread ?_)
      -- No priority is known of the leader, even if it is the thread itself.
      have hnone : s.prio? pid = none := by
        rw [State.prio?, State.thread?_of_not_contains hunknown]
        rfl
      rw [State.prio?_setThread]
      split
      · rename_i hpid
        rw [hpid, State.prio?_eq] at hnone
        exact hnone.symm
      · exact hnone.symm

theorem priorities_apply (kind : EventKind) (e : Event) : Obeys (priorities S) (apply kind e) := by
  by_cases hentry : kind = .syscallEntry
  · subst hentry
    refine obeys_whenSome fun kind => obeys_get.bind fun s => obeys_whenSome fun tid => ?_
    refine (priorities_learnGroup e tid).bind fun _ => Obeys.mono ?_ priorities_of_standing
    refine obeys_ite (standing_enterDup _ _ _) ?_
    exact obeys_whenSome fun body => standing_attach _ _ _ _
  · exact (standing_apply hentry e).mono priorities_of_standing

end IoRequests

end KernelReplay
