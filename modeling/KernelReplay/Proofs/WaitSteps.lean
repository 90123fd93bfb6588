import KernelReplay.Proofs.FacetRuns
import KernelReplay.Proofs.LinkSteps

/-
  What an event does to the waits of threads for a CPU. A thread waits from its first wakeup that
  finds it nowhere running until a switch puts it on a CPU, or a fork makes a thread of its number;
  later wakeups mean nothing (`WaitStep`, `Run.waitStep`). A switch that is complete tells of the wait
  that it ends, with the threads as they are by then (`Scheduling.switch_report`).
-/

namespace KernelReplay

open Law Update

/-- When a thread was woken, and which thread ran on the CPU of the wakeup. -/
structure Wakeup where
  time : Int
  waker : Option Int
  deriving DecidableEq

/-- The wakeup that an event is for a thread, if it finds the thread nowhere running. -/
def Event.wakeup? (e : Event) (s : State) (tid : Int) : Option Wakeup :=
  if e.kind? = some .schedWakeup ∧ e.int? "tid" = some tid ∧ s.isRunning tid = false then
    some { time := e.time, waker := e.actor? s.running? }
  else
    none

/-- A switch puts the thread on a CPU, or a fork makes a new one of its number. -/
def Event.EndsWait (e : Event) (tid : Int) : Prop := e.turn? = some tid ∨ e.forked? = some tid

instance (e : Event) (tid : Int) : Decidable (e.EndsWait tid) :=
  inferInstanceAs (Decidable (_ ∨ _))

namespace State

variable {s s' : State}

/-- The state remembers a wakeup of a thread, or that it waits for nothing. -/
def Awaits (s : State) (tid : Int) (wakeup : Option Wakeup) : Prop :=
  (s.standby tid).wakeup = wakeup.map (·.time) ∧ (s.standby tid).waker = wakeup.bind (·.waker)

theorem awaits_of_standby_eq {tid : Int} {wakeup : Option Wakeup}
    (hs : s'.standby tid = s.standby tid) (h : s.Awaits tid wakeup) : s'.Awaits tid wakeup := by
  unfold Awaits
  rw [hs]
  exact h

theorem isRunning_iff {tid : Int} : s.isRunning tid = true ↔ ∃ cpu, s.running? cpu = some tid := by
  unfold isRunning running running?
  simp only [List.contains_iff_mem, List.mem_filterMap, Table.mem_values_iff,
    Option.bind_eq_some_iff]
  constructor
  · rintro ⟨c, ⟨cpu, hc⟩, hcurrent⟩
    exact ⟨cpu, c, hc, hcurrent⟩
  · rintro ⟨cpu, c, hc, hcurrent⟩
    exact ⟨c, ⟨cpu, hc⟩, hcurrent⟩

theorem isRunning_congr (h : s'.running? = s.running?) (tid : Int) :
    s'.isRunning tid = s.isRunning tid := by
  rw [Bool.eq_iff_iff, isRunning_iff, isRunning_iff, h]

end State

/-- No thread wakes itself: the one that it would have to be runs. -/
theorem Event.waker_ne_of_wakeup? {e : Event} {s : State} {tid : Int} {w : Wakeup}
    (h : e.wakeup? s tid = some w) : w.waker ≠ some tid := by
  unfold wakeup? at h
  split at h
  · rename_i hwoken
    cases h
    intro hwaker
    obtain ⟨cpu, -, hrunning⟩ := Option.bind_eq_some_iff.1 hwaker
    rw [State.isRunning_iff.2 ⟨cpu, hrunning⟩] at hwoken
    exact Bool.noConfusion hwoken.2.2
  · cases h

theorem Event.wakeup?_eq_none {e : Event} (h : e.kind? ≠ some .schedWakeup) (s : State) (tid : Int) :
    e.wakeup? s tid = none :=
  if_neg fun hwoken => h hwoken.1

theorem Event.not_endsWait {e : Event} (hswitch : e.kind? ≠ some .schedSwitch)
    (hfork : e.kind? ≠ some .schedFork) (tid : Int) : ¬ e.EndsWait tid := by
  unfold EndsWait
  rw [turn?_eq_none hswitch, forked?_eq_none hfork]
  simp

/-- The wakeup that a thread waits from after an event: the one it waited from, or else the event. -/
def Event.waitAfter (e : Event) (s : State) (tid : Int) (wakeup : Option Wakeup) : Option Wakeup :=
  if e.EndsWait tid then none else wakeup.or (e.wakeup? s tid)

/-- What an event does to every wait. -/
def WaitStep (e : Event) (s s' : State) : Prop :=
  ∀ tid wakeup, s.Awaits tid wakeup → s'.Awaits tid (e.waitAfter s tid wakeup)

namespace WaitStep

variable {e : Event} {s s' : State}

theorem of_not_woken (hkind : e.kind? ≠ some .schedWakeup)
    (hended : ∀ tid, e.EndsWait tid → s'.Awaits tid none)
    (hkept : ∀ tid wakeup, ¬ e.EndsWait tid → s.Awaits tid wakeup → s'.Awaits tid wakeup) :
    WaitStep e s s' := by
  intro tid wakeup h
  unfold Event.waitAfter
  rw [Event.wakeup?_eq_none hkind, Option.or_none]
  split
  · rename_i hends
    exact hended tid hends
  · rename_i hends
    exact hkept tid wakeup hends h

/-- An event of another kind, that changes nothing of waits. -/
theorem of_kept (hwakeup : e.kind? ≠ some .schedWakeup) (hswitch : e.kind? ≠ some .schedSwitch)
    (hfork : e.kind? ≠ some .schedFork)
    (hkept : ∀ tid wakeup, s.Awaits tid wakeup → s'.Awaits tid wakeup) : WaitStep e s s' :=
  of_not_woken hwakeup (fun tid hends => (Event.not_endsWait hswitch hfork tid hends).elim)
    fun tid wakeup _ => hkept tid wakeup

end WaitStep

/-! ## Scheduling -/

namespace Scheduling

variable {e : Event} {s : State} {o : Outcome Unit}

theorem growing_learnPriority (time tid prio : Int) : Obeys growing (learnPriority time tid prio) :=
  (links_learnPriority (G := fun _ _ => False) (M := False) time tid prio).mono fun h => h.1

/-- Both threads of a switch are known once one has taken over from the other. -/
theorem knows_takeOver {cpu : Nat} {prev next : Int} (h : takeOver e cpu prev next s = .ok o) :
    o.state.Knows prev ∧ o.state.Knows next := by
  obtain ⟨o₁, o₂, -, h₂, rfl⟩ := bind_eq_ok_iff.1 h
  rw [modify_bind_run, modify_bind_run, modify_bind_run] at h₂
  have hrest : Obeys growing (whenSome (e.int? "prev_prio") (learnPriority e.time prev) >>= fun _ =>
      whenSome (e.int? "next_prio") (learnPriority e.time next)) :=
    (obeys_whenSome (growing_learnPriority _ prev)).bind fun _ =>
      obeys_whenSome (growing_learnPriority _ next)
  have hwithin := (hrest _ o₂ h₂).threads
  refine ⟨hwithin prev ?_, hwithin next ?_⟩
  · exact (State.knows_admitThread _ prev).setThread next _
  · exact State.knows_updateThread _ next _

/-- A complete switch lets a thread take over a CPU, tells twice what it finds then, and ends the
wait of the thread. Any other one touches nothing. -/
theorem switch_report (hk : e.kind? = some .schedSwitch) (h : switch e s = .ok o) :
    (e.turn? = none ∧ aside.rel s o.signals o.state) ∨
    ∃ cpu prev next taken o₁, e.turn? = some next ∧ e.cpu? = some cpu ∧
      e.int? "prev_tid" = some prev ∧ e.int? "next_tid" = some next ∧
      takeOver e cpu prev next s = .ok o₁ ∧
      switchReport o₁.state e.time cpu prev next = .ok taken ∧
      o.state = o₁.state.adjustThread next Thread.clearWakeup ∧ o.signals = o₁.signals ++
        [.notification (.switchPerCpu taken), .notification (.switchPerThread taken)] := by
  generalize hu : switch e = u at h
  unfold switch at hu
  split at hu
  · rename_i cpu prev next hcpu hprev hnext
    subst hu
    obtain ⟨o₁, o₂, h₁, h₂, rfl⟩ := bind_eq_ok_iff.1 h
    unfold announceSwitch at h₂
    rw [get_bind_run] at h₂
    obtain ⟨o₃, o₄, h₃, h₄, rfl⟩ := bind_eq_ok_iff.1 h₂
    obtain ⟨taken, htaken, rfl⟩ := compute_eq_ok_iff.1 h₃
    cases h₄
    exact Or.inr ⟨cpu, prev, next, taken, o₁, Event.turn?_of_switch hk hcpu hprev hnext, hcpu, hprev,
      hnext, h₁, htaken, rfl, rfl⟩
  · rename_i hnone
    subst hu
    refine Or.inl ⟨?_, (aside_report _).obeys s o h⟩
    unfold Event.turn?
    split
    · rename_i hcpu hprev hnext
      exact (hnone _ _ _ hcpu hprev hnext).elim
    · rfl

theorem waitStep_switch (hk : e.kind? = some .schedSwitch) (h : switch e s = .ok o) :
    WaitStep e s o.state := by
  have hends : ∀ tid, e.EndsWait tid ↔ e.turn? = some tid := fun tid => by
    simp [Event.EndsWait, Event.forked?_eq_none (e := e) (by simp [hk])]
  rcases switch_report hk h with
    ⟨hturn, haside⟩ | ⟨cpu, prev, next, taken, o₁, hturn, -, -, -, h₁, -, hs, -⟩
  · have hstandby : o.state.standby = s.standby := haside.1.2.2.2.1
    refine .of_not_woken (by simp [hk]) (fun tid hended => ?_) fun tid wakeup _ => ?_
    · rw [hends, hturn] at hended
      cases hended
    · exact State.awaits_of_standby_eq (congrFun hstandby tid)
  · have hstandby : o₁.state.standby = s.standby :=
      ((aside_takeOver e cpu prev next).obeys s o₁ h₁).1.2.2.2.1
    have hafter := fun tid => State.standby_adjustThread (f := Thread.clearWakeup)
      (g := fun b => { b with wakeup := none, waker := none }) o₁.state next tid (fun _ => rfl) rfl
    rw [hs]
    refine .of_not_woken (by simp [hk]) (fun tid hended => ?_) fun tid wakeup hended => ?_
    · rw [hends, hturn] at hended
      unfold State.Awaits
      rw [hafter, if_pos (Option.some.inj hended).symm]
      exact ⟨rfl, rfl⟩
    · rw [hends, hturn] at hended
      refine State.awaits_of_standby_eq ?_
      rw [hafter, if_neg fun htid => hended (by rw [htid]), hstandby]

theorem waitStep_migrate (hk : e.kind? = some .schedMigrate) (h : migrate e s = .ok o) :
    WaitStep e s o.state := by
  refine .of_kept (by simp [hk]) (by simp [hk]) (by simp [hk]) fun tid wakeup hw => ?_
  rcases migrate_cases h with ⟨hs, -⟩ | ⟨moved, t, ht, haside⟩
  · rwa [hs]
  · have hstandby : o.state.standby = (s.setThread moved t).standby := haside.1.2.2.2.1
    unfold State.Awaits at hw ⊢
    rw [hstandby, State.standby_setThread]
    split
    · rename_i htid
      rw [ht, ← htid]
      exact hw
    · exact hw

/-- The priority that a wakeup tells is learned beside waits. -/
theorem standby_of_learn {s₀ : State} {tid : Int}
    (h : whenSome (e.int? "prio") (fun reported => do
      let prio ← compute (wakeupPriority s₀ reported)
      learnPriority e.time tid prio) s = .ok o) :
    o.state.standby = s.standby ∧ s.Within o.state := by
  have hlearn : Obeys (aside.both growing) (whenSome (e.int? "prio") fun reported => do
      let prio ← compute (wakeupPriority s₀ reported)
      learnPriority e.time tid prio) := by
    refine obeys_whenSome fun reported => (obeys_compute _).bind fun prio => ?_
    exact (aside_learnPriority e.time tid prio).obeys.both (growing_learnPriority e.time tid prio)
  obtain ⟨haside, hwithin⟩ := hlearn s o h
  exact ⟨haside.1.2.2.2.1, hwithin⟩

/-- A wakeup means nothing to a thread that runs. To any other one it is the start of a wait. -/
theorem wakeup_cases (h : wakeup e s = .ok o) :
    ((∀ tid, e.int? "tid" = some tid → s.isRunning tid = true) ∧ o.state.standby = s.standby) ∨
    ∃ (tid : Int) (s₁ : State), e.int? "tid" = some tid ∧ s.isRunning tid = false ∧
      s₁.standby = s.standby ∧ s₁.Knows tid ∧
      o.state = s₁.adjustThread tid (·.wake e.time (e.actor? s.running?)) := by
  rcases whenSome_cases h with ⟨hnone, rfl⟩ | ⟨tid, htid, h⟩
  · exact Or.inl ⟨fun tid htid => by simp [hnone] at htid, rfl⟩
  have hcpus : ∀ cpu : Option Nat, Obeys (aside.both quiet) (whenSome cpu admitCpu) := fun cpu =>
    obeys_whenSome fun cpu => (aside_admitCpu cpu).obeys.both (quiet_admitCpu cpu)
  obtain ⟨o₁, o₂, h₁, h₂, rfl⟩ := bind_eq_ok_iff.1 h
  obtain ⟨o₃, o₄, h₃, h₄, rfl⟩ := bind_eq_ok_iff.1 h₂
  have hadmitted := (aside.both quiet).chain (hcpus _ s o₁ h₁) (hcpus _ _ o₃ h₃)
  have hstandby : o₃.state.standby = s.standby := hadmitted.1.1.2.2.2.1
  have hrunning : o₃.state.running? = s.running? := hadmitted.2.1
  rw [get_bind_run] at h₄
  have hrun := State.isRunning_congr hrunning tid
  cases hr : s.isRunning tid with
  | true =>
    rw [hrun, hr, if_pos rfl] at h₄
    cases h₄
    refine Or.inl ⟨fun k hk => ?_, hstandby⟩
    obtain rfl : tid = k := Option.some.inj (htid.symm.trans hk)
    exact hr
  | false =>
    rw [hrun, hr, if_neg (by simp), modify_bind_run] at h₄
    obtain ⟨o₅, o₆, h₅, h₆, rfl⟩ := bind_eq_ok_iff.1 h₄
    cases h₆
    obtain ⟨hlearned, hwithin⟩ := standby_of_learn h₅
    have hmade : (o₃.state.admitThread tid).standby = o₃.state.standby :=
      (aside_updateThread tid (fun _ => rfl) o₃.state).1.2.2.2.1
    refine Or.inr ⟨tid, o₅.state, htid, hr, ?_, ?_, ?_⟩
    · rw [hlearned, hmade, hstandby]
    · exact hwithin.threads tid (State.knows_admitThread _ tid)
    · rw [hrunning]
      rfl

/-- A thread that is woken remembers that, unless it waits already. -/
theorem awaits_wake {tid : Int} {t : Thread} (ht : s.thread? tid = some t) {wakeup : Option Wakeup}
    (hw : s.Awaits tid wakeup) (time : Int) (waker : Option Int) :
    (s.setThread tid (t.wake time waker)).Awaits tid (wakeup.or (some ⟨time, waker⟩)) := by
  unfold State.Awaits at hw ⊢
  rw [State.standby_of_thread? ht] at hw
  obtain ⟨hwakeup, hwaker⟩ := hw
  have hwakeup : t.lastWakeup = wakeup.map (·.time) := hwakeup
  have hwaker : t.lastWaker = wakeup.bind (·.waker) := hwaker
  rw [State.standby_setThread, if_pos rfl, Thread.wake]
  cases wakeup with
  | some w =>
    rw [if_neg (by simp [hwakeup])]
    exact ⟨hwakeup, hwaker⟩
  | none =>
    rw [if_pos (by simp [hwakeup])]
    refine ⟨rfl, ?_⟩
    show waker.or t.lastWaker = waker
    rw [hwaker]
    exact Option.or_none

theorem waitStep_wakeup (hk : e.kind? = some .schedWakeup) (h : wakeup e s = .ok o) :
    WaitStep e s o.state := by
  intro tid wakeup hw
  have hends : ¬ e.EndsWait tid := Event.not_endsWait (by simp [hk]) (by simp [hk]) tid
  rw [Event.waitAfter, if_neg hends]
  rcases wakeup_cases h with ⟨hruns, hs⟩ | ⟨woken, s₁, hwoken, hrest, hs₁, ⟨t, ht⟩, hs⟩
  · have hnone : e.wakeup? s tid = none := if_neg fun hall => by simp [hruns tid hall.2.1] at hall
    rw [hnone, Option.or_none]
    exact State.awaits_of_standby_eq (congrFun hs tid) hw
  rw [hs, State.adjustThread_eq_setThread ht]
  have hw₁ : s₁.Awaits tid wakeup := State.awaits_of_standby_eq (congrFun hs₁ tid) hw
  by_cases htid : tid = woken
  · subst htid
    have hsome : e.wakeup? s tid = some ⟨e.time, e.actor? s.running?⟩ := if_pos ⟨hk, hwoken, hrest⟩
    rw [hsome]
    exact awaits_wake ht hw₁ _ _
  · have hnone : e.wakeup? s tid = none := if_neg fun hall =>
      htid (Option.some.inj (hall.2.1.symm.trans hwoken))
    rw [hnone, Option.or_none]
    refine State.awaits_of_standby_eq ?_ hw₁
    rw [State.standby_setThread, if_neg htid]

/-- A fork makes a thread that waits for nothing. -/
theorem fork_standby (hk : e.kind? = some .schedFork) (h : fork e s = .ok o) (tid : Int) :
    o.state.standby tid = if e.forked? = some tid then {} else s.standby tid := by
  unfold Event.forked?
  rw [hk]
  rcases whenSome_cases h with ⟨hnone, rfl⟩ | ⟨child, hchild, h⟩
  · rw [hnone]
    rfl
  rcases whenSome_cases h with ⟨hnone, rfl⟩ | ⟨parent, hparent, h⟩
  · rw [hchild, hnone]
    rfl
  rw [modify_bind_run, get_bind_run, bind_run, report_run] at h
  dsimp only at h
  rw [modify_bind_run, announceKeys_run (s.updateThread parent _) child _ e.time e.cpu?] at h
  cases h
  rw [hchild, hparent]
  have hparent : (s.updateThread parent _).standby = s.standby :=
    (aside_updateThread parent (f := fun t =>
      { t with
        pid := (e.int? "parent_pid").or t.pid
        comm := (e.text? "parent_comm").getD t.comm }) (fun _ => rfl) s).1.2.2.2.1
  dsimp only
  rw [State.standby_setThread]
  by_cases htid : tid = child
  · rw [if_pos htid, if_pos (by rw [htid])]
    rfl
  · rw [if_neg htid, if_neg (by simpa using Ne.symm htid), hparent]

theorem waitStep_fork (hk : e.kind? = some .schedFork) (h : fork e s = .ok o) :
    WaitStep e s o.state := by
  have hends : ∀ tid, e.EndsWait tid ↔ e.forked? = some tid := fun tid => by
    simp [Event.EndsWait, Event.turn?_eq_none (e := e) (by simp [hk])]
  have hafter := fork_standby hk h
  refine .of_not_woken (by simp [hk]) (fun tid hended => ?_) fun tid wakeup hended => ?_
  · rw [hends] at hended
    unfold State.Awaits
    rw [hafter, if_pos hended]
    exact ⟨rfl, rfl⟩
  · rw [hends] at hended
    exact State.awaits_of_standby_eq (by rw [hafter, if_neg hended])

end Scheduling

/-! ## Steps -/

namespace Run

variable {settings : Settings} {history : List Step} {r : Replay} {e : Event} {p : Replay.Progress}

/-- Only four rules of scheduling change what it remembers. -/
theorem standby_of_avoids (h : Run settings history r) (hp : r.process e = .ok p)
    (hturn : e.Avoids EventKind.IsTurn) : p.replay.state.standby = r.state.standby := by
  rcases h.step_cases hp with ⟨-, hs, -⟩ | ⟨kind, remaps, o, hk, ho, hs, -⟩
  · rw [hs]
  by_cases hi : kind.IsInterrupt
  · obtain ⟨o', h', hs', -⟩ := h.update_run hp hk fun remaps =>
      Subsystem.effect_interrupt e remaps hi
    rw [hs']
    exact ((Interrupts.asideButInterrupts_apply kind e).obeys _ o' h').2.2.1.1
  by_cases hb : kind.IsBlock
  · rw [Subsystem.effect_block e remaps hb] at ho
    rw [hs]
    exact (BlockRequests.asideButBlocks_apply kind e remaps _ o ho).2.2.1.1
  by_cases hx : kind = .syscallExit
  · obtain ⟨o', h', hs', -⟩ := h.exit_run hp (hx ▸ hk)
    rw [hs']
    exact (Syscalls.requestsTold_exits h').1.2.2.2.1
  · rw [hs]
    exact ((Subsystem.aside_effect e remaps hi hb (hturn kind hk) hx).obeys _ o ho).1.2.2.2.1

/-- An event that may change it is the matter of scheduling alone. -/
theorem turn_run (h : Run settings history r) (hp : r.process e = .ok p) {kind : EventKind}
    (hk : e.kind? = some kind) (hturn : kind.IsTurn) :
    ∃ o, Scheduling.apply kind e r.state = .ok o ∧ p.replay.state = o.state ∧
      p.signals = o.signals :=
  h.update_run hp hk fun remaps => Subsystem.effect_turn e remaps hturn

/-- Every event of a run does to waits what `WaitStep` says. -/
theorem waitStep (h : Run settings history r) (hp : r.process e = .ok p) :
    WaitStep e r.state p.replay.state := by
  by_cases hturn : ∃ kind, e.kind? = some kind ∧ kind.IsTurn
  · obtain ⟨kind, hk, hturn⟩ := hturn
    obtain ⟨o, ho, hs, -⟩ := h.turn_run hp hk hturn
    rw [hs]
    cases kind <;> first
      | exact hturn.elim
      | exact Scheduling.waitStep_switch hk ho
      | exact Scheduling.waitStep_migrate hk ho
      | exact Scheduling.waitStep_wakeup hk ho
      | exact Scheduling.waitStep_fork hk ho
  · have havoids : e.Avoids EventKind.IsTurn := fun kind hk hkind => hturn ⟨kind, hk, hkind⟩
    have hne : ∀ {kind : EventKind}, kind.IsTurn → e.kind? ≠ some kind :=
      fun hkind hk => havoids _ hk hkind
    refine .of_kept (hne trivial) (hne trivial) (hne trivial) fun tid wakeup => ?_
    exact State.awaits_of_standby_eq (congrFun (h.standby_of_avoids hp havoids) tid)

end Run

end KernelReplay
