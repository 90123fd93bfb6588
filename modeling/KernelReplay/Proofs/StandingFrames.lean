import KernelReplay.Machine.State.Links
import KernelReplay.Proofs.Runs
import KernelReplay.Update.Laws

/-
  What most rules leave as it stands: the group of a thread, the thread that it follows on and its
  priority. The law `standing` says so, and that no entry is taken out, that references stay right and
  that nothing is told of tables that move or of priorities. The rules that change one of these are
  those of scheduling, the entry of an I/O syscall and the snapshots of threads and descriptors. A law
  that `standing` implies holds of an event as soon as it holds of these rules
  (`Subsystem.obeys_effect`).
-/

namespace KernelReplay

/-- Whether a notification says that a table moved to the leader of its thread. -/
def Notification.MovesTable : Notification → Prop
  | .createParent .. => True
  | _ => False

/-- Whether a notification tells of a priority. -/
def Notification.TellsPriority : Notification → Prop
  | .priorityChanged .. => True
  | _ => False

/-- What stands of a thread: its group, the thread that it follows on and its priority. -/
structure Standing where
  pid : Option Int
  prevTid : Option Int
  prio : Option Int

def Thread.standing (t : Thread) : Standing := ⟨t.pid, t.prevTid, t.prio⟩

namespace Law

/-- No entry is taken out. -/
def growing : Law where
  rel s _ s' := s.Within s'
  idle := State.Within.refl
  chain := State.Within.trans

/-- Threads stand as they did, entries stay and refer to entries, and nothing is told of tables that
move or of priorities. -/
def standing : Law :=
  growing.both <| (keeping fun s k => (s.threadOrFresh k).standing).both <|
    (maintaining State.Linked).both <| sending fun n => ¬ n.MovesTable ∧ ¬ n.TellsPriority

end Law

open Law Update

/-! ## Changes of one entry -/

/-- Where devices and interfaces are as they were, references stay right if threads stand as before. -/
theorem State.Linked.of_standing {s s' : State} (h : s.Linked) (hw : s.Within s')
    (hs : ∀ k, (s'.threadOrFresh k).standing = (s.threadOrFresh k).standing)
    (hd : s'.disks = s.disks) (hi : s'.ifaces = s.ifaces) : s'.Linked := by
  refine ⟨hd ▸ h.devs, hi ▸ h.names, fun tid t prev ht hprev => ?_⟩
  rw [← State.threadOrFresh_of_thread? ht] at hprev
  have hsame : (s'.threadOrFresh tid).prevTid = (s.threadOrFresh tid).prevTid :=
    congrArg Standing.prevTid (hs tid)
  exact hw.threads prev (h.knows_prev (hsame ▸ hprev))

theorem standing_of_part {s s' : State} (hw : s.Within s')
    (hs : ∀ k, (s'.threadOrFresh k).standing = (s.threadOrFresh k).standing)
    (hd : s'.disks = s.disks) (hi : s'.ifaces = s.ifaces) : standing.rel s [] s' :=
  ⟨hw, funext hs, fun h => h.of_standing hw hs hd hi, by simp [sending]⟩

theorem standing_setThread {s : State} {tid : Int} {t : Thread}
    (h : t.standing = (s.threadOrFresh tid).standing) : standing.rel s [] (s.setThread tid t) :=
  standing_of_part (.setThread s tid t) (State.part_setThread_of_eq h) rfl rfl

theorem standing_updateThread (tid : Int) {f : Thread → Thread}
    (h : ∀ t, (f t).standing = t.standing) (s : State) :
    standing.rel s [] (s.updateThread tid f) :=
  standing_setThread (h _)

theorem standing_adjustThread (tid : Int) {f : Thread → Thread}
    (h : ∀ t, (f t).standing = t.standing) (s : State) :
    standing.rel s [] (s.adjustThread tid f) := by
  cases ht : s.thread? tid with
  | none =>
    rw [State.adjustThread_of_none ht]
    exact standing.idle s
  | some t =>
    rw [State.adjustThread_eq_setThread ht]
    refine standing_setThread ?_
    rw [h, State.threadOrFresh_of_thread? ht]

theorem standing_adjustFd (tid number : Int) (f : Fd → Fd) (s : State) :
    standing.rel s [] (s.adjustFd tid number f) := by
  refine standing_adjustThread tid ?_ s
  exact fun _ => rfl

theorem standing_adjustRequest (tid : Int) (f : IoRequest → IoRequest) (s : State) :
    standing.rel s [] (s.adjustRequest tid f) := by
  refine standing_adjustThread tid ?_ s
  exact fun _ => rfl

theorem standing_updateCpu (cpu : Nat) (f : Cpu → Cpu) (s : State) :
    standing.rel s [] (s.updateCpu cpu f) :=
  standing_of_part (.updateCpu s cpu f) (fun _ => rfl) rfl rfl

theorem standing_updateDisk (dev : Nat) {f : Disk → Disk} (hf : ∀ d, (f d).dev = d.dev)
    (s : State) : standing.rel s [] (s.updateDisk dev f) :=
  ⟨.updateDisk s dev f, rfl, fun h => h.updateDisk dev hf, by simp [sending]⟩

theorem standing_updateIface (name : String) {f : Iface → Iface} (hf : ∀ i, (f i).name = i.name)
    (s : State) : standing.rel s [] (s.updateIface name f) :=
  ⟨.updateIface s name f, rfl, fun h => h.updateIface name hf, by simp [sending]⟩

theorem standing_notify {n : Notification} (h : ¬ n.MovesTable ∧ ¬ n.TellsPriority) :
    Obeys standing (notify n) :=
  obeys_notify fun s => ⟨.refl s, rfl, id, by simpa [sending] using h⟩

theorem standing_report (d : Diagnostic) : Obeys standing (report d) :=
  obeys_report fun s => ⟨.refl s, rfl, id, by simp [sending]⟩

theorem standing_admitCpu (cpu : Nat) : Obeys standing (admitCpu cpu) := by
  unfold admitCpu
  refine obeys_get.bind fun s => obeys_ite (obeys_pure _) ?_
  exact (obeys_modify (standing_updateCpu cpu id)).bind fun _ => standing_report _

/-! ## Descriptors -/

namespace Descriptors

theorem standing_announce (change : FdChange) (owner number time : Int) (cpu : Option Nat) :
    Obeys standing (announce change owner number time cpu) := by
  refine obeys_get.bind fun s => ?_
  split
  · exact standing_notify ⟨id, id⟩
  · exact obeys_pure _

theorem standing_ensure (owner : Int) (fd : Fd) (time : Int) (cpu : Option Nat) :
    Obeys standing (ensure owner fd time cpu) := by
  refine obeys_get.bind fun s => obeys_ite (obeys_pure _) ?_
  refine Obeys.modify_bind (standing_updateThread owner fun _ => rfl) ?_
  exact standing_announce .create owner fd.number time cpu

theorem standing_close (owner number time : Int) (cpu : Option Nat) :
    Obeys standing (close owner number time cpu) := by
  refine (standing_announce .close owner number time cpu).bind fun _ => ?_
  exact obeys_modify (standing_adjustThread owner fun _ => rfl)

end Descriptors

/-! ## Scheduling -/

namespace Scheduling

theorem standing_announceSwitch (time : Int) (cpu : Nat) (prev next : Int) :
    Obeys standing (announceSwitch time cpu prev next) := by
  refine obeys_get.bind fun s => (obeys_compute _).bind fun taken => ?_
  refine (standing_notify ⟨id, id⟩).bind fun _ => (standing_notify ⟨id, id⟩).bind fun _ => ?_
  exact obeys_modify (standing_adjustThread next fun _ => rfl)

theorem standing_wake (t : Thread) (time : Int) (waker : Option Int) :
    (t.wake time waker).standing = t.standing := by
  unfold Thread.wake
  split <;> rfl

/-- But for the priority that it may report, a wakeup leaves threads as they stand. -/
theorem obeys_wakeup {L : Law} {e : Event} (hL : ∀ {s l s'}, standing.rel s l s' → L.rel s l s')
    (hlearn : ∀ tid prio, Obeys L (learnPriority e.time tid prio)) : Obeys L (wakeup e) := by
  have hadmit : ∀ cpu, Obeys L (admitCpu cpu) := fun cpu => (standing_admitCpu cpu).mono hL
  refine obeys_whenSome fun tid => (obeys_whenSome hadmit).bind fun _ => ?_
  refine (obeys_whenSome hadmit).bind fun _ => ?_
  refine obeys_get.bind fun s => obeys_ite ((standing_report _).mono hL) ?_
  refine Obeys.modify_bind (fun s => hL (standing_updateThread tid (fun _ => rfl) s)) ?_
  refine (obeys_whenSome fun reported => ?_).bind fun _ => ?_
  · exact (obeys_compute _).bind fun prio => hlearn tid prio
  · refine obeys_modify fun s => hL (standing_adjustThread tid (fun t => ?_) s)
    exact standing_wake t _ _

theorem standing_exec (e : Event) : Obeys standing (exec e) := by
  refine obeys_whenSome fun tid => ?_
  refine Obeys.modify_bind (standing_updateThread tid fun _ => rfl) ?_
  refine obeys_get.bind fun s => obeys_forEach fun number => ?_
  exact Descriptors.standing_close _ _ _ _

end Scheduling

/-! ## Pages, interrupts, block requests, packets -/

namespace Paging

theorem standing_announce (e : Event) {about : Thread → Nat → Notification}
    (h : ∀ t cpu, ¬ (about t cpu).MovesTable ∧ ¬ (about t cpu).TellsPriority) :
    Obeys standing (announce e about) :=
  obeys_whenSome fun _ => obeys_get.bind fun _ => obeys_whenSome fun t => standing_notify (h t _)

theorem standing_alloc (e : Event) : Obeys standing (alloc e) := by
  refine Obeys.modify_bind (fun s => ?_) (standing_announce e fun _ _ => ⟨id, id⟩)
  refine standing_of_part ⟨fun _ => id, fun tid ⟨t, ht⟩ => ?_, fun _ => id, fun _ => id⟩ ?_ rfl rfl
  · exact ⟨_, (Table.get?_map ..).trans (congrArg _ ht)⟩
  · exact State.part_mapThreads_of_eq (s := { s with pageCount := _ }) (v := Thread.standing)
      fun _ => rfl

theorem standing_free (e : Event) : Obeys standing (free e) := by
  refine obeys_get.bind fun s => obeys_ite (obeys_pure _) ((obeys_compute _).bind fun left => ?_)
  refine Obeys.modify_bind (fun s => ?_) (standing_announce e fun _ _ => ⟨id, id⟩)
  exact standing_of_part ⟨fun _ => id, fun _ => id, fun _ => id, fun _ => id⟩ (fun _ => rfl) rfl rfl

theorem standing_apply (kind : EventKind) (e : Event) : Obeys standing (apply kind e) := by
  cases kind
  case pageAlloc => exact standing_alloc e
  case pageFree | pageFreeKmem => exact standing_free e
  all_goals exact obeys_pure _

end Paging

theorem Interrupts.standing_apply (kind : EventKind) (e : Event) :
    Obeys standing (apply kind e) := by
  cases kind
  case irqEntry =>
    refine obeys_whenSome fun cpu => obeys_whenSome fun irq => ?_
    refine (standing_admitCpu cpu).bind fun _ => ?_
    exact Obeys.modify_bind (standing_updateCpu cpu _) (standing_notify ⟨id, id⟩)
  case irqExit =>
    refine obeys_whenSome fun cpu => (standing_admitCpu cpu).bind fun _ => ?_
    refine obeys_get.bind fun s => ?_
    refine Obeys.modify_bind (standing_updateCpu cpu _) (obeys_whenSome fun irq => ?_)
    split
    · exact standing_notify ⟨id, id⟩
    · exact standing_report _
  case softIrqRaise =>
    refine obeys_whenSome fun cpu => obeys_whenSome fun vector => ?_
    refine (standing_admitCpu cpu).bind fun _ => obeys_get.bind fun s => ?_
    refine Obeys.modify_bind (standing_updateCpu cpu _) ?_
    exact obeys_ite (standing_report _) (obeys_pure _)
  case softIrqEntry =>
    refine obeys_whenSome fun cpu => obeys_whenSome fun vector => ?_
    exact (standing_admitCpu cpu).bind fun _ => obeys_modify (standing_updateCpu cpu _)
  case softIrqExit =>
    refine obeys_whenSome fun cpu => obeys_whenSome fun vector => ?_
    refine (standing_admitCpu cpu).bind fun _ => obeys_get.bind fun s => ?_
    refine Obeys.modify_bind (standing_updateCpu cpu _) ?_
    split
    · exact standing_notify ⟨id, id⟩
    · exact standing_report _
  all_goals exact obeys_pure _

namespace BlockRequests

theorem standing_place (request : BlockRequest) : Obeys standing (place request) := by
  refine obeys_get.bind fun s => ?_
  refine Obeys.modify_bind (standing_updateDisk request.dev fun _ => rfl) ?_
  exact obeys_whenSome fun stale => standing_report _

theorem standing_complete (dev sector sectors : Nat) (time : Int) :
    Obeys standing (complete dev sector sectors time) := by
  refine obeys_get.bind fun s => ?_
  split
  · exact standing_report _
  · split
    · exact standing_report _
    · refine Obeys.modify_bind (standing_updateDisk dev fun _ => rfl) ?_
      exact (obeys_compute _).bind fun request => standing_notify ⟨id, id⟩

theorem standing_apply (kind : EventKind) (e : Event) (remaps : List Remap) :
    Obeys standing (apply kind e remaps) := by
  cases kind
  case blockIssue => exact (obeys_whenSome standing_place).bind fun _ => obeys_pure _
  case blockComplete =>
    show Obeys standing (completion e remaps)
    unfold completion
    split
    · exact (standing_complete _ _ _ _).bind fun _ => obeys_pure _
    · exact obeys_pure _
  all_goals exact obeys_pure _

end BlockRequests

namespace Traffic

theorem standing_guessFor (tid : Int) (s : State) : standing.rel s [] (guessFor tid s) := by
  unfold guessFor
  split
  · exact standing.idle s
  · dsimp only
    split
    · exact standing_adjustFd _ _ _ s
    · exact standing_adjustRequest tid guessSocket s

theorem standing_apply (kind : EventKind) (e : Event) : Obeys standing (apply kind e) := by
  cases kind
  case netTransmit =>
    refine obeys_whenSome fun iface => ?_
    refine Obeys.modify_bind (standing_updateIface iface fun _ => rfl) ?_
    refine (standing_notify ⟨id, id⟩).bind fun _ => obeys_get.bind fun s => ?_
    exact obeys_whenSome fun tid => obeys_modify (standing_guessFor tid)
  case netReceive =>
    refine obeys_whenSome fun iface => ?_
    exact Obeys.modify_bind (standing_updateIface iface fun _ => rfl) (standing_notify ⟨id, id⟩)
  all_goals exact obeys_pure _

end Traffic

theorem Snapshot.standing_blockDevice (e : Event) : Obeys standing (blockDevice e) :=
  obeys_whenSome fun dev => obeys_whenSome fun _ => obeys_modify
    (standing_updateDisk dev fun _ => rfl)

/-! ## Syscalls and I/O requests -/

namespace Syscalls

theorem standing_entry (e : Event) : Obeys standing (entry e) := by
  refine obeys_whenSome fun cpu => obeys_get.bind fun s => ?_
  split
  · exact obeys_modify (standing_updateThread _ fun _ => rfl)
  · exact standing_report _

theorem standing_exit (e : Event) : Obeys standing (exit e) := by
  refine obeys_whenSome fun cpu => Obeys.get_bind fun s => ?_
  refine obeysAt_whenSome fun tid _ => obeysAt_whenSome fun thread ht => ?_
  have hthread : thread.standing = (s.threadOrFresh tid).standing := by
    rw [State.threadOrFresh_of_thread? ht]
  split
  · refine ObeysAt.compute_bind fun ended _ => ?_
    refine ObeysAt.modify_bind (standing_setThread hthread) ?_
    refine ObeysAt.bind (standing_notify ⟨id, id⟩ _) fun o ho => ?_
    cases ho
    split
    · exact obeysAt_pure _
    · refine obeysAt_of_run rfl (standing_setThread ?_)
      rw [State.threadOrFresh_setThread, if_pos rfl]
      rfl
  · exact standing_report _ s

theorem standing_apply (kind : EventKind) (e : Event) : Obeys standing (apply kind e) := by
  cases kind
  case syscallEntry => exact standing_entry e
  case syscallExit => exact standing_exit e
  all_goals exact obeys_pure _

end Syscalls

namespace IoRequests

theorem standing_attach (e : Event) (tid : Int) (syscall : String) (body : IoBody) :
    Obeys standing (attach e tid syscall body) := by
  refine obeys_get.bind fun s => obeys_ite ?_ (standing_report _)
  exact obeys_modify (standing_adjustThread tid fun _ => rfl)

theorem standing_enterDup (e : Event) (tid : Int) (syscall : String) :
    Obeys standing (enterDup e tid syscall) := by
  refine obeys_whenSome fun args => obeys_get.bind fun s => ?_
  refine (obeys_whenSome fun target => Descriptors.standing_close _ _ _ _).bind fun _ => ?_
  exact standing_attach _ _ _ _

theorem standing_countSide (owner tid : Int) (side : Option Int) (onFd : Fd → Fd)
    (onThread : FdType → IoCounts → IoCounts) (s : State) :
    standing.rel s [] (countSide owner tid side onFd onThread s) := by
  unfold countSide
  split
  · refine standing.chain_silent (standing_adjustFd owner _ _ s) (standing_adjustThread tid ?_ _)
    exact fun _ => rfl
  · exact standing.idle s

theorem standing_countBytes (t : Transfer) (tid owner : Int) (s : State) :
    standing.rel s [] (countBytes t tid owner s) := by
  unfold countBytes
  split
  · exact standing.idle s
  · exact standing.chain_silent (standing_countSide ..) (standing_countSide ..)

theorem standing_applyBody (body : IoBody) (e : Event) (tid owner : Int) (cpu : Nat) :
    Obeys standing (applyBody body e tid owner cpu) := by
  cases body with
  | opening request => exact obeys_whenSome fun number => Descriptors.standing_ensure _ _ _ _
  | close fd => exact obeys_pure _
  | transfer t =>
    refine (obeys_forEach fun number => Descriptors.standing_ensure _ _ _ _).bind fun _ => ?_
    exact obeys_modify (standing_countBytes t tid owner)
  | sync fd size => exact obeys_whenSome fun number => Descriptors.standing_ensure _ _ _ _
  | connect number address =>
    refine obeys_whenSome fun filename => ?_
    refine Obeys.modify_bind (standing_adjustFd owner number _) ?_
    exact Descriptors.standing_announce _ _ _ _ _

theorem standing_finish (e : Event) (cpu : Nat) (tid : Int) (request : IoRequest) :
    Obeys standing (finish e cpu tid request) := by
  refine (obeys_compute _).bind fun request => obeys_get.bind fun s => ?_
  refine Obeys.bind (obeys_ite (standing_applyBody _ _ _ _ _) (obeys_pure _)) fun _ => ?_
  refine Obeys.bind (obeys_get.bind fun s => ?_) fun _ => ?_
  · split
    · exact standing_notify ⟨id, id⟩
    · exact obeys_pure _
  · exact obeys_whenSome fun number => Descriptors.standing_close _ _ _ _

theorem standing_exit (e : Event) : Obeys standing (exit e) := by
  refine obeys_whenSome fun cpu => obeys_get.bind fun s => ?_
  refine obeys_whenSome fun tid => obeys_whenSome fun call => obeys_ite ?_ (obeys_pure _)
  refine Obeys.modify_bind (standing_adjustThread tid fun _ => rfl) ?_
  exact obeys_whenSome fun request => standing_finish e cpu tid request

/-- Every rule of I/O requests but the entry leaves threads as they stand. -/
theorem standing_apply {kind : EventKind} (hentry : kind ≠ .syscallEntry) (e : Event) :
    Obeys standing (apply kind e) := by
  cases kind
  case syscallEntry => exact (hentry rfl).elim
  case syscallExit => exact standing_exit e
  case pagesWritten =>
    refine obeys_whenSome fun pages => obeys_get.bind fun s => obeys_forEach fun tid => ?_
    exact obeys_modify (standing_adjustRequest tid _)
  case kswapdWakeup =>
    refine obeys_get.bind fun s => obeys_whenSome fun tid => ?_
    exact obeys_modify (standing_adjustRequest tid _)
  case pageFree =>
    refine obeys_get.bind fun s => obeys_forEach fun tid => ?_
    exact obeys_modify (standing_adjustRequest _ _)
  all_goals exact obeys_pure _

end IoRequests

/-! ## Events -/

/-- A law that `standing` implies is kept by an event if its rules of scheduling, of I/O requests and of
snapshots keep it. -/
theorem Subsystem.obeys_effect {L : Law} {kind : EventKind} {e : Event}
    (hL : ∀ {s l s'}, standing.rel s l s' → L.rel s l s')
    (hscheduling : Obeys L (Scheduling.apply kind e)) (hio : Obeys L (IoRequests.apply kind e))
    (hsnapshot : Obeys L (Snapshot.apply kind e)) (remaps : List Remap) :
    Obeys L (effect kind e remaps) := by
  refine hscheduling.bind fun _ => ((Paging.standing_apply kind e).mono hL).bind fun _ => ?_
  refine ((Interrupts.standing_apply kind e).mono hL).bind fun _ => ?_
  refine ((Syscalls.standing_apply kind e).mono hL).bind fun _ => hio.bind fun _ => ?_
  refine hsnapshot.bind fun _ => ((BlockRequests.standing_apply kind e remaps).mono hL).bind fun _ => ?_
  exact ((Traffic.standing_apply kind e).mono hL).bind fun _ => obeys_pure _

end KernelReplay
