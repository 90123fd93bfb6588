import Mathlib.Order.Compare
import KernelReplay.Proofs.FacetFrames
import KernelReplay.Proofs.TableFrames

/-
  Tables that are inherited. A fork gives the child copies of all that is in the table of its parent,
  or of the parent's leader, and a program that the child then executes closes those of them that are
  marked for it. Both tell of each descriptor once, in rising order of numbers (`TellsOf`). The child
  leads its own group, so what it closes goes from its own table, and the one that it was copied from
  stays as it was before the fork (`Run.fork_then_exec`).
-/

namespace KernelReplay

open Law Update

/-! ## What is told in rising order -/

/-- One change each is told of some descriptors of an owner, in rising order of their numbers, and of
no others. -/
def TellsOf (l : List Signal) (change : FdChange) (owner : Int) (told : Int → Prop) : Prop :=
  ∃ numbers : List Int, numbers.Pairwise (· < ·) ∧ (∀ n, n ∈ numbers ↔ told n) ∧
    fdNotices l = numbers.map (⟨change, owner, ·⟩)

theorem Table.keys_rising {α : Type} (t : Table Int α) : t.keys.Pairwise (· < ·) :=
  t.keys_ascending.imp compare_lt_iff_lt.1

namespace Descriptors

variable {fds : Table Int Fd} (h : ∀ n fd, fds.get? n = some fd → fd.number = n)

include h

/-- What is held under its own number is listed in the order of the numbers. -/
theorem numbers_eq (keep : Fd → Bool) :
    (fds.values.filter keep).map (·.number) = (fds.toList.filter (keep ·.2)).map (·.1) := by
  show ((fds.toList.map (·.2)).filter keep).map _ = _
  rw [List.filter_map, List.map_map]
  refine List.map_congr_left fun p hp => ?_
  exact h p.1 p.2 (Table.mem_toList_iff.1 (List.mem_of_mem_filter hp))

theorem marked_rising : ((fds.values.filter (·.cloexec)).map (·.number)).Pairwise (· < ·) := by
  rw [numbers_eq h]
  exact fds.keys_rising.sublist (List.filter_sublist.map _)

end Descriptors

theorem Descriptors.notices_closeAll {s : State} {owner time : Int} {cpu : Option Nat}
    {o : Outcome Unit} {numbers : List Int} (hs : s.Keyed) (hnodup : numbers.Nodup)
    (hmem : ∀ n ∈ numbers, n ∈ s.fds owner)
    (h : forEach numbers (fun number => close owner number time cpu) s = .ok o) :
    fdNotices o.signals = numbers.map (⟨.close, owner, ·⟩) := by
  induction numbers generalizing s o with
  | nil =>
    cases h
    rfl
  | cons n rest ih =>
    obtain ⟨o₁, o₂, h₁, h₂, rfl⟩ := bind_eq_ok_iff.1 h
    obtain ⟨hfresh, hrest⟩ := List.nodup_cons.1 hnodup
    have hkeyed : o₁.state.Keyed := (tracked_tableLaw.closeFd owner n time cpu s o₁ h₁ hs).1
    have hthere : ∀ n' ∈ rest, n' ∈ o₁.state.fds owner := by
      intro n' hn'
      have hne : n' ≠ n := fun heq => hfresh (heq ▸ hn')
      rw [close_rework owner h₁, State.fds_rework_of_empty rfl, if_pos rfl, Table.mem_iff,
        Table.get?_erase, if_neg hne]
      exact hmem n' (List.mem_cons_of_mem n hn')
    rw [fdNotices_append, notices_close hs h₁, if_pos (hmem n List.mem_cons_self),
      ih hkeyed hrest hthere h₂]
    rfl

/-! ## Forks and programs -/

theorem fdNotices_creates (d : Diagnostic) (thread : Thread) (time : Int) (cpu : Option Nat)
    (l : List (Int × Fd)) :
    fdNotices (.diagnostic d :: l.map fun p => .notification (.fd .create p.2 thread time cpu)) =
      l.map fun p => ⟨.create, thread.tid, p.2.number⟩ := by
  induction l with
  | nil => rfl
  | cons p rest ih => exact congrArg (⟨.create, thread.tid, p.2.number⟩ :: ·) ih

/-- The event tells of a fork, whose child leads its own group. -/
structure Event.Forks (e : Event) (parent tid : Int) : Prop where
  kind : e.kind? = some .schedFork
  child : e.int? "child_tid" = some tid
  leads : ∀ pid, e.int? "child_pid" = some pid → pid = tid
  parent : (e.int? "parent_tid").or (e.int? "parent_pid") = some parent

namespace Scheduling

variable {e : Event} {s : State} {o : Outcome Unit} {parent owner tid : Int}

section Fork

variable (howner : (toldParent e parent s).fdOwner parent = owner)

include howner

theorem fds_forkedChild : (forkedChild e parent tid s).fds =
    (s.fds owner).map fun _ fd => fd.duplicate := by
  unfold forkedChild child
  rw [howner, State.fds_of_tablesKept (tablesKept_of_quiet (quiet_toldParent e parent s))]

/-- A fork tells of each copy that the child gets. -/
theorem fork_tells (hs : s.Keyed) (hf : e.Forks parent tid) (h : fork e s = .ok o) :
    TellsOf o.signals .create tid (· ∈ s.fds owner) := by
  rw [fork_run hf.child hf.parent] at h
  cases h
  have hfds : (forkedChild e parent tid s).fds = (s.fds owner).map fun _ fd => fd.duplicate :=
    fds_forkedChild howner
  refine ⟨(forkedChild e parent tid s).fds.keys, Table.keys_rising _, fun n => ?_, ?_⟩
  · rw [Table.mem_keys_iff, hfds, Table.mem_iff, Table.get?_map, Option.isSome_map]
    rfl
  · have hnumber : ∀ p ∈ (forkedChild e parent tid s).fds.toList, p.2.number = p.1 := by
      intro p hp
      have hget := Table.mem_toList_iff.1 hp
      rw [hfds, Table.get?_map] at hget
      obtain ⟨fd, hfd, heq⟩ := Option.map_eq_some_iff.1 hget
      rw [← heq]
      exact hs.number_of_fds owner p.1 fd hfd
    rw [fdNotices_creates]
    show List.map _ _ = List.map _ (List.map _ _)
    rw [List.map_map]
    refine List.map_congr_left fun p hp => ?_
    rw [hnumber p hp]
    rfl

end Fork

/-- The child of a fork uses the table that it was given. -/
theorem fdOwner_forked (hf : e.Forks parent tid) :
    ((toldParent e parent s).setThread tid (forkedChild e parent tid s)).fdOwner tid = tid := by
  refine State.fdOwner_eq_self fun pid hpid => ?_
  rw [State.group?_setThread, if_pos rfl] at hpid
  have hpid : some ((e.int? "child_pid").getD tid) = some pid := hpid
  rw [← Option.some.inj hpid]
  cases hleader : e.int? "child_pid" with
  | none => rfl
  | some leader => exact hf.leads leader hleader

/-- A program tells of each descriptor that it closes. -/
theorem exec_tells (hs : s.Keyed) (htid : e.int? "tid" = some tid) (h : exec e s = .ok o) :
    TellsOf o.signals .close (s.fdOwner tid) fun n =>
      ∃ fd, (s.fds (s.fdOwner tid)).get? n = some fd ∧ fd.cloexec = true := by
  rw [exec_run htid] at h
  have hnumbers := hs.number_of_fds (s.fdOwner tid)
  have hrising := Descriptors.marked_rising hnumbers
  have hkept := tablesKept_renamed e tid s
  refine ⟨_, hrising, Descriptors.mem_marked_iff hnumbers,
    Descriptors.notices_closeAll (hs.of_tablesKept hkept) (hrising.imp ne_of_lt) ?_ h⟩
  intro n hn
  obtain ⟨fd, hfd, -⟩ := (Descriptors.mem_marked_iff hnumbers n).1 hn
  rw [State.fds_of_tablesKept hkept]
  exact Table.mem_of_get? hfd

end Scheduling

/-! ## Runs -/

namespace Replay

variable {r : Replay} {remaps : List Remap} {e : Event} {parent tid : Int}

theorem process_fork (hr : r.subsystems = Subsystem.standardWith remaps) (hf : e.Forks parent tid)
    (hcount : FitsWord (r.processed + 1)) :
    ∃ o, Scheduling.fork e r.state = .ok o ∧ r.process e = .ok
      { replay := { state := o.state, subsystems := r.subsystems, processed := r.processed + 1 }
        signals := o.signals } := by
  have ho := Scheduling.fork_run hf.child hf.parent r.state
  exact ⟨_, ho, process_of_update_ok hr hf.kind (Subsystem.effect_schedFork e remaps) ho hcount⟩

theorem process_exec (hr : r.subsystems = Subsystem.standardWith remaps)
    (hk : e.kind? = some .schedExec) (hcount : FitsWord (r.processed + 1)) :
    ∃ o, Scheduling.exec e r.state = .ok o ∧ r.process e = .ok
      { replay := { state := o.state, subsystems := r.subsystems, processed := r.processed + 1 }
        signals := o.signals } := by
  obtain ⟨o, ho, -⟩ := Scheduling.aside_exec e r.state
  exact ⟨o, ho, process_of_update_ok hr hk (Subsystem.effect_schedExec e remaps) ho hcount⟩

end Replay

namespace Run

variable {settings : Settings} {history : List Step} {r : Replay} {e : Event}
  {parent owner tid : Int}

/-- A fork copies the table that its parent uses, with nothing counted yet, and a program that the
child executes next closes what is marked of the copies. Each copy and each end is told once, in rising
order, and the table that was copied is as it was. -/
theorem fork_then_exec (h : Run settings history r) (hf : e.Forks parent tid)
    (howner : (Scheduling.toldParent e parent r.state).fdOwner parent = owner) (hne : tid ≠ owner)
    (hcount : FitsWord (r.processed + 2)) :
    ∃ p, r.process e = .ok p ∧ p.replay.state.fds owner = r.state.fds owner ∧
      (∀ n, (p.replay.state.fds tid).get? n =
        ((r.state.fds owner).get? n).map fun fd => { fd with io := {} }) ∧
      TellsOf p.signals .create tid (· ∈ r.state.fds owner) ∧
      ∀ x : Event, x.kind? = some .schedExec → x.int? "tid" = some tid →
        ∃ q, p.replay.process x = .ok q ∧ q.replay.state.fds owner = r.state.fds owner ∧
          (∀ n, (q.replay.state.fds tid).get? n =
            ((p.replay.state.fds tid).get? n).filter (!·.cloexec)) ∧
          TellsOf q.signals .close tid fun n =>
            ∃ fd, (p.replay.state.fds tid).get? n = some fd ∧ fd.cloexec = true := by
  obtain ⟨remaps, hr⟩ := h.subsystems
  obtain ⟨o, ho, hp⟩ := Replay.process_fork hr hf (hcount.of_le (Nat.le_succ _))
  have htells := Scheduling.fork_tells howner h.keyed_view.1 hf ho
  have hkeyed : o.state.Keyed := (h.next hp).keyed_view.1
  rw [Scheduling.fork_run hf.child hf.parent] at ho
  cases ho
  have hothers := State.fds_of_tablesKept
    (tablesKept_of_quiet (Scheduling.quiet_toldParent e parent r.state))
  have hkept : ((Scheduling.toldParent e parent r.state).setThread tid
      (Scheduling.forkedChild e parent tid r.state)).fds owner = r.state.fds owner := by
    rw [State.fds_setThread, if_neg (Ne.symm hne), hothers]
  refine ⟨_, hp, hkept, fun n => ?_, htells, fun x hx htid => ?_⟩
  · rw [State.fds_setThread, if_pos rfl, Scheduling.fds_forkedChild howner, Table.get?_map]
    rfl
  · obtain ⟨o', ho', hq⟩ := Replay.process_exec (r := { r with
      state := (Scheduling.toldParent e parent r.state).setThread tid
        (Scheduling.forkedChild e parent tid r.state)
      processed := r.processed + 1 }) hr hx hcount
    have hself := Scheduling.fdOwner_forked (s := r.state) hf
    have hends := Scheduling.exec_tells hkeyed htid ho'
    obtain ⟨hother, hpruned⟩ := Scheduling.exec_prunes hkeyed htid ho'
    rw [hself] at hends hother hpruned
    exact ⟨_, hq, (hother owner (Ne.symm hne)).trans hkept, hpruned, hends⟩

/-- The table of a leader has a marked descriptor and one that is not, through which a thread of the
group has written. -/
def sharedTable : List Event :=
  [.recorded 0 10 "sched_switch" [("prev_tid", .signed 0), ("next_tid", .signed 7)],
   .recorded 0 20 "lttng_statedump_process_state" [("tid", .signed 7), ("pid", .signed 5)],
   .recorded 0 30 "lttng_statedump_file_descriptor"
     [("pid", .signed 5), ("fd", .signed 3), ("flags", .signed 0x80000), ("filename", .text "/log")],
   .recorded 0 40 "lttng_statedump_file_descriptor"
     [("pid", .signed 5), ("fd", .signed 4), ("flags", .signed 0), ("filename", .text "/data")],
   .recorded 0 50 "syscall_entry_write" [("fd", .signed 4), ("count", .unsigned 64)],
   .recorded 0 60 "syscall_exit_write" [("ret", .signed 64)]]

def forkOfMember : Event :=
  .recorded 0 70 "sched_process_fork"
    [("parent_tid", .signed 7), ("parent_pid", .signed 5), ("child_tid", .signed 9),
     ("child_pid", .signed 9)]

def execOfChild : Event :=
  .recorded 0 80 "sched_process_exec" [("tid", .signed 9), ("filename", .text "/bin/true")]

/-- The child copies the leader's table and loses what is marked in its own. -/
theorem fork_then_exec_ofMember : ∃ history r p q, Run {} history r ∧
    r.process forkOfMember = .ok p ∧ p.replay.state.fds 5 = r.state.fds 5 ∧
    p.replay.state.ownFd? 9 4 = some { number := 4, filename := "/data" } ∧
    TellsOf p.signals .create 9 (· ∈ r.state.fds 5) ∧
    p.replay.process execOfChild = .ok q ∧ q.replay.state.fds 5 = r.state.fds 5 ∧
    q.replay.state.ownFd? 9 3 = none ∧
    q.replay.state.ownFd? 9 4 = some { number := 4, filename := "/data" } ∧
    TellsOf q.signals .close 9 (fun n =>
      ∃ fd, (p.replay.state.fds 9).get? n = some fd ∧ fd.cloexec = true) := by
  have hshows : Replay.showsSteps {} sharedTable (fun _ r =>
      r.processed = 6 ∧ (Scheduling.toldParent forkOfMember 7 r.state).fdOwner 7 = 5 ∧
      r.state.ownFd? 5 3 = some { number := 3, filename := "/log", cloexec := true } ∧
      r.state.ownFd? 5 4 = some
        { number := 4, filename := "/data", io := { write := { total := 64, other := 64 } } }) =
        true := by
    decide +kernel
  obtain ⟨history, r, h, htest⟩ := Run.of_showsSteps hshows
  obtain ⟨hcount, howner, hmarked, hplain⟩ := of_decide_eq_true htest
  have hf : forkOfMember.Forks 7 9 := by
    refine ⟨by decide +kernel, by decide +kernel, fun pid hpid => ?_, by decide +kernel⟩
    have hchild : forkOfMember.int? "child_pid" = some 9 := by decide +kernel
    exact Option.some.inj (hpid.symm.trans hchild)
  obtain ⟨p, hp, hkept, hcopies, hcreated, hexec⟩ :=
    fork_then_exec h hf howner (by decide) (by rw [hcount]; decide)
  obtain ⟨q, hq, hkept', hpruned, hclosed⟩ :=
    hexec execOfChild (by decide +kernel) (by decide +kernel)
  have hcopy : (p.replay.state.fds 9).get? 4 = some { number := 4, filename := "/data" } := by
    rw [hcopies 4, ← State.ownFd?, hplain]
    rfl
  refine ⟨history, r, p, q, h, hp, hkept, hcopy, hcreated, hq, hkept', ?_, ?_, hclosed⟩
  · rw [State.ownFd?, hpruned 3, hcopies 3, ← State.ownFd?, hmarked]
    rfl
  · rw [State.ownFd?, hpruned 4, hcopy]
    rfl

end Run

end KernelReplay
