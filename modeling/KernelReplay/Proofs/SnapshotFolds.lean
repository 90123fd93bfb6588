import Mathlib.Data.List.Perm.Basic
import KernelReplay.Proofs.ByteTotals
import KernelReplay.Proofs.TableFrames

/-
  Snapshots that fold tables. A snapshot that tells of a thread and of its leader folds the thread's
  table into the leader's: no number is lost, and a number that both have keeps the leader's entry with
  the bytes of both (`FoldedTable`). The thread is left with an empty table, so telling the same again
  folds nothing. Bytes are added up to the greatest word, which no order of the threads changes, so the
  leader comes to the same numbers and the same counters whatever thread is told of first
  (`Run.snapshot_folds`).
-/

namespace KernelReplay

open Law Update

/-! ## Counters of both -/

theorem Tally.merge_comm (t u : Tally) : t.merge u = u.merge t := by
  simp only [Tally.merge, saturatingAdd_comm]

theorem Tally.merge_assoc (t u v : Tally) : (t.merge u).merge v = t.merge (u.merge v) := by
  simp only [Tally.merge, saturatingAdd_assoc]

namespace IoCounts

theorem merge_comm (c d : IoCounts) : c.merge d = d.merge c := by
  simp only [merge, Tally.merge_comm c.read, Tally.merge_comm c.write]

theorem merge_assoc (c d e : IoCounts) : (c.merge d).merge e = c.merge (d.merge e) := by
  simp only [merge, Tally.merge_assoc]

instance : Std.Commutative merge := ⟨merge_comm⟩

instance : Std.Associative merge := ⟨merge_assoc⟩

end IoCounts

/-! ## Folded tables -/

/-- An entry that stands for one of a leader and one of a thread. -/
structure Fd.Folds (fd own other : Fd) : Prop where
  number : fd.number = own.number
  type : fd.type = own.type
  cloexec : fd.cloexec = own.cloexec
  family : fd.family = own.family
  filename : fd.filename = if own.filename = "" then other.filename else own.filename
  amount : ∀ d p, fd.io.amount d p = saturatingAdd (own.io.amount d p) (other.io.amount d p)

theorem Fd.folds_absorb (own other : Fd) : (own.absorb other).Folds own other :=
  ⟨rfl, rfl, rfl, rfl, rfl, fun _ _ => IoCounts.amount_merge ..⟩

/-- A table into which that of a thread was folded: everything of both is there. -/
structure FoldedTable (leader thread fds : Table Int Fd) : Prop where
  numbers : ∀ n, n ∈ fds ↔ n ∈ leader ∨ n ∈ thread
  ofLeader : ∀ n fd, leader.get? n = some fd → n ∉ thread → fds.get? n = some fd
  ofThread : ∀ n fd, thread.get? n = some fd → n ∉ leader → fds.get? n = some fd
  ofBoth : ∀ n own other, leader.get? n = some own → thread.get? n = some other →
    ∃ fd, fds.get? n = some fd ∧ fd.Folds own other

namespace Snapshot

theorem foldedTable_mergeFds (leader thread : Table Int Fd) :
    FoldedTable leader thread (mergeFds leader thread) := by
  refine ⟨fun n => mem_mergeFds_iff, fun n fd hl ht => ?_, fun n fd ht hl => ?_,
    fun n own other hl ht => ⟨_, ?_, Fd.folds_absorb own other⟩⟩
  · have hnone : thread.get? n = none := Option.not_isSome_iff_eq_none.1 ht
    rw [get?_mergeFds, hnone]
    exact hl
  · have hnone : leader.get? n = none := Option.not_isSome_iff_eq_none.1 hl
    rw [get?_mergeFds, ht, hnone]
    rfl
  · rw [get?_mergeFds, ht, hl]
    rfl

/-- Nothing is folded of an empty table. -/
theorem mergeFds_empty (leader : Table Int Fd) : mergeFds leader ∅ = leader := rfl

/-- The counters under a number are those of both tables, as far as there are any. -/
theorem io?_mergeFds (leader thread : Table Int Fd) (n : Int) :
    ((mergeFds leader thread).get? n).map (·.io) =
      Option.merge IoCounts.merge ((leader.get? n).map (·.io)) ((thread.get? n).map (·.io)) := by
  rw [get?_mergeFds]
  cases thread.get? n <;> cases leader.get? n <;> rfl

theorem io?_foldl_mergeFds (threads : List (Table Int Fd)) (leader : Table Int Fd) (n : Int) :
    ((threads.foldl mergeFds leader).get? n).map (·.io) =
      (threads.map fun thread => (thread.get? n).map (·.io)).foldl (Option.merge IoCounts.merge)
        ((leader.get? n).map (·.io)) := by
  induction threads generalizing leader with
  | nil => rfl
  | cons thread rest ih => rw [List.foldl_cons, ih, io?_mergeFds, List.map_cons, List.foldl_cons]

/-- The order in which tables are folded does not show in the counters. -/
theorem io?_foldl_mergeFds_of_perm {threads threads' : List (Table Int Fd)}
    (h : threads'.Perm threads) (leader : Table Int Fd) (n : Int) :
    ((threads'.foldl mergeFds leader).get? n).map (·.io) =
      ((threads.foldl mergeFds leader).get? n).map (·.io) := by
  rw [io?_foldl_mergeFds, io?_foldl_mergeFds]
  exact (h.map _).foldl_op_eq

end Snapshot

/-! ## Events -/

/-- Events that tell of different threads of one leader, which is none of them. -/
structure Event.TellMembers (events : List Event) (pid : Int) : Prop where
  members : ∀ e ∈ events, ∃ tid, e.member? = some (tid, pid) ∧ tid ≠ pid
  distinct : (events.map Event.member?).Nodup

/-- The table of the thread that a snapshot is about. -/
def Event.memberFds (e : Event) (s : State) : Table Int Fd :=
  match e.member? with
  | some (tid, _) => s.fds tid
  | none => ∅

theorem Event.memberFds_of_member? {e : Event} {tid pid : Int} (h : e.member? = some (tid, pid))
    (s : State) : e.memberFds s = s.fds tid := by
  rw [memberFds, h]

namespace Event.TellMembers

variable {events events' : List Event} {e : Event} {pid : Int}

theorem of_perm (h : TellMembers events pid) (hperm : events'.Perm events) :
    TellMembers events' pid :=
  ⟨fun e he => h.members e (hperm.mem_iff.1 he), (hperm.map _).nodup_iff.2 h.distinct⟩

theorem tail (h : TellMembers (e :: events) pid) : TellMembers events pid :=
  ⟨fun e' he' => h.members e' (List.mem_cons_of_mem e he'), h.distinct.of_cons⟩

end Event.TellMembers

namespace Replay

variable {r : Replay} {remaps : List Remap} {e : Event} {events : List Event} {tid pid : Int}

/-- A snapshot of a thread of another's group always folds its table into the leader's. -/
theorem process_member (hr : r.subsystems = Subsystem.standardWith remaps)
    (htold : e.member? = some (tid, pid)) (hne : tid ≠ pid) (hcount : FitsWord (r.processed + 1)) :
    ∃ p, r.process e = .ok p ∧ p.replay.subsystems = Subsystem.standardWith remaps ∧
      p.replay.processed = r.processed + 1 ∧ ∀ k, p.replay.state.fds k =
        if k = pid then Snapshot.mergeFds (r.state.fds pid) (r.state.fds tid)
        else if k = tid then ∅ else r.state.fds k := by
  obtain ⟨hk, ht, hp⟩ := Event.member?_eq_some htold
  obtain ⟨o, ho, -⟩ := Snapshot.aside_processState e r.state
  have hprocess :=
    process_of_update_ok hr hk (Subsystem.effect_snapshot e remaps (Or.inl rfl)) ho hcount
  exact ⟨_, hprocess, hr, rfl, Snapshot.processState_folds ht hp (Ne.symm hne) ho⟩

/-- Snapshots of a leader's threads fold the tables that the threads have before them: each is about a
thread of its own, so none of them sees what another one does. -/
theorem run_members (hr : r.subsystems = Subsystem.standardWith remaps)
    (htold : Event.TellMembers events pid) (hcount : FitsWord (r.processed + events.length)) :
    ∃ p, r.run events = .ok p ∧ p.replay.state.fds pid =
      (events.map (·.memberFds r.state)).foldl Snapshot.mergeFds (r.state.fds pid) := by
  induction events generalizing r with
  | nil => exact ⟨_, rfl, rfl⟩
  | cons e rest ih =>
    obtain ⟨tid, hmember, hne⟩ := htold.members e List.mem_cons_self
    rw [List.length_cons] at hcount
    obtain ⟨first, hfirst, hsubsystems, hprocessed, hfds⟩ := process_member hr hmember hne
      (hcount.of_le (by omega))
    obtain ⟨last, hlast, htable⟩ := ih hsubsystems htold.tail (hcount.of_le (by omega))
    have hothers : ∀ e' ∈ rest, e'.memberFds first.replay.state = e'.memberFds r.state := by
      intro e' he'
      obtain ⟨tid', hmember', hne'⟩ := htold.members e' (List.mem_cons_of_mem e he')
      have hother : tid' ≠ tid := by
        rintro rfl
        have hfresh := (List.nodup_cons.1 htold.distinct).1
        rw [hmember, ← hmember'] at hfresh
        exact hfresh (List.mem_map.2 ⟨e', he', rfl⟩)
      rw [Event.memberFds_of_member? hmember', Event.memberFds_of_member? hmember', hfds,
        if_neg hne', if_neg hother]
    refine ⟨_, run_cons_eq_ok_iff.2 ⟨first, last, hfirst, hlast, rfl⟩, ?_⟩
    rw [htable, List.map_cons, List.foldl_cons, List.map_congr_left hothers, hfds, if_pos rfl,
      Event.memberFds_of_member? hmember]

end Replay

/-! ## Runs -/

namespace Run

variable {settings : Settings} {history : List Step} {r : Replay}

/-- Snapshots of threads fold their tables into those of their leaders, without loss and once only, and
the counters that a leader comes to do not depend on the order of its threads. -/
theorem snapshot_folds (h : Run settings history r) (pid : Int) :
    (∀ (e : Event) (tid : Int), e.member? = some (tid, pid) → tid ≠ pid →
      FitsWord (r.processed + 2) →
      ∃ p q, r.process e = .ok p ∧ p.replay.state.fds tid = ∅ ∧
        FoldedTable (r.state.fds pid) (r.state.fds tid) (p.replay.state.fds pid) ∧
        (∀ k, k ≠ tid → k ≠ pid → p.replay.state.fds k = r.state.fds k) ∧
        p.replay.process e = .ok q ∧ ∀ k, q.replay.state.fds k = p.replay.state.fds k) ∧
    ∀ events events' : List Event, Event.TellMembers events pid → events'.Perm events →
      FitsWord (r.processed + events.length) →
      ∃ p p', r.run events = .ok p ∧ r.run events' = .ok p' ∧
        ∀ n, (p'.replay.state.ownFd? pid n).map (·.io) = (p.replay.state.ownFd? pid n).map (·.io) := by
  obtain ⟨remaps, hr⟩ := h.subsystems
  refine ⟨fun e tid hmember hne hcount => ?_, fun events events' htold hperm hcount => ?_⟩
  · obtain ⟨p, hp, hsubsystems, hprocessed, hfds⟩ := Replay.process_member hr hmember hne
      (hcount.of_le (Nat.le_succ _))
    obtain ⟨q, hq, -, -, hagain⟩ := Replay.process_member hsubsystems hmember hne
      (by rw [hprocessed]; exact hcount)
    have hempty : p.replay.state.fds tid = ∅ := by rw [hfds, if_neg hne, if_pos rfl]
    refine ⟨p, q, hp, hempty, ?_, fun k ht hl => ?_, hq, fun k => ?_⟩
    · rw [hfds, if_pos rfl]
      exact Snapshot.foldedTable_mergeFds ..
    · rw [hfds, if_neg hl, if_neg ht]
    · rw [hagain, hempty, Snapshot.mergeFds_empty]
      by_cases hl : k = pid
      · rw [if_pos hl, hl]
      · rw [if_neg hl]
        by_cases ht : k = tid
        · rw [if_pos ht, ht, hempty]
        · rw [if_neg ht]
  · obtain ⟨p, hp, hfds⟩ := Replay.run_members hr htold hcount
    obtain ⟨p', hp', hfds'⟩ := Replay.run_members hr (htold.of_perm hperm)
      (by rw [hperm.length_eq]; exact hcount)
    refine ⟨p, p', hp, hp', fun n => ?_⟩
    rw [State.ownFd?, State.ownFd?, hfds, hfds']
    exact Snapshot.io?_foldl_mergeFds_of_perm (hperm.map _) _ n

/-- Two threads and their leader move bytes before it is known who leads them. -/
def unledThreads : List Event :=
  [.recorded 0 10 "sched_switch" [("prev_tid", .signed 0), ("next_tid", .signed 7)],
   .recorded 0 20 "syscall_entry_write" [("fd", .signed 3), ("count", .unsigned 64)],
   .recorded 0 30 "syscall_exit_write" [("ret", .signed 64)],
   .recorded 0 40 "sched_switch" [("prev_tid", .signed 7), ("next_tid", .signed 8)],
   .recorded 0 50 "syscall_entry_write" [("fd", .signed 3), ("count", .unsigned 16)],
   .recorded 0 60 "syscall_exit_write" [("ret", .signed 16)],
   .recorded 0 70 "sched_switch" [("prev_tid", .signed 8), ("next_tid", .signed 5)],
   .recorded 0 80 "syscall_entry_read" [("fd", .signed 3), ("count", .unsigned 32)],
   .recorded 0 90 "syscall_exit_read" [("ret", .signed 32)]]

/-- A snapshot tells that a thread is in the group of the leader. -/
def toldMember (tid : Int64) : Event :=
  .recorded 0 100 "lttng_statedump_process_state" [("tid", .signed tid), ("pid", .signed 5)]

/-- The leader comes to the bytes of all three, whatever thread is told of first. -/
theorem snapshot_folds_unledThreads : ∃ history r p q q', Run {} history r ∧
    r.process (toldMember 7) = .ok p ∧ p.replay.state.fds 7 = ∅ ∧
    (∃ fd, p.replay.state.ownFd? 5 3 = some fd ∧ fd.io.amount .write .total = 64 ∧
      fd.io.amount .read .total = 32) ∧
    r.run [toldMember 7, toldMember 8] = .ok q ∧ r.run [toldMember 8, toldMember 7] = .ok q' ∧
    (q'.replay.state.ownFd? 5 3).map (·.io) = (q.replay.state.ownFd? 5 3).map (·.io) := by
  have hshows : Replay.showsSteps {} unledThreads (fun _ r =>
      r.processed = 9 ∧
      r.state.ownFd? 5 3 = some { number := 3, io := { read := { total := 32, other := 32 } } } ∧
      r.state.ownFd? 7 3 = some { number := 3, io := { write := { total := 64, other := 64 } } }) =
        true := by
    decide +kernel
  obtain ⟨history, r, h, htest⟩ := Run.of_showsSteps hshows
  obtain ⟨hcount, hleader, hthread⟩ := of_decide_eq_true htest
  have hseven : (toldMember 7).member? = some (7, 5) := by decide +kernel
  have height : (toldMember 8).member? = some (8, 5) := by decide +kernel
  have hmembers : Event.TellMembers [toldMember 7, toldMember 8] 5 := by
    refine ⟨fun e he => ?_, by decide +kernel⟩
    rcases List.mem_cons.1 he with rfl | he
    · exact ⟨7, hseven, by decide⟩
    · rw [List.mem_singleton.1 he]
      exact ⟨8, height, by decide⟩
  obtain ⟨hsingle, horder⟩ := snapshot_folds h 5
  obtain ⟨p, -, hp, hempty, hfolded, -⟩ :=
    hsingle (toldMember 7) 7 hseven (by decide) (by rw [hcount]; decide)
  obtain ⟨q, q', hq, hq', hsame⟩ := horder _ _ hmembers
    (List.Perm.swap (toldMember 7) (toldMember 8) []) (by rw [hcount]; decide)
  obtain ⟨fd, hfd, hboth⟩ := hfolded.ofBoth 3 _ _ hleader hthread
  exact ⟨history, r, p, q, q', h, hp, hempty,
    ⟨fd, hfd, by rw [hboth.amount]; decide, by rw [hboth.amount]; decide⟩, hq, hq', hsame 3⟩

end Run

end KernelReplay
