import Mathlib
import KernelReplay.Proofs.DescriptorViews

/-
  Bytes are counted in total and by what their descriptor referred to. The total is the sum of its
  parts, or the greatest word where that sum does not fit one, also after a part has stopped counting
  and after tallies were merged (`Tally.Splits.add`, `Tally.Splits.merge`): a counter stops only once
  the sum has passed the greatest word, and it never counts down. No rule touches one of the four
  counters alone, so it is so for every thread and every descriptor of a state, and for every
  descriptor that a run tells of (`Run.bytes_split`).
-/

namespace KernelReplay

open Law Update

/-! ## Tallies -/

/-- The total is the sum of the parts, as far as a counter reaches. -/
def Tally.Splits (t : Tally) : Prop := t.total = min maxWord (t.net + t.disk + t.other)

namespace Tally

variable {t u : Tally}

theorem splits_empty : Tally.Splits {} := rfl

theorem Splits.add (h : t.Splits) (type : FdType) (bytes : Nat) : (t.add type bytes).Splits := by
  unfold Splits at h ⊢
  cases type <;> simp only [Tally.add, saturatingAdd] <;> omega

theorem Splits.merge (h : t.Splits) (h' : u.Splits) : (t.merge u).Splits := by
  unfold Splits at h h' ⊢
  simp only [Tally.merge, saturatingAdd]
  omega

end Tally

/-- The bytes read and those written are each split by descriptor. -/
structure IoCounts.Split (c : IoCounts) : Prop where
  read : c.read.Splits
  write : c.write.Splits

namespace IoCounts

variable {c d : IoCounts}

theorem split_empty : IoCounts.Split {} := ⟨Tally.splits_empty, Tally.splits_empty⟩

theorem Split.addRead (h : c.Split) (type : FdType) (bytes : Nat) : (c.addRead type bytes).Split :=
  ⟨h.read.add type bytes, h.write⟩

theorem Split.addWrite (h : c.Split) (type : FdType) (bytes : Nat) : (c.addWrite type bytes).Split :=
  ⟨h.read, h.write.add type bytes⟩

theorem Split.merge (h : c.Split) (h' : d.Split) : (c.merge d).Split :=
  ⟨h.read.merge h'.read, h.write.merge h'.write⟩

end IoCounts

/-! ## Tables and states -/

/-- The counts of every descriptor of a table are split. -/
def TableSplit (fds : Table Int Fd) : Prop := ∀ number fd, fds.get? number = some fd → fd.io.Split

namespace TableSplit

variable {fds : Table Int Fd}

theorem empty : TableSplit ∅ := fun _ _ h => by cases h

theorem insert (h : TableSplit fds) (number : Int) {fd : Fd} (hfd : fd.io.Split) :
    TableSplit (fds.insert number fd) := by
  intro n fd' hget
  rw [Table.get?_insert] at hget
  split at hget
  · rwa [← Option.some.inj hget]
  · exact h n fd' hget

theorem erase (h : TableSplit fds) (number : Int) : TableSplit (fds.erase number) := by
  intro n fd hget
  rw [Table.get?_erase] at hget
  split at hget
  · cases hget
  · exact h n fd hget

/-- Where a leader's entry takes in a thread's, the counts of both are merged. -/
theorem mergeFds {leader thread : Table Int Fd} (hl : TableSplit leader) (ht : TableSplit thread) :
    TableSplit (Snapshot.mergeFds leader thread) := by
  intro n fd hget
  rw [Snapshot.get?_mergeFds] at hget
  cases hthread : thread.get? n with
  | none =>
    rw [hthread] at hget
    exact hl n fd hget
  | some other =>
    rw [hthread] at hget
    cases hleader : leader.get? n with
    | none =>
      rw [hleader] at hget
      rw [← Option.some.inj hget]
      exact ht n other hthread
    | some own =>
      rw [hleader] at hget
      rw [← Option.some.inj hget]
      exact (hl n own hleader).merge (ht n other hthread)

/-- The descriptors of a forked child have moved nothing. -/
theorem child (e : Event) (tid : Int) (inherited : Table Int Fd) :
    TableSplit (Scheduling.child e tid inherited).fds := by
  intro n fd hget
  obtain ⟨fd', -, rfl⟩ := Option.map_eq_some_iff.1 ((Table.get?_map ..).symm.trans hget)
  exact IoCounts.split_empty

end TableSplit

/-- What threads hold is split: their own counts and those of their descriptors. -/
structure State.BytesSplit (s : State) : Prop where
  threads : ∀ tid, (s.holdings tid).io.Split
  fds : ∀ tid, TableSplit (s.holdings tid).fds

/-- The counts of a descriptor that a notification tells of are split. -/
def Notification.FdSplit : Notification → Prop
  | .fd _ told _ _ _ => told.io.Split
  | _ => True

namespace State.BytesSplit

variable {s : State} (h : s.BytesSplit) {tid : Int} {thread : Thread}

include h

theorem of_atRest_eq {s' : State} (hkept : s'.atRest = s.atRest) : s'.BytesSplit := by
  constructor
  · intro k
    rw [State.io_of_atRest_eq hkept]
    exact h.threads k
  · intro k
    rw [State.fds_of_atRest_eq hkept]
    exact h.fds k

theorem io_of_thread? (ht : s.thread? tid = some thread) : thread.io.Split := by
  have hio := h.threads tid
  rwa [State.holdings_of_thread? ht] at hio

theorem fds_of_thread? (ht : s.thread? tid = some thread) : TableSplit thread.fds := by
  have hfds := h.fds tid
  rwa [State.holdings_of_thread? ht] at hfds

theorem setThread {t : Thread} (hio : t.io.Split) (hfds : TableSplit t.fds) :
    (s.setThread tid t).BytesSplit := by
  constructor
  · intro k
    rw [State.holdings_setThread]
    split
    · exact hio
    · exact h.threads k
  · intro k
    rw [State.holdings_setThread]
    split
    · exact hfds
    · exact h.fds k

theorem setFds (ht : s.thread? tid = some thread) {fds : Table Int Fd} (hfds : TableSplit fds) :
    (s.setThread tid { thread with fds }).BytesSplit := by
  have hio := h.io_of_thread? ht
  exact h.setThread hio hfds

theorem countSide (owner : Int) (side : Option Int) {onFd : Fd → Fd}
    {onThread : FdType → IoCounts → IoCounts} (hfd : ∀ fd, fd.io.Split → (onFd fd).io.Split)
    (hthread : ∀ type io, io.Split → (onThread type io).Split) :
    (IoRequests.countSide owner tid side onFd onThread s).BytesSplit := by
  rcases IoRequests.countSide_cases owner tid side onFd onThread s with
    hs | ⟨number, leader, fd, -, hl, hget, hs⟩
  · rwa [hs]
  · rw [hs]
    have hfds := h.fds_of_thread? hl
    have hset := h.setFds hl (hfds.insert number (hfd fd (hfds number fd hget)))
    generalize s.setThread owner _ = s₁ at hset
    cases ht : s₁.thread? tid with
    | none => rwa [State.adjustThread_of_none ht]
    | some t =>
      have hio := hthread (onFd fd).type t.io (hset.io_of_thread? ht)
      have hkept := hset.fds_of_thread? ht
      rw [State.adjustThread_eq_setThread ht]
      exact hset.setThread hio hkept

theorem counted {limit : Nat} {s' : State} (hc : Counted limit s s') : s'.BytesSplit := by
  rcases hc with rfl | ⟨t, tid, owner, bytes, hret, -, -, rfl⟩
  · exact h
  · unfold IoRequests.countBytes
    rw [hret]
    refine (h.countSide owner t.readSide (fun fd hfd => ?_) fun type io hio => ?_).countSide owner
      t.writeSide (fun fd hfd => ?_) fun type io hio => ?_
    · exact hfd.addRead fd.type bytes
    · exact hio.addRead type bytes
    · -- A guess of the type leaves the counts alone.
      rw [← fd.io_guessed t.guess] at hfd
      exact hfd.addWrite _ bytes
    · exact hio.addWrite type bytes

end State.BytesSplit

/-! ## Runs -/

/-- What is split stays so, and so is what is told of. -/
def Law.splitsKept : Law where
  rel s l s' := s.BytesSplit → s'.BytesSplit ∧ ∀ n ∈ notificationsOf l, n.FdSplit
  idle s h := ⟨h, by simp⟩
  chain h h' hs := by
    obtain ⟨hs₂, hn⟩ := h hs
    obtain ⟨hs₃, hn'⟩ := h' hs₂
    rw [notificationsOf_append, List.forall_mem_append]
    exact ⟨hs₃, hn, hn'⟩

theorem Notification.fdSplit_of_not_tellsTables {n : Notification} (h : ¬ n.TellsTables) :
    n.FdSplit := by
  cases n
  case fd => exact (h trivial).elim
  all_goals trivial

theorem splitsKept_tableLaw : TableLaw splitsKept where
  rest h hs := ⟨hs.of_atRest_eq h.1, fun n hn => Notification.fdSplit_of_not_tellsTables (h.2 n hn)⟩
  create {s owner} fd time cpu _ hio hs := by
    have hfd : fd.io.Split := hio ▸ IoCounts.split_empty
    refine ⟨hs.setThread (hs.threads owner) ((hs.fds owner).insert fd.number hfd), ?_⟩
    simpa [Notification.FdSplit] using hfd
  alter ht hf _ hio hs := by
    have hfd := hs.fds_of_thread? ht _ _ hf
    rw [← hio] at hfd
    exact ⟨hs.setFds ht ((hs.fds_of_thread? ht).insert _ hfd), by simp⟩
  update ht hf hs :=
    ⟨hs, by simpa [Notification.FdSplit] using hs.fds_of_thread? ht _ _ hf⟩
  close ht hf hs :=
    ⟨hs.setFds ht ((hs.fds_of_thread? ht).erase _), by
      simpa [Notification.FdSplit] using hs.fds_of_thread? ht _ _ hf⟩
  merge {s tid pid t p} ht hp hne hs := by
    have hp₁ : (s.setThread tid { t with fds := ∅ }).thread? pid = some p := by
      rw [State.thread?_setThread, if_neg hne.symm, hp]
    have hmerged := (hs.fds_of_thread? hp).mergeFds (hs.fds_of_thread? ht)
    exact ⟨(hs.setFds ht TableSplit.empty).setFds hp₁ hmerged, by simp [Notification.FdSplit]⟩

namespace Run

variable {settings : Settings} {history : List Step} {r : Replay} {e : Event} {p : Replay.Progress}

theorem splitsKept_step (h : Run settings history r) (hp : r.process e = .ok p) :
    splitsKept.rel r.state p.signals p.replay.state := by
  intro hs
  rcases h.tableStep splitsKept_tableLaw hp with
    ⟨-, s₁, s₂, l₁, l₂, h₁, hc, h₂, hl⟩ | ⟨tid, s₁, owner, thread, d, -, hq, ht, hstate, hl⟩
  · obtain ⟨hs₁, hn₁⟩ := h₁ hs
    obtain ⟨hs₃, hn₂⟩ := h₂ (hs₁.counted hc)
    rw [hl, notificationsOf_append, List.forall_mem_append]
    exact ⟨hs₃, hn₁, hn₂⟩
  · obtain ⟨hs₁, -⟩ := splitsKept_tableLaw.rest (tablesKept_of_quiet hq) hs
    have hfds : TableSplit thread.fds := ht ▸ TableSplit.child e tid (s₁.fds owner)
    have hio : thread.io.Split := ht ▸ IoCounts.split_empty
    rw [hstate, hl, notificationsOf_diagnostic, notificationsOf_map]
    refine ⟨hs₁.setThread hio hfds, fun n hn => ?_⟩
    obtain ⟨q, hq, rfl⟩ := List.mem_map.1 hn
    exact hfds q.1 q.2 (Table.mem_toList_iff.1 hq)

theorem bytesSplit (h : Run settings history r) : r.state.BytesSplit := by
  induction h with
  | start =>
    have hblank : ∀ tid, (Replay.ofSettings settings).state.holdings tid = .blank tid :=
      fun tid => State.holdings_of_none rfl
    constructor
    · intro tid
      rw [hblank]
      exact IoCounts.split_empty
    · intro tid
      rw [hblank]
      exact TableSplit.empty
  | next h hp ih => exact (h.splitsKept_step hp ih).1

/-- In every reachable state, for every thread and every descriptor, and for every descriptor that was
told of on the way, the bytes moved in a direction are those moved through descriptors of each type
together, or the greatest word where these are more. -/
theorem bytes_split (h : Run settings history r) :
    (∀ tid thread, r.state.thread? tid = some thread → thread.io.Split ∧
      ∀ number fd, thread.fds.get? number = some fd → fd.io.Split) ∧
    ∀ step ∈ history, ∀ change fd owner time cpu,
      .fd change fd owner time cpu ∈ notificationsOf step.signals → fd.io.Split := by
  refine ⟨fun tid thread ht => ⟨h.bytesSplit.io_of_thread? ht, h.bytesSplit.fds_of_thread? ht⟩, ?_⟩
  induction h with
  | start => simp
  | next h hp ih =>
    intro step hmem
    rcases List.mem_append.1 hmem with hmem | hmem
    · exact ih step hmem
    · rw [List.mem_singleton.1 hmem]
      exact fun change fd owner time cpu hn => (h.splitsKept_step hp h.bytesSplit).2 _ hn

/-- A thread reads as much as a result can tell, twice from a file and twice from a socket. -/
def greedyReader : List Event :=
  let read (time : Int64) (fd : Int64) : List Event :=
    [.recorded 0 time "syscall_entry_read" [("fd", .signed fd)],
     .recorded 0 time "syscall_exit_read" [("ret", .signed 0x7FFF_FFFF_FFFF_FFFF)]]
  [.recorded 0 10 "sched_switch" [("prev_tid", .signed 0), ("next_tid", .signed 7)],
   .recorded 0 20 "syscall_entry_open" [("filename", .text "/dev/zero")],
   .recorded 0 30 "syscall_exit_open" [("ret", .signed 3)],
   .recorded 0 40 "syscall_entry_socket" [("family", .signed 2)],
   .recorded 0 50 "syscall_exit_socket" [("ret", .signed 4)]] ++
    read 60 3 ++ read 70 4 ++ read 80 4 ++ read 90 3 ++ read 100 4

theorem bytes_split_greedyReader : ∃ history r thread, Run {} history r ∧
    r.state.thread? 7 = some thread ∧ thread.io.read.net = maxWord ∧
    thread.io.read.disk = 0xFFFF_FFFF_FFFF_FFFE ∧ thread.io.read.total = maxWord ∧
    thread.io.Split := by
  have hgives : Replay.gives {} greedyReader (fun q => (q.replay.state.thread? 7).any fun t =>
      t.io.read.net = maxWord ∧ t.io.read.disk = 0xFFFF_FFFF_FFFF_FFFE ∧
        t.io.read.total = maxWord) = true := by decide +kernel
  obtain ⟨history, q, h, -, -, htest⟩ := Run.of_gives hgives
  obtain ⟨thread, ht, hcounts⟩ := (Option.any_eq_true ..).1 htest
  obtain ⟨hnet, hdisk, htotal⟩ := of_decide_eq_true hcounts
  exact ⟨history, q.replay, thread, h, ht, hnet, hdisk, htotal, (bytes_split h).1 7 thread ht |>.1⟩

end Run

end KernelReplay
