import Mathlib
import KernelReplay.Proofs.ByteTotals
import KernelReplay.Proofs.TableSteps

/-
  Bytes are counted twice, for the thread that moves them and for the descriptor that they move
  through, and neither count is lost: in each counter the threads' bytes are those of the
  descriptors there are and of the descriptors that were closed (`Run.bytes_conserved`). Nothing but
  the exit of a transfer counts, and it counts the same for both (`adds_counted`); every other
  change to a table keeps the sum or closes a descriptor, as long as no counter is at its end
  (`Law.balanced`).
-/

namespace KernelReplay

open Law Update

/-- The bytes that a counter of closed descriptors held when their closing was announced. -/
def closedBytes (d : Direction) (p : Portion) (l : List Signal) : Nat :=
  ((notificationsOf l).map fun
    | .fd .close fd _ _ _ => fd.io.amount d p
    | _ => 0).sum

section Closed

variable (d : Direction) (p : Portion)

theorem closedBytes_append (l m : List Signal) :
    closedBytes d p (l ++ m) = closedBytes d p l + closedBytes d p m := by
  unfold closedBytes
  rw [notificationsOf_append, List.map_append, List.sum_append]

theorem closedBytes_of_not_tellsTables {l : List Signal}
    (h : ∀ n ∈ notificationsOf l, ¬ n.TellsTables) : closedBytes d p l = 0 := by
  unfold closedBytes
  refine List.sum_eq_zero fun b hb => ?_
  obtain ⟨n, hn, rfl⟩ := List.mem_map.1 hb
  split
  · exact (h _ hn trivial).elim
  · rfl

theorem closedBytes_creates (owner : Thread) (time : Int) (cpu : Option Nat) (l : List (Int × Fd)) :
    closedBytes d p (l.map fun q => .notification (.fd .create q.2 owner time cpu)) = 0 := by
  unfold closedBytes
  rw [notificationsOf_map]
  refine List.sum_eq_zero fun b hb => ?_
  rw [List.map_map] at hb
  obtain ⟨q, -, rfl⟩ := List.mem_map.1 hb
  rfl

end Closed

/-! ## Merging tables -/

section Merging

variable {d : Direction} {p : Portion}

/-- Folding descriptors into a table adds up their bytes, as long as no counter is at its end. -/
theorem tableBytes_foldl_absorbAt {l : List (Int × Fd)} {leader : Table Int Fd}
    (h : tableBytes d p leader + (l.map fun q => q.2.io.amount d p).sum ≤ maxWord) :
    tableBytes d p (l.foldl Snapshot.absorbAt leader) =
      tableBytes d p leader + (l.map fun q => q.2.io.amount d p).sum := by
  induction l generalizing leader with
  | nil => rfl
  | cons q rest ih =>
    rw [List.map_cons, List.sum_cons] at h ⊢
    have hone : tableBytes d p (Snapshot.absorbAt leader q) =
        tableBytes d p leader + q.2.io.amount d p := by
      have hins := tableBytes_insert (d := d) (p := p) leader q.1
        (((leader.get? q.1).map (·.absorb q.2)).getD q.2)
      unfold Snapshot.absorbAt
      cases hown : leader.get? q.1 with
      | none =>
        rw [hown, Table.weight_of_none hown] at hins
        exact hins
      | some own =>
        rw [hown, Table.weight_of_some hown] at hins
        have hle : own.io.amount d p ≤ tableBytes d p leader := amount_le_tableBytes hown
        have habsorb : (own.absorb q.2).io.amount d p = own.io.amount d p + q.2.io.amount d p := by
          show (own.io.merge q.2.io).amount d p = _
          rw [IoCounts.amount_merge, saturatingAdd]
          omega
        rw [Option.map_some, Option.getD_some, habsorb] at hins
        rw [Option.map_some, Option.getD_some]
        omega
    rw [List.foldl_cons, ih (by rw [hone]; omega), hone]
    omega

theorem tableBytes_mergeFds {leader thread : Table Int Fd}
    (h : tableBytes d p leader + tableBytes d p thread ≤ maxWord) :
    tableBytes d p (Snapshot.mergeFds leader thread) =
      tableBytes d p leader + tableBytes d p thread := by
  have hlist : tableBytes d p thread = (thread.toList.map fun q => q.2.io.amount d p).sum := by
    unfold tableBytes Table.sum Table.values Table.toList
    rw [List.map_map]
    rfl
  rw [Snapshot.mergeFds_eq_foldl]
  rw [hlist] at h ⊢
  exact tableBytes_foldl_absorbAt h

end Merging

/-! ## Changes that count nothing -/

/-- As long as no counter is at its end, the bytes of threads stay and those of descriptors stay or
are closed. -/
def Law.balanced (d : Direction) (p : Portion) : Law where
  rel s l s' := s.fdBytes d p ≤ maxWord → s'.threadBytes d p = s.threadBytes d p ∧
    s'.fdBytes d p + closedBytes d p l = s.fdBytes d p
  idle s _ := ⟨rfl, rfl⟩
  chain h h' hmax := by
    obtain ⟨ht, hf⟩ := h hmax
    obtain ⟨ht', hf'⟩ := h' (by omega)
    rw [closedBytes_append]
    exact ⟨ht'.trans ht, by omega⟩

section Balanced

variable {d : Direction} {p : Portion} {s : State}

/-- A change to one table is balanced if what the table loses is closed. -/
theorem balanced_setFds {tid : Int} {thread : Thread} {fds : Table Int Fd} {l : List Signal}
    (ht : s.thread? tid = some thread)
    (h : tableBytes d p fds + closedBytes d p l = tableBytes d p thread.fds) :
    (balanced d p).rel s l (s.setThread tid { thread with fds }) := by
  intro _
  refine ⟨State.threadBytes_setFds ht fds, ?_⟩
  have hset := State.fdBytes_setFds (d := d) (p := p) ht fds
  omega

theorem balanced_create {owner : Int} {fd : Fd} (time : Int) (cpu : Option Nat)
    (hnone : s.ownFd? owner fd.number = none) (hio : fd.io = {}) :
    (balanced d p).rel s [.notification (.fd .create fd (Descriptors.withFd s owner fd) time cpu)]
      (s.setThread owner (Descriptors.withFd s owner fd)) := by
  intro _
  constructor
  · exact State.threadBytes_setThread_of_io rfl
  · have hset := State.fdBytes_setThread (d := d) (p := p) s owner (Descriptors.withFd s owner fd)
    have hins := tableBytes_insert (d := d) (p := p) (s.holdings owner).fds fd.number fd
    rw [State.ownFd?, State.fds_eq_holdings] at hnone
    rw [Table.weight_of_none hnone, hio, IoCounts.amount_empty] at hins
    have hset : (s.setThread owner (Descriptors.withFd s owner fd)).fdBytes d p +
        tableBytes d p (s.holdings owner).fds =
          s.fdBytes d p + tableBytes d p ((s.holdings owner).fds.insert fd.number fd) := hset
    have hclosed : closedBytes d p
        [.notification (.fd .create fd (Descriptors.withFd s owner fd) time cpu)] = 0 := rfl
    omega

theorem balanced_alter {owner number : Int} {thread : Thread} {fd fd' : Fd}
    (ht : s.thread? owner = some thread) (hf : thread.fds.get? number = some fd)
    (hio : fd'.io = fd.io) :
    (balanced d p).rel s []
      (s.setThread owner { thread with fds := thread.fds.insert number fd' }) := by
  refine balanced_setFds ht ?_
  have hins := tableBytes_insert (d := d) (p := p) thread.fds number fd'
  rw [Table.weight_of_some hf, hio] at hins
  have hclosed : closedBytes d p [] = 0 := rfl
  omega

theorem balanced_close {owner number : Int} {thread : Thread} {fd : Fd} (time : Int)
    (cpu : Option Nat) (ht : s.thread? owner = some thread)
    (hf : thread.fds.get? number = some fd) :
    (balanced d p).rel s [.notification (.fd .close fd thread time cpu)]
      (s.setThread owner { thread with fds := thread.fds.erase number }) := by
  refine balanced_setFds ht ?_
  have hclosed : closedBytes d p [.notification (.fd .close fd thread time cpu)] =
      fd.io.amount d p := Nat.add_zero _
  rw [hclosed]
  exact tableBytes_erase hf

theorem balanced_merge {tid pid : Int} {t q : Thread} (ht : s.thread? tid = some t)
    (hq : s.thread? pid = some q) (hne : tid ≠ pid) :
    (balanced d p).rel s
      [.notification (.createParent { t with fds := ∅ }
        { q with fds := Snapshot.mergeFds q.fds t.fds })]
      ((s.setThread tid { t with fds := ∅ }).setThread pid
        { q with fds := Snapshot.mergeFds q.fds t.fds }) := by
  intro hmax
  have hq₁ : (s.setThread tid { t with fds := ∅ }).thread? pid = some q := by
    rw [State.thread?_setThread, if_neg hne.symm, hq]
  -- The thread's table is emptied first, so both tables fit into what there was.
  have hempty := State.fdBytes_setFds (d := d) (p := p) ht ∅
  have hnothing : tableBytes d p ∅ = 0 := rfl
  have hle := State.tableBytes_le_fdBytes (d := d) (p := p) hq₁
  have hmerge : tableBytes d p (Snapshot.mergeFds q.fds t.fds) =
      tableBytes d p q.fds + tableBytes d p t.fds := tableBytes_mergeFds (by omega)
  have hset := State.fdBytes_setFds (d := d) (p := p) hq₁ (Snapshot.mergeFds q.fds t.fds)
  have hclosed : closedBytes d p [.notification (.createParent { t with fds := ∅ }
      { q with fds := Snapshot.mergeFds q.fds t.fds })] = 0 := rfl
  constructor
  · rw [State.threadBytes_setFds hq₁, State.threadBytes_setFds ht]
  · omega

theorem balanced_of_atRest_eq {s' : State} {l : List Signal} (h : s'.atRest = s.atRest)
    (hn : ∀ n ∈ notificationsOf l, ¬ n.TellsTables) : (balanced d p).rel s l s' := by
  intro _
  constructor
  · exact State.threadBytes_congr fun k => by rw [State.io_of_atRest_eq h]
  · rw [closedBytes_of_not_tellsTables d p hn, Nat.add_zero]
    exact State.fdBytes_congr fun k => by rw [State.fds_of_atRest_eq h]

theorem balanced_tableLaw (d : Direction) (p : Portion) : TableLaw (balanced d p) where
  rest h := balanced_of_atRest_eq h.1 h.2
  create _ time cpu hnone hio := balanced_create time cpu hnone hio
  alter ht hf _ hio := balanced_alter ht hf hio
  update _ _ := fun _ => ⟨rfl, rfl⟩
  close ht hf := balanced_close _ _ ht hf
  merge ht hq hne := balanced_merge ht hq hne

end Balanced

/-! ## Transfers and forks -/

section Counting

variable {d : Direction} {p : Portion} {s : State} {tid : Int}

/-- What counting adds to a state: the same for threads as for descriptors. -/
structure Adds (d : Direction) (p : Portion) (s s' : State) (bytes : Nat) : Prop where
  threads : s'.threadBytes d p = s.threadBytes d p + bytes
  fds : s'.fdBytes d p = s.fdBytes d p + bytes

theorem Adds.zero (d : Direction) (p : Portion) (s : State) : Adds d p s s 0 := ⟨rfl, rfl⟩

/-- Counting one side of a transfer adds a share of its bytes, the same to its descriptor and to its
thread. -/
theorem adds_countSide (owner : Int) (side : Option Int) (onFd : Fd → Fd)
    (onThread : FdType → IoCounts → IoCounts) {share : FdType → Nat} {bound : Nat}
    (hshare : ∀ type, share type ≤ bound)
    (hfd : ∀ fd, fd.io.amount d p + share (onFd fd).type ≤ maxWord →
      (onFd fd).io.amount d p = fd.io.amount d p + share (onFd fd).type)
    (hthread : ∀ type io, io.amount d p + share type ≤ maxWord →
      (onThread type io).amount d p = io.amount d p + share type)
    (hknown : s.Knows tid)
    (ht : s.threadBytes d p + bound ≤ maxWord) (hf : s.fdBytes d p + bound ≤ maxWord) :
    ∃ bytes ≤ bound, Adds d p s (IoRequests.countSide owner tid side onFd onThread s) bytes := by
  rcases IoRequests.countSide_cases owner tid side onFd onThread s with
    hs | ⟨number, thread, fd, -, howner, hget, hs⟩
  · rw [hs]
    exact ⟨0, Nat.zero_le _, Adds.zero d p s⟩
  · rw [hs]
    have hle := hshare (onFd fd).type
    refine ⟨share (onFd fd).type, hle, ?_⟩
    have hfdle := amount_le_tableBytes (d := d) (p := p) hget
    have htable := State.tableBytes_le_fdBytes (d := d) (p := p) howner
    have hfd := hfd fd (by omega)
    have hins := tableBytes_insert (d := d) (p := p) thread.fds number (onFd fd)
    rw [Table.weight_of_some hget] at hins
    have hset := State.fdBytes_setFds (d := d) (p := p) howner (thread.fds.insert number (onFd fd))
    have hkeep := State.threadBytes_setFds (d := d) (p := p) howner
      (thread.fds.insert number (onFd fd))
    -- The thread that counts is still known, be it the owner of the table or not.
    obtain ⟨t, htid⟩ := hknown.setThread owner
      { thread with fds := thread.fds.insert number (onFd fd) }
    have hio := State.amount_le_threadBytes (d := d) (p := p) htid
    have hthread := hthread (onFd fd).type t.io (by omega)
    rw [State.adjustThread_eq_setThread htid]
    have hsetIo := State.threadBytes_setIo (d := d) (p := p) htid (onThread (onFd fd).type t.io)
    have hkeepIo := State.fdBytes_setIo (d := d) (p := p) htid (onThread (onFd fd).type t.io)
    exact ⟨by omega, by omega⟩

/-- A finished transfer adds at most its bytes to a counter, as it counts them in one direction. -/
theorem adds_counted {limit : Nat} {s s' : State} (h : Counted limit s s')
    (ht : s.threadBytes d p + limit ≤ maxWord) (hf : s.fdBytes d p + limit ≤ maxWord) :
    ∃ bytes ≤ limit, Adds d p s s' bytes := by
  rcases h with rfl | ⟨t, tid, owner, bytes, hret, hlimit, hknown, rfl⟩
  · exact ⟨0, Nat.zero_le _, Adds.zero d p s'⟩
  · have hone : (if d = .read then bytes else 0) + (if d = .write then bytes else 0) = bytes := by
      cases d <;> simp
    unfold IoRequests.countBytes
    rw [hret]
    dsimp only
    obtain ⟨moved, hmoved, hadds⟩ := adds_countSide (d := d) (p := p) owner t.readSide
      (·.countRead bytes) (fun type io => io.addRead type bytes)
      (fun type => IoCounts.readShare_le d p type bytes)
      (fun fd h => IoCounts.amount_addRead h) (fun type io h => IoCounts.amount_addRead h)
      hknown (by omega) (by omega)
    obtain ⟨ht₁, hf₁⟩ := hadds
    have hknown₁ := known_countSide owner tid t.readSide (·.countRead bytes)
      (fun type io => io.addRead type bytes) hknown
    obtain ⟨moved', hmoved', hadds'⟩ := adds_countSide (d := d) (p := p) owner t.writeSide
      (fun fd => (fd.guessed t.guess).countWrite bytes) (fun type io => io.addWrite type bytes)
      (fun type => IoCounts.writeShare_le d p type bytes)
      (fun fd h => by
        rw [← fd.io_guessed t.guess] at h ⊢
        exact IoCounts.amount_addWrite h)
      (fun type io h => IoCounts.amount_addWrite h)
      hknown₁ (by omega) (by omega)
    obtain ⟨ht₂, hf₂⟩ := hadds'
    exact ⟨moved + moved', by omega, by omega, by omega⟩

/-- A thread that was not known brings no bytes in with copied descriptors. -/
theorem adds_fork {s s₁ : State} (e : Event) (owner : Int) (hq : quiet.rel s [] s₁)
    (hnew : s.thread? tid = none) :
    Adds d p s (s₁.setThread tid (Scheduling.child e tid (s₁.fds owner))) 0 := by
  have hh : s₁.holdings = s.holdings := hq.2.1
  have hblank : s₁.holdings tid = .blank tid := by rw [hh, State.holdings_of_none hnew]
  have hcopies : tableBytes d p (Scheduling.child e tid (s₁.fds owner)).fds = 0 := by
    unfold tableBytes Table.sum Table.values
    refine List.sum_eq_zero fun b hb => ?_
    obtain ⟨fd, hfd, rfl⟩ := List.mem_map.1 hb
    obtain ⟨q, hq, rfl⟩ := List.mem_map.1 hfd
    obtain ⟨q', -, rfl⟩ := List.mem_map.1 hq
    exact IoCounts.amount_empty d p
  have hthreads := State.threadBytes_setThread (d := d) (p := p) s₁ tid
    (Scheduling.child e tid (s₁.fds owner))
  have hfds := State.fdBytes_setThread (d := d) (p := p) s₁ tid
    (Scheduling.child e tid (s₁.fds owner))
  rw [hblank, State.io_blank] at hthreads
  rw [hblank, State.tableBytes_blank, hcopies] at hfds
  have hio : (Scheduling.child e tid (s₁.fds owner)).io.amount d p = 0 := IoCounts.amount_empty d p
  have hkept : s₁.threadBytes d p = s.threadBytes d p := State.threadBytes_congr fun k => by rw [hh]
  have hkept' : s₁.fdBytes d p = s.fdBytes d p := State.fdBytes_congr fun k => by rw [hh]
  exact ⟨by omega, by omega⟩

end Counting

namespace Run

variable {settings : Settings} {history : List Step} {r : Replay} {d : Direction} {p : Portion}

/-- An event adds the same to the bytes of threads as to those of descriptors, open or closed by it,
and no more than its syscall returned. -/
theorem bytes_step {e : Event} {q : Replay.Progress} (h : Run settings history r)
    (hq : r.process e = .ok q)
    (hnew : ∀ child, e.forked? = some child → r.state.thread? child = none)
    (ht : r.state.threadBytes d p + e.returned ≤ maxWord)
    (hf : r.state.fdBytes d p ≤ r.state.threadBytes d p) :
    ∃ bytes ≤ e.returned, q.replay.state.threadBytes d p = r.state.threadBytes d p + bytes ∧
      q.replay.state.fdBytes d p + closedBytes d p q.signals = r.state.fdBytes d p + bytes := by
  rcases h.tableStep (balanced_tableLaw d p) hq with
    ⟨-, s₁, s₂, l₁, l₂, h₁, hc, h₂, hl⟩ |
    ⟨child, s₁, owner, thread, report, hfork, hquiet, hthread, hstate, hl⟩
  · obtain ⟨ht₁, hf₁⟩ := h₁ (by omega)
    obtain ⟨bytes, hle, ht₂, hf₂⟩ := adds_counted (d := d) (p := p) hc (by omega) (by omega)
    obtain ⟨ht₃, hf₃⟩ := h₂ (by omega)
    rw [hl, closedBytes_append]
    exact ⟨bytes, hle, by omega, by omega⟩
  · have hadds := adds_fork (d := d) (p := p) e owner hquiet (hnew child hfork)
    have hclosed : closedBytes d p q.signals = 0 := by
      rw [hl]
      exact closedBytes_creates d p thread e.time e.cpu? thread.fds.toList
    rw [hstate, hthread, hclosed]
    exact ⟨0, Nat.zero_le _, hadds.threads, hadds.fds⟩

/-- In each of the eight counters the bytes of all threads are those of all descriptors and those
that closed descriptors had, provided that no fork reuses the number of a known thread and that the
syscalls returned less in total than a counter holds. -/
theorem bytes_conserved (h : Run settings history r)
    (hnew : ∀ step ∈ history, ∀ child, step.event.forked? = some child →
      step.before.thread? child = none)
    (hreturned : (history.map fun step => step.event.returned).sum < 2 ^ 64)
    (d : Direction) (p : Portion) :
    r.state.threadBytes d p =
      r.state.fdBytes d p + closedBytes d p (history.flatMap (·.signals)) := by
  suffices r.state.threadBytes d p =
      r.state.fdBytes d p + closedBytes d p (history.flatMap (·.signals)) ∧
        r.state.threadBytes d p ≤ (history.map fun step => step.event.returned).sum from this.1
  induction h with
  | start => exact ⟨rfl, Nat.le_refl 0⟩
  | @next history r e q h hq ih =>
    rw [List.map_append, List.map_singleton, List.sum_append, List.sum_singleton] at hreturned ⊢
    dsimp only at hreturned ⊢
    obtain ⟨heq, hle⟩ := ih (fun step hstep => hnew step (List.mem_append_left _ hstep)) (by omega)
    have hnew' : ∀ child, e.forked? = some child → r.state.thread? child = none :=
      hnew ⟨r.state, e, q.replay.state, q.signals⟩ (by simp)
    have hmax : maxWord = 2 ^ 64 - 1 := rfl
    obtain ⟨bytes, hbytes, ht, hf⟩ := h.bytes_step hq hnew' (d := d) (p := p) (by omega) (by omega)
    rw [List.flatMap_append, List.flatMap_singleton, closedBytes_append]
    dsimp only
    exact ⟨by omega, by omega⟩

/-- A thread opens a file, writes to it and closes it. -/
def writtenFile : List Event :=
  [.recorded 0 10 "sched_switch" [("prev_tid", .signed 0), ("next_tid", .signed 7)],
   .recorded 0 20 "syscall_entry_open" [("filename", .text "/tmp/log")],
   .recorded 0 30 "syscall_exit_open" [("ret", .signed 3)],
   .recorded 0 40 "syscall_entry_write" [("fd", .signed 3), ("count", .unsigned 100)],
   .recorded 0 50 "syscall_exit_write" [("ret", .signed 100)],
   .recorded 0 60 "syscall_entry_close" [("fd", .signed 3)],
   .recorded 0 70 "syscall_exit_close" [("ret", .signed 0)]]

theorem bytes_conserved_writtenFile : ∃ history r, Run {} history r ∧
    r.state.threadBytes .write .disk = 100 ∧ r.state.threadBytes .write .disk =
      r.state.fdBytes .write .disk + closedBytes .write .disk (history.flatMap (·.signals)) := by
  have hgives : Replay.gives {} writtenFile
      (fun q => q.replay.state.threadBytes .write .disk = 100) = true := by decide +kernel
  have hforks : ∀ e ∈ writtenFile, e.forked? = none := by decide +kernel
  have hbytes : (writtenFile.map Event.returned).sum < 2 ^ 64 := by decide +kernel
  obtain ⟨history, q, h, he, -, htest⟩ := Run.of_gives hgives
  rw [← he, List.map_map] at hbytes
  refine ⟨history, q.replay, h, of_decide_eq_true htest, bytes_conserved h ?_ hbytes _ _⟩
  intro step hstep child hfork
  have hin : step.event ∈ writtenFile := by
    rw [← he]
    exact List.mem_map_of_mem hstep
  rw [hforks _ hin] at hfork
  cases hfork

end Run

end KernelReplay
