import Mathlib
import KernelReplay.Machine.State.Holdings
import KernelReplay.Proofs.TableSums

/-
  Bytes counted over a whole state. There are eight counters, by the direction of a transfer and by
  what its descriptor referred to; each of them is added up over all threads (`State.threadBytes`)
  and over all descriptors (`State.fdBytes`). Both are sums of a measure of what threads hold, so a
  change to one thread shows as the difference of its measures (`State.total_add`).
-/

namespace KernelReplay

/-- Which way bytes move. -/
inductive Direction
  | read
  | write
  deriving DecidableEq, Repr, Inhabited

/-- Which bytes are counted: all, or those moved through descriptors of one kind. -/
inductive Portion
  | total
  | net
  | disk
  | other
  deriving DecidableEq, Repr, Inhabited

namespace Portion

/-- The counter of a tally. -/
def of (t : Tally) : Portion → Nat
  | total => t.total
  | net => t.net
  | disk => t.disk
  | other => t.other

/-- The part of bytes moved through a descriptor of a type that the counter counts. -/
def share (type : FdType) (bytes : Nat) : Portion → Nat
  | total => bytes
  | net => if type.isNet then bytes else 0
  | disk => if type = .disk then bytes else 0
  | other => if type = .unknown then bytes else 0

theorem of_empty (p : Portion) : p.of {} = 0 := by cases p <;> rfl

theorem of_merge (t u : Tally) (p : Portion) :
    p.of (t.merge u) = saturatingAdd (p.of t) (p.of u) := by cases p <;> rfl

theorem share_le (type : FdType) (bytes : Nat) (p : Portion) : p.share type bytes ≤ bytes := by
  cases p <;> simp only [share] <;> (try split) <;> omega

theorem of_add {t : Tally} {type : FdType} {bytes : Nat} {p : Portion}
    (h : p.of t + p.share type bytes ≤ maxWord) :
    p.of (t.add type bytes) = p.of t + p.share type bytes := by
  cases p <;> cases type <;> simp_all [of, share, Tally.add, saturatingAdd, FdType.isNet]

end Portion

namespace IoCounts

/-- One of the eight counters. -/
def amount (c : IoCounts) (d : Direction) (p : Portion) : Nat :=
  match d with
  | .read => p.of c.read
  | .write => p.of c.write

variable {c : IoCounts} {d : Direction} {p : Portion}

@[simp] theorem amount_empty (d : Direction) (p : Portion) : amount {} d p = 0 := by
  cases d <;> exact p.of_empty

theorem amount_merge (c c' : IoCounts) (d : Direction) (p : Portion) :
    (c.merge c').amount d p = saturatingAdd (c.amount d p) (c'.amount d p) := by
  cases d <;> exact Portion.of_merge _ _ p

/-- What counting bytes read adds to a counter. -/
def readShare (d : Direction) (p : Portion) (type : FdType) (bytes : Nat) : Nat :=
  if d = .read then p.share type bytes else 0

/-- What counting bytes written adds to a counter. -/
def writeShare (d : Direction) (p : Portion) (type : FdType) (bytes : Nat) : Nat :=
  if d = .write then p.share type bytes else 0

theorem readShare_le (d : Direction) (p : Portion) (type : FdType) (bytes : Nat) :
    readShare d p type bytes ≤ if d = .read then bytes else 0 := by
  unfold readShare
  split
  · exact p.share_le type bytes
  · exact Nat.le_refl 0

theorem writeShare_le (d : Direction) (p : Portion) (type : FdType) (bytes : Nat) :
    writeShare d p type bytes ≤ if d = .write then bytes else 0 := by
  unfold writeShare
  split
  · exact p.share_le type bytes
  · exact Nat.le_refl 0

theorem amount_addRead {type : FdType} {bytes : Nat}
    (h : c.amount d p + readShare d p type bytes ≤ maxWord) :
    (c.addRead type bytes).amount d p = c.amount d p + readShare d p type bytes := by
  cases d with
  | read => exact Portion.of_add h
  | write => rfl

theorem amount_addWrite {type : FdType} {bytes : Nat}
    (h : c.amount d p + writeShare d p type bytes ≤ maxWord) :
    (c.addWrite type bytes).amount d p = c.amount d p + writeShare d p type bytes := by
  cases d with
  | read => rfl
  | write => exact Portion.of_add h

end IoCounts

/-- The bytes counted for the descriptors of a table. -/
def tableBytes (d : Direction) (p : Portion) (fds : Table Int Fd) : Nat :=
  fds.sum fun fd => fd.io.amount d p

section Tables

variable {d : Direction} {p : Portion}

theorem tableBytes_insert (fds : Table Int Fd) (number : Int) (fd : Fd) :
    tableBytes d p (fds.insert number fd) + fds.weight (fun own => own.io.amount d p) number =
      tableBytes d p fds + fd.io.amount d p :=
  Table.sum_insert fds _ number fd

theorem tableBytes_erase {fds : Table Int Fd} {number : Int} {fd : Fd}
    (h : fds.get? number = some fd) :
    tableBytes d p (fds.erase number) + fd.io.amount d p = tableBytes d p fds := by
  have herase := Table.sum_erase fds (fun own => own.io.amount d p) number
  rwa [Table.weight_of_some h] at herase

theorem amount_le_tableBytes {fds : Table Int Fd} {number : Int} {fd : Fd}
    (h : fds.get? number = some fd) : fd.io.amount d p ≤ tableBytes d p fds := by
  have hle := Table.weight_le_sum fds (fun own => own.io.amount d p) number
  rwa [Table.weight_of_some h] at hle

end Tables

namespace State

/-- The sum of a measure over what the threads hold. -/
def total (s : State) (g : Holdings → Nat) : Nat := s.threads.sum fun t => g t.holdings

/-- The bytes counted for all threads. -/
def threadBytes (s : State) (d : Direction) (p : Portion) : Nat :=
  s.threads.sum fun t => t.io.amount d p

/-- The bytes counted for the descriptors of all threads. -/
def fdBytes (s : State) (d : Direction) (p : Portion) : Nat :=
  s.threads.sum fun t => t.fds.sum fun fd => fd.io.amount d p

section Total

variable {g : Holdings → Nat} (hg : ∀ tid, g (.blank tid) = 0)

include hg

/-- A thread that is not known weighs what a blank one does. -/
theorem weight_holdings (s : State) (k : Int) :
    s.threads.weight (fun t => g t.holdings) k = g (s.holdings k) := by
  cases h : s.thread? k with
  | none =>
    rw [holdings_of_none h, hg]
    exact Table.weight_of_none h
  | some t =>
    rw [holdings_of_thread? h]
    exact Table.weight_of_some h

/-- Where one thread changes, the sum changes by what it holds. -/
theorem total_add (s s' : State) (k : Int)
    (h : ∀ k', k' ≠ k → g (s'.holdings k') = g (s.holdings k')) :
    s'.total g + g (s.holdings k) = s.total g + g (s'.holdings k) := by
  rw [← weight_holdings hg s k, ← weight_holdings hg s' k]
  refine Table.sum_add_weight k fun k' hne => ?_
  rw [weight_holdings hg, weight_holdings hg, h k' hne]

theorem total_congr {s s' : State} (h : ∀ k, g (s'.holdings k) = g (s.holdings k)) :
    s'.total g = s.total g := by
  have hadd := total_add hg s s' 0 fun k' _ => h k'
  rw [h 0] at hadd
  omega

theorem total_setThread (s : State) (tid : Int) (t : Thread) :
    (s.setThread tid t).total g + g (s.holdings tid) = s.total g + g t.holdings := by
  have hadd := total_add hg s (s.setThread tid t) tid fun k' hne => by
    rw [holdings_setThread, if_neg hne]
  rwa [holdings_setThread, if_pos rfl] at hadd

theorem holdings_le_total (s : State) (tid : Int) : g (s.holdings tid) ≤ s.total g := by
  rw [← weight_holdings hg s tid]
  exact Table.weight_le_sum ..

end Total

/-! ## Bytes after a change -/

section Bytes

variable {d : Direction} {p : Portion}

theorem io_blank (tid : Int) : (Holdings.blank tid).io.amount d p = 0 := IoCounts.amount_empty d p

theorem tableBytes_blank (tid : Int) : tableBytes d p (Holdings.blank tid).fds = 0 := rfl

/-- The bytes of threads change only as the counters of threads do. -/
theorem threadBytes_congr {s s' : State}
    (h : ∀ k, (s'.holdings k).io.amount d p = (s.holdings k).io.amount d p) :
    s'.threadBytes d p = s.threadBytes d p :=
  total_congr (g := fun h => h.io.amount d p) io_blank h

/-- The bytes of descriptors change only as those of tables do. -/
theorem fdBytes_congr {s s' : State}
    (h : ∀ k, tableBytes d p (s'.holdings k).fds = tableBytes d p (s.holdings k).fds) :
    s'.fdBytes d p = s.fdBytes d p :=
  total_congr (g := fun h => tableBytes d p h.fds) tableBytes_blank h

theorem threadBytes_setThread (s : State) (tid : Int) (t : Thread) :
    (s.setThread tid t).threadBytes d p + (s.holdings tid).io.amount d p =
      s.threadBytes d p + t.io.amount d p :=
  total_setThread (g := fun h => h.io.amount d p) io_blank s tid t

theorem fdBytes_setThread (s : State) (tid : Int) (t : Thread) :
    (s.setThread tid t).fdBytes d p + tableBytes d p (s.holdings tid).fds =
      s.fdBytes d p + tableBytes d p t.fds :=
  total_setThread (g := fun h => tableBytes d p h.fds) tableBytes_blank s tid t

/-- Putting in a thread with the same counters keeps the bytes of threads. -/
theorem threadBytes_setThread_of_io {s : State} {tid : Int} {t : Thread}
    (h : t.io = (s.holdings tid).io) : (s.setThread tid t).threadBytes d p = s.threadBytes d p := by
  have hadd := threadBytes_setThread (d := d) (p := p) s tid t
  rw [h] at hadd
  omega

variable {s : State} {tid : Int} {thread : Thread} (ht : s.thread? tid = some thread)

include ht

theorem threadBytes_setFds (fds : Table Int Fd) :
    (s.setThread tid { thread with fds }).threadBytes d p = s.threadBytes d p :=
  threadBytes_setThread_of_io (by rw [holdings_of_thread? ht]; rfl)

theorem fdBytes_setFds (fds : Table Int Fd) :
    (s.setThread tid { thread with fds }).fdBytes d p + tableBytes d p thread.fds =
      s.fdBytes d p + tableBytes d p fds := by
  have hadd := fdBytes_setThread (d := d) (p := p) s tid { thread with fds }
  rw [holdings_of_thread? ht] at hadd
  exact hadd

theorem threadBytes_setIo (io : IoCounts) :
    (s.setThread tid { thread with io }).threadBytes d p + thread.io.amount d p =
      s.threadBytes d p + io.amount d p := by
  have hadd := threadBytes_setThread (d := d) (p := p) s tid { thread with io }
  rw [holdings_of_thread? ht] at hadd
  exact hadd

theorem fdBytes_setIo (io : IoCounts) :
    (s.setThread tid { thread with io }).fdBytes d p = s.fdBytes d p := by
  have hadd := fdBytes_setThread (d := d) (p := p) s tid { thread with io }
  rw [holdings_of_thread? ht] at hadd
  exact Nat.add_right_cancel hadd

theorem amount_le_threadBytes : thread.io.amount d p ≤ s.threadBytes d p := by
  have hle := holdings_le_total (g := fun h => h.io.amount d p) io_blank s tid
  rw [holdings_of_thread? ht] at hle
  exact hle

theorem tableBytes_le_fdBytes : tableBytes d p thread.fds ≤ s.fdBytes d p := by
  have hle := holdings_le_total (g := fun h => tableBytes d p h.fds) tableBytes_blank s tid
  rw [holdings_of_thread? ht] at hle
  exact hle

end Bytes

end State

end KernelReplay
