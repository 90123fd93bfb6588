import KernelReplay.Machine.State.Holdings
import KernelReplay.Rules.IoRequests
import KernelReplay.Rules.Paging
import KernelReplay.Update.Lemmas

/-
  What the rules about pages do, as equations: an allocation is counted for every request, what is
  written back for the requests of the threads that run, what is freed for those that the CPUs are
  charged to. None of them overflows, and only the count of pages is looked at on the way.
-/

namespace KernelReplay

open Update

namespace State

/-- Changes the request of each of the threads, in order, as often as it is listed. -/
def adjustRequests (s : State) (tids : List Int) (f : IoRequest → IoRequest) : State :=
  tids.foldl (fun s tid => s.adjustRequest tid f) s

theorem adjustRequests_cons (s : State) (tid : Int) (rest : List Int) (f : IoRequest → IoRequest) :
    s.adjustRequests (tid :: rest) f = (s.adjustRequest tid f).adjustRequests rest f := rfl

end State

namespace Paging

/-- What is told of the thread that runs on an event's CPU. -/
def announced (e : Event) (about : Thread → Nat → Notification) (s : State) : List Signal :=
  (e.cpu?.bind fun cpu => ((s.running? cpu).bind s.thread?).map fun t =>
    .notification (about t cpu)).toList

theorem announce_run (e : Event) (about : Thread → Nat → Notification) (s : State) :
    announce e about s = .ok ⟨(), s, announced e about s⟩ := by
  unfold announce announced
  cases e.cpu? with
  | none => rfl
  | some cpu =>
    rw [whenSome_some, get_bind_run, Option.bind_some]
    cases (s.running? cpu).bind s.thread? <;> rfl

/-- The state after a page is allocated. -/
def allocated (s : State) : State :=
  { s with
    pageCount := saturatingAdd s.pageCount 1
    threads := s.threads.map fun _ t => t.mapRequest countAllocated }

theorem alloc_run (e : Event) (s : State) :
    alloc e s = .ok ⟨(), allocated s, announced e .pageAlloc (allocated s)⟩ := by
  unfold alloc
  rw [modify_bind_run, announce_run]
  rfl

/-- The state after a page is freed, as far as the count of pages is concerned. -/
def freed (s : State) : State := { s with pageCount := s.pageCount - 1 }

theorem free_run (e : Event) (s : State) :
    free e s = .ok ⟨(), freed s, if s.pageCount = 0 then [] else announced e .pageFree s⟩ := by
  unfold free
  rw [get_bind_run]
  split
  · rename_i hzero
    have hstate : freed s = s := by
      obtain ⟨cpus, threads, disks, ifaces, count, version, offset⟩ := s
      cases hzero
      rfl
    rw [hstate]
    rfl
  · rename_i hpages
    have hleft : checkedPred s.pageCount = .ok (s.pageCount - 1) :=
      checkedPred_eq_ok_iff.2 (by omega)
    rw [hleft, bind_run, compute_ok]
    dsimp only
    rw [modify_bind_run, announce_run]
    rfl

end Paging

namespace IoRequests

/-- The state after pages are written back. -/
def written (pages : Nat) (s : State) : State := s.adjustRequests s.running (countWritten pages)

theorem pagesWritten_run (e : Event) (s : State) :
    pagesWritten e s =
      .ok ⟨(), ((e.nat? "pages").map fun pages => written pages s).getD s, []⟩ := by
  unfold pagesWritten
  cases e.nat? "pages" with
  | none => rfl
  | some pages =>
    rw [whenSome_some, get_bind_run]
    exact forEach_modify_run (fun tid s => s.adjustRequest tid (countWritten pages)) s.running s

/-- A request that has woken the thread that reclaims pages. -/
def noteWakeup (rq : IoRequest) : IoRequest := { rq with wokeKswapd := true }

theorem kswapdWakeup_run (e : Event) (s : State) :
    kswapdWakeup e s =
      .ok ⟨(), s.adjustRequests (e.cpu?.bind s.running?).toList noteWakeup, []⟩ := by
  unfold kswapdWakeup
  rw [get_bind_run]
  cases e.cpu?.bind s.running? <;> rfl

/-- The state after a page is freed, as far as requests are concerned. -/
def pageFreed (s : State) : State := s.adjustRequests (s.running.map (chargedTo s)) countFreed

theorem pageFree_run (s : State) : pageFree s = .ok ⟨(), pageFreed s, []⟩ := by
  unfold pageFree pageFreed State.adjustRequests
  rw [get_bind_run, List.foldl_map]
  exact forEach_modify_run (fun tid s' => s'.adjustRequest (chargedTo s tid) countFreed) s.running s

end IoRequests

end KernelReplay
