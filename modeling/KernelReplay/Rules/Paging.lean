import KernelReplay.Trace.EventKind
import KernelReplay.Update.Basic

/-
  Page accounting: how many pages are allocated and not freed, and which running thread an
  allocation or a release is seen with. Every request in flight counts every allocation.
-/

namespace KernelReplay.Paging

open Update

/-- Announces an event of the thread that runs on the event's CPU, if there is one. -/
def announce (e : Event) (about : Thread → Nat → Notification) : Update Unit :=
  whenSome e.cpu? fun cpu => do
    let s ← get
    whenSome ((s.running? cpu).bind s.thread?) fun thread => notify (about thread cpu)

/-- A request with one more page allocated. -/
def countAllocated (rq : IoRequest) : IoRequest :=
  { rq with pagesAllocated := saturatingAdd rq.pagesAllocated 1 }

/-- A page is allocated. -/
def alloc (e : Event) : Update Unit := do
  modify fun s =>
    { s with
      pageCount := saturatingAdd s.pageCount 1
      threads := s.threads.map fun _ t => t.mapRequest countAllocated }
  announce e .pageAlloc

/-- A page is freed. One that was allocated before the trace began is not counted. -/
def free (e : Event) : Update Unit := do
  let s ← get
  if s.pageCount = 0 then
    pure ()
  else
    let left ← compute (checkedPred s.pageCount)
    modify fun s => { s with pageCount := left }
    announce e .pageFree

/-- What an event means for page accounting. -/
def apply (kind : EventKind) (e : Event) : Update Unit :=
  match kind with
  | .pageAlloc => alloc e
  | .pageFree | .pageFreeKmem => free e
  | _ => pure ()

end KernelReplay.Paging
