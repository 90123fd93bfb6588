import KernelReplay.Trace.EventKind
import KernelReplay.Update.Basic

/-
  Block requests, paired by device and sector from issue to completion. Remaps are followed back to
  the device that a request was issued to; they live beside the state, as only these rules need
  them.
-/

namespace KernelReplay.BlockRequests

open Update

/-- The location that two fields of an event give. -/
def location? (e : Event) (devField sectorField : String) : Option Location := do
  let dev ← e.nat? devField
  let sector ← e.nat? sectorField
  some { dev, sector }

/-- The size of a request that has one. -/
def sectors? (e : Event) : Option Nat := (e.nat? "nr_sector").filter (· ≠ 0)

/-- The remaps after a request was remapped. -/
def remap (e : Event) (remaps : List Remap) : List Remap :=
  match location? e "old_dev" "old_sector", location? e "dev" "sector" with
  | some source, some target => Remap.record source target remaps
  | _, _ => remaps

/-- The remaps after a request was merged into the one before it. -/
def backmerge (e : Event) (remaps : List Remap) : List Remap :=
  match location? e "dev" "sector" with
  | some location => Remap.discard remaps location
  | none => remaps

/-- A request is issued; one that still waits at its place is forgotten. -/
def place (request : BlockRequest) : Update Unit := do
  let s ← get
  modify (·.updateDisk request.dev fun d =>
    { d with pending := d.pending.insert request.sector request })
  whenSome ((s.disks.get? request.dev).bind fun d => d.pending.get? request.sector) fun stale =>
    report (.replacedBlockRequest request.dev request.sector stale.begun)

/-- The request that an event issues, with the device that it was issued to. -/
def issued? (e : Event) (remaps : List Remap) : Option BlockRequest := do
  let location ← location? e "dev" "sector"
  let sectors ← sectors? e
  let flags ← e.nat? "rwbs"
  some {
    dev := Remap.issuedTo remaps location
    sector := location.sector
    sectors
    operation := BlockRequest.directionOf flags
    tid := e.int? "tid"
    begun := e.time }

/-- A request is completed at a place: the one that waits there, if it is of the same size. -/
def complete (dev sector sectors : Nat) (time : Int) : Update Unit := do
  let s ← get
  match s.disks.get? dev with
  | none => report (.completionOnUnknownDisk dev sector)
  | some disk =>
    match (disk.pending.get? sector).filter fun rq => rq.sectors = sectors with
    | none => report (.unmatchedCompletion dev sector)
    | some request =>
      modify (·.updateDisk dev fun d => { d with pending := d.pending.erase sector })
      let request ← compute (request.complete time)
      notify (.blockComplete request (request.tid.bind s.thread?))

/-- A request is completed. The remap that led to it is done with, whether or not one was waiting. -/
def completion (e : Event) (remaps : List Remap) : Update (List Remap) :=
  match location? e "dev" "sector", sectors? e with
  | some location, some sectors => do
    complete (Remap.issuedTo remaps location) location.sector sectors e.time
    pure (Remap.release remaps location)
  | _, _ => pure remaps

/-- What an event means for block requests, and the remaps after it. -/
def apply (kind : EventKind) (e : Event) (remaps : List Remap) : Update (List Remap) :=
  match kind with
  | .blockRemap => pure (remap e remaps)
  | .blockBackmerge => pure (backmerge e remaps)
  | .blockIssue => do
    whenSome (issued? e remaps) place
    pure remaps
  | .blockComplete => completion e remaps
  | _ => pure remaps

end KernelReplay.BlockRequests
