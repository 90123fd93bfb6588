import KernelReplay.Table.Basic
import KernelReplay.Syscall.Request

/-
  Block devices and their requests. A request is known by the device and sector it was issued to;
  stacked devices remap it on its way down, and a remap tells where a request that is seen at one
  location came from.
-/

namespace KernelReplay

/-- The size of a sector in bytes. -/
def sectorSize : Nat := 512

/-- A request to a block device. -/
structure BlockRequest where
  dev : Nat
  sector : Nat
  sectors : Nat
  operation : IoOperation
  /-- The issuing thread, where the tracer tells it. -/
  tid : Option Int := none
  begun : Int
  ended : Option Int := none
  duration : Option Int := none
  deriving DecidableEq, Repr, Inhabited

namespace BlockRequest

/-- The direction that the flags of a request give. -/
def directionOf (flags : Nat) : IoOperation := if flags % 2 = 0 then .read else .write

/-- The size in bytes. -/
def size (rq : BlockRequest) : Except Overflow Nat := checkedMul rq.sectors sectorSize

/-- The request after its completion. -/
def complete (rq : BlockRequest) (time : Int) : Except Overflow BlockRequest := do
  let duration ← checkedSub time rq.begun
  .ok { rq with ended := some time, duration := some duration }

theorem complete_eq_ok_iff {rq completed : BlockRequest} {time : Int} :
    rq.complete time = .ok completed ↔ FitsSigned (time - rq.begun) ∧
      completed = { rq with ended := some time, duration := some (time - rq.begun) } := by
  unfold complete
  rw [checked_bind_eq_ok_iff]
  constructor
  · intro h
    obtain ⟨duration, hd, h⟩ := h
    obtain ⟨hf, rfl⟩ := checkedSub_eq_ok_iff.1 hd
    exact ⟨hf, (Except.ok.inj h).symm⟩
  · intro h
    obtain ⟨hf, rfl⟩ := h
    exact ⟨_, checkedSub_eq_ok_iff.2 ⟨hf, rfl⟩, rfl⟩

end BlockRequest

/-- A place on a block device. -/
structure Location where
  dev : Nat
  sector : Nat
  deriving DecidableEq, Repr, Inhabited

/-- A request now at `current` was issued to `origin`. -/
structure Remap where
  current : Location
  origin : Location
  deriving DecidableEq, Repr, Inhabited

namespace Remap

/-- Records that what is at `source` moves on to `target`. Of a chain of remaps only the two ends
are kept. -/
def record (source target : Location) : List Remap → List Remap
  | [] => [{ current := target, origin := source }]
  | r :: rest =>
    if r.current = source then { r with current := target } :: rest
    else r :: record source target rest

/-- The first remap to a location. -/
def find? (remaps : List Remap) (location : Location) : Option Remap :=
  remaps.find? fun r => r.current = location

/-- The device that a request at a location was issued to. -/
def issuedTo (remaps : List Remap) (location : Location) : Nat :=
  ((find? remaps location).map (·.origin.dev)).getD location.dev

/-- Forgets the first remap to a location. -/
def release (remaps : List Remap) (location : Location) : List Remap :=
  remaps.eraseP fun r => r.current = location

/-- Forgets every remap to a location. -/
def discard (remaps : List Remap) (location : Location) : List Remap :=
  remaps.filter fun r => r.current ≠ location

end Remap

/-- A block device. -/
structure Disk where
  dev : Nat
  name : Option String := none
  /-- The requests issued and not completed, by sector. -/
  pending : Table Nat BlockRequest := ∅
  deriving DecidableEq, Inhabited

end KernelReplay
