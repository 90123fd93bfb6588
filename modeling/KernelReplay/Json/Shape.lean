import KernelReplay.Json.Reader

/-
  Taking values apart. A value is read in the order of its text, so of two faults the one that comes
  first counts: a value of the wrong shape is refused as soon as its first character or, for a value
  without parts, its whole text is seen.
-/

namespace KernelReplay.Json

/-- The greatest number of containers inside each other in a text. -/
def maxNesting : Nat := 127

/-- The signed word that a value is. -/
def int64? : Json → Option Int64
  | .integer i => if FitsSigned i then some (.ofInt i) else none
  | _ => none

/-- The unsigned word that a value is. -/
def uint64? : Json → Option UInt64
  | .integer i => if 0 ≤ i ∧ FitsWord i.toNat then some (.ofNat i.toNat) else none
  | _ => none

/-- The text that a value is. -/
def string? : Json → Option String
  | .text content => content
  | _ => none

/-- Why a value of the wrong shape is refused. -/
def refusal (v : Json) : JsonFault := if v.isBrokenScalar then .malformed else .mismatch

/-- A text. -/
def readText : Json → Except JsonFault String
  | .text (some s) => .ok s
  | v => .error v.refusal

/-- A signed word. -/
def readInt64 : Json → Except JsonFault Int64
  | .integer i => if i < 0x8000_0000_0000_0000 then .ok (.ofInt i) else .error .mismatch
  | v => .error v.refusal

/-- Passes over a value. -/
def skip (v : Json) : Except JsonFault Unit := if v.canSkip then .ok () else .error .malformed

/-- The end of an array or object, which is there if it is closed. -/
def readEnd (closed : Bool) : Except JsonFault Unit := if closed then .ok () else .error .malformed

/-- A value and nothing after it. -/
def readAll {α : Type} (read : Json → Except JsonFault α) (text : String) : Except JsonFault α := do
  let (v, alone) := ofText text
  let a ← read v
  readEnd alone
  .ok a

end KernelReplay.Json
