import KernelReplay.Table.Basic
import KernelReplay.Trace.Field

/-
  Trace events: a time, a name, the payload's fields and those of the stream the event came in.
  A field that is missing and a field of the wrong type read alike.
-/

namespace KernelReplay

/-- One decoded event of a kernel trace. -/
structure Event where
  /-- Nanoseconds. -/
  timestamp : Int64
  name : String
  /-- The payload. -/
  fields : Table String FieldValue := ∅
  /-- What the stream says of the event, such as the CPU it was recorded on. -/
  context : Table String FieldValue := ∅
  deriving DecidableEq, Inhabited

namespace Event

/-- The time of the event. -/
def time (e : Event) : Int := e.timestamp.toInt

/-- Adds a payload field, replacing one of the same name. -/
def withField (e : Event) (name : String) (value : FieldValue) : Event :=
  { e with fields := e.fields.insert name value }

/-- Adds a context field, replacing one of the same name. -/
def withContext (e : Event) (name : String) (value : FieldValue) : Event :=
  { e with context := e.context.insert name value }

/-- Says in the context which CPU recorded the event. -/
def onCpu (e : Event) (cpu : UInt32) : Event :=
  e.withContext "cpu_id" (.unsigned cpu.toUInt64)

/-- The same event from a stream that gives no context. -/
def withoutContext (e : Event) : Event := { e with context := ∅ }

/-- A payload field. -/
def field? (e : Event) (name : String) : Option FieldValue := e.fields.get? name

/-- A context field. -/
def contextField? (e : Event) (name : String) : Option FieldValue := e.context.get? name

/-- A payload field that is a signed word. -/
def int? (e : Event) (name : String) : Option Int := (e.field? name).bind FieldValue.int?

/-- A payload field that is an unsigned word. -/
def nat? (e : Event) (name : String) : Option Nat := (e.field? name).bind FieldValue.nat?

/-- A payload field that is text. -/
def text? (e : Event) (name : String) : Option String := (e.field? name).bind FieldValue.text?

/-- A CPU number, if the word is one. -/
def asCpu? (n : Nat) : Option Nat := if n < 1 <<< 32 then some n else none

/-- A payload field that is a CPU number. -/
def cpuField? (e : Event) (name : String) : Option Nat := (e.nat? name).bind asCpu?

/-- The CPU the event was recorded on. A payload field shadows the context even when it cannot be
read as a CPU number. -/
def cpu? (e : Event) : Option Nat :=
  (((e.field? "cpu_id").or (e.contextField? "cpu_id")).bind FieldValue.nat?).bind asCpu?

end Event

end KernelReplay
