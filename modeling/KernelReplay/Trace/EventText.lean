import KernelReplay.Json.Shape
import KernelReplay.Trace.Event

/-
  Events as JSON. An event is an object with the members `timestamp`, `name`, `fields` and `context`,
  or an array of their values in this order; the last two may be left out. A field is a whole number
  in the range of a word, a text or a list of fields.
-/

namespace KernelReplay

namespace FieldValue

mutual

/-- A field as JSON. -/
def toJson : FieldValue → Json
  | signed v => .integer v.toInt
  | unsigned v => .integer v.toNat
  | text s => .ofString s
  | list vs => .ofList (allToJson vs)

/-- Fields as JSON. -/
def allToJson : List FieldValue → List Json
  | [] => []
  | v :: rest => v.toJson :: allToJson rest

end

mutual

/-- The field that a whole value is: of the kinds of fields, the first one that accepts it. -/
def ofJson? : Json → Option FieldValue
  | .array items true => (allOfJson? items).map list
  | v => (v.int64?.map signed).or ((v.uint64?.map unsigned).or (v.string?.map text))

/-- The fields that whole values are. -/
def allOfJson? : List Json → Option (List FieldValue)
  | [] => some []
  | v :: rest =>
    match ofJson? v, allOfJson? rest with
    | some a, some as => some (a :: as)
    | _, _ => none

end

end FieldValue

namespace Event

/-- Fields as JSON. -/
def fieldsToJson (fields : Table String FieldValue) : Json :=
  .ofMembers (fields.toList.map fun p => (p.1, p.2.toJson))

/-- An event as JSON. -/
def toJson (e : Event) : Json :=
  .ofMembers
    [("timestamp", .integer e.time),
     ("name", .ofString e.name),
     ("fields", fieldsToJson e.fields),
     ("context", fieldsToJson e.context)]

/-- Reads one field, which is two containers deep. It is read whole before it is looked at. -/
def readField (v : Json) : Except JsonFault FieldValue :=
  if v.isWhole (Json.maxNesting - 2) then
    match FieldValue.ofJson? v with
    | some field => .ok field
    | none => .error .mismatch
  else
    .error .malformed

/-- Reads fields one after the other; of equal names the last one stays. -/
def readMembers (fields : Table String FieldValue) :
    List (Option String × Json) → Except JsonFault (Table String FieldValue)
  | [] => .ok fields
  | (none, _) :: _ => .error .malformed
  | (some name, v) :: rest => do
    let field ← readField v
    readMembers (fields.insert name field) rest

/-- Reads the payload or the context. -/
def readFields : Json → Except JsonFault (Table String FieldValue)
  | .object members closed => do
    let fields ← readMembers ∅ members
    Json.readEnd closed
    .ok fields
  | v => .error v.refusal

/-- The members of an event that have been read. -/
structure Draft where
  timestamp : Option Int64 := none
  name : Option String := none
  fields : Option (Table String FieldValue) := none
  context : Option (Table String FieldValue) := none
  deriving Inhabited

namespace Draft

/-- The event, if what it needs is there. -/
def finish (d : Draft) : Except JsonFault Event :=
  match d.timestamp, d.name with
  | some timestamp, some name =>
    .ok { timestamp, name, fields := d.fields.getD ∅, context := d.context.getD ∅ }
  | _, _ => .error .mismatch

/-- Reads a member that must not have been read before. -/
def once {α : Type} (known : Option α) (read : Json → Except JsonFault α) (v : Json) :
    Except JsonFault (Option α) :=
  match known with
  | some _ => .error .mismatch
  | none => (read v).map some

/-- Reads one member. One of another name is passed over. -/
def readMember (d : Draft) (name : String) (v : Json) : Except JsonFault Draft :=
  match name with
  | "timestamp" => do .ok { d with timestamp := ← once d.timestamp Json.readInt64 v }
  | "name" => do .ok { d with name := ← once d.name Json.readText v }
  | "fields" => do .ok { d with fields := ← once d.fields readFields v }
  | "context" => do .ok { d with context := ← once d.context readFields v }
  | _ => do
    Json.skip v
    .ok d

/-- Reads members one after the other. -/
def readMembers (d : Draft) : List (Option String × Json) → Except JsonFault Draft
  | [] => .ok d
  | (none, _) :: _ => .error .malformed
  | (some name, v) :: rest => do
    let d ← d.readMember name v
    d.readMembers rest

/-- The members of an event in the order of its array form. -/
def order : List String := ["timestamp", "name", "fields", "context"]

/-- Reads the items of an array, each as the member of the next name. -/
def readItems (d : Draft) : List String → List Json → Except JsonFault Draft
  | name :: names, v :: rest => do
    let d ← d.readMember name v
    d.readItems names rest
  | [], _ :: _ => .error .malformed
  | _, [] => .ok d

end Draft

/-- Reads an event. -/
def ofJson : Json → Except JsonFault Event
  | .object members closed => do
    let d ← Draft.readMembers {} members
    Json.readEnd closed
    d.finish
  | .array items closed => do
    let d ← Draft.readItems {} Draft.order items
    Json.readEnd closed
    d.finish
  | v => .error v.refusal

/-- Reads the text of an event. -/
def ofText (text : String) : Except JsonFault Event := Json.readAll ofJson text

end Event

end KernelReplay
