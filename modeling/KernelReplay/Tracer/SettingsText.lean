import KernelReplay.Json.Shape
import KernelReplay.Tracer.Version

/-
  Settings as JSON and as a file. The settings are an object whose one member, `tracer_version`, is a
  version, `null` or left out, or an array of at most that one value.
-/

namespace KernelReplay.Settings

/-- A version as JSON. -/
def versionToJson (version : Option TracerVersion) : Json :=
  Json.ofOption (fun v => .ofString v.render) version

/-- Settings as JSON. -/
def toJson (s : Settings) : Json := .ofMembers [("tracer_version", versionToJson s.tracerVersion)]

/-- Reads a version. -/
def readVersion (v : Json) : Except JsonFault (Option TracerVersion) :=
  match v with
  | .null => .ok none
  | v => do
    let text ← Json.readText v
    match TracerVersion.ofString text with
    | .ok version => .ok (some version)
    | .error _ => .error .mismatch

/-- Reads members one after the other, where `known` is the version if it has been read. -/
def readMembers (known : Option (Option TracerVersion)) :
    List (Option String × Json) → Except JsonFault (Option (Option TracerVersion))
  | [] => .ok known
  | (none, _) :: _ => .error .malformed
  | (some name, v) :: rest => do
    if name = "tracer_version" ∧ known.isNone then
      let version ← readVersion v
      readMembers (some version) rest
    else
      .error .mismatch

/-- Reads settings. -/
def ofJson : Json → Except JsonFault Settings
  | .object members closed => do
    let version ← readMembers none members
    Json.readEnd closed
    .ok { tracerVersion := version.join }
  | .array [] closed => do
    Json.readEnd closed
    .ok {}
  | .array (v :: rest) closed => do
    let tracerVersion ← readVersion v
    Json.readEnd (rest.isEmpty && closed)
    .ok { tracerVersion }
  | v => .error v.refusal

/-- Reads the text of settings. -/
def ofText (text : String) : Except JsonFault Settings := Json.readAll ofJson text

/-- Why a file gives no settings. -/
inductive FileFault
  /-- There is no such file, or it is no text. -/
  | unreadable
  | text (fault : JsonFault)
  deriving DecidableEq, Repr, Inhabited

/-- The wording of the fault, for a file at a path. -/
def FileFault.message (path : String) : FileFault → String
  | unreadable => s!"Failed to read config file {path}"
  | text _ => s!"Failed to parse config file {path}"

/-- Reads settings from the bytes of a file, if it could be opened. -/
def ofFile (bytes : Option ByteArray) : Except FileFault Settings :=
  match bytes.bind String.fromUTF8? with
  | none => .error .unreadable
  | some text => (ofText text).mapError .text

end KernelReplay.Settings
