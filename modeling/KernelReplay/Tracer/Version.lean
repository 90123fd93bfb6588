import KernelReplay.Text.Blank

/-
  Versions of the tracer. A version reads `major.minor.patch` and an optional suffix that begins
  with neither a digit nor a dot. The suffix is kept but does not count in the order.
-/

namespace KernelReplay

/-- A version of the tracer that recorded a trace. -/
structure TracerVersion where
  major : UInt32
  minor : UInt32
  patch : UInt32
  /-- What follows the numbers, such as `-rc1`. -/
  suffix : Option String := none
  deriving DecidableEq, Repr, Inhabited

/-- Why a part of a version is no number. -/
inductive ComponentFault
  | empty
  | tooLarge
  deriving DecidableEq, Repr, Inhabited

/-- Why a text is no version. -/
inductive VersionError
  /-- The numbers are not three. -/
  | shape (text : String)
  /-- One of the three is no number of 32 bits. -/
  | component (part : String) (text : String) (fault : ComponentFault)
  deriving DecidableEq, Repr, Inhabited

/-- The wording of a fault. -/
def ComponentFault.message : ComponentFault → String
  | .empty => "cannot parse integer from empty string"
  | .tooLarge => "number too large to fit in target type"

/-- The wording of the error, with its cause. -/
def VersionError.message : VersionError → String
  | .shape text => s!"Invalid tracer version {text}, expected major.minor.patch"
  | .component part text fault =>
    "Invalid tracer version component \"" ++ part ++ "\" in " ++ text ++ ": " ++ fault.message

namespace TracerVersion

/-- The parts of a text between its dots. -/
def splitDots : List Char → List (List Char)
  | [] => [[]]
  | c :: rest =>
    if c = '.' then [] :: splitDots rest
    else match splitDots rest with
      | [] => [[c]]
      | part :: parts => (c :: part) :: parts

/-- The number that decimal digits write. -/
def digitsValue (digits : List Char) : Nat :=
  digits.foldl (fun n d => 10 * n + (d.toNat - '0'.toNat)) 0

/-- One of the three numbers; `part` holds digits only. -/
def component (text part : List Char) : Except VersionError UInt32 :=
  let fail := fun fault => .error (.component (.ofList part) (.ofList text) fault)
  if part = [] then fail .empty
  else if digitsValue part < 1 <<< 32 then .ok (.ofNat (digitsValue part))
  else fail .tooLarge

/-- Whether a character belongs to the numbers of a version. -/
def isNumeric (c : Char) : Bool := c.isDigit || c = '.'

/-- Reads a version, with white space around it. -/
def ofChars (text : List Char) : Except VersionError TracerVersion :=
  let text := trimBlank text
  let rest := text.dropWhile isNumeric
  match splitDots (text.takeWhile isNumeric) with
  | [a, b, c] => do
    let major ← component text a
    let minor ← component text b
    let patch ← component text c
    .ok { major, minor, patch, suffix := if rest = [] then none else some (.ofList rest) }
  | _ => .error (.shape (.ofList text))

/-- Reads a version, with white space around it. -/
def ofString (text : String) : Except VersionError TracerVersion := ofChars text.toList

/-- The text of a version. -/
def render (v : TracerVersion) : String :=
  s!"{v.major.toNat}.{v.minor.toNat}.{v.patch.toNat}" ++ v.suffix.getD ""

/-- Versions are ordered by their numbers; the suffix does not count. -/
instance : Ord TracerVersion where
  compare v w :=
    (compare v.major w.major).then ((compare v.minor w.minor).then (compare v.patch w.patch))

/-- The first version that reports the priorities of woken threads without an offset. -/
def priorityFixed : TracerVersion := { major := 2, minor := 7, patch := 1 }

/-- Whether the version reports the priorities of woken threads 100 too high. -/
def hasPriorityOffset (v : TracerVersion) : Bool := compare v priorityFixed = .lt

end TracerVersion

/-- What is known of the tracer that recorded a trace. -/
structure Settings where
  /-- An unknown version is taken for a current one. -/
  tracerVersion : Option TracerVersion := none
  deriving DecidableEq, Repr, Inhabited

/-- Whether the priorities of woken threads have to be corrected. -/
def Settings.needsPriorityFix (s : Settings) : Bool :=
  s.tracerVersion.any TracerVersion.hasPriorityOffset

end KernelReplay
