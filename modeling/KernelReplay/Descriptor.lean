import KernelReplay.Word

/-
  File descriptors: what they refer to, as far as the trace tells, and the bytes moved through them.
  Bytes are counted in total and by the type that the descriptor had at the transfer.
-/

namespace KernelReplay

/-- What a descriptor refers to. -/
inductive FdType
  | unknown
  | disk
  | net
  /-- Taken for a socket because a packet left the machine while a write was in flight. -/
  | maybeNet
  deriving DecidableEq, Repr, Inhabited

namespace FdType

/-- The address family of local sockets. -/
def unixFamily : Int := 1

/-- The address family of IPv4 sockets. -/
def inetFamily : Int := 2

/-- The address family of IPv6 sockets. -/
def inet6Family : Int := 10

/-- The type of a new socket: a local one is like a file, and one of no known family is taken for
a network socket. -/
def ofFamily : Option Int → FdType
  | none => net
  | some family =>
    if family = unixFamily then disk
    else if family = inetFamily ∨ family = inet6Family then net
    else unknown

/-- Whether bytes through the descriptor count as network traffic. -/
def isNet : FdType → Bool
  | net | maybeNet => true
  | unknown | disk => false

end FdType

/-- Bytes moved in one direction. -/
structure Tally where
  total : Nat := 0
  net : Nat := 0
  disk : Nat := 0
  /-- Through descriptors of unknown type. -/
  other : Nat := 0
  deriving DecidableEq, Repr, Inhabited

namespace Tally

/-- Counts bytes moved through a descriptor of the given type. -/
def add (t : Tally) (type : FdType) (bytes : Nat) : Tally :=
  let t := { t with total := saturatingAdd t.total bytes }
  match type with
  | .net | .maybeNet => { t with net := saturatingAdd t.net bytes }
  | .disk => { t with disk := saturatingAdd t.disk bytes }
  | .unknown => { t with other := saturatingAdd t.other bytes }

/-- The counters of both tallies together. -/
def merge (t u : Tally) : Tally where
  total := saturatingAdd t.total u.total
  net := saturatingAdd t.net u.net
  disk := saturatingAdd t.disk u.disk
  other := saturatingAdd t.other u.other

end Tally

/-- Bytes read and written. -/
structure IoCounts where
  read : Tally := {}
  write : Tally := {}
  deriving DecidableEq, Repr, Inhabited

namespace IoCounts

/-- Counts bytes read through a descriptor of the given type. -/
def addRead (c : IoCounts) (type : FdType) (bytes : Nat) : IoCounts :=
  { c with read := c.read.add type bytes }

/-- Counts bytes written through a descriptor of the given type. -/
def addWrite (c : IoCounts) (type : FdType) (bytes : Nat) : IoCounts :=
  { c with write := c.write.add type bytes }

/-- The counters of both together. -/
def merge (c d : IoCounts) : IoCounts where
  read := c.read.merge d.read
  write := c.write.merge d.write

end IoCounts

/-- Whether open flags ask for the descriptor to be closed when another program is executed:
bit 19 is set, in two's complement for negative flags. -/
def hasCloexec (flags : Int) : Bool := flags / 0x8_0000 % 2 = 1

/-- An open descriptor. -/
structure Fd where
  number : Int
  filename : String := "unknown"
  type : FdType := .unknown
  cloexec : Bool := false
  /-- The address family of a socket. -/
  family : Option Int := none
  io : IoCounts := {}
  deriving DecidableEq, Repr, Inhabited

namespace Fd

/-- The descriptor of a forked child: the same file with no bytes moved. -/
def duplicate (fd : Fd) : Fd := { fd with io := {} }

/-- The descriptor with a guessed type, which only an unknown type gives way to. -/
def guessed (fd : Fd) (guess : Option FdType) : Fd :=
  match fd.type, guess with
  | .unknown, some type => { fd with type := type }
  | _, _ => fd

/-- Counts bytes read. -/
def countRead (fd : Fd) (bytes : Nat) : Fd := { fd with io := fd.io.addRead fd.type bytes }

/-- Counts bytes written. -/
def countWrite (fd : Fd) (bytes : Nat) : Fd := { fd with io := fd.io.addWrite fd.type bytes }

/-- The entry left when the descriptor of a thread is folded into that of the thread's leader: the
leader's entry stays, takes the name if it has none, and counts the bytes of both. -/
def absorb (fd other : Fd) : Fd :=
  { fd with
    filename := if fd.filename = "" then other.filename else fd.filename
    io := fd.io.merge other.io }

end Fd

end KernelReplay
