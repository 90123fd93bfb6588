/-
  The I/O syscalls and how each is tracked. A syscall outside the list has no class and moves no
  data that the replay follows.
-/

namespace KernelReplay

/-- How an I/O syscall is tracked. -/
inductive SyscallClass
  /-- Opens a file by name. -/
  | diskOpen
  | socket
  | accept
  /-- Opens another number for what a descriptor already refers to. -/
  | dup
  | close
  | read
  | write
  /-- Reads from one descriptor and writes to another. -/
  | readWrite
  | sync
  | connect
  deriving DecidableEq, Repr, Inhabited

namespace SyscallClass

/-- The syscalls of each class. -/
def members : List (SyscallClass × List String) :=
  [(diskOpen, ["open", "openat"]),
   (socket, ["socket"]),
   (accept, ["accept", "accept4"]),
   (dup, ["fcntl", "dup", "dup2", "dup3"]),
   (close, ["close"]),
   (read, ["read", "recvmsg", "recvfrom", "readv", "pread", "pread64", "preadv"]),
   (write, ["write", "sendmsg", "sendto", "writev", "pwrite", "pwrite64", "pwritev"]),
   (readWrite, ["splice", "sendfile64"]),
   (sync, ["sync", "sync_file_range", "fsync", "fdatasync"]),
   (connect, ["connect"])]

/-- The class of a syscall by its name. -/
def ofName? (name : String) : Option SyscallClass :=
  (members.find? fun entry => name ∈ entry.2).map (·.1)

end SyscallClass

/-- Whether a syscall is one that moves data or changes descriptors. -/
def isIoSyscall (name : String) : Bool := (SyscallClass.ofName? name).isSome

end KernelReplay
