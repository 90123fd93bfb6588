import KernelReplay.Rules.Descriptors
import KernelReplay.Syscall.Class
import KernelReplay.Trace.EventKind

/-
  I/O requests. The entry of an I/O syscall attaches a request to the syscall in flight. Its exit
  finishes the request, applies what it did to the table of descriptors that the thread uses, and
  announces it, whether it succeeded or not. In between, requests count the pages that the machine
  writes back and frees for them.
-/

namespace KernelReplay.IoRequests

open Update

/-- The endpoint of an IPv4 socket: its address and the number in a field of the event, where the
event reports both. -/
def endpoint? (e : Event) (numberField : String) : Option String :=
  if e.int? "family" = some FdType.inetFamily then do
    let address ← (e.field? "v4addr").bind FieldValue.ipv4?
    let number ← e.int? numberField
    some s!"{address.render}:{number}"
  else
    none

/-- Whether the flags of an event ask for the descriptor to be closed on exec. -/
def asksCloexec (e : Event) : Bool := (e.int? "flags").any hasCloexec

/-- What a call of the `dup` family asks for. -/
structure DupArguments where
  source : Int
  /-- The number asked for, where the caller chooses it. -/
  target : Option Int := none
  cloexec : Bool := false
  deriving DecidableEq, Repr, Inhabited

/-- The command of `fcntl` that duplicates a descriptor. -/
def fcntlDup : Int := 0

/-- The command of `fcntl` that duplicates a descriptor and marks the copy to be closed on exec. -/
def fcntlDupCloexec : Int := 1030

/-- What a call of the `dup` family asks for, if it is one that duplicates. -/
def dupArguments? (e : Event) (syscall : String) : Option DupArguments :=
  match syscall with
  | "dup" => do
    let source ← e.int? "fildes"
    some { source }
  | "dup2" => do
    let source ← e.int? "oldfd"
    some { source, target := e.int? "newfd" }
  | "dup3" => do
    let source ← e.int? "oldfd"
    some { source, target := e.int? "newfd", cloexec := asksCloexec e }
  | "fcntl" => do
    let command ← e.int? "cmd"
    if command = fcntlDup then do
      let source ← e.int? "fd"
      some { source }
    else if command = fcntlDupCloexec then do
      let source ← e.int? "fd"
      some { source, cloexec := true }
    else
      none
  | _ => none

/-- The request that opens a copy of a descriptor, or of nothing known. -/
def copyRequest (source : Option Fd) (cloexec : Bool) : OpenRequest :=
  match source with
  | some fd => { filename := fd.filename, type := fd.type, family := fd.family, cloexec }
  | none => { filename := "unknown", type := .unknown, cloexec }

/-- The field that holds the size of a read or write, for the syscalls that tell it at entry. -/
def sizeField? (syscall : String) : Option String :=
  if syscall ∈ ["readv", "preadv", "writev", "pwritev"] then some "vlen"
  else if syscall = "recvfrom" then some "size"
  else if syscall = "sendto" then some "len"
  else if syscall ∈ ["recvmsg", "sendmsg"] then none
  else some "count"

/-- The transfer of a plain read or write. -/
def transfer (e : Event) (operation : IoOperation) (syscall : String) : Transfer :=
  { operation, fd := e.int? "fd", size := (sizeField? syscall).bind e.nat? }

/-- The transfer of a syscall between two descriptors. -/
def transferBetween (e : Event) (syscall : String) : Transfer :=
  if syscall = "splice" then
    .between (e.int? "fd_in") (e.int? "fd_out") (e.nat? "len")
  else
    .between (e.int? "in_fd") (e.int? "out_fd") (e.nat? "count")

/-- What an I/O syscall asks for, except for the `dup` family, which depends on the state. -/
def body? (e : Event) (kind : SyscallClass) (syscall : String) : Option IoBody :=
  match kind with
  | .diskOpen => some <| .opening
    { filename := (e.text? "filename").getD "unknown", type := .disk, cloexec := asksCloexec e }
  | .accept => some <| .opening
    { filename := (endpoint? e "sport").getD "socket", type := .net, family := e.int? "family" }
  | .socket => some <| .opening
    { filename := "socket", type := .ofFamily (e.int? "family"), family := e.int? "family" }
  | .dup => none
  | .close => (e.int? "fd").map .close
  | .read => some <| .transfer (transfer e .read syscall)
  | .write => some <| .transfer (transfer e .write syscall)
  | .readWrite => some <| .transfer (transferBetween e syscall)
  | .sync => some <|
    if syscall = "sync" then .sync none none
    else .sync (e.int? "fd") (if syscall = "sync_file_range" then e.nat? "nbytes" else none)
  | .connect => (e.int? "fd").map fun fd => .connect fd (endpoint? e "dport")

/-- Learns the group of a thread from the stream, which some tracers only tell there, and makes the
leader if it is not known. A payload field of the same name shadows the context. -/
def learnGroup (e : Event) (tid : Int) : Update Unit :=
  if (e.field? "pid").isSome then pure ()
  else whenSome ((e.contextField? "pid").bind FieldValue.int?) fun pid => do
    modify (·.admitThread tid)
    let s ← get
    let thread := s.threadOrFresh tid
    if thread.pid.isSome then
      pure ()
    else
      modify (·.setThread tid { thread with pid := some pid })
      if s.threads.contains pid then
        pure ()
      else
        report (.leaderFromContext pid tid)
        modify (·.setThread pid (.ofGroup pid pid thread.comm))

/-- Attaches a request to the syscall that a thread is in. -/
def attach (e : Event) (tid : Int) (syscall : String) (body : IoBody) : Update Unit := do
  let s ← get
  if ((s.thread? tid).bind (·.call)).isSome then
    modify (·.adjustThread tid fun t =>
      { t with call := t.call.map fun c =>
        { c with request := some { tid, syscall, begun := e.time, body } } })
  else
    report (.requestWithoutCall tid syscall)

/-- The entry of a call of the `dup` family. The number it chooses is closed first, unless it is the
number to be copied. -/
def enterDup (e : Event) (tid : Int) (syscall : String) : Update Unit :=
  whenSome (dupArguments? e syscall) fun args => do
    let s ← get
    let owner := s.fdOwner tid
    whenSome (args.target.filter (· ≠ args.source)) fun target =>
      Descriptors.close owner target e.time e.cpu?
    attach e tid syscall (.opening (copyRequest (s.ownFd? owner args.source) args.cloexec))

/-- A thread enters an I/O syscall. -/
def entry (e : Event) : Update Unit :=
  let syscall := syscallName e.name
  whenSome (SyscallClass.ofName? syscall) fun kind => do
    let s ← get
    whenSome (e.cpu?.bind s.running?) fun tid => do
      learnGroup e tid
      if kind = .dup then enterDup e tid syscall
      else whenSome (body? e kind syscall) (attach e tid syscall)

/-- Counts bytes for one side of a transfer: `onFd` for its descriptor, if that is in the owner's
table, and then `onThread` for the thread, under the type that the descriptor has by then. -/
def countSide (owner tid : Int) (side : Option Int) (onFd : Fd → Fd)
    (onThread : FdType → IoCounts → IoCounts) (s : State) : State :=
  match side.bind (s.ownFd? owner), side with
  | some fd, some number =>
    (s.adjustFd owner number onFd).adjustThread tid fun t =>
      { t with io := onThread (onFd fd).type t.io }
  | _, _ => s

/-- Counts the bytes of a finished transfer for the descriptors that it names and for the thread. A
guess takes effect on the descriptor written to before its bytes are counted. -/
def countBytes (t : Transfer) (tid owner : Int) (s : State) : State :=
  match t.returned with
  | none => s
  | some bytes =>
    s |> countSide owner tid t.readSide (·.countRead bytes) (fun type io => io.addRead type bytes)
      |> countSide owner tid t.writeSide (fun fd => (fd.guessed t.guess).countWrite bytes)
        (fun type io => io.addWrite type bytes)

/-- What a request that succeeded does to the table of descriptors. -/
def applyBody (body : IoBody) (e : Event) (tid owner : Int) (cpu : Nat) : Update Unit :=
  let ensure := fun fd => Descriptors.ensure owner fd e.time (some cpu)
  match body with
  | .opening request => whenSome request.fd fun number => ensure (request.descriptor number)
  | .transfer t => do
    forEach ([t.fd, t.source, t.target].filterMap id) fun number => ensure { number }
    modify (countBytes t tid owner)
  | .sync fd _ => whenSome fd fun number => ensure { number }
  -- An address names a socket that is known and opens none.
  | .connect number address => whenSome address fun filename => do
    modify (·.adjustFd owner number fun fd => { fd with filename })
    Descriptors.announce .update owner number e.time (some cpu)
  | .close _ => pure ()

/-- The effect of a finished request on the table of descriptors. One that failed has none. -/
def settle (request : IoRequest) (e : Event) (tid owner : Int) (cpu : Nat) : Update Unit :=
  if request.succeeded (e.int? "ret") then applyBody request.body e tid owner cpu else pure ()

/-- Announces a finished request with its thread and the owner of the table, as they are by then. -/
def announceExit (request : IoRequest) (tid owner : Int) : Update Unit := do
  let s ← get
  match s.thread? tid, s.thread? owner with
  | some thread, some leader => notify (.requestExit request thread leader)
  | _, _ => pure ()

/-- The descriptor that a syscall which returned `ret` has closed. -/
def closed? (body : IoBody) (ret : Option Int) : Option Int :=
  match body with
  | .close number => if ret = some 0 then some number else none
  | _ => none

/-- Finishes a request that has been taken off its thread. A descriptor that it closes goes last, so
the announcement still shows the table with it. -/
def finish (e : Event) (cpu : Nat) (tid : Int) (request : IoRequest) : Update Unit := do
  let request ← compute (request.finish e.time (e.int? "ret"))
  let s ← get
  let owner := s.fdOwner tid
  settle request e tid owner cpu
  announceExit request tid owner
  whenSome (closed? request.body (e.int? "ret")) fun number =>
    Descriptors.close owner number e.time (some cpu)

/-- An I/O syscall ends on a CPU. -/
def exit (e : Event) : Update Unit :=
  whenSome e.cpu? fun cpu => do
    let s ← get
    whenSome (s.running? cpu) fun tid =>
      whenSome ((s.thread? tid).bind (·.call)) fun call =>
        if isIoSyscall call.name then do
          modify (·.adjustThread tid fun t => { t with call := none })
          whenSome call.request (finish e cpu tid)
        else
          pure ()

/-- A request with more pages written back. -/
def countWritten (pages : Nat) (rq : IoRequest) : IoRequest :=
  { rq with pagesWritten := saturatingAdd rq.pagesWritten pages }

/-- Pages are written back, on behalf of every CPU's running thread. -/
def pagesWritten (e : Event) : Update Unit :=
  whenSome (e.nat? "pages") fun pages => do
    let s ← get
    forEach s.running fun tid => modify (·.adjustRequest tid (countWritten pages))

/-- A thread wakes the thread that reclaims pages. -/
def kswapdWakeup (e : Event) : Update Unit := do
  let s ← get
  whenSome (e.cpu?.bind s.running?) fun tid =>
    modify (·.adjustRequest tid fun rq => { rq with wokeKswapd := true })

/-- The thread that a page freed while `tid` runs is charged to: what the reclaiming thread frees is
charged to the thread that ran before it. -/
def chargedTo (s : State) (tid : Int) : Int :=
  match s.thread? tid with
  | some t =>
    if t.comm = "kswapd0" then ((t.prevTid.filter (· > 0)).getD tid) else tid
  | none => tid

/-- A request with one more page freed, if it woke the thread that reclaims pages. -/
def countFreed (rq : IoRequest) : IoRequest :=
  if rq.wokeKswapd then { rq with pagesFreed := saturatingAdd rq.pagesFreed 1 } else rq

/-- A page is freed, on behalf of every CPU's running thread. -/
def pageFree : Update Unit := do
  let s ← get
  forEach s.running fun tid => modify (·.adjustRequest (chargedTo s tid) countFreed)

/-- What an event means for I/O requests. -/
def apply (kind : EventKind) (e : Event) : Update Unit :=
  match kind with
  | .syscallEntry => entry e
  | .syscallExit => exit e
  | .pagesWritten => pagesWritten e
  | .kswapdWakeup => kswapdWakeup e
  | .pageFree => pageFree
  | _ => pure ()

end KernelReplay.IoRequests
