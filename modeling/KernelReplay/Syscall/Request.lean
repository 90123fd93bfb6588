import KernelReplay.Descriptor

/-
  I/O requests and syscalls in flight. A syscall is attached to its thread from entry to exit; one
  that does I/O also carries a request, which says what it asks for and, once it is over, what it
  got.
-/

namespace KernelReplay

/-- The operations of I/O requests. -/
inductive IoOperation
  | openFile
  | read
  | write
  | close
  | sync
  /-- Reads and writes at once. -/
  | readWrite
  | connect
  deriving DecidableEq, Repr, Inhabited

namespace IoOperation

/-- Every operation. -/
def all : List IoOperation := [openFile, read, write, close, sync, readWrite, connect]

/-- Whether two operations have a part in common, where `readWrite` is reading and writing. -/
def overlaps : IoOperation → IoOperation → Bool
  | readWrite, read | readWrite, write | read, readWrite | write, readWrite => true
  | a, b => a = b

end IoOperation

/-- A request that opens a descriptor. -/
structure OpenRequest where
  /-- The number given, once the request has succeeded. -/
  fd : Option Int := none
  filename : String
  type : FdType
  family : Option Int := none
  cloexec : Bool := false
  deriving DecidableEq, Repr, Inhabited

/-- The descriptor that the request opens under a number. -/
def OpenRequest.descriptor (o : OpenRequest) (number : Int) : Fd :=
  { number, filename := o.filename, type := o.type, cloexec := o.cloexec, family := o.family }

/-- A request that moves bytes. -/
structure Transfer where
  operation : IoOperation
  /-- The descriptor of a plain read or write. -/
  fd : Option Int := none
  /-- Where a request between two descriptors reads from. -/
  source : Option Int := none
  /-- Where a request between two descriptors writes to. -/
  target : Option Int := none
  /-- The size asked for; some syscalls only tell it at their exit. -/
  size : Option Nat := none
  /-- The size moved, once the request has succeeded. -/
  returned : Option Nat := none
  /-- A type guessed for a descriptor that is not known yet. -/
  guess : Option FdType := none
  deriving DecidableEq, Repr, Inhabited

namespace Transfer

/-- A request between two descriptors. -/
def between (source target : Option Int) (size : Option Nat) : Transfer :=
  { operation := .readWrite, source, target, size }

/-- The descriptor that the bytes come from. -/
def readSide (t : Transfer) : Option Int :=
  match t.operation with
  | .read => t.fd
  | .write => none
  | _ => t.source

/-- The descriptor that the bytes go to. -/
def writeSide (t : Transfer) : Option Int :=
  match t.operation with
  | .read => none
  | .write => t.fd
  | _ => t.target

/-- The transfer after `bytes` bytes were moved. -/
def complete (t : Transfer) (bytes : Nat) : Transfer :=
  { t with returned := some bytes, size := t.size.or (some bytes) }

end Transfer

/-- What an I/O request asks for. -/
inductive IoBody
  | opening (request : OpenRequest)
  | close (fd : Int)
  | transfer (request : Transfer)
  | sync (fd : Option Int) (size : Option Nat)
  /-- The address is known for IPv4 destinations. -/
  | connect (fd : Int) (address : Option String)
  deriving DecidableEq, Repr, Inhabited

namespace IoBody

/-- The operation of the request. -/
def operation : IoBody → IoOperation
  | opening _ => .openFile
  | close _ => .close
  | transfer t => t.operation
  | sync _ _ => .sync
  | connect _ _ => .connect

/-- The one descriptor that the request works on. -/
def fd? : IoBody → Option Int
  | opening o => o.fd
  | close fd => some fd
  | transfer t => t.fd
  | sync fd _ => fd
  | connect fd _ => some fd

/-- The bytes that the request moved, or else asked for. -/
def size? : IoBody → Option Nat
  | transfer t => t.returned.or t.size
  | sync _ size => size
  | _ => none

/-- The request after its syscall returned `ret`, which is not negative. -/
def complete (body : IoBody) (ret : Int) : IoBody :=
  match body with
  | opening o => opening { o with fd := some ret }
  | transfer t => transfer (t.complete ret.toNat)
  | other => other

end IoBody

/-- An I/O request of a thread. -/
structure IoRequest where
  tid : Int
  /-- The name of the syscall. -/
  syscall : String
  begun : Int
  ended : Option Int := none
  duration : Option Int := none
  /-- The error of a failed request. -/
  errno : Option Int := none
  /-- Pages allocated while the request was in flight. -/
  pagesAllocated : Nat := 0
  /-- Pages freed for the request after it woke the reclaiming thread. -/
  pagesFreed : Nat := 0
  /-- Pages written back while the request was in flight. -/
  pagesWritten : Nat := 0
  /-- Whether the request woke the reclaiming thread. -/
  wokeKswapd : Bool := false
  body : IoBody
  deriving DecidableEq, Repr, Inhabited

namespace IoRequest

/-- The request after its syscall returned: a negative result is an error, any other completes the
body, and without a result nothing is known but the time. -/
def finish (rq : IoRequest) (time : Int) (ret : Option Int) : Except Overflow IoRequest := do
  let duration ← checkedSub time rq.begun
  let rq := { rq with ended := some time, duration := some duration }
  match ret with
  | none => .ok rq
  | some ret =>
    if ret < 0 then do
      let errno ← checkedNeg ret
      .ok { rq with errno := some errno }
    else
      .ok { rq with body := rq.body.complete ret }

/-- A connection that does not wait for its peer returns this error and goes on. -/
def connectInProgress : Int := 115

/-- Whether a syscall that returned `ret` has done what the request asked for. -/
def succeeded (rq : IoRequest) (ret : Option Int) : Bool :=
  match ret with
  | none => false
  | some ret => 0 ≤ ret || (ret = -connectInProgress && rq.body.operation = .connect)

/-- Finishing a request notes its end, and its error or what it got, by its result. -/
theorem finish_cases {rq finished : IoRequest} {time : Int} {ret : Option Int}
    (h : rq.finish time ret = .ok finished) : ∃ errno body,
    finished = { rq with ended := some time, duration := some (time - rq.begun), errno, body } ∧
    ((ret = none ∧ errno = rq.errno ∧ body = rq.body) ∨
      ∃ n, ret = some n ∧ ((n < 0 ∧ errno = some (-n) ∧ body = rq.body) ∨
        (0 ≤ n ∧ errno = rq.errno ∧ body = rq.body.complete n))) := by
  unfold finish at h
  obtain ⟨duration, hd, h⟩ := checked_bind_eq_ok_iff.1 h
  obtain ⟨-, rfl⟩ := checkedSub_eq_ok_iff.1 hd
  cases ret with
  | none =>
    cases h
    exact ⟨_, _, rfl, Or.inl ⟨rfl, rfl, rfl⟩⟩
  | some n =>
    dsimp only at h
    split at h
    · rename_i hn
      obtain ⟨errno, he, h⟩ := checked_bind_eq_ok_iff.1 h
      obtain ⟨-, rfl⟩ := checkedNeg_eq_ok_iff.1 he
      cases h
      exact ⟨_, _, rfl, Or.inr ⟨n, rfl, Or.inl ⟨hn, rfl, rfl⟩⟩⟩
    · rename_i hn
      cases h
      exact ⟨_, _, rfl, Or.inr ⟨n, rfl, Or.inr ⟨Int.not_lt.1 hn, rfl, rfl⟩⟩⟩

theorem finish_duration {rq finished : IoRequest} {time : Int} {ret : Option Int}
    (h : rq.finish time ret = .ok finished) : finished.duration = some (time - rq.begun) := by
  obtain ⟨errno, body, rfl, -⟩ := finish_cases h
  rfl

/-- A request can be finished if its duration is in range and its result can be negated. -/
theorem finish_succeeds {rq : IoRequest} {time : Int} {ret : Option Int}
    (hd : FitsSigned (time - rq.begun)) (hr : ∀ r, ret = some r → FitsSigned (-r)) :
    ∃ finished, rq.finish time ret = .ok finished := by
  unfold finish
  rw [checkedSub_eq_ok_iff.2 ⟨hd, rfl⟩]
  dsimp only [bind, Except.bind]
  cases ret with
  | none => exact ⟨_, rfl⟩
  | some r =>
    dsimp only
    split
    · rw [checkedNeg_eq_ok_iff.2 ⟨hr r rfl, rfl⟩]
      exact ⟨_, rfl⟩
    · exact ⟨_, rfl⟩

end IoRequest

/-- A syscall, from its entry to its exit. -/
structure Call where
  name : String
  begun : Int
  ended : Option Int := none
  /-- The result, which some tracers leave out. -/
  ret : Option Int := none
  duration : Option Int := none
  /-- The I/O request of a syscall that does I/O. -/
  request : Option IoRequest := none
  deriving DecidableEq, Repr, Inhabited

/-- The syscall after its exit. -/
def Call.finish (c : Call) (time : Int) (ret : Option Int) : Except Overflow Call := do
  let duration ← checkedSub time c.begun
  .ok { c with ended := some time, ret, duration := some duration }

theorem Call.finish_eq_ok_iff {c d : Call} {time : Int} {ret : Option Int} :
    c.finish time ret = .ok d ↔ FitsSigned (time - c.begun) ∧
      d = { c with ended := some time, ret, duration := some (time - c.begun) } := by
  unfold Call.finish
  rw [checked_bind_eq_ok_iff]
  constructor
  · intro h
    obtain ⟨duration, hd, h⟩ := h
    obtain ⟨hf, rfl⟩ := checkedSub_eq_ok_iff.1 hd
    exact ⟨hf, (Except.ok.inj h).symm⟩
  · intro h
    obtain ⟨hf, rfl⟩ := h
    exact ⟨_, checkedSub_eq_ok_iff.2 ⟨hf, rfl⟩, rfl⟩

end KernelReplay
