import KernelReplay.Signal.Diagnostic
import KernelReplay.Signal.Notification

/-
  Updates. A rule's update takes a state to the next one, tells what it signals on the way, and
  stops where a number leaves its range. Signals come out in the order in which they were sent, and
  no update can see what an earlier one has signalled.
-/

namespace KernelReplay

/-- What an update sends out. -/
inductive Signal
  | notification (n : Notification)
  | diagnostic (d : Diagnostic)
  deriving DecidableEq, Inhabited

/-- The notifications among signals. -/
def notificationsOf (signals : List Signal) : List Notification :=
  signals.filterMap fun
    | .notification n => some n
    | .diagnostic _ => none

/-- The diagnostics among signals. -/
def diagnosticsOf (signals : List Signal) : List Diagnostic :=
  signals.filterMap fun
    | .notification _ => none
    | .diagnostic d => some d

/-- What an update leaves behind. -/
structure Outcome (α : Type) where
  value : α
  state : State
  signals : List Signal

/-- A change of the state that gives a value and sends signals, unless a number overflows. -/
def Update (α : Type) : Type := State → Except Overflow (Outcome α)

namespace Update

variable {α β : Type}

/-- Gives a value and changes nothing. -/
protected def pure (a : α) : Update α := fun s => .ok ⟨a, s, []⟩

/-- One update after the other. -/
protected def bind (u : Update α) (f : α → Update β) : Update β := fun s =>
  match u s with
  | .error e => .error e
  | .ok o =>
    match f o.value o.state with
    | .error e => .error e
    | .ok o' => .ok { o' with signals := o.signals ++ o'.signals }

instance : Monad Update where
  pure := Update.pure
  bind := Update.bind

/-- The state as it is. -/
def get : Update State := fun s => .ok ⟨s, s, []⟩

/-- Changes the state. -/
def modify (f : State → State) : Update Unit := fun s => .ok ⟨(), f s, []⟩

/-- Sends a notification. -/
def notify (n : Notification) : Update Unit := fun s => .ok ⟨(), s, [.notification n]⟩

/-- Reports a diagnostic. -/
def report (d : Diagnostic) : Update Unit := fun s => .ok ⟨(), s, [.diagnostic d]⟩

/-- The result of a calculation that may overflow. -/
def compute (result : Except Overflow α) : Update α := fun s => result.map (⟨·, s, []⟩)

/-- Goes on only with a value. -/
def whenSome (a? : Option α) (f : α → Update Unit) : Update Unit :=
  match a? with
  | some a => f a
  | none => Update.pure ()

/-- One update for each member of a list, in order. -/
def forEach : List α → (α → Update Unit) → Update Unit
  | [], _ => Update.pure ()
  | a :: rest, f => Update.bind (f a) fun _ => forEach rest f

/-- Makes a CPU if it is not known. -/
def admitCpu (cpu : Nat) : Update Unit := do
  let s ← get
  if s.cpus.contains cpu then
    pure ()
  else
    modify (·.updateCpu cpu id)
    report (.newCpu cpu)

end Update

end KernelReplay
