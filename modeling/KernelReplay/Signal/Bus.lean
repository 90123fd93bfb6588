import KernelReplay.Signal.Notification

/-
  The notification bus. Subscribers are numbered as they register; a notification goes to those of
  its kind, in that order.
-/

namespace KernelReplay

/-- The kinds that the subscribers listen to, in the order of their registration. -/
structure Bus where
  subscribers : List NotificationKind := []
  deriving DecidableEq, Repr, Inhabited

namespace Bus

/-- Adds a subscriber, whose number is the count of those before it. -/
def register (bus : Bus) (kind : NotificationKind) : Bus × Nat :=
  ({ subscribers := bus.subscribers ++ [kind] }, bus.subscribers.length)

/-- Adds a subscriber by the name of a kind. -/
def registerByName? (bus : Bus) (name : String) : Option (Bus × Nat) :=
  (NotificationKind.ofName? name).map bus.register

/-- Whether a kind has a subscriber. -/
def hasSubscribers (bus : Bus) (kind : NotificationKind) : Bool := bus.subscribers.contains kind

/-- The numbers of the subscribers to a kind, in rising order. -/
def listeners (bus : Bus) (kind : NotificationKind) : List Nat :=
  bus.subscribers.zipIdx.filterMap fun (k, i) => if k = kind then some i else none

/-- The calls that notifications make: each to its subscribers before the next. -/
def deliver (bus : Bus) (notifications : List Notification) : List (Nat × Notification) :=
  notifications.flatMap fun n => (bus.listeners n.kind).map fun i => (i, n)

/-- How many subscribers each name has, for the names that have any, in rising order. -/
def counts (bus : Bus) : List (String × Nat) :=
  bus.subscribers.foldl (fun (t : Table String Nat) kind =>
    t.insert kind.name ((t.get? kind.name).getD 0 + 1)) ∅ |>.toList

/-- The bus as a text, for people. -/
def describe (bus : Bus) : String :=
  let entries := bus.counts.map fun (name, count) => s!"(\"" ++ name ++ s!"\", {count})"
  "NotificationBus \x7b subscribers: [" ++ ", ".intercalate entries ++ "] \x7d"

end Bus

end KernelReplay
