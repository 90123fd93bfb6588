import KernelReplay.Trace.EventKind

/-
  What events say on their own, without a state: which thread a switch puts on a CPU, which thread a
  fork makes, and, given who runs where, which thread enters or leaves a syscall.
-/

namespace KernelReplay.Event

/-- The CPU that a complete switch is about, and the thread that runs there from then on. -/
def switched? (e : Event) : Option (Nat × Option Int) :=
  match e.kind?, e.cpu?, e.int? "prev_tid", e.int? "next_tid" with
  | some .schedSwitch, some cpu, some _, some next => some (cpu, if next = 0 then none else some next)
  | _, _, _, _ => none

/-- The thread that a complete switch puts on a CPU, be it the idle thread. -/
def turn? (e : Event) : Option Int :=
  match e.kind?, e.cpu?, e.int? "prev_tid", e.int? "next_tid" with
  | some .schedSwitch, some _, some _, some next => some next
  | _, _, _, _ => none

/-- The thread that a complete fork makes. -/
def forked? (e : Event) : Option Int :=
  match e.kind?, e.int? "child_tid", (e.int? "parent_tid").or (e.int? "parent_pid") with
  | some .schedFork, some child, some _ => some child
  | _, _, _ => none

/-- A thread that a complete snapshot is about, and the leader of its group. -/
def member? (e : Event) : Option (Int × Int) :=
  match e.kind?, e.int? "tid", e.int? "pid" with
  | some .processState, some tid, some pid => some (tid, pid)
  | _, _, _ => none

/-- The thread on the CPU of the event. -/
def actor? (e : Event) (who : Nat → Option Int) : Option Int := e.cpu?.bind who

/-- A thread enters a syscall. -/
def Enters (e : Event) (who : Nat → Option Int) (tid : Int) : Prop :=
  e.kind? = some .syscallEntry ∧ e.actor? who = some tid

/-- A thread leaves a syscall. -/
def Leaves (e : Event) (who : Nat → Option Int) (tid : Int) : Prop :=
  e.kind? = some .syscallExit ∧ e.actor? who = some tid

theorem not_enters {e : Event} {who : Nat → Option Int} {tid : Int}
    (h : e.kind? ≠ some .syscallEntry) : ¬ e.Enters who tid :=
  fun he => h he.1

theorem not_leaves {e : Event} {who : Nat → Option Int} {tid : Int}
    (h : e.kind? ≠ some .syscallExit) : ¬ e.Leaves who tid :=
  fun he => h he.1

/-- A syscall that a thread was in before the event is over after it, or another one has begun. -/
def Displaces (e : Event) (who : Nat → Option Int) (tid : Int) : Prop :=
  e.Enters who tid ∨ e.Leaves who tid ∨ e.forked? = some tid

theorem switched?_eq_none {e : Event} (h : e.kind? ≠ some .schedSwitch) : e.switched? = none := by
  unfold switched?
  split
  · rename_i hk _ _ _
    exact (h hk).elim
  · rfl

theorem turn?_eq_none {e : Event} (h : e.kind? ≠ some .schedSwitch) : e.turn? = none := by
  unfold turn?
  split
  · rename_i hk _ _ _
    exact (h hk).elim
  · rfl

theorem turn?_of_switch {e : Event} {cpu : Nat} {prev next : Int} (hk : e.kind? = some .schedSwitch)
    (hcpu : e.cpu? = some cpu) (hprev : e.int? "prev_tid" = some prev)
    (hnext : e.int? "next_tid" = some next) : e.turn? = some next := by
  unfold turn?
  rw [hk, hcpu, hprev, hnext]

theorem member?_eq_some {e : Event} {tid pid : Int} (h : e.member? = some (tid, pid)) :
    e.kind? = some .processState ∧ e.int? "tid" = some tid ∧ e.int? "pid" = some pid := by
  unfold member? at h
  split at h
  · rename_i hk ht hp
    cases h
    exact ⟨hk, ht, hp⟩
  · cases h

theorem member?_of_snapshot {e : Event} {tid pid : Int} (hk : e.kind? = some .processState)
    (ht : e.int? "tid" = some tid) (hp : e.int? "pid" = some pid) : e.member? = some (tid, pid) := by
  unfold member?
  rw [hk, ht, hp]

theorem forked?_eq_none {e : Event} (h : e.kind? ≠ some .schedFork) : e.forked? = none := by
  unfold forked?
  split
  · rename_i hk _ _
    exact (h hk).elim
  · rfl

theorem forked?_eq_some {e : Event} {tid : Int} (h : e.forked? = some tid) :
    e.int? "child_tid" = some tid ∧
      ∃ parent, (e.int? "parent_tid").or (e.int? "parent_pid") = some parent := by
  unfold forked? at h
  split at h
  · rename_i hc hp
    cases h
    exact ⟨hc, _, hp⟩
  · cases h

/-- What the stream of an event tells of the group of the thread on its CPU: the number in its
context, unless the payload has a field of that name. -/
def streamPid? (e : Event) : Option Int :=
  if (e.field? "pid").isSome then none else (e.contextField? "pid").bind FieldValue.int?

/-- The bytes that a syscall's exit may stand for: its result, where that is not negative. -/
def returned (e : Event) : Nat :=
  if e.kind? = some .syscallExit then ((e.int? "ret").getD 0).toNat else 0

end KernelReplay.Event

namespace KernelReplay

/-- The thread that runs on a CPU after events: the one that the last complete switch there names. -/
def runningAfter (past : List Event) (cpu : Nat) : Option Int :=
  ((past.filterMap Event.switched?).filter fun switch => switch.1 = cpu).getLast?.bind (·.2)

theorem runningAfter_snoc (past : List Event) (e : Event) (cpu : Nat) :
    runningAfter (past ++ [e]) cpu = match e.switched? with
      | some (c, next) => if c = cpu then next else runningAfter past cpu
      | none => runningAfter past cpu := by
  unfold runningAfter
  rw [List.filterMap_append, List.filter_append]
  cases h : e.switched? with
  | none => simp [h]
  | some switch =>
    obtain ⟨c, next⟩ := switch
    by_cases hc : c = cpu
    · simp [h, hc]
    · simp [h, hc]

end KernelReplay
