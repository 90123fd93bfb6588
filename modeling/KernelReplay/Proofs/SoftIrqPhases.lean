import KernelReplay.Proofs.InterruptSteps

/-
  The soft interrupts of one vector on one CPU go through four phases. The queue that the CPU keeps
  for the vector is at all times the image of the phase that the events of the vector and the CPU
  lead to, and of those alone (`Run.queue_eq`); an exit tells of the interrupt at the head of the
  phase (`Run.softIrqExits_of_exit`). Of the phases, none holds more than two interrupts, and only
  the last of them can still wait for its entry.
-/

namespace KernelReplay

/-! ## Phases -/

/-- What the soft interrupts of a vector on a CPU are about. -/
inductive SoftIrqPhase
  | idle
  /-- Raised and not entered. -/
  | raised (raise : Int)
  /-- Entered; the raise may not have been traced. -/
  | running (raise : Option Int) (begun : Int)
  /-- Raised again while the handler runs. -/
  | runningRaised (raise : Option Int) (begun again : Int)
  deriving DecidableEq

/-- What can happen to the soft interrupts of a vector. -/
inductive SoftIrqAction
  | raise
  | entry
  | exit
  deriving DecidableEq

namespace SoftIrqPhase

/-- The phase after an action. -/
def next (time : Int) : SoftIrqAction → SoftIrqPhase → SoftIrqPhase
  | .raise, idle => raised time
  | .raise, running r b => runningRaised r b time
  | .raise, phase => phase
  | .entry, idle => running none time
  | .entry, raised r => running (some r) time
  | .entry, running r _ => running r time
  | .entry, runningRaised r _ again => runningRaised r time again
  | .exit, runningRaised _ _ again => raised again
  | .exit, _ => idle

/-- The phase after what may be an action. -/
def after (time : Int) : Option SoftIrqAction → SoftIrqPhase → SoftIrqPhase
  | some action, phase => phase.next time action
  | none, phase => phase

/-- The soft interrupts of a phase, oldest first. -/
def queue (cpu : Nat) (vector : Int) : SoftIrqPhase → List SoftIrq
  | idle => []
  | raised r => [{ vector, cpu, raised := some r }]
  | running r b => [{ vector, cpu, raised := r, begun := some b }]
  | runningRaised r b again =>
    [{ vector, cpu, raised := r, begun := some b }, { vector, cpu, raised := some again }]

/-- The soft interrupt that an exit ends, entered or not. -/
def ended? (cpu : Nat) (vector time : Int) : SoftIrqPhase → Option SoftIrq
  | idle => none
  | raised r => some { vector, cpu, raised := some r, ended := some time }
  | running r b | runningRaised r b _ =>
    some { vector, cpu, raised := r, begun := some b, ended := some time }

/-- No phase holds more than two soft interrupts. -/
theorem length_queue_le (phase : SoftIrqPhase) (cpu : Nat) (vector : Int) :
    (phase.queue cpu vector).length ≤ 2 := by
  cases phase <;> simp [queue]

/-- All soft interrupts of a phase but the last have been entered. -/
theorem entered_of_mem_dropLast (phase : SoftIrqPhase) (cpu : Nat) (vector : Int) :
    ∀ irq ∈ (phase.queue cpu vector).dropLast, irq.begun.isSome := by
  cases phase <;> simp [queue]

end SoftIrqPhase

/-- What a CPU's action does to the soft interrupts of a vector. -/
def CpuAction.softIrq? (vector : Int) : CpuAction → Option SoftIrqAction
  | raiseSoft v => if v = vector then some .raise else none
  | enterSoft v => if v = vector then some .entry else none
  | exitSoft v => if v = vector then some .exit else none
  | _ => none

/-- What an event does to the soft interrupts of a vector on a CPU. -/
def Event.softIrq? (e : Event) (cpu : Nat) (vector : Int) : Option SoftIrqAction :=
  if e.cpu? = some cpu ∧ e.int? "vec" = some vector then
    match e.kind? with
    | some .softIrqRaise => some .raise
    | some .softIrqEntry => some .entry
    | some .softIrqExit => some .exit
    | _ => none
  else
    none

theorem Event.softIrq?_eq (e : Event) (cpu : Nat) (vector : Int) :
    e.softIrq? cpu vector = match e.interrupt? with
      | some (c, action) => if c = cpu then action.softIrq? vector else none
      | none => none := by
  cases hk : e.kind? with
  | none => simp [Event.softIrq?, Event.interrupt?, hk]
  | some kind =>
    rw [Event.interrupt?_of_kind hk]
    unfold Event.softIrq?
    rw [hk]
    cases hc : e.cpu? with
    | none => simp
    | some c =>
      by_cases hcpu : c = cpu
      · cases kind
        case irqEntry =>
          cases hid : e.int? "irq" <;> simp [CpuAction.ofKind?, CpuAction.softIrq?, hid]
        case softIrqRaise | softIrqEntry | softIrqExit =>
          cases hvec : e.int? "vec" <;>
            simp [CpuAction.ofKind?, CpuAction.softIrq?, hvec, hcpu]
        all_goals simp [CpuAction.ofKind?, CpuAction.softIrq?]
      · cases CpuAction.ofKind? kind e <;> simp [hcpu]

theorem CpuAction.softIrq?_eq_exit_iff {vector : Int} {a : CpuAction} :
    a.softIrq? vector = some .exit ↔ a = .exitSoft vector := by
  cases a <;> simp [CpuAction.softIrq?]

theorem Event.softIrq?_eq_exit_iff {e : Event} {cpu : Nat} {vector : Int} :
    e.softIrq? cpu vector = some .exit ↔ e.interrupt? = some (cpu, .exitSoft vector) := by
  rw [e.softIrq?_eq]
  cases e.interrupt? with
  | none => simp
  | some named =>
    obtain ⟨c, a⟩ := named
    by_cases hc : c = cpu
    · simp [hc, CpuAction.softIrq?_eq_exit_iff]
    · simp [hc]

/-- The phase after events. -/
def softIrqPhase (past : List Event) (cpu : Nat) (vector : Int) : SoftIrqPhase :=
  past.foldl (fun phase e => phase.after e.time (e.softIrq? cpu vector)) .idle

theorem softIrqPhase_snoc (past : List Event) (e : Event) (cpu : Nat) (vector : Int) :
    softIrqPhase (past ++ [e]) cpu vector =
      (softIrqPhase past cpu vector).after e.time (e.softIrq? cpu vector) := by
  unfold softIrqPhase
  rw [List.foldl_append]
  rfl

/-! ## Queues of a CPU -/

namespace Cpu

variable (c : Cpu) (vector w time : Int)

theorem queue_setQueue (q : List SoftIrq) :
    (c.setQueue vector q).queue w = if w = vector then q else c.queue w := by
  unfold setQueue queue
  rw [Table.get?_insert]
  split <;> rfl

theorem queue_dropSoftIrq :
    (c.dropSoftIrq vector).queue w = if w = vector then (c.queue w).tail else c.queue w := by
  unfold dropSoftIrq queue
  rw [Table.get?_adjust]
  split
  · cases c.softIrqs.get? w <;> rfl
  · rfl

/-- Raising or entering one vector leaves the others alone. -/
theorem queue_raiseSoftIrq_of_ne {c : Cpu} {vector w : Int} (h : w ≠ vector) (time : Int) :
    (c.raiseSoftIrq vector time).queue w = c.queue w := by
  unfold raiseSoftIrq
  split
  · rfl
  · rw [queue_setQueue, if_neg h]

theorem queue_enterSoftIrq_of_ne {c : Cpu} {vector w : Int} (h : w ≠ vector) (time : Int) :
    (c.enterSoftIrq vector time).queue w = c.queue w := by
  unfold enterSoftIrq
  split <;> rw [queue_setQueue, if_neg h]

variable {c} {vector} {phase : SoftIrqPhase}

theorem queue_raiseSoftIrq (h : c.queue vector = phase.queue c.id vector) :
    (c.raiseSoftIrq vector time).queue vector = (phase.next time .raise).queue c.id vector := by
  unfold raiseSoftIrq awaitsEntry
  rw [h]
  cases phase with
  | idle | running => simp [SoftIrqPhase.queue, SoftIrqPhase.next, queue_setQueue]
  | raised | runningRaised => simpa [SoftIrqPhase.queue, SoftIrqPhase.next] using h

theorem queue_enterSoftIrq (h : c.queue vector = phase.queue c.id vector) :
    (c.enterSoftIrq vector time).queue vector = (phase.next time .entry).queue c.id vector := by
  unfold enterSoftIrq
  rw [h]
  cases phase <;> simp [SoftIrqPhase.queue, SoftIrqPhase.next, queue_setQueue]

theorem queue_dropSoftIrq_self (h : c.queue vector = phase.queue c.id vector) :
    (c.dropSoftIrq vector).queue vector = (phase.next time .exit).queue c.id vector := by
  rw [queue_dropSoftIrq, if_pos rfl, h]
  cases phase <;> rfl

theorem endedSoftIrq?_eq (h : c.queue vector = phase.queue c.id vector) :
    c.endedSoftIrq? vector time = phase.ended? c.id vector time := by
  unfold endedSoftIrq?
  rw [h]
  cases phase <;> rfl

/-- An action on a CPU takes the queue of each vector through its phases. -/
theorem queue_act (h : c.queue vector = phase.queue c.id vector) (a : CpuAction) :
    (a.act time c).queue vector = (phase.after time (a.softIrq? vector)).queue c.id vector := by
  cases a with
  | enterHard | exitHard => exact h
  | raiseSoft v =>
    by_cases hv : v = vector
    · rw [CpuAction.softIrq?, if_pos hv, hv]
      exact queue_raiseSoftIrq time h
    · rw [CpuAction.softIrq?, if_neg hv]
      exact (queue_raiseSoftIrq_of_ne (Ne.symm hv) time).trans h
  | enterSoft v =>
    by_cases hv : v = vector
    · rw [CpuAction.softIrq?, if_pos hv, hv]
      exact queue_enterSoftIrq time h
    · rw [CpuAction.softIrq?, if_neg hv]
      exact (queue_enterSoftIrq_of_ne (Ne.symm hv) time).trans h
  | exitSoft v =>
    by_cases hv : v = vector
    · rw [CpuAction.softIrq?, if_pos hv, hv]
      exact queue_dropSoftIrq_self time h
    · rw [CpuAction.softIrq?, if_neg hv]
      exact ((queue_dropSoftIrq c v vector).trans (if_neg (Ne.symm hv))).trans h

end Cpu

/-! ## Runs -/

/-- The soft interrupts of a vector on a CPU, oldest first: none, if either is not known. -/
def State.softIrqs (s : State) (cpu : Nat) (vector : Int) : List SoftIrq :=
  ((s.cpus.get? cpu).bind fun c => c.softIrqs.get? vector).getD []

theorem State.softIrqs_eq_queue (s : State) (cpu : Nat) (vector : Int) :
    s.softIrqs cpu vector = (s.handlers cpu).queue vector := by
  unfold State.softIrqs State.handlers State.cpuOrFresh
  cases s.cpus.get? cpu <;> rfl

namespace Run

variable {settings : Settings} {history : List Step} {r : Replay}

theorem queue_eq (h : Run settings history r) (cpu : Nat) (vector : Int) :
    (r.state.handlers cpu).queue vector =
      (softIrqPhase (history.map (·.event)) cpu vector).queue cpu vector := by
  induction h with
  | start => rfl
  | @next history r e p h hp ih =>
    have hid := h.handlers_id cpu
    rw [List.map_append, List.map_singleton, softIrqPhase_snoc, e.softIrq?_eq]
    rw [(h.interruptStep hp).handlers]
    cases he : e.interrupt? with
    | none => exact ih
    | some named =>
      obtain ⟨c, a⟩ := named
      dsimp only
      by_cases hc : cpu = c
      · have hact := Cpu.queue_act e.time (c := r.state.handlers cpu) (by rw [hid]; exact ih) a
        rw [hid] at hact
        rw [if_pos hc, if_pos hc.symm]
        exact hact
      · rw [if_neg hc, if_neg (Ne.symm hc)]
        exact ih

/-- An exit tells of the oldest soft interrupt of its vector on its CPU. -/
theorem softIrqExits_of_exit {e : Event} {p : Replay.Progress} (h : Run settings history r)
    (hp : r.process e = .ok p) {cpu : Nat} {vector : Int}
    (he : e.interrupt? = some (cpu, .exitSoft vector)) : softIrqExits p.signals =
      ((softIrqPhase (history.map (·.event)) cpu vector).ended? cpu vector e.time).toList := by
  have hqueue : (r.state.handlers cpu).queue vector =
      (softIrqPhase (history.map (·.event)) cpu vector).queue (r.state.handlers cpu).id vector := by
    rw [h.handlers_id, h.queue_eq]
  have hended := Cpu.endedSoftIrq?_eq e.time hqueue
  rw [h.handlers_id] at hended
  rw [(h.interruptStep hp).softExits, Event.endedSoftIrq?, he, ← hended]

/-- The soft interrupts of every vector on every CPU go through the phases that the events of the
vector on the CPU lead to. So at most two are ever held, of which only the last can wait for its
entry, and an exit tells of one exactly if there is one, the oldest with the stamps that it got. -/
theorem softIrqs_follow_phases (h : Run settings history r) :
    (∀ cpu vector, r.state.softIrqs cpu vector =
      (softIrqPhase (history.map (·.event)) cpu vector).queue cpu vector) ∧
    (∀ cpu vector, (r.state.softIrqs cpu vector).length ≤ 2 ∧
      ∀ irq ∈ (r.state.softIrqs cpu vector).dropLast, irq.begun.isSome) ∧
    ∀ e p, r.process e = .ok p →
      (∀ cpu vector, e.softIrq? cpu vector = some .exit → softIrqExits p.signals =
        ((softIrqPhase (history.map (·.event)) cpu vector).ended? cpu vector e.time).toList) ∧
      ((∀ cpu vector, e.softIrq? cpu vector ≠ some .exit) → softIrqExits p.signals = []) := by
  have hqueue : ∀ cpu vector, r.state.softIrqs cpu vector =
      (softIrqPhase (history.map (·.event)) cpu vector).queue cpu vector := by
    intro cpu vector
    rw [State.softIrqs_eq_queue, h.queue_eq]
  refine ⟨hqueue, fun cpu vector => ?_, fun e p hp => ⟨fun cpu vector he => ?_, fun hnone => ?_⟩⟩
  · rw [hqueue]
    exact ⟨SoftIrqPhase.length_queue_le _ _ _, SoftIrqPhase.entered_of_mem_dropLast _ _ _⟩
  · exact h.softIrqExits_of_exit hp (Event.softIrq?_eq_exit_iff.1 he)
  · rw [(h.interruptStep hp).softExits, Event.endedSoftIrq?]
    split
    · rename_i cpu vector he
      exact (hnone cpu vector (Event.softIrq?_eq_exit_iff.2 he)).elim
    · rfl

end Run

/-- A soft interrupt that is raised twice before its entry and once more after it. -/
def reraised : List Event :=
  [.recorded 2 1 "softirq_raise" [("vec", .signed 3)],
   .recorded 2 2 "softirq_raise" [("vec", .signed 3)],
   .recorded 2 3 "softirq_entry" [("vec", .signed 3)],
   .recorded 2 4 "softirq_raise" [("vec", .signed 3)]]

/-- The exit of its handler. -/
def reraisedExit : Event := .recorded 2 5 "softirq_exit" [("vec", .signed 3)]

theorem reraised_follows_phases : ∃ history r p, Run {} history r ∧
    r.process reraisedExit = .ok p ∧
    r.state.softIrqs 2 3 = [{ vector := 3, cpu := 2, raised := some 1, begun := some 3 },
      { vector := 3, cpu := 2, raised := some 4 }] ∧
    softIrqExits p.signals =
      [{ vector := 3, cpu := 2, raised := some 1, begun := some 3, ended := some 5 }] := by
  have hgives : Replay.gives {} reraised
      (fun p => (p.replay.process reraisedExit).toOption.isSome) = true := by decide +kernel
  obtain ⟨history, p, h, he, -, htest⟩ := Run.of_gives hgives
  have hphase : softIrqPhase reraised 2 3 = .runningRaised (some 1) 3 4 := by decide +kernel
  have hexit : reraisedExit.softIrq? 2 3 = some .exit := by decide +kernel
  obtain ⟨hqueue, -, hexits⟩ := h.softIrqs_follow_phases
  rw [he] at hqueue hexits
  cases hq : p.replay.process reraisedExit with
  | error f =>
    rw [hq] at htest
    cases htest
  | ok q =>
    refine ⟨history, p.replay, q, h, hq, ?_, ?_⟩
    · rw [hqueue, hphase]
      rfl
    · rw [(hexits reraisedExit q hq).1 2 3 hexit, hphase]
      rfl

end KernelReplay
