import Mathlib.Data.List.Induction
import KernelReplay.Proofs.BlockSteps
import KernelReplay.Proofs.SoftIrqPhases
import KernelReplay.Proofs.SyscallPairing

/-
  The times that a state remembers: of wakeups, of the starts of syscalls and requests, and of the
  interrupts that are raised or handled. Each of them is the time of an event that was replayed
  (`Run.seen_of_stores`), whichever rule put it there, so what holds of the times of all events
  holds of every time in the state.
-/

namespace KernelReplay

/-- A time that a state remembers. -/
inductive State.Stores (s : State) : Int → Prop
  | wakeup {tid : Int} {thread : Thread} {time : Int} : s.thread? tid = some thread →
      thread.lastWakeup = some time → s.Stores time
  | call {tid : Int} {thread : Thread} {call : Call} : s.thread? tid = some thread →
      thread.call = some call → s.Stores call.begun
  | request {tid : Int} {thread : Thread} {call : Call} {rq : IoRequest} :
      s.thread? tid = some thread → thread.call = some call → call.request = some rq →
      s.Stores rq.begun
  | blockRequest {dev : Nat} {disk : Disk} {sector : Nat} {rq : BlockRequest} :
      s.disks.get? dev = some disk → disk.pending.get? sector = some rq → s.Stores rq.begun
  | hardIrq {cpu : Nat} {c : Cpu} {irq : HardIrq} : s.cpus.get? cpu = some c →
      c.hardIrq = some irq → s.Stores irq.begun
  | raised {cpu : Nat} {c : Cpu} {vector : Int} {queue : List SoftIrq} {irq : SoftIrq}
      {time : Int} : s.cpus.get? cpu = some c → c.softIrqs.get? vector = some queue →
      irq ∈ queue → irq.raised = some time → s.Stores time
  | entered {cpu : Nat} {c : Cpu} {vector : Int} {queue : List SoftIrq} {irq : SoftIrq}
      {time : Int} : s.cpus.get? cpu = some c → c.softIrqs.get? vector = some queue →
      irq ∈ queue → irq.begun = some time → s.Stores time

/-! ## What events add -/

theorem Event.begun_of_issue? {e : Event} {device : Location → Nat} {rq : BlockRequest}
    (h : e.issue? device = some rq) : rq.begun = e.time := by
  unfold Event.issue? at h
  split at h
  · split at h
    · cases h
    · cases h
      rfl
  · cases h

/-- The hard interrupt that a CPU handles was begun by an entry. -/
theorem CpuAction.hardIrq_act {time : Int} {a : CpuAction} {c : Cpu} {irq : HardIrq}
    (h : (a.act time c).hardIrq = some irq) :
    c.hardIrq = some irq ∨ ∃ id, irq = { id, cpu := c.id, begun := time } := by
  cases a with
  | enterHard id =>
    cases h
    exact Or.inr ⟨id, rfl⟩
  | exitHard => cases h
  | raiseSoft vector =>
    have h : (c.raiseSoftIrq vector time).hardIrq = some irq := h
    unfold Cpu.raiseSoftIrq at h
    split at h <;> exact Or.inl h
  | enterSoft vector =>
    have h : (c.enterSoftIrq vector time).hardIrq = some irq := h
    unfold Cpu.enterSoftIrq at h
    split at h <;> exact Or.inl h
  | exitSoft vector => exact Or.inl h

/-- The times that a phase remembers. -/
def SoftIrqPhase.stamps : SoftIrqPhase → List Int
  | idle => []
  | raised r => [r]
  | running r b => r.toList ++ [b]
  | runningRaised r b again => r.toList ++ [b, again]

theorem SoftIrqPhase.stamp_of_mem_queue {phase : SoftIrqPhase} {cpu : Nat} {vector : Int}
    {irq : SoftIrq} (h : irq ∈ phase.queue cpu vector) {time : Int}
    (ht : irq.raised = some time ∨ irq.begun = some time) : time ∈ phase.stamps := by
  cases phase with
  | idle => cases h
  | raised r =>
    rw [List.mem_singleton.1 h] at ht
    simpa [stamps, eq_comm] using ht
  | running r b =>
    rw [List.mem_singleton.1 h] at ht
    simpa [stamps, eq_comm] using ht
  | runningRaised r b again =>
    simp only [queue, List.mem_cons, List.not_mem_nil, or_false] at h
    rcases h with rfl | rfl
    · simp only [stamps, List.mem_append, List.mem_cons, Option.mem_toList]
      rcases ht with ht | ht
      · exact Or.inl ht
      · exact Or.inr (Or.inl (Option.some.inj ht).symm)
    · simp only [stamps, List.mem_append, List.mem_cons]
      rcases ht with ht | ht
      · exact Or.inr (Or.inr (Or.inl (Option.some.inj ht).symm))
      · cases ht

/-- An action adds no stamp but its own time. -/
theorem SoftIrqPhase.stamps_next {phase : SoftIrqPhase} {time τ : Int} {action : SoftIrqAction}
    (h : τ ∈ (phase.next time action).stamps) : τ ∈ phase.stamps ∨ τ = time := by
  cases action <;> cases phase <;>
    simp only [next, stamps, List.mem_append, List.mem_cons, List.not_mem_nil, or_false,
      Option.toList_none, Option.toList_some] at h ⊢ <;> grind

theorem softIrqPhase_stamps {past : List Event} {cpu : Nat} {vector τ : Int}
    (h : τ ∈ (softIrqPhase past cpu vector).stamps) : ∃ e ∈ past, e.time = τ := by
  induction past using List.reverseRecOn with
  | nil => cases h
  | append_singleton past e ih =>
    rw [softIrqPhase_snoc] at h
    have hcases : τ ∈ (softIrqPhase past cpu vector).stamps ∨ τ = e.time := by
      cases he : e.softIrq? cpu vector with
      | none =>
        rw [he] at h
        exact Or.inl h
      | some action =>
        rw [he] at h
        exact SoftIrqPhase.stamps_next h
    rcases hcases with hold | rfl
    · obtain ⟨e', he', ht⟩ := ih hold
      exact ⟨e', List.mem_append_left _ he', ht⟩
    · exact ⟨e, by simp, rfl⟩

/-! ## Runs -/

/-- A time of an event that was replayed. -/
def Seen (history : List Step) (time : Int) : Prop := ∃ step ∈ history, step.event.time = time

theorem seen_of_mem_events {history : List Step} {e : Event} (h : e ∈ history.map (·.event)) :
    Seen history e.time := by
  obtain ⟨step, hmem, rfl⟩ := List.mem_map.1 h
  exact ⟨step, hmem, rfl⟩

namespace Run

variable {settings : Settings} {history : List Step} {r : Replay}

/-- Where each event adds no time but its own, every time is one of an event. -/
theorem seen_of_steps {P : State → Int → Prop}
    (hstart : ∀ time, ¬ P (.ofSettings settings) time)
    (hstep : ∀ {history r e p}, Run settings history r → r.process e = .ok p →
      ∀ time, P p.replay.state time → P r.state time ∨ time = e.time)
    (h : Run settings history r) {time : Int} (ht : P r.state time) : Seen history time := by
  induction h with
  | start => exact (hstart time ht).elim
  | @next history r e p h hp ih =>
    rcases hstep h hp time ht with hold | rfl
    · obtain ⟨step, hmem, htime⟩ := ih hold
      exact ⟨step, List.mem_append_left _ hmem, htime⟩
    · exact ⟨_, List.mem_append_right _ List.mem_cons_self, rfl⟩

theorem seen_wakeup (h : Run settings history r) {tid time : Int}
    (ht : (r.state.standby tid).wakeup = some time) : Seen history time := by
  refine h.seen_of_steps (P := fun s time => (s.standby tid).wakeup = some time) ?_ ?_ ht
  · intro time ht
    rw [State.standby_of_none rfl] at ht
    cases ht
  · exact fun h hp time => (h.facetStep hp).woken tid time

theorem seen_call (h : Run settings history r) {tid : Int} {call : Call}
    (hc : r.state.call? tid = some call) : Seen history call.begun := by
  have hmark : r.state.mark? tid = some call.mark := by
    rw [State.mark?, hc]
    rfl
  obtain ⟨entry, ⟨before, after, hpast, -, -⟩, hentry⟩ := (h.mark?_eq_some_iff tid _).1 hmark
  have hbegun : entry.time = call.begun := (Prod.mk.inj hentry).2
  rw [← hbegun]
  exact seen_of_mem_events (by simp [hpast])

/-- A request begins with its syscall. -/
theorem seen_request (h : Run settings history r) {tid : Int} {call : Call} {rq : IoRequest}
    (hc : r.state.call? tid = some call) (hrq : call.request = some rq) :
    Seen history rq.begun := by
  rw [((h.callsSound.pending tid call hc).request rq hrq).begun]
  exact h.seen_call hc

theorem seen_blockRequest (h : Run settings history r) {place : Location} {rq : BlockRequest}
    (hrq : r.state.pendingAt place = some rq) : Seen history rq.begun := by
  obtain ⟨-, step, hmem, remaps, hissued⟩ := h.issued_of_pendingAt hrq
  exact ⟨step, hmem, (Event.begun_of_issue? hissued).symm⟩

theorem seen_hardIrq (h : Run settings history r) {cpu : Nat} {irq : HardIrq}
    (hirq : (r.state.handlers cpu).hardIrq = some irq) : Seen history irq.begun := by
  refine h.seen_of_steps
    (P := fun s time => ∃ irq, (s.handlers cpu).hardIrq = some irq ∧ irq.begun = time) ?_ ?_
    ⟨irq, hirq, rfl⟩
  · rintro time ⟨irq, hirq, -⟩
    cases hirq
  · rintro history r e p h hp time ⟨irq, hirq, rfl⟩
    rw [(h.interruptStep hp).handlers] at hirq
    split at hirq
    · split at hirq
      · rcases CpuAction.hardIrq_act hirq with hirq | ⟨id, rfl⟩
        · exact Or.inl ⟨irq, hirq, rfl⟩
        · exact Or.inr rfl
      · exact Or.inl ⟨irq, hirq, rfl⟩
    · exact Or.inl ⟨irq, hirq, rfl⟩

theorem seen_softIrq (h : Run settings history r) {cpu : Nat} {vector : Int} {irq : SoftIrq}
    (hirq : irq ∈ r.state.softIrqs cpu vector) {time : Int}
    (ht : irq.raised = some time ∨ irq.begun = some time) : Seen history time := by
  rw [State.softIrqs_eq_queue, h.queue_eq] at hirq
  obtain ⟨e, he, rfl⟩ := softIrqPhase_stamps (SoftIrqPhase.stamp_of_mem_queue hirq ht)
  exact seen_of_mem_events he

/-- Every time in the state is the time of an event that was replayed. -/
theorem seen_of_stores (h : Run settings history r) {time : Int} (ht : r.state.Stores time) :
    Seen history time := by
  have hcall : ∀ {tid : Int} {thread : Thread} {call : Call},
      r.state.thread? tid = some thread → thread.call = some call →
        r.state.call? tid = some call := by
    intro tid thread call hthread hc
    rw [State.call?, hthread]
    exact hc
  have hsoft : ∀ {cpu : Nat} {c : Cpu} {vector : Int} {queue : List SoftIrq},
      r.state.cpus.get? cpu = some c → c.softIrqs.get? vector = some queue →
        r.state.softIrqs cpu vector = queue := by
    intro cpu c vector queue hc hq
    rw [State.softIrqs, hc, Option.bind_some, hq]
    rfl
  cases ht with
  | @wakeup tid thread _ hthread hw =>
    have hstandby : (r.state.standby tid).wakeup = some time := by
      rw [State.standby_of_thread? hthread]
      exact hw
    exact h.seen_wakeup hstandby
  | call hthread hc => exact h.seen_call (hcall hthread hc)
  | request hthread hc hrq => exact h.seen_request (hcall hthread hc) hrq
  | blockRequest hdisk hrq =>
    exact h.seen_blockRequest ((BlockRequests.pendingAt_of_disk hdisk).trans hrq)
  | @hardIrq cpu c irq hc hirq =>
    have hhandlers : (r.state.handlers cpu).hardIrq = some irq := by
      rw [State.handlers, State.cpuOrFresh, hc]
      exact hirq
    exact h.seen_hardIrq hhandlers
  | raised hc hq hirq ht => exact h.seen_softIrq (by rw [hsoft hc hq]; exact hirq) (Or.inl ht)
  | entered hc hq hirq ht => exact h.seen_softIrq (by rw [hsoft hc hq]; exact hirq) (Or.inr ht)

end Run

end KernelReplay
