import KernelReplay.Proofs.InterruptSteps

/-
  Hard interrupts over whole runs. What a CPU handles is decided by the latest event there that is an
  entry telling its interrupt, or an exit of any kind (`Run.hardIrq_eq`): an entry takes the place of
  the one before it, and an exit leaves nothing, even if it tells another interrupt or none. So an
  exit is answered exactly if that latest event is an entry of the same interrupt, and the interrupts
  pending are those of the CPUs where it is an entry (`Run.hardIrqs_paired`).
-/

namespace KernelReplay

/-! ## What events say of hard interrupts -/

namespace Event

/-- The handler of a hard interrupt starts on a CPU. -/
def EntersHardIrq (e : Event) (cpu : Nat) (id : Int) : Prop :=
  e.kind? = some .irqEntry ∧ e.cpu? = some cpu ∧ e.int? "irq" = some id

/-- The handler of a hard interrupt ends on a CPU. -/
def LeavesHardIrq (e : Event) (cpu : Nat) (id : Int) : Prop :=
  e.kind? = some .irqExit ∧ e.cpu? = some cpu ∧ e.int? "irq" = some id

/-- The event decides what a CPU handles from then on: an entry that tells which interrupt it is, or
an exit, which need not tell. -/
def SetsHardIrq (e : Event) (cpu : Nat) : Prop :=
  e.cpu? = some cpu ∧
    (e.kind? = some .irqEntry ∧ (e.int? "irq").isSome ∨ e.kind? = some .irqExit)

instance (e : Event) (cpu : Nat) : Decidable (e.SetsHardIrq cpu) :=
  inferInstanceAs (Decidable (_ ∧ (_ ∨ _)))

/-- The hard interrupt that an event leaves a CPU with. -/
def hardIrqLeft? (e : Event) (cpu : Nat) : Option HardIrq :=
  if e.kind? = some .irqEntry then
    (e.int? "irq").map fun id => { id, cpu, begun := e.time }
  else
    none

/-- An event that decides what a CPU handles leaves it with an interrupt exactly if it is an entry.
-/
theorem hardIrqLeft?_eq_some_iff {e : Event} {cpu : Nat} (h : e.SetsHardIrq cpu) {irq : HardIrq} :
    e.hardIrqLeft? cpu = some irq ↔
      ∃ id, e.EntersHardIrq cpu id ∧ irq = { id, cpu, begun := e.time } := by
  unfold hardIrqLeft?
  constructor
  · intro hleft
    split at hleft
    · rename_i hk
      obtain ⟨id, hid, rfl⟩ := Option.map_eq_some_iff.1 hleft
      exact ⟨id, ⟨hk, h.1, hid⟩, rfl⟩
    · cases hleft
  · rintro ⟨id, ⟨hk, -, hid⟩, rfl⟩
    rw [if_pos hk, hid]
    rfl

end Event

/-- The latest of some events that decides what a CPU handles. -/
def latestHardIrq (past : List Event) (cpu : Nat) : Option Event :=
  (past.filter fun e => e.SetsHardIrq cpu).getLast?

theorem latestHardIrq_snoc (past : List Event) (e : Event) (cpu : Nat) :
    latestHardIrq (past ++ [e]) cpu =
      if e.SetsHardIrq cpu then some e else latestHardIrq past cpu := by
  unfold latestHardIrq
  rw [List.filter_append]
  by_cases he : e.SetsHardIrq cpu <;> simp [he]

theorem sets_of_latestHardIrq {past : List Event} {cpu : Nat} {e : Event}
    (h : latestHardIrq past cpu = some e) : e.SetsHardIrq cpu :=
  of_decide_eq_true (List.mem_filter.1 (List.mem_of_getLast? h)).2

/-! ## What actions do to them -/

/-- The exit of a hard interrupt acts on its CPU, whether or not it tells its interrupt. -/
theorem Event.interrupt?_eq_exitHard_iff {e : Event} {cpu : Nat} :
    e.interrupt? = some (cpu, .exitHard) ↔ e.kind? = some .irqExit ∧ e.cpu? = some cpu := by
  constructor
  · intro h
    cases hk : e.kind? with
    | none => simp [Event.interrupt?, hk] at h
    | some kind =>
      rw [Event.interrupt?_of_kind hk] at h
      obtain ⟨k, hc, hact⟩ := Option.bind_eq_some_iff.1 h
      obtain ⟨action, hact, heq⟩ := Option.map_eq_some_iff.1 hact
      obtain ⟨rfl, rfl⟩ := Prod.mk.inj heq
      refine ⟨?_, hc⟩
      cases kind <;> first
        | rfl
        | simp [CpuAction.ofKind?] at hact
  · rintro ⟨hk, hc⟩
    rw [Event.interrupt?_of_kind hk, hc]
    rfl

/-- What an exit makes of the interrupt that a CPU handles. -/
theorem Cpu.endedHardIrq?_eq_some_iff {c : Cpu} {id time : Int} {ret : Option Int}
    {irq : HardIrq} : c.endedHardIrq? id time ret = some irq ↔
      ∃ held, c.hardIrq = some held ∧ held.id = id ∧ { held with ended := some time, ret } = irq := by
  unfold Cpu.endedHardIrq?
  simp only [Option.map_eq_some_iff, Option.filter_eq_some_iff, decide_eq_true_eq, and_assoc]

/-- The hard interrupt that a CPU handles after an action. -/
theorem CpuAction.hardIrq_of_act (time : Int) (a : CpuAction) (c : Cpu) :
    (a.act time c).hardIrq = match a with
      | enterHard id => some { id, cpu := c.id, begun := time }
      | exitHard => none
      | _ => c.hardIrq := by
  cases a with
  | enterHard | exitHard | exitSoft => rfl
  | raiseSoft vector =>
    show (c.raiseSoftIrq vector time).hardIrq = c.hardIrq
    unfold Cpu.raiseSoftIrq
    split <;> rfl
  | enterSoft vector =>
    show (c.enterSoftIrq vector time).hardIrq = c.hardIrq
    unfold Cpu.enterSoftIrq
    split <;> rfl

/-- What a CPU handles after an event is what the event leaves it with, if it decides that, and what
it handled before otherwise. -/
theorem Event.hardIrq_of_interrupt? (e : Event) {cpu : Nat} {c : Cpu} (hid : c.id = cpu) :
    (match e.interrupt? with
      | some (k, action) => if cpu = k then action.act e.time c else c
      | none => c).hardIrq =
      if e.SetsHardIrq cpu then e.hardIrqLeft? cpu else c.hardIrq := by
  obtain ⟨kind?, hk⟩ : ∃ kind?, e.kind? = kind? := ⟨_, rfl⟩
  obtain ⟨cpu?, hc⟩ : ∃ cpu?, e.cpu? = cpu? := ⟨_, rfl⟩
  cases kind? with
  | none => simp [Event.interrupt?, Event.SetsHardIrq, hk]
  | some kind =>
    rw [Event.interrupt?_of_kind hk, hc]
    cases cpu? with
    | none => simp [Event.SetsHardIrq, hc]
    | some k =>
      by_cases hcpu : k = cpu
      · subst hcpu
        cases kind
        case irqEntry =>
          cases hirq : e.int? "irq" <;>
            simp [CpuAction.ofKind?, CpuAction.hardIrq_of_act, Event.SetsHardIrq,
              Event.hardIrqLeft?, hk, hc, hirq, hid]
        case softIrqRaise | softIrqEntry | softIrqExit =>
          cases hvec : e.int? "vec" <;>
            simp [CpuAction.ofKind?, CpuAction.hardIrq_of_act, Event.SetsHardIrq, hk, hvec]
        all_goals simp [CpuAction.ofKind?, CpuAction.hardIrq_of_act, Event.SetsHardIrq,
          Event.hardIrqLeft?, hk, hc]
      · cases CpuAction.ofKind? kind e <;> simp [Event.SetsHardIrq, hc, hcpu, Ne.symm hcpu]

/-! ## Pending interrupts -/

namespace State

theorem mem_pendingHardIrqs_iff {s : State} {irq : HardIrq} :
    irq ∈ s.pendingHardIrqs ↔ ∃ cpu, (s.handlers cpu).hardIrq = some irq := by
  unfold pendingHardIrqs
  simp only [List.mem_filterMap, Table.mem_values_iff]
  constructor
  · rintro ⟨c, ⟨cpu, hcpu⟩, hirq⟩
    refine ⟨cpu, ?_⟩
    unfold handlers cpuOrFresh
    rw [hcpu]
    exact hirq
  · rintro ⟨cpu, hirq⟩
    unfold handlers cpuOrFresh at hirq
    cases hcpu : s.cpus.get? cpu with
    | none =>
      rw [hcpu] at hirq
      cases hirq
    | some c =>
      rw [hcpu] at hirq
      exact ⟨c, ⟨cpu, hcpu⟩, hirq⟩

/-- The interrupts pending are listed by rising CPUs, if each is held by the CPU that it names. -/
theorem pendingHardIrqs_ascending {s : State}
    (h : ∀ cpu irq, (s.handlers cpu).hardIrq = some irq → irq.cpu = cpu) :
    (s.pendingHardIrqs.map (·.cpu)).Pairwise (· < ·) := by
  have hheld : ∀ entry ∈ s.cpus.toList, ∀ irq, entry.2.hardIrq = some irq → irq.cpu = entry.1 := by
    intro entry hentry irq hirq
    refine h entry.1 irq ?_
    unfold handlers cpuOrFresh
    rw [Table.mem_toList_iff.1 hentry]
    exact hirq
  have hsorted : s.cpus.toList.Pairwise fun p q =>
      ∀ a, p.2.hardIrq = some a → ∀ b, q.2.hardIrq = some b → a.cpu < b.cpu := by
    refine s.cpus.ascending.imp_of_mem fun {p q} hp hq hpq a ha b hb => ?_
    rw [hheld p hp a ha, hheld q hq b hb]
    exact Nat.compare_eq_lt.1 hpq
  unfold pendingHardIrqs Table.values
  rw [List.pairwise_map, List.filterMap_map]
  exact hsorted.filterMap _ fun p q hpq a ha b hb => hpq a ha b hb

end State

/-! ## Runs -/

namespace Run

variable {settings : Settings} {history : List Step} {r : Replay}

/-- A CPU handles what the latest event that decides it left there. -/
theorem hardIrq_eq (h : Run settings history r) (cpu : Nat) :
    (r.state.handlers cpu).hardIrq =
      (latestHardIrq (history.map (·.event)) cpu).bind (·.hardIrqLeft? cpu) := by
  induction h with
  | start => rfl
  | @next history r e p h hp ih =>
    rw [List.map_append, List.map_singleton, latestHardIrq_snoc, (h.interruptStep hp).handlers]
    refine (e.hardIrq_of_interrupt? (h.handlers_id cpu)).trans ?_
    rw [ih]
    split <;> rfl

theorem hardIrq_eq_some_iff (h : Run settings history r) {cpu : Nat} {irq : HardIrq} :
    (r.state.handlers cpu).hardIrq = some irq ↔
      ∃ entry id, latestHardIrq (history.map (·.event)) cpu = some entry ∧
        entry.EntersHardIrq cpu id ∧ irq = { id, cpu, begun := entry.time } := by
  rw [h.hardIrq_eq, Option.bind_eq_some_iff]
  constructor
  · rintro ⟨entry, hlatest, hleft⟩
    obtain ⟨id, henters, hirq⟩ :=
      (Event.hardIrqLeft?_eq_some_iff (sets_of_latestHardIrq hlatest)).1 hleft
    exact ⟨entry, id, hlatest, henters, hirq⟩
  · rintro ⟨entry, id, hlatest, henters, hirq⟩
    exact ⟨entry, hlatest, (Event.hardIrqLeft?_eq_some_iff (sets_of_latestHardIrq hlatest)).2
      ⟨id, henters, hirq⟩⟩

/-- An exit that tells its interrupt ends what its CPU handles, if that is the interrupt. -/
theorem irqExits_of_leaves (h : Run settings history r) {e : Event} {p : Replay.Progress}
    (hp : r.process e = .ok p) {cpu : Nat} {id : Int} (he : e.LeavesHardIrq cpu id) :
    irqExits p.signals =
      ((r.state.handlers cpu).endedHardIrq? id e.time (e.int? "ret")).toList := by
  obtain ⟨hk, hcpu, hid⟩ := he
  rw [(h.interruptStep hp).hardExits, Event.endedHardIrq?,
    Event.interrupt?_eq_exitHard_iff.2 ⟨hk, hcpu⟩, hid]
  rfl

/-- No other event tells that a hard interrupt is over. -/
theorem irqExits_of_not_leaves (h : Run settings history r) {e : Event} {p : Replay.Progress}
    (hp : r.process e = .ok p) (he : ∀ cpu id, ¬ e.LeavesHardIrq cpu id) :
    irqExits p.signals = [] := by
  rw [(h.interruptStep hp).hardExits, Event.endedHardIrq?]
  split
  · rename_i cpu hexit
    obtain ⟨hk, hcpu⟩ := Event.interrupt?_eq_exitHard_iff.1 hexit
    cases hid : e.int? "irq" with
    | none => rfl
    | some id => exact (he cpu id ⟨hk, hcpu, hid⟩).elim
  · rfl

/-- An exit tells that a hard interrupt is over exactly if the latest event that decides what its CPU
handles is an entry of the same interrupt, and then it tells of that entry. The interrupts pending
are the entries that are still the latest such event on their CPUs, by rising CPUs. -/
theorem hardIrqs_paired (h : Run settings history r) :
    (∀ e p, r.process e = .ok p →
      (∀ cpu id, e.LeavesHardIrq cpu id →
        (irqExits p.signals ≠ [] ↔
          ∃ entry, latestHardIrq (history.map (·.event)) cpu = some entry ∧
            entry.EntersHardIrq cpu id) ∧
        ∀ entry, latestHardIrq (history.map (·.event)) cpu = some entry →
          entry.EntersHardIrq cpu id → irqExits p.signals =
            [{ id, cpu, begun := entry.time, ended := some e.time, ret := e.int? "ret" }]) ∧
      ((∀ cpu id, ¬ e.LeavesHardIrq cpu id) → irqExits p.signals = [])) ∧
    (∀ irq, irq ∈ r.state.pendingHardIrqs ↔
      ∃ entry cpu id, latestHardIrq (history.map (·.event)) cpu = some entry ∧
        entry.EntersHardIrq cpu id ∧ irq = { id, cpu, begun := entry.time }) ∧
    (r.state.pendingHardIrqs.map (·.cpu)).Pairwise (· < ·) := by
  refine ⟨fun e p hp => ⟨fun cpu id he => ?_, h.irqExits_of_not_leaves hp⟩, fun irq => ?_, ?_⟩
  · have htold : ∀ entry, latestHardIrq (history.map (·.event)) cpu = some entry →
        entry.EntersHardIrq cpu id → irqExits p.signals =
          [{ id, cpu, begun := entry.time, ended := some e.time, ret := e.int? "ret" }] := by
      intro entry hlatest henters
      have hheld := h.hardIrq_eq_some_iff.2 ⟨entry, id, hlatest, henters, rfl⟩
      rw [h.irqExits_of_leaves hp he, Cpu.endedHardIrq?_eq_some_iff.2 ⟨_, hheld, rfl, rfl⟩]
      rfl
    refine ⟨⟨fun hne => ?_, ?_⟩, htold⟩
    · rw [h.irqExits_of_leaves hp he] at hne
      obtain ⟨irq, hirq⟩ := List.exists_mem_of_ne_nil _ hne
      rw [Option.mem_toList] at hirq
      obtain ⟨held, hheld, hid, -⟩ := Cpu.endedHardIrq?_eq_some_iff.1 hirq
      obtain ⟨entry, id', hlatest, henters, rfl⟩ := h.hardIrq_eq_some_iff.1 hheld
      obtain rfl : id' = id := hid
      exact ⟨entry, hlatest, henters⟩
    · rintro ⟨entry, hlatest, henters⟩
      rw [htold entry hlatest henters]
      exact List.cons_ne_nil _ _
  · rw [State.mem_pendingHardIrqs_iff]
    simp only [h.hardIrq_eq_some_iff]
    exact ⟨fun ⟨cpu, entry, id, hirq⟩ => ⟨entry, cpu, id, hirq⟩,
      fun ⟨entry, cpu, id, hirq⟩ => ⟨cpu, entry, id, hirq⟩⟩
  · refine State.pendingHardIrqs_ascending fun cpu irq hirq => ?_
    obtain ⟨entry, id, -, -, rfl⟩ := h.hardIrq_eq_some_iff.1 hirq
    rfl

end Run

/-- On one CPU a second interrupt comes before the exit of the first, and on another one the only
interrupt is over without its number being told. -/
def nestedIrqs : List Event :=
  [.recorded 1 10 "irq_handler_entry" [("irq", .signed 19)],
   .recorded 0 20 "irq_handler_entry" [("irq", .signed 5)],
   .recorded 1 30 "irq_handler_entry" [("irq", .signed 21)],
   .recorded 2 40 "irq_handler_entry" [("irq", .signed 19)],
   .recorded 0 50 "irq_handler_exit" []]

/-- The exit of the second interrupt. -/
def nestedExit : Event := .recorded 1 60 "irq_handler_exit" [("irq", .signed 21), ("ret", .signed 1)]

/-- The second interrupt is told to be over, with its own entry; before that it is pending, and so
is the one of another CPU. -/
theorem Run.hardIrqs_paired_nestedExit : ∃ history r p, Run {} history r ∧
    r.process nestedExit = .ok p ∧ history.map (·.event) = nestedIrqs ∧
    irqExits p.signals =
      [{ id := 21, cpu := 1, begun := 30, ended := some 60, ret := some 1 }] ∧
    { id := 21, cpu := 1, begun := 30 } ∈ r.state.pendingHardIrqs ∧
    { id := 19, cpu := 2, begun := 40 } ∈ r.state.pendingHardIrqs ∧
    (r.state.pendingHardIrqs.map (·.cpu)).Pairwise (· < ·) := by
  have hshows : Replay.showsNext {} nestedIrqs nestedExit
      (fun history _ _ => history.map (·.event) = nestedIrqs) = true := by decide +kernel
  obtain ⟨history, r, p, h, hp, htest⟩ := Run.of_showsNext hshows
  have hevents : history.map (·.event) = nestedIrqs := of_decide_eq_true htest
  obtain ⟨hexits, hpending, hordered⟩ := h.hardIrqs_paired
  rw [hevents] at hexits hpending
  have hleaves : nestedExit.LeavesHardIrq 1 21 := by
    unfold Event.LeavesHardIrq
    decide +kernel
  have hlatest : latestHardIrq nestedIrqs 1 = nestedIrqs[2]? := by decide +kernel
  have hlatest' : latestHardIrq nestedIrqs 2 = nestedIrqs[3]? := by decide +kernel
  have henters : (Event.recorded 1 30 "irq_handler_entry" [("irq", .signed 21)]).EntersHardIrq
      1 21 := by
    unfold Event.EntersHardIrq
    decide +kernel
  have henters' : (Event.recorded 2 40 "irq_handler_entry" [("irq", .signed 19)]).EntersHardIrq
      2 19 := by
    unfold Event.EntersHardIrq
    decide +kernel
  exact ⟨history, r, p, h, hp, hevents, ((hexits _ _ hp).1 1 21 hleaves).2 _ hlatest henters,
    (hpending _).2 ⟨_, 1, 21, hlatest, henters, rfl⟩,
    (hpending _).2 ⟨_, 2, 19, hlatest', henters', rfl⟩, hordered⟩

end KernelReplay
