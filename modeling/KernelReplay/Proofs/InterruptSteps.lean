import KernelReplay.Proofs.FacetRuns

/-
  What an event does to the interrupts of CPUs. An event about interrupts names at most one action
  (`Event.interrupt?`), on the CPU that recorded it; it acts there and nowhere else, and tells the end
  of an interrupt exactly if it ends one (`Run.interruptStep`). CPUs are held under their own numbers
  (`Run.handlers_id`), which the interrupts that they make carry.
-/

namespace KernelReplay

open Law Update

/-! ## What events say of interrupts -/

/-- What happens to the interrupts of a CPU. -/
inductive CpuAction
  | enterHard (id : Int)
  | exitHard
  | raiseSoft (vector : Int)
  | enterSoft (vector : Int)
  | exitSoft (vector : Int)

namespace CpuAction

/-- The interrupts of a CPU after an action. -/
def act (time : Int) : CpuAction → Cpu → Cpu
  | enterHard id, c => c.enterHardIrq id time
  | exitHard, c => c.clearHardIrq
  | raiseSoft vector, c => c.raiseSoftIrq vector time
  | enterSoft vector, c => c.enterSoftIrq vector time
  | exitSoft vector, c => c.dropSoftIrq vector

theorem act_handlers (time : Int) (a : CpuAction) (c : Cpu) :
    (a.act time c).handlers = a.act time c.handlers := by
  cases a with
  | enterHard | exitHard | exitSoft => rfl
  | raiseSoft vector =>
    show (c.raiseSoftIrq vector time).handlers = c.handlers.raiseSoftIrq vector time
    unfold Cpu.raiseSoftIrq
    split
    · rename_i hawaits
      exact (if_pos hawaits).symm
    · rename_i hawaits
      exact (if_neg hawaits).symm
  | enterSoft vector =>
    show (c.enterSoftIrq vector time).handlers = c.handlers.enterSoftIrq vector time
    have hqueue : c.handlers.queue vector = c.queue vector := rfl
    unfold Cpu.enterSoftIrq
    rw [hqueue]
    cases c.queue vector <;> rfl

theorem act_id (time : Int) (a : CpuAction) (c : Cpu) : (a.act time c).id = c.id := by
  cases a with
  | enterHard | exitHard | exitSoft => rfl
  | raiseSoft vector =>
    show (c.raiseSoftIrq vector time).id = c.id
    unfold Cpu.raiseSoftIrq
    split <;> rfl
  | enterSoft vector =>
    show (c.enterSoftIrq vector time).id = c.id
    unfold Cpu.enterSoftIrq
    split <;> rfl

/-- The action that an event of a kind names. -/
def ofKind? (kind : EventKind) (e : Event) : Option CpuAction :=
  match kind with
  | .irqEntry => (e.int? "irq").map enterHard
  | .irqExit => some exitHard
  | .softIrqRaise => (e.int? "vec").map raiseSoft
  | .softIrqEntry => (e.int? "vec").map enterSoft
  | .softIrqExit => (e.int? "vec").map exitSoft
  | _ => none

end CpuAction

/-- The CPU on which an event acts, and what it does there. -/
def Event.interrupt? (e : Event) : Option (Nat × CpuAction) := do
  let kind ← e.kind?
  let cpu ← e.cpu?
  let action ← CpuAction.ofKind? kind e
  some (cpu, action)

theorem Event.interrupt?_of_kind {e : Event} {kind : EventKind} (h : e.kind? = some kind) :
    e.interrupt? = e.cpu?.bind fun cpu => (CpuAction.ofKind? kind e).map (cpu, ·) := by
  unfold Event.interrupt?
  rw [h]
  cases e.cpu? with
  | none => rfl
  | some cpu => cases h' : CpuAction.ofKind? kind e <;> simp [h']

theorem Event.interrupt?_of_avoids {e : Event} (h : e.Avoids EventKind.IsInterrupt) :
    e.interrupt? = none := by
  cases hk : e.kind? with
  | none => simp [Event.interrupt?, hk]
  | some kind =>
    have hkind := h kind hk
    rw [Event.interrupt?_of_kind hk]
    cases kind <;> first
      | exact (hkind trivial).elim
      | cases e.cpu? <;> rfl

/-- The soft interrupts that signals tell to be over. -/
def softIrqExits (l : List Signal) : List SoftIrq :=
  (notificationsOf l).filterMap fun
    | .softIrqExit irq => some irq
    | _ => none

/-- The hard interrupts that signals tell to be over. -/
def irqExits (l : List Signal) : List HardIrq :=
  (notificationsOf l).filterMap fun
    | .irqExit irq => some irq
    | _ => none

/-- The soft interrupt that an event ends. -/
def Event.endedSoftIrq? (e : Event) (s : State) : Option SoftIrq :=
  match e.interrupt? with
  | some (cpu, .exitSoft vector) => (s.handlers cpu).endedSoftIrq? vector e.time
  | _ => none

/-- The hard interrupt that an event ends. -/
def Event.endedHardIrq? (e : Event) (s : State) : Option HardIrq :=
  match e.interrupt? with
  | some (cpu, .exitHard) =>
    (e.int? "irq").bind fun id => (s.handlers cpu).endedHardIrq? id e.time (e.int? "ret")
  | _ => none

/-- The state before an event, the event, its signals and the state after it, as far as interrupts
are concerned. -/
structure InterruptStep (e : Event) (s : State) (l : List Signal) (s' : State) : Prop where
  handlers : ∀ k, s'.handlers k = match e.interrupt? with
    | some (cpu, action) => if k = cpu then action.act e.time (s.handlers k) else s.handlers k
    | none => s.handlers k
  softExits : softIrqExits l = (e.endedSoftIrq? s).toList
  hardExits : irqExits l = (e.endedHardIrq? s).toList

namespace InterruptStep

variable {e : Event} {s s' s₁ : State} {l l₁ l₂ : List Signal} {cpu : Nat} {action : CpuAction}

theorem ends_of_handlersKept (h : ∀ n ∈ notificationsOf l, ¬ n.TellsInterrupt) :
    softIrqExits l = [] ∧ irqExits l = [] := by
  constructor
  · refine List.filterMap_eq_nil_iff.2 fun n hn => ?_
    split
    · exact (h _ hn trivial).elim
    · rfl
  · refine List.filterMap_eq_nil_iff.2 fun n hn => ?_
    split
    · exact (h _ hn trivial).elim
    · rfl

theorem of_handlersKept (he : e.interrupt? = none) (h : handlersKept.rel s l s') :
    InterruptStep e s l s' := by
  obtain ⟨hh, hn⟩ := h
  obtain ⟨hsoft, hhard⟩ := ends_of_handlersKept hn
  refine ⟨fun k => ?_, ?_, ?_⟩
  · rw [he]
    exact congrFun hh k
  · rw [hsoft, Event.endedSoftIrq?, he]
    rfl
  · rw [hhard, Event.endedHardIrq?, he]
    rfl

/-- An action on a CPU that has been made known. -/
theorem of_action (he : e.interrupt? = some (cpu, action)) (h : handlersKept.rel s l₁ s₁)
    (hs : s' = s₁.updateCpu cpu (action.act e.time))
    (hsoft : softIrqExits l₂ = (e.endedSoftIrq? s).toList)
    (hhard : irqExits l₂ = (e.endedHardIrq? s).toList) : InterruptStep e s (l₁ ++ l₂) s' := by
  obtain ⟨hh, hn⟩ := h
  obtain ⟨hsoft₁, hhard₁⟩ := ends_of_handlersKept hn
  refine ⟨fun k => ?_, ?_, ?_⟩
  · rw [he, hs, State.handlers_updateCpu s₁ cpu k (action.act_handlers e.time)]
    rw [congrFun hh k]
  · unfold softIrqExits at hsoft hsoft₁ ⊢
    rw [notificationsOf_append, List.filterMap_append, hsoft₁, hsoft]
    rfl
  · unfold irqExits at hhard hhard₁ ⊢
    rw [notificationsOf_append, List.filterMap_append, hhard₁, hhard]
    rfl

end InterruptStep

namespace Interrupts

variable {e : Event} {s : State} {o : Outcome Unit}

/-- A rule for a field of the event that names what happens on the CPU of the event. -/
theorem interruptStep_of_field {field : String} {action : Int → CpuAction}
    {f : Nat → Int → Update Unit}
    (he : e.interrupt? = e.cpu?.bind fun cpu => ((e.int? field).map action).map (cpu, ·))
    (hf : ∀ cpu v s₁ o₁, e.interrupt? = some (cpu, action v) → s₁.handlers = s.handlers →
      f cpu v s₁ = .ok o₁ → o₁.state = s₁.updateCpu cpu ((action v).act e.time) ∧
        softIrqExits o₁.signals = (e.endedSoftIrq? s).toList ∧
        irqExits o₁.signals = (e.endedHardIrq? s).toList)
    (h : (whenSome e.cpu? fun cpu => whenSome (e.int? field) fun v =>
      admitCpu cpu >>= fun _ => f cpu v) s = .ok o) :
    InterruptStep e s o.signals o.state := by
  rcases whenSome_cases h with ⟨hc, rfl⟩ | ⟨cpu, hc, h⟩
  · refine .of_handlersKept ?_ (handlersKept.idle s)
    rw [he, hc]
    rfl
  rcases whenSome_cases h with ⟨hv, rfl⟩ | ⟨v, hv, h⟩
  · refine .of_handlersKept ?_ (handlersKept.idle s)
    rw [he, hc, hv]
    rfl
  have he : e.interrupt? = some (cpu, action v) := by
    rw [he, hc, hv]
    rfl
  obtain ⟨o₁, o₂, h₁, h₂, rfl⟩ := bind_eq_ok_iff.1 h
  have hcpus := ((aside_admitCpu cpu).obeys s o₁ h₁).1.2.1
  obtain ⟨hs, hsoft, hhard⟩ := hf cpu v o₁.state o₂ he hcpus.1 h₂
  exact .of_action he hcpus hs hsoft hhard

theorem interruptStep_irqEntry (hk : e.kind? = some .irqEntry) (h : irqEntry e s = .ok o) :
    InterruptStep e s o.signals o.state := by
  refine interruptStep_of_field (Event.interrupt?_of_kind hk) (fun cpu id s₁ o₁ he _ h₁ => ?_) h
  cases h₁
  rw [Event.endedSoftIrq?, Event.endedHardIrq?, he]
  exact ⟨rfl, rfl, rfl⟩

theorem interruptStep_softIrqRaise (hk : e.kind? = some .softIrqRaise)
    (h : softIrqRaise e s = .ok o) : InterruptStep e s o.signals o.state := by
  refine interruptStep_of_field (Event.interrupt?_of_kind hk) (fun cpu v s₁ o₁ he _ h₁ => ?_) h
  rw [get_bind_run, modify_bind_run] at h₁
  rw [Event.endedSoftIrq?, Event.endedHardIrq?, he]
  split at h₁
  · cases h₁
    exact ⟨rfl, rfl, rfl⟩
  · cases h₁
    exact ⟨rfl, rfl, rfl⟩

theorem interruptStep_softIrqEntry (hk : e.kind? = some .softIrqEntry)
    (h : softIrqEntry e s = .ok o) : InterruptStep e s o.signals o.state := by
  refine interruptStep_of_field (Event.interrupt?_of_kind hk) (fun cpu v s₁ o₁ he _ h₁ => ?_) h
  cases h₁
  rw [Event.endedSoftIrq?, Event.endedHardIrq?, he]
  exact ⟨rfl, rfl, rfl⟩

theorem interruptStep_softIrqExit (hk : e.kind? = some .softIrqExit)
    (h : softIrqExit e s = .ok o) : InterruptStep e s o.signals o.state := by
  refine interruptStep_of_field (Event.interrupt?_of_kind hk) (fun cpu v s₁ o₁ he hh h₁ => ?_) h
  have hended : (s₁.cpuOrFresh cpu).endedSoftIrq? v e.time =
      (s.handlers cpu).endedSoftIrq? v e.time := by
    rw [← congrFun hh cpu]
    rfl
  rw [get_bind_run, modify_bind_run, hended] at h₁
  rw [Event.endedSoftIrq?, Event.endedHardIrq?, he]
  dsimp only
  cases hirq : (s.handlers cpu).endedSoftIrq? v e.time with
  | none =>
    rw [hirq] at h₁
    cases h₁
    exact ⟨rfl, rfl, rfl⟩
  | some irq =>
    rw [hirq] at h₁
    cases h₁
    exact ⟨rfl, rfl, rfl⟩

/-- The exit of a hard interrupt acts on its CPU even where it does not tell which one it ends. -/
theorem interruptStep_irqExit (hk : e.kind? = some .irqExit) (h : irqExit e s = .ok o) :
    InterruptStep e s o.signals o.state := by
  have he := Event.interrupt?_of_kind hk
  rcases whenSome_cases h with ⟨hc, rfl⟩ | ⟨cpu, hc, h⟩
  · refine .of_handlersKept ?_ (handlersKept.idle s)
    rw [he, hc]
    rfl
  have he : e.interrupt? = some (cpu, .exitHard) := by
    rw [he, hc]
    rfl
  obtain ⟨o₁, o₂, h₁, h₂, rfl⟩ := bind_eq_ok_iff.1 h
  have hcpus := ((aside_admitCpu cpu).obeys s o₁ h₁).1.2.1
  have hended : ∀ id ret, (o₁.state.cpuOrFresh cpu).endedHardIrq? id e.time ret =
      (s.handlers cpu).endedHardIrq? id e.time ret := by
    intro id ret
    rw [← congrFun hcpus.1 cpu]
    rfl
  rw [get_bind_run, modify_bind_run] at h₂
  have hnone : (e.endedSoftIrq? s).toList = [] := by
    rw [Event.endedSoftIrq?, he]
    rfl
  have hhard : e.endedHardIrq? s = (e.int? "irq").bind fun id =>
      (s.handlers cpu).endedHardIrq? id e.time (e.int? "ret") := by
    rw [Event.endedHardIrq?, he]
  rcases whenSome_cases h₂ with ⟨hid, rfl⟩ | ⟨id, hid, h₂⟩
  · refine .of_action he hcpus rfl hnone.symm ?_
    rw [hhard, hid]
    rfl
  · rw [hid, Option.bind_some] at hhard
    rw [hended] at h₂
    cases hirq : (s.handlers cpu).endedHardIrq? id e.time (e.int? "ret") with
    | none =>
      rw [hirq] at h₂ hhard
      cases h₂
      exact .of_action he hcpus rfl hnone.symm (by rw [hhard]; rfl)
    | some irq =>
      rw [hirq] at h₂ hhard
      cases h₂
      exact .of_action he hcpus rfl hnone.symm (by rw [hhard]; rfl)

/-- An event about interrupts does to them what it names. -/
theorem interruptStep_apply {kind : EventKind} (hk : e.kind? = some kind) (hi : kind.IsInterrupt)
    (h : apply kind e s = .ok o) : InterruptStep e s o.signals o.state := by
  cases kind <;> first
    | exact hi.elim
    | exact interruptStep_irqEntry hk h
    | exact interruptStep_irqExit hk h
    | exact interruptStep_softIrqRaise hk h
    | exact interruptStep_softIrqEntry hk h
    | exact interruptStep_softIrqExit hk h

end Interrupts

namespace Run

variable {settings : Settings} {history : List Step} {r : Replay} {e : Event} {p : Replay.Progress}

/-- Every event of a run does to interrupts what `InterruptStep` says. -/
theorem interruptStep (h : Run settings history r) (hp : r.process e = .ok p) :
    InterruptStep e r.state p.signals p.replay.state := by
  by_cases hnone : e.Avoids EventKind.IsInterrupt
  · exact .of_handlersKept (Event.interrupt?_of_avoids hnone) ((h.facetStep hp).handlers hnone)
  rcases h.step_cases hp with ⟨hk, -, -⟩ | ⟨kind, -, -, hk, -, -, -⟩
  · exact (hnone fun kind hkind => by rw [hk] at hkind; cases hkind).elim
  have hi : kind.IsInterrupt := by
    refine Classical.byContradiction fun hi => hnone fun kind' hk' => ?_
    obtain rfl : kind = kind' := Option.some.inj (hk.symm.trans hk')
    exact hi
  obtain ⟨o, ho, hs, hl⟩ := h.update_run hp hk fun remaps =>
    Subsystem.effect_interrupt e remaps hi
  rw [hs, hl]
  exact Interrupts.interruptStep_apply hk hi ho

/-- CPUs are held under their own numbers. -/
theorem handlers_id (h : Run settings history r) (cpu : Nat) : (r.state.handlers cpu).id = cpu := by
  induction h with
  | start => rfl
  | next h hp ih =>
    rw [(h.interruptStep hp).handlers]
    split
    · split
      · rw [CpuAction.act_id, ih]
      · exact ih
    · exact ih

end Run

end KernelReplay
