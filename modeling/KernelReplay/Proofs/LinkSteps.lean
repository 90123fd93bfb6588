import Mathlib.Data.List.Induction
import KernelReplay.Proofs.CallSteps
import KernelReplay.Proofs.LinkFrames

/-
  What an event does to the ties between entries. `Event.Groups` reads off an event, and the state
  that it finds, which threads it puts into which groups; `Run.linkStep` says that it puts no thread
  into another one, that no entry is taken out, that every reference stays right, and that only a
  snapshot moves a table. So whatever has an entry has one in every state that the run reaches later.
-/

namespace KernelReplay

open Law Update

/-- The stream of an event tells the group of a thread that is in none yet, as it enters an I/O
syscall. -/
def Event.StreamsGroup (e : Event) (s : State) (tid pid : Int) : Prop :=
  (SyscallClass.ofName? (syscallName e.name)).isSome ∧ e.Enters s.running? tid ∧
    s.group? tid = none ∧ e.streamPid? = some pid

/-- An event puts a thread into the group of a leader. A leader that it makes leads itself. -/
inductive Event.Groups (e : Event) (s : State) : Int → Int → Prop
  | member {tid pid : Int} (told : e.member? = some (tid, pid)) : Groups e s tid pid
  | leader {tid pid : Int} (told : e.member? = some (tid, pid)) : Groups e s pid pid
  | holder {pid : Int} (kind : e.kind? = some .fileDescriptor) (told : e.int? "pid" = some pid) :
    Groups e s pid pid
  | parent {tid pid : Int} (kind : e.kind? = some .schedFork)
    (about : (e.int? "parent_tid").or (e.int? "parent_pid") = some tid)
    (told : e.int? "parent_pid" = some pid) : Groups e s tid pid
  | child {tid : Int} (kind : e.kind? = some .schedFork) (about : e.int? "child_tid" = some tid) :
    Groups e s tid ((e.int? "child_pid").getD tid)
  | caller {tid pid : Int} (told : e.StreamsGroup s tid pid) : Groups e s tid pid
  | callerLeader {tid pid : Int} (told : e.StreamsGroup s tid pid) : Groups e s pid pid

namespace Subsystem

variable {G : Int → Int → Prop} {M : Prop} {kind : EventKind}

/-- An event of any other kind leaves groups as they are. -/
theorem links_effect (hfork : kind ≠ .schedFork) (hentry : kind ≠ .syscallEntry)
    (hprocess : kind ≠ .processState) (hdescriptor : kind ≠ .fileDescriptor) (e : Event)
    (remaps : List Remap) : Obeys (links G M) (effect kind e remaps) := by
  refine obeys_effect links_of_standing (Scheduling.links_apply hfork e) ?_ ?_ remaps
  · exact (IoRequests.standing_apply hentry e).mono links_of_standing
  · exact Snapshot.links_apply hprocess hdescriptor e

theorem effect_snapshot (e : Event) (remaps : List Remap)
    (h : kind = .processState ∨ kind = .fileDescriptor) :
    effect kind e remaps = Snapshot.apply kind e >>= fun _ => pure remaps := by
  rcases h with rfl | rfl <;>
    simp only [effect, Scheduling.apply, Paging.apply, Interrupts.apply, Syscalls.apply,
      IoRequests.apply, BlockRequests.apply, Traffic.apply, pure_bind]

/-! ### Kinds that put threads into groups -/

variable {e : Event} {remaps : List Remap} {s : State} {o : Outcome (List Remap)}

theorem links_effect_schedFork (hk : e.kind? = some .schedFork)
    (h : effect .schedFork e remaps s = .ok o) :
    (links (e.Groups s) e.member?.isSome).rel s o.signals o.state := by
  rw [effect_schedFork] at h
  obtain ⟨o', h', hs, hl⟩ := run_of_bind_pure h
  rw [hs, hl]
  refine Scheduling.links_fork (fun tid pid htid hpid => ?_) (fun tid htid => ?_) _ o' h'
  · exact .parent hk htid hpid
  · exact .child hk htid

theorem links_effect_syscallEntry (hk : e.kind? = some .syscallEntry)
    (h : effect .syscallEntry e remaps s = .ok o) :
    (links (e.Groups s) e.member?.isSome).rel s o.signals o.state := by
  rw [effect_syscallEntry] at h
  obtain ⟨o', h', hs, hl⟩ := run_of_bind_pure h
  obtain ⟨o₁, o₂, h₁, h₂, rfl⟩ := bind_eq_ok_iff.1 h'
  rw [hs, hl]
  have hentered := Syscalls.standing_entry e _ o₁ h₁
  refine (links _ _).chain (links_of_standing hentered) ?_
  -- The syscall has begun by then, which changes neither who runs nor who is in a group.
  have hcaller : ∀ tid pid, (SyscallClass.ofName? (syscallName e.name)).isSome →
      e.actor? o₁.state.running? = some tid → o₁.state.group? tid = none →
      e.streamPid? = some pid → e.StreamsGroup s tid pid := by
    intro tid pid hio hact hnone hpid
    rw [(Syscalls.entry_marks h₁).1] at hact
    refine ⟨hio, ⟨hk, hact⟩, ?_, hpid⟩
    have hbegun : (links (fun _ _ => False) False).rel s o₁.signals o₁.state :=
      links_of_standing hentered
    rcases hbegun.2.1 tid with hsame | ⟨pid', hjoined, -⟩
    · rw [← hsame, hnone]
    · rw [hnone] at hjoined
      cases hjoined
  refine IoRequests.links_entry (fun tid pid hio hact hnone hpid => ?_)
    (fun tid pid hio hact hnone hpid => ?_) o₂ h₂
  · exact .caller (hcaller tid pid hio hact hnone hpid)
  · exact .callerLeader (hcaller tid pid hio hact hnone hpid)

theorem links_effect_processState (hk : e.kind? = some .processState)
    (h : effect .processState e remaps s = .ok o) :
    (links (e.Groups s) e.member?.isSome).rel s o.signals o.state := by
  rw [effect_snapshot e remaps (Or.inl rfl)] at h
  obtain ⟨o', h', hs, hl⟩ := run_of_bind_pure h
  rw [hs, hl]
  refine Snapshot.links_processState (fun tid pid htid hpid => ?_)
    (fun tid pid htid hpid => ?_) (fun tid pid htid hpid => ?_) _ o' h'
  · exact .member (Event.member?_of_snapshot hk htid hpid)
  · exact .leader (Event.member?_of_snapshot hk htid hpid)
  · rw [Event.member?_of_snapshot hk htid hpid]
    rfl

theorem links_effect_fileDescriptor (hk : e.kind? = some .fileDescriptor)
    (h : effect .fileDescriptor e remaps s = .ok o) :
    (links (e.Groups s) e.member?.isSome).rel s o.signals o.state := by
  rw [effect_snapshot e remaps (Or.inr rfl)] at h
  obtain ⟨o', h', hs, hl⟩ := run_of_bind_pure h
  rw [hs, hl]
  exact Snapshot.links_fileDescriptor (fun pid hpid => .holder hk hpid) _ o' h'

end Subsystem

namespace Run

variable {settings : Settings} {history more : List Step} {r r' : Replay} {e : Event}
  {p : Replay.Progress}

/-- Every event of a run keeps entries and references, puts threads into the groups that it tells
and no others, and moves a table only if it is the snapshot of a thread. -/
theorem linkStep (h : Run settings history r) (hp : r.process e = .ok p) :
    (links (e.Groups r.state) e.member?.isSome).rel r.state p.signals p.replay.state := by
  rcases h.step_cases hp with ⟨-, hs, hl⟩ | ⟨kind, remaps, o, hk, ho, hs, hl⟩
  · rw [hs, hl]
    exact (links _ _).idle _
  rw [hs, hl]
  by_cases hfork : kind = .schedFork
  · subst hfork
    exact Subsystem.links_effect_schedFork hk ho
  by_cases hentry : kind = .syscallEntry
  · subst hentry
    exact Subsystem.links_effect_syscallEntry hk ho
  by_cases hprocess : kind = .processState
  · subst hprocess
    exact Subsystem.links_effect_processState hk ho
  by_cases hdescriptor : kind = .fileDescriptor
  · subst hdescriptor
    exact Subsystem.links_effect_fileDescriptor hk ho
  exact Subsystem.links_effect hfork hentry hprocess hdescriptor e remaps _ o ho

/-- Between events every reference is right. -/
theorem linked (h : Run settings history r) : r.state.Linked := by
  induction h with
  | start =>
    refine ⟨fun dev disk hd => ?_, fun name iface hi => ?_, fun tid t prev ht => ?_⟩
    · cases hd
    · cases hi
    · cases ht
  | next h hp ih => exact (h.linkStep hp).2.2.1 ih

/-! ## Later states -/

/-- What is reached by given events is reached in one way. -/
theorem eq_of_run (h : Run settings history r) (h' : Run settings history r') : r = r' := by
  obtain ⟨p, rfl, hp⟩ : ∃ p : Replay.Progress, p.replay = r ∧
      (Replay.ofSettings settings).run (history.map (·.event)) = .ok p :=
    ⟨⟨r, _⟩, rfl, run_eq_ok_iff.2 ⟨history, h, rfl, rfl⟩⟩
  obtain ⟨p', rfl, hp'⟩ : ∃ p : Replay.Progress, p.replay = r' ∧
      (Replay.ofSettings settings).run (history.map (·.event)) = .ok p :=
    ⟨⟨r', _⟩, rfl, run_eq_ok_iff.2 ⟨history, h', rfl, rfl⟩⟩
  rw [hp] at hp'
  cases hp'
  rfl

/-- What holds of a state that a run has reached and is kept by every further event holds of every
state that the run reaches later. -/
theorem later_induction {motive : List Step → Replay → Prop} (h : Run settings history r)
    (now : motive [] r)
    (next : ∀ {more : List Step} {r : Replay} {e : Event} {p : Replay.Progress},
      Run settings (history ++ more) r → r.process e = .ok p → motive more r →
        motive (more ++ [⟨r.state, e, p.replay.state, p.signals⟩]) p.replay)
    (h' : Run settings (history ++ more) r') : motive more r' := by
  induction more using List.reverseRecOn generalizing r' with
  | nil =>
    rw [List.append_nil] at h'
    rwa [← h.eq_of_run h']
  | append_singleton more step ih =>
    rw [← List.append_assoc] at h'
    obtain ⟨r₀, p, h₀, hp, hb, ha, hl, rfl⟩ := h'.of_snoc
    obtain ⟨before, e, after, signals⟩ := step
    cases hb
    cases ha
    cases hl
    exact next h₀ hp (ih h₀)

/-- Whatever has an entry keeps it. -/
theorem within_later (h : Run settings history r) (h' : Run settings (history ++ more) r') :
    r.state.Within r'.state :=
  h.later_induction (motive := fun _ r' => r.state.Within r'.state) (.refl _)
    (fun h' hp ih => ih.trans (h'.linkStep hp).1) h'

end Run

end KernelReplay
