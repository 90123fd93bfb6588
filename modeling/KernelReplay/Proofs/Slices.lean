import KernelReplay.Proofs.BlockSteps
import KernelReplay.Proofs.RangeSafety
import KernelReplay.Proofs.VeiledRules

/-
  Slices of a stream. A part of what is replayed is a view of the replay together with some of what
  is told, and it goes by the names of events. If the events of other names leave a part alone, and
  those of its names do the same to it from any replay that looks alike to it, then the part comes
  out of the events of its names as it comes out of the whole stream (`SelfContained.slice`). What
  an event does from replays that look alike is read off its rules, one construct after the other
  (`Alike`).
-/

namespace KernelReplay

open Update

/-! ## Names -/

/-- The events of given names, in order. -/
def slice (names : List String) (events : List Event) : List Event :=
  events.filter fun e => e.name ∈ names

theorem slice_snoc (names : List String) (past : List Event) (e : Event) :
    slice names (past ++ [e]) = slice names past ++ if e.name ∈ names then [e] else [] := by
  unfold slice
  rw [List.filter_append]
  by_cases he : e.name ∈ names <;> simp [he]

/-- A name with a kind stands for itself, or is that of a syscall's entry or exit. -/
theorem EventKind.ofName?_cases {name : String} {kind : EventKind}
    (h : ofName? name = some kind) :
    (name, kind) ∈ names ∨ kind = .syscallEntry ∨ kind = .syscallExit := by
  unfold ofName? at h
  split at h
  · exact Or.inr (Or.inl (Option.some.inj h).symm)
  split at h
  · exact Or.inr (Or.inr (Option.some.inj h).symm)
  · obtain ⟨before, after, hnames, -⟩ := List.lookup_eq_some_iff.1 h
    rw [hnames]
    exact Or.inl (List.mem_append_right _ List.mem_cons_self)

/-- The names are those of events of the kinds, and of no other events. -/
structure Spells (names : List String) (kinds : List EventKind) : Prop where
  kind_of_name : ∀ name ∈ names, ∃ kind ∈ kinds, EventKind.ofName? name = some kind
  name_of_kind : ∀ name kind, EventKind.ofName? name = some kind → kind ∈ kinds → name ∈ names

namespace Spells

variable {names : List String} {kinds : List EventKind} {e : Event}

/-- Names of other events than the entries and exits of syscalls can be checked one by one. -/
theorem of_table (hkind : ∀ name ∈ names, ∃ kind ∈ kinds, EventKind.ofName? name = some kind)
    (hname : ∀ entry ∈ EventKind.names, entry.2 ∈ kinds → entry.1 ∈ names)
    (hcalls : .syscallEntry ∉ kinds ∧ .syscallExit ∉ kinds) : Spells names kinds := by
  refine ⟨hkind, fun name kind h hmem => ?_⟩
  rcases EventKind.ofName?_cases h with hentry | rfl | rfl
  · exact hname _ hentry hmem
  · exact (hcalls.1 hmem).elim
  · exact (hcalls.2 hmem).elim

theorem kind (h : Spells names kinds) (he : e.name ∈ names) :
    ∃ kind ∈ kinds, e.kind? = some kind :=
  h.kind_of_name e.name he

theorem not_mem (h : Spells names kinds) (he : e.name ∉ names) {kind : EventKind}
    (hk : e.kind? = some kind) : kind ∉ kinds :=
  fun hmem => he (h.name_of_kind e.name kind hk hmem)

theorem mem_iff {kind : EventKind} (h : Spells names [kind]) (e : Event) :
    e.name ∈ names ↔ e.kind? = some kind := by
  constructor
  · intro he
    obtain ⟨kind', hmem, hk⟩ := h.kind he
    rwa [List.mem_singleton.1 hmem] at hk
  · exact fun hk => h.name_of_kind e.name kind hk List.mem_cons_self

end Spells

/-! ## What events leave alone -/

/-- What a veil pins to the value that it has stays as it is, and what is told does not show it. -/
theorem Replay.process_pinned {v : Veil} {r : Replay} {e : Event} {p : Replay.Progress}
    (h : ∀ kind, e.kind? = some kind → v.Spares kind) (hv : v.state r.state = r.state)
    (hp : r.process e = .ok p) :
    v.state p.replay.state = p.replay.state ∧
      ∀ n ∈ notificationsOf p.signals, v.notification n = n := by
  have hveiled := Replay.process_veiled (Veil.renders_of_spares h) r
  have hr : v.replay r = r := by
    unfold Veil.replay
    rw [hv]
  rw [hr, hp] at hveiled
  have hp := Except.ok.inj hveiled
  have hsignals : p.signals.map v.signal = p.signals.map id :=
    (congrArg (·.signals) hp.symm).trans (List.map_id _).symm
  refine ⟨congrArg (·.replay.state) hp.symm, fun n hn => ?_⟩
  exact Signal.notification.inj (List.map_inj_left.1 hsignals _ (mem_notificationsOf.1 hn))

/-! ## Parts -/

/-- A part of what is replayed: a view of the replay and a hearing of what is told. -/
structure Part (β γ : Type) where
  /-- The names of the events that the part goes by. -/
  names : List String
  view : Replay → β
  heard : Notification → Option γ

namespace Part

variable {β γ : Type} (P : Part β γ)

/-- What the part hears of signals. -/
def news (l : List Signal) : List γ := (notificationsOf l).filterMap P.heard

theorem news_append (l m : List Signal) : P.news (l ++ m) = P.news l ++ P.news m := by
  unfold news
  rw [notificationsOf_append, List.filterMap_append]

/-- The part depends on the events of its names and on nothing else. -/
structure SelfContained (settings : Settings) : Prop where
  aside : ∀ {history r e p}, Run settings history r → r.process e = .ok p → e.name ∉ P.names →
    P.view p.replay = P.view r ∧ P.news p.signals = []
  alike : ∀ {history history' r r' e p}, Run settings history r → Run settings history' r' →
    history'.length ≤ history.length → (∀ step ∈ history', step.event.name ∈ P.names) →
    P.view r' = P.view r → r.process e = .ok p → e.name ∈ P.names →
    ∃ p', r'.process e = .ok p' ∧ P.view p'.replay = P.view p.replay ∧
      P.news p'.signals = P.news p.signals

variable {P} {settings : Settings} {history : List Step} {r : Replay}

theorem SelfContained.run (hP : P.SelfContained settings) (h : Run settings history r) :
    ∃ history' r', Run settings history' r' ∧
      history'.map (·.event) = slice P.names (history.map (·.event)) ∧
      P.view r' = P.view r ∧
      P.news (history'.flatMap (·.signals)) = P.news (history.flatMap (·.signals)) := by
  induction h with
  | start => exact ⟨[], _, .start, rfl, rfl, rfl⟩
  | @next history r e p h hp ih =>
    obtain ⟨history', r', h', hevents, hview, hnews⟩ := ih
    rw [List.map_append, List.map_singleton, slice_snoc, List.flatMap_append,
      List.flatMap_singleton, P.news_append]
    by_cases he : e.name ∈ P.names
    · have hlength : history'.length ≤ history.length := by
        have hle : (slice P.names (history.map (·.event))).length ≤
            (history.map (·.event)).length := List.length_filter_le ..
        rwa [← hevents, List.length_map, List.length_map] at hle
      have hnames : ∀ step ∈ history', step.event.name ∈ P.names := by
        intro step hmem
        have hmem : step.event ∈ history'.map (·.event) := List.mem_map_of_mem hmem
        rw [hevents] at hmem
        exact of_decide_eq_true (List.mem_filter.1 hmem).2
      obtain ⟨p', hp', hview', hnews'⟩ := hP.alike h h' hlength hnames hview hp he
      refine ⟨_, _, h'.next hp', by rw [List.map_append, hevents, if_pos he]; rfl, hview', ?_⟩
      rw [List.flatMap_append, List.flatMap_singleton, P.news_append, hnews, hnews']
    · obtain ⟨hview', hnews'⟩ := hP.aside h hp he
      refine ⟨history', r', h', by rw [hevents, if_neg he, List.append_nil],
        hview.trans hview'.symm, ?_⟩
      rw [hnews', List.append_nil, hnews]

/-- A part that is self-contained comes out of its slice as it comes out of the stream. -/
theorem SelfContained.slice (hP : P.SelfContained settings) {events : List Event}
    {p : Replay.Progress} (hp : (Replay.ofSettings settings).run events = .ok p) :
    ∃ q, (Replay.ofSettings settings).run (slice P.names events) = .ok q ∧
      P.view q.replay = P.view p.replay ∧ P.news q.signals = P.news p.signals := by
  obtain ⟨history, h, rfl, hsignals⟩ := Run.run_eq_ok_iff.1 hp
  obtain ⟨history', r', h', hevents, hview, hnews⟩ := hP.run h
  rw [hsignals] at hnews
  exact ⟨⟨r', _⟩, Run.run_eq_ok_iff.2 ⟨history', h', hevents, rfl⟩, hview, hnews⟩

end Part

/-! ## Updates that look alike -/

section Alike

variable {α α' β γ δ ε : Type} {view : State → γ} {heard : Notification → Option δ}

/-- Where the first update succeeds on the first state, the second one does on the second state;
then the states they leave look the same, and the same is heard of what they tell. -/
def Alike (view : State → γ) (heard : Notification → Option δ) (u : Update α) (u' : Update α')
    (s s' : State) : Prop :=
  ∀ o, u s = .ok o → ∃ o', u' s' = .ok o' ∧ view o'.state = view o.state ∧
    (notificationsOf o'.signals).filterMap heard = (notificationsOf o.signals).filterMap heard

/-- The update succeeds, leaves what is looked at as it was, and nothing is heard of what it tells.
-/
def Unseen (view : State → γ) (heard : Notification → Option δ) (u : Update α) (s : State) : Prop :=
  ∃ o, u s = .ok o ∧ view o.state = view s ∧ (notificationsOf o.signals).filterMap heard = []

namespace Alike

variable {u : Update α} {u' : Update α'} {s s' : State}

theorem pure {a : α} {a' : α'} (h : view s' = view s) :
    Alike view heard (Pure.pure a) (Pure.pure a') s s' := by
  intro o ho
  cases ho
  exact ⟨_, rfl, h, rfl⟩

theorem bind {f : α → Update β} {f' : α' → Update ε} (h : Alike view heard u u' s s')
    (hf : ∀ a a' t t', view t' = view t → Alike view heard (f a) (f' a') t t') :
    Alike view heard (u >>= f) (u' >>= f') s s' := by
  intro o ho
  obtain ⟨o₁, o₂, h₁, h₂, rfl⟩ := bind_eq_ok_iff.1 ho
  obtain ⟨o₁', h₁', hview, hnews⟩ := h o₁ h₁
  obtain ⟨o₂', h₂', hview', hnews'⟩ := hf o₁.value o₁'.value _ _ hview o₂ h₂
  refine ⟨_, bind_eq_ok_iff.2 ⟨o₁', o₂', h₁', h₂', rfl⟩, hview', ?_⟩
  rw [notificationsOf_append, notificationsOf_append, List.filterMap_append,
    List.filterMap_append, hnews, hnews']

theorem get_bind {f : State → Update α} {f' : State → Update α'}
    (h : Alike view heard (f s) (f' s') s s') : Alike view heard (get >>= f) (get >>= f') s s' := by
  unfold Alike
  rw [get_bind_run, get_bind_run]
  exact h

/-- What is computed does not depend on the state. -/
theorem compute_bind {result : Except Overflow α} {f : α → Update β} {f' : α → Update ε}
    (hf : ∀ a, Alike view heard (f a) (f' a) s s') :
    Alike view heard (compute result >>= f) (compute result >>= f') s s' := by
  cases result with
  | error e =>
    intro o ho
    obtain ⟨o₁, o₂, h₁, -⟩ := bind_eq_ok_iff.1 ho
    cases h₁
  | ok a =>
    intro o ho
    obtain ⟨o₁, o₂, h₁, h₂, rfl⟩ := bind_eq_ok_iff.1 ho
    cases h₁
    obtain ⟨o', h', hview, hnews⟩ := hf a o₂ h₂
    exact ⟨_, bind_eq_ok_iff.2 ⟨_, o', compute_ok a s', h', rfl⟩, hview, hnews⟩

theorem modify {f f' : State → State} (h : view (f' s') = view (f s)) :
    Alike view heard (Update.modify f) (Update.modify f') s s' := by
  intro o ho
  cases ho
  exact ⟨_, rfl, h, rfl⟩

theorem notify {n n' : Notification} (h : view s' = view s) (hn : heard n' = heard n) :
    Alike view heard (Update.notify n) (Update.notify n') s s' := by
  intro o ho
  cases ho
  refine ⟨_, rfl, h, ?_⟩
  show [n'].filterMap heard = [n].filterMap heard
  rw [List.filterMap_cons, List.filterMap_cons, hn]

theorem report {d d' : Diagnostic} (h : view s' = view s) :
    Alike view heard (Update.report d) (Update.report d') s s' := by
  intro o ho
  cases ho
  exact ⟨_, rfl, h, rfl⟩

theorem whenSome {a? : Option β} {f f' : β → Update Unit} (h : view s' = view s)
    (hf : ∀ a, Alike view heard (f a) (f' a) s s') :
    Alike view heard (Update.whenSome a? f) (Update.whenSome a? f') s s' := by
  cases a? with
  | none => exact .pure h
  | some a => exact hf a

theorem of_run {o : Outcome α} {o' : Outcome α'} (h : u s = .ok o) (h' : u' s' = .ok o')
    (hview : view o'.state = view o.state) (hnews : (notificationsOf o'.signals).filterMap heard =
      (notificationsOf o.signals).filterMap heard) : Alike view heard u u' s s' := by
  intro o₁ h₁
  cases h.symm.trans h₁
  exact ⟨o', h', hview, hnews⟩

/-- Updates that are not seen may be different ones. -/
theorem of_unseen (h : view s' = view s) (hu : Unseen view heard u s)
    (hu' : Unseen view heard u' s') : Alike view heard u u' s s' := by
  obtain ⟨o, ho, hview, hnone⟩ := hu
  obtain ⟨o', ho', hview', hnone'⟩ := hu'
  exact .of_run ho ho' (hview'.trans (h.trans hview.symm)) (hnone'.trans hnone.symm)

end Alike

end Alike

namespace Run

variable {settings : Settings} {history history' : List Step} {r r' : Replay} {e : Event}
  {p : Replay.Progress} {kind : EventKind}

/-- In a run that is no longer, an event whose rules succeed is replayed. -/
theorem process_of_effect (h : Run settings history r) (h' : Run settings history' r')
    (hlength : history'.length ≤ history.length) (hp : r.process e = .ok p)
    (hk : e.kind? = some kind) {o : Outcome (List Remap)}
    (ho : Subsystem.effect kind e (remapsAfter (history'.map (·.event))) r'.state = .ok o) :
    ∃ p', r'.process e = .ok p' ∧ p'.replay.state = o.state ∧ p'.signals = o.signals := by
  obtain ⟨-, processed, -, hcount, -⟩ := Replay.process_eq_ok_iff.1 hp
  obtain ⟨hfits, -⟩ := checkedSucc_eq_ok_iff.1 hcount
  have hcount' : checkedSucc r'.processed = .ok (r'.processed + 1) := by
    refine checkedSucc_eq_ok_iff.2 ⟨?_, rfl⟩
    rw [h.processed_eq] at hfits
    rw [h'.processed_eq]
    unfold FitsWord at hfits ⊢
    omega
  have hall : Subsystem.applyAll e r'.subsystems r'.state =
      .ok ⟨Subsystem.standardWith o.value, o.state, o.signals⟩ := by
    rw [h'.subsystems_eq, Subsystem.applyAll_standardWith hk, bind_pure_run, ho]
    rfl
  exact ⟨_, Replay.process_eq_ok_iff.2 ⟨_, _, hall, hcount', rfl⟩, rfl, rfl⟩

/-- In a run that is no longer, an event whose rules look alike is replayed and looks alike. -/
theorem process_alike {γ δ : Type} {view : State → γ} {heard : Notification → Option δ}
    (h : Run settings history r) (h' : Run settings history' r')
    (hlength : history'.length ≤ history.length) (hp : r.process e = .ok p)
    (hk : e.kind? = some kind)
    (halike : Alike view heard (Subsystem.effect kind e (remapsAfter (history.map (·.event))))
      (Subsystem.effect kind e (remapsAfter (history'.map (·.event)))) r.state r'.state) :
    ∃ p', r'.process e = .ok p' ∧ view p'.replay.state = view p.replay.state ∧
      (notificationsOf p'.signals).filterMap heard =
        (notificationsOf p.signals).filterMap heard := by
  obtain ⟨o, ho, hs, hl⟩ := h.effect_run hp hk
  obtain ⟨o', ho', hview, hnews⟩ := halike o ho
  obtain ⟨p', hp', hs', hl'⟩ := h.process_of_effect h' hlength hp hk ho'
  rw [← hs, ← hs'] at hview
  rw [← hl, ← hl'] at hnews
  exact ⟨p', hp', hview, hnews⟩

end Run

end KernelReplay
