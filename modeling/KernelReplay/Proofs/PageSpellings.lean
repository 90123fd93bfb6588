import KernelReplay.Proofs.Slices

/-
  The two spellings of page events. A tracer that renames the pages allocated changes nothing, as
  every rule takes both names for the same event. A page freed is counted for I/O requests under
  one of its names only, so that renaming it can change what requests count as freed, and it
  changes nothing else: not the rest of the state, not what is told of anything else, and not
  whether a number overflows (`respelled_run`). Where nothing wakes the thread that reclaims pages,
  not even that.
-/

namespace KernelReplay

open Update

/-- The names of an event that allocates a page. -/
def allocNames : List String := ["mm_page_alloc", "kmem_mm_page_alloc"]

/-- The names of an event that frees a page. -/
def freeNames : List String := ["mm_page_free", "kmem_mm_page_free"]

/-- The second event is the first one, or the same one under the other name of a page event. -/
inductive Event.Respells : Event → Event → Prop
  | same (e : Event) : Respells e e
  | alloc (e : Event) (name : String) (spelled : e.name ∈ allocNames)
      (respelled : name ∈ allocNames) : Respells e { e with name }
  | free (e : Event) (name : String) (spelled : e.name ∈ freeNames)
      (respelled : name ∈ freeNames) : Respells e { e with name }

/-- A page event under the name that stands for both. -/
def Event.canonical (e : Event) : Event :=
  if e.name ∈ allocNames then { e with name := "mm_page_alloc" }
  else if e.name ∈ freeNames then { e with name := "kmem_mm_page_free" }
  else e

/-- Under this veil no request has woken the thread that reclaims pages, or had a page freed. -/
def Veil.unwoken : Veil := { Veil.sansFreed with woke := fun _ => false, woke_false := rfl }

theorem kind_of_allocNames : ∀ name ∈ allocNames, EventKind.ofName? name = some .pageAlloc := by
  decide

theorem kind_of_freeNames : ∀ name ∈ freeNames,
    EventKind.ofName? name = some .pageFree ∨ EventKind.ofName? name = some .pageFreeKmem := by
  decide

theorem not_alloc_of_free : ∀ name ∈ freeNames, name ∉ allocNames := by decide

theorem Event.Respells.canonical_eq {e e' : Event} (h : Respells e e') :
    e'.canonical = e.canonical := by
  cases h with
  | same => rfl
  | alloc name spelled respelled =>
    unfold canonical
    rw [if_pos spelled, if_pos respelled]
  | free name spelled respelled =>
    unfold canonical
    rw [if_neg (not_alloc_of_free _ spelled), if_neg (not_alloc_of_free _ respelled),
      if_pos spelled, if_pos respelled]

/-! ## What a name does not change -/

namespace Subsystem

/-- Beside the kind of a page event, no rule looks at its name. -/
theorem applyKind_rename {kind : EventKind}
    (h : kind = .pageAlloc ∨ kind = .pageFree ∨ kind = .pageFreeKmem) (e : Event) (name : String)
    (u : Subsystem) : u.applyKind kind { e with name } = u.applyKind kind e := by
  rcases h with rfl | rfl | rfl <;> cases u <;> rfl

theorem apply_of_alloc {e : Event} (h : e.name ∈ allocNames) {name : String}
    (h' : name ∈ allocNames) (u : Subsystem) : u.apply { e with name } = u.apply e := by
  have hk : e.kind? = some .pageAlloc := kind_of_allocNames e.name h
  have hk' : Event.kind? { e with name } = some .pageAlloc := kind_of_allocNames name h'
  unfold Subsystem.apply
  rw [hk, hk']
  exact applyKind_rename (Or.inl rfl) e name u

/-- The names of a page freed differ in what the rules for I/O requests do, and in nothing else. -/
theorem applyKind_pageFree {u : Subsystem} (hu : u ≠ .ioRequests) (e : Event) :
    u.applyKind .pageFree e = u.applyKind .pageFreeKmem e := by
  cases u <;> first
    | exact (hu rfl).elim
    | rfl

theorem apply_of_free {e : Event} (h : e.name ∈ freeNames) (u : Subsystem) :
    (e.kind? = some .pageFree ∧ u.apply e = u.applyKind .pageFree e) ∨
      u.apply e = u.applyKind .pageFreeKmem e := by
  have hk : e.kind? = some .pageFree ∨ e.kind? = some .pageFreeKmem := kind_of_freeNames e.name h
  unfold Subsystem.apply
  rcases hk with hk | hk
  · rw [hk]
    exact Or.inl ⟨rfl, rfl⟩
  · rw [hk]
    exact Or.inr rfl

end Subsystem

/-! ## Under the veil -/

theorem Veil.sansFreed_spares {kind : EventKind} (h : kind ≠ .pageFree) :
    Veil.sansFreed.Spares kind := by
  cases kind <;> first
    | exact (h rfl).elim
    | exact trivial
    | exact rfl
    | exact ⟨rfl, rfl⟩

/-- Under the veil, the two names of a page freed mean the same to every subsystem. -/
theorem Subsystem.blindAt_pageFree (e : Event) (u : Subsystem) (s : State) :
    BlindAt Veil.sansFreed (u.applyKind .pageFree e) (u.applyKind .pageFreeKmem e) s := by
  by_cases hio : u = .ioRequests
  · subst hio
    have hfreed : BlindAt Veil.sansFreed IoRequests.pageFree (pure ()) s := by
      unfold BlindAt
      have hstate : Veil.sansFreed.state (IoRequests.pageFreed s) = Veil.sansFreed.state s :=
        IoRequests.sansFreed_pageFreed s
      rw [IoRequests.pageFree_run, pure_run]
      exact congrArg (fun s' => (.ok ⟨(), s', []⟩ : Except Overflow (Outcome Unit))) hstate.symm
    exact hfreed.bind fun o _ => blindAt_pure _
  · rw [Subsystem.applyKind_pageFree hio]
    exact Subsystem.blind_applyKind (Veil.sansFreed_spares (by decide)) e u s

/-- Under the veil, a page freed means the same under the other name. -/
theorem Veil.renders_of_free {e : Event} (h : e.name ∈ freeNames) :
    Veil.sansFreed.Renders e { e with name := "kmem_mm_page_free" } := by
  intro u s
  have hcanonical : u.apply { e with name := "kmem_mm_page_free" } =
      u.applyKind .pageFreeKmem e := by
    have hk : Event.kind? { e with name := "kmem_mm_page_free" } = some .pageFreeKmem := by
      show EventKind.ofName? "kmem_mm_page_free" = _
      decide
    unfold Subsystem.apply
    rw [hk]
    exact Subsystem.applyKind_rename (Or.inr (Or.inr rfl)) e _ u
  rw [hcanonical]
  rcases Subsystem.apply_of_free h u with ⟨-, hu⟩ | hu
  · rw [hu]
    exact Subsystem.blindAt_pageFree e u s
  · rw [hu]
    exact Subsystem.blind_applyKind (Veil.sansFreed_spares (by decide)) e u s

/-- Under the veil, every event means what it means under the name that stands for both. -/
theorem Veil.renders_canonical (e : Event) : Veil.sansFreed.Renders e e.canonical := by
  unfold Event.canonical
  split
  · rename_i halloc
    intro u s
    have hk : e.kind? = some .pageAlloc := kind_of_allocNames e.name halloc
    have hname : "mm_page_alloc" ∈ allocNames := List.mem_cons_self
    rw [Subsystem.apply_of_alloc halloc hname u]
    refine Veil.renders_of_spares (fun kind hkind => ?_) u s
    rw [← Option.some.inj (hk.symm.trans hkind)]
    exact Veil.sansFreed_spares (by decide)
  split
  · rename_i hfree
    exact Veil.renders_of_free hfree
  · rename_i halloc hfree
    refine Veil.renders_of_spares fun kind hk => Veil.sansFreed_spares fun hkind => ?_
    rw [hkind] at hk
    have hspelled : Spells freeNames [.pageFree, .pageFreeKmem] :=
      .of_table (by decide) (by decide) (by decide)
    exact hfree (hspelled.name_of_kind e.name _ hk List.mem_cons_self)

/-- Under the veil, a stream runs as it runs with one name for every page event. -/
theorem Replay.run_canonical (r : Replay) (events : List Event) :
    (r.run events).map Veil.sansFreed.progress =
      (Veil.sansFreed.replay r).run (events.map Event.canonical) := by
  refine (Replay.run_veiled ?_ r).symm
  rw [List.forall₂_map_right_iff]
  exact List.forall₂_same.2 fun e _ => Veil.renders_canonical e

/-! ## Without a veil -/

/-- From the states of a class, the second event does to them what the first one does, and the class
is not left. -/
structure AlikeWithin (P : State → Prop) (e e' : Event) : Prop where
  same : ∀ (u : Subsystem) (s : State), P s → u.apply e' s = u.apply e s
  kept : ∀ (u : Subsystem) (s : State) (o : Outcome Subsystem), P s → u.apply e s = .ok o →
    P o.state

namespace AlikeWithin

variable {P : State → Prop} {e e' : Event}

theorem applyAll (h : AlikeWithin P e e') (l : List Subsystem) {s : State} (hs : P s) :
    Subsystem.applyAll e' l s = Subsystem.applyAll e l s ∧
      ∀ o, Subsystem.applyAll e l s = .ok o → P o.state := by
  induction l generalizing s with
  | nil => exact ⟨rfl, fun o ho => by cases ho; exact hs⟩
  | cons u rest ih =>
    unfold Subsystem.applyAll
    constructor
    · rw [bind_run, bind_run, h.same u s hs]
      cases ho : u.apply e s with
      | error => rfl
      | ok o =>
        dsimp only
        rw [bind_run, bind_run, (ih (h.kept u s o hs ho)).1]
    · intro o ho
      obtain ⟨o₁, o₂, h₁, h₂, rfl⟩ := bind_eq_ok_iff.1 ho
      obtain ⟨o₃, o₄, h₃, h₄, rfl⟩ := bind_eq_ok_iff.1 h₂
      cases h₄
      exact (ih (h.kept u s o₁ hs h₁)).2 o₃ h₃

theorem process (h : AlikeWithin P e e') {r : Replay} (hr : P r.state) :
    r.process e' = r.process e ∧ ∀ p, r.process e = .ok p → P p.replay.state := by
  obtain ⟨hsame, hkept⟩ := h.applyAll r.subsystems hr
  constructor
  · unfold Replay.process
    rw [hsame]
  · intro p hp
    obtain ⟨o, processed, ho, -, rfl⟩ := Replay.process_eq_ok_iff.1 hp
    exact hkept o ho

theorem run {events events' : List Event} (h : List.Forall₂ (AlikeWithin P) events events')
    {r : Replay} (hr : P r.state) : r.run events' = r.run events := by
  induction h generalizing r with
  | nil => rfl
  | cons hfirst _ ih =>
    obtain ⟨hsame, hkept⟩ := hfirst.process hr
    unfold Replay.run
    rw [hsame]
    cases hp : r.process _ with
    | error => rfl
    | ok first =>
      show (first.replay.run _ >>= _) = (first.replay.run _ >>= _)
      rw [ih (hkept first hp)]

end AlikeWithin

/-- Renaming what does not free a page changes nothing at all. -/
theorem Event.Respells.alike {e e' : Event} (h : Respells e e')
    (hfree : e.name ∈ freeNames → e'.name = e.name) : AlikeWithin (fun _ => True) e e' where
  kept _ _ _ _ _ := trivial
  same u s _ := by
    cases h with
    | same => rfl
    | alloc name spelled respelled => rw [Subsystem.apply_of_alloc spelled respelled]
    | free name spelled respelled =>
      have hname : name = e.name := hfree spelled
      rw [hname]

namespace IoRequests

/-- Where no request has woken the thread that reclaims pages, there is none to count a page freed.
-/
theorem adjustRequest_of_unwoken {s : State} (h : Veil.unwoken.state s = s) (tid : Int) :
    s.adjustRequest tid countFreed = s := by
  unfold State.adjustRequest
  cases ht : s.thread? tid with
  | none => exact State.adjustThread_of_none ht _
  | some t =>
    have hveiled : Veil.unwoken.thread t = t := by
      have ht' := Veil.unwoken.thread?_state s tid
      rw [h, ht] at ht'
      exact (Option.some.inj ht').symm
    have hcount : t.mapRequest countFreed = t := by
      have hfree : countFreed ∘ Veil.unwoken.request = Veil.unwoken.request := rfl
      conv_lhs => rw [← hveiled]
      unfold Veil.thread
      rw [Thread.mapRequest_mapRequest, hfree]
      exact hveiled
    rw [State.adjustThread_eq_setThread ht, hcount]
    exact State.setThread_of_thread? ht

theorem pageFree_of_unwoken {s : State} (h : Veil.unwoken.state s = s) :
    pageFree s = .ok ⟨(), s, []⟩ := by
  have hall : ∀ tids, s.adjustRequests tids countFreed = s := by
    intro tids
    induction tids with
    | nil => rfl
    | cons tid rest ih => rw [State.adjustRequests_cons, adjustRequest_of_unwoken h, ih]
  have hfreed : pageFreed s = s := hall _
  rw [pageFree_run, hfreed]

end IoRequests

theorem Veil.unwoken_spares {kind : EventKind} (h : kind ≠ .kswapdWakeup) :
    Veil.unwoken.Spares kind := by
  cases kind <;> first
    | exact (h rfl).elim
    | exact trivial
    | exact rfl
    | exact ⟨rfl, fun rq => by unfold IoRequests.countFreed; cases rq.wokeKswapd <;> rfl⟩
    | exact ⟨rfl, rfl⟩

theorem Subsystem.apply_of_free_of_unwoken {e : Event} (h : e.name ∈ freeNames) {s : State}
    (hs : Veil.unwoken.state s = s) (u : Subsystem) :
    u.apply e s = u.applyKind .pageFreeKmem e s := by
  rcases Subsystem.apply_of_free h u with ⟨-, hu⟩ | hu
  · rw [hu]
    by_cases hio : u = .ioRequests
    · subst hio
      show (IoRequests.pageFree >>= fun _ => pure Subsystem.ioRequests) s =
        Subsystem.applyKind .pageFreeKmem e .ioRequests s
      rw [bind_run, IoRequests.pageFree_of_unwoken hs]
      rfl
    · rw [Subsystem.applyKind_pageFree hio]
  · rw [hu]

/-- Renaming a page event changes nothing before the thread that reclaims pages is woken. -/
theorem Event.Respells.alike_of_unwoken {e e' : Event} (h : Respells e e')
    (hk : e.kind? ≠ some .kswapdWakeup) :
    AlikeWithin (fun s => Veil.unwoken.state s = s) e e' where
  kept u s o hs ho := by
    have hspares : ∀ kind, e.kind? = some kind → Veil.unwoken.Spares kind :=
      fun kind hkind => Veil.unwoken_spares fun hwoken => hk (hwoken ▸ hkind)
    have hblind : BlindAt _ _ _ _ := Veil.renders_of_spares hspares u s
    unfold BlindAt at hblind
    rw [hs, ho] at hblind
    exact (congrArg Outcome.state (Except.ok.inj hblind)).symm
  same u s hs := by
    cases h with
    | same => rfl
    | alloc name spelled respelled => rw [Subsystem.apply_of_alloc spelled respelled]
    | free name spelled respelled =>
      rw [Subsystem.apply_of_free_of_unwoken spelled hs,
        Subsystem.apply_of_free_of_unwoken (e := { e with name }) respelled hs]
      exact congrFun (Subsystem.applyKind_rename (Or.inr (Or.inr rfl)) e name u) s

/-- A stream under other spellings of its page events is replayed as it was, or overflows as it
did, and gives the same but for the pages that requests count as freed. It gives the very same if
the pages freed keep their names, and if nothing wakes the thread that reclaims pages. -/
theorem respelled_run (settings : Settings) {events events' : List Event}
    (h : List.Forall₂ Event.Respells events events') :
    ((Replay.ofSettings settings).run events').map Veil.sansFreed.progress =
      ((Replay.ofSettings settings).run events).map Veil.sansFreed.progress ∧
    (List.Forall₂ (fun e e' => e.name ∈ freeNames → e'.name = e.name) events events' →
      (Replay.ofSettings settings).run events' = (Replay.ofSettings settings).run events) ∧
    ((∀ e ∈ events, e.name ≠ "mm_vmscan_wakeup_kswapd") →
      (Replay.ofSettings settings).run events' = (Replay.ofSettings settings).run events) := by
  refine ⟨?_, fun hnames => ?_, fun hwoken => ?_⟩
  · have hcanonical : events'.map Event.canonical = events.map Event.canonical := by
      induction h with
      | nil => rfl
      | cons hfirst _ ih => rw [List.map_cons, List.map_cons, hfirst.canonical_eq, ih]
    rw [Replay.run_canonical, Replay.run_canonical, hcanonical]
  · have halike : List.Forall₂ (AlikeWithin fun _ => True) events events' := by
      induction h with
      | nil => exact .nil
      | cons hfirst _ ih =>
        obtain ⟨hname, hrest⟩ := List.forall₂_cons.1 hnames
        exact .cons (hfirst.alike hname) (ih hrest)
    exact AlikeWithin.run halike trivial
  · have hspelled : Spells ["mm_vmscan_wakeup_kswapd"] [.kswapdWakeup] :=
      .of_table (by decide) (by decide) (by decide)
    have halike : List.Forall₂ (AlikeWithin fun s => Veil.unwoken.state s = s) events events' := by
      induction h with
      | nil => exact .nil
      | cons hfirst _ ih =>
        refine .cons (hfirst.alike_of_unwoken fun hk => ?_)
          (ih fun e hmem => hwoken e (List.mem_cons_of_mem _ hmem))
        exact hwoken _ List.mem_cons_self (List.mem_singleton.1
          (hspelled.name_of_kind _ _ hk List.mem_cons_self))
    exact AlikeWithin.run halike rfl

/-- A thread wakes the thread that reclaims pages while it reads, and a page is freed for it. -/
def reclaimingRead (name : String) : List Event :=
  [.recorded 0 10 "sched_switch" [("prev_tid", .signed 0), ("next_tid", .signed 7)],
   .recorded 0 20 "syscall_entry_read" [("fd", .signed 3)],
   .recorded 0 30 "mm_vmscan_wakeup_kswapd" [],
   .recorded 0 40 name [],
   .recorded 0 50 "syscall_exit_read" [("ret", .signed 5)]]

theorem reclaimingRead_respells :
    List.Forall₂ Event.Respells (reclaimingRead "kmem_mm_page_free")
      (reclaimingRead "mm_page_free") :=
  .cons (.same _) <| .cons (.same _) <| .cons (.same _) <|
    .cons (.free _ "mm_page_free" (by decide) (by decide)) <| .cons (.same _) .nil

/-- The spelling of the page freed does not show but in the count. -/
theorem respelled_run_reclaimingRead :
    List.Forall₂ Event.Respells (reclaimingRead "kmem_mm_page_free")
      (reclaimingRead "mm_page_free") ∧
    ((Replay.ofSettings {}).run (reclaimingRead "mm_page_free")).map Veil.sansFreed.progress =
      ((Replay.ofSettings {}).run (reclaimingRead "kmem_mm_page_free")).map
        Veil.sansFreed.progress :=
  ⟨reclaimingRead_respells, (respelled_run {} reclaimingRead_respells).1⟩

/-- The read counts the page freed under one of the two names, and not under the other. -/
theorem freed_by_spelling :
    List.Forall₂ Event.Respells (reclaimingRead "kmem_mm_page_free")
      (reclaimingRead "mm_page_free") ∧ ∃ p q,
    (Replay.ofSettings {}).run (reclaimingRead "mm_page_free") = .ok p ∧
    (Replay.ofSettings {}).run (reclaimingRead "kmem_mm_page_free") = .ok q ∧
    (requestExits p.signals).map (·.pagesFreed) = [1] ∧
    (requestExits q.signals).map (·.pagesFreed) = [0] := by
  have hcounted : Replay.gives {} (reclaimingRead "mm_page_free")
      (fun p => (requestExits p.signals).map (·.pagesFreed) = [1]) = true := by decide +kernel
  have huncounted : Replay.gives {} (reclaimingRead "kmem_mm_page_free")
      (fun q => (requestExits q.signals).map (·.pagesFreed) = [0]) = true := by decide +kernel
  obtain ⟨history, p, h, hevents, hsignals, hp⟩ := Run.of_gives hcounted
  obtain ⟨history', q, h', hevents', hsignals', hq⟩ := Run.of_gives huncounted
  exact ⟨reclaimingRead_respells, p, q, Run.run_eq_ok_iff.2 ⟨history, h, hevents, hsignals⟩,
    Run.run_eq_ok_iff.2 ⟨history', h', hevents', hsignals'⟩, of_decide_eq_true hp,
    of_decide_eq_true hq⟩

end KernelReplay
