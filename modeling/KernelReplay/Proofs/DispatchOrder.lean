import Mathlib.Data.List.Permutation
import KernelReplay.Proofs.BlockSteps
import KernelReplay.Proofs.VeiledRules

/-
  The order of the subsystems. Each subsystem acts on events of its own kinds, and only two kinds
  of event are acted on by two of them that could get in each other's way: the entries and exits of
  syscalls, on which the rules for I/O requests build upon the rules for syscalls, and pages freed.
  A page freed is taken off the count of pages and counted for requests, and neither looks at the
  other, but that the thread which is told to free it shows the request that it has in flight.

  So every order in which syscalls come before I/O requests replays a trace as the standard order
  does, to the same state and with the same signals, up to the pages freed in what a thread has in
  flight (`run_in_order`). The order is carried by `Reordered`, which every event preserves.
-/

namespace KernelReplay

open Update

/-- A signal with other threads in it. -/
def Signal.mapThreads (f : Thread → Thread) : Signal → Signal
  | notification n => notification (n.mapThreads f)
  | diagnostic d => diagnostic d

/-- Signals in which no thread shows how many pages were freed for the request that it has in
flight. A request that is told to be over shows all that it counted. -/
def shownSignals (l : List Signal) : List Signal := l.map (Signal.mapThreads Veil.sansFreed.thread)

theorem shownSignals_append (l m : List Signal) :
    shownSignals (l ++ m) = shownSignals l ++ shownSignals m :=
  List.map_append

/-! ## Which subsystem acts on which events -/

namespace Subsystem

variable {kind : EventKind} {e : Event}

/-- The kinds of event that a subsystem does something about, beside remembering remaps. -/
def kinds : Subsystem → List EventKind
  | scheduling =>
    [.schedSwitch, .schedMigrate, .schedWakeup, .schedFork, .schedExec, .schedSetPriority]
  | paging => [.pageAlloc, .pageFree, .pageFreeKmem]
  | interrupts => [.irqEntry, .irqExit, .softIrqRaise, .softIrqEntry, .softIrqExit]
  | syscalls => [.syscallEntry, .syscallExit]
  | ioRequests => [.syscallEntry, .syscallExit, .pagesWritten, .kswapdWakeup, .pageFree]
  | snapshot => [.processState, .fileDescriptor, .blockDevice]
  | blockRequests _ => [.blockIssue, .blockComplete]
  | traffic => [.netTransmit, .netReceive]

/-- What a subsystem does about an event, without what it remembers. -/
def act (kind : EventKind) (e : Event) (u : Subsystem) : Update Unit :=
  u.applyKind kind e >>= fun _ => pure ()

/-- A subsystem after an event. Only remaps are remembered. -/
def after (e : Event) : Subsystem → Subsystem
  | blockRequests remaps => blockRequests (e.remapsFrom remaps)
  | u => u

theorem value_of_applyKind (hk : e.kind? = some kind) (u : Subsystem) {s : State}
    {o : Outcome Subsystem} (h : u.applyKind kind e s = .ok o) : o.value = u.after e := by
  cases u with
  | blockRequests remaps =>
    obtain ⟨o₁, o₂, h₁, h₂, rfl⟩ := bind_eq_ok_iff.1 h
    cases h₂
    exact congrArg blockRequests (BlockRequests.apply_value hk h₁)
  | _ =>
    obtain ⟨o₁, o₂, h₁, h₂, rfl⟩ := bind_eq_ok_iff.1 h
    cases h₂
    rfl

/-- What a subsystem is after an event can be told before it acts. -/
theorem applyKind_eq_act (hk : e.kind? = some kind) (u : Subsystem) :
    u.applyKind kind e = u.act kind e >>= fun _ => pure (u.after e) := by
  funext s
  unfold act
  rw [bind_assoc, bind_run]
  cases h : u.applyKind kind e s with
  | error => rfl
  | ok o =>
    obtain ⟨value, state, signals⟩ := o
    have hvalue : value = u.after e := value_of_applyKind hk u h
    simp [hvalue]

theorem applyAll_eq_forEach (hk : e.kind? = some kind) (l : List Subsystem) :
    applyAll e l = forEach l (act kind e) >>= fun _ => pure (l.map (after e)) := by
  induction l with
  | nil => rfl
  | cons u rest ih =>
    have happly : u.apply e = u.applyKind kind e := by
      unfold Subsystem.apply
      rw [hk]
    unfold applyAll
    rw [happly, applyKind_eq_act hk, ih, forEach_cons]
    simp only [bind_assoc, pure_bind, List.map_cons]

/-- An event of another kind is nothing to act on. -/
theorem act_of_not_mem {u : Subsystem} (h : kind ∉ u.kinds) : u.act kind e = pure () := by
  cases u <;> cases kind <;> first
    | rfl
    | exact (h (by simp [kinds])).elim

/-- Those of a list that act on events of a kind are all that acts. -/
theorem forEach_act_filter (kind : EventKind) (e : Event) (l : List Subsystem) :
    forEach (l.filter fun u => kind ∈ u.kinds) (act kind e) = forEach l (act kind e) :=
  forEach_filter fun _ _ h => act_of_not_mem (of_decide_eq_false h)

end Subsystem

/-! ## A page freed -/

namespace IoRequests

/-- A page freed is counted for the same requests before and after it is taken off the count. -/
theorem pageFreed_freed (s : State) : pageFreed (Paging.freed s) = Paging.freed (pageFreed s) := by
  have hall : ∀ (tids : List Int) (s' : State), (Paging.freed s').adjustRequests tids countFreed =
      Paging.freed (s'.adjustRequests tids countFreed) := by
    intro tids
    induction tids with
    | nil => exact fun s' => rfl
    | cons tid rest ih => exact fun s' => ih (s'.adjustRequest tid countFreed)
  exact hall (s.running.map (chargedTo s)) s

/-- Who is told to free a page is the same thread before and after the page is counted for
requests. -/
theorem announced_pageFreed (e : Event) (s : State) :
    shownSignals (Paging.announced e .pageFree (pageFreed s)) =
      shownSignals (Paging.announced e .pageFree s) := by
  have hveiled : Veil.sansFreed.state (pageFreed s) = Veil.sansFreed.state s :=
    sansFreed_pageFreed s
  have hrunning : ∀ cpu, (pageFreed s).running? cpu = s.running? cpu := by
    intro cpu
    rw [← Veil.running?_state Veil.sansFreed, hveiled, Veil.running?_state]
  have hthread : ∀ tid, ((pageFreed s).thread? tid).map Veil.sansFreed.thread =
      (s.thread? tid).map Veil.sansFreed.thread := by
    intro tid
    rw [← Veil.thread?_state, ← Veil.thread?_state, hveiled]
  unfold Paging.announced shownSignals
  cases e.cpu? with
  | none => rfl
  | some cpu =>
    rw [Option.bind_some, Option.bind_some, hrunning]
    cases s.running? cpu with
    | none => rfl
    | some tid =>
      have htid := hthread tid
      rw [Option.bind_some, Option.bind_some]
      cases ht : s.thread? tid with
      | none =>
        rw [ht, Option.map_none, Option.map_eq_none_iff] at htid
        rw [htid]
      | some t =>
        rw [ht, Option.map_some, Option.map_eq_some_iff] at htid
        obtain ⟨t', ht', hshown⟩ := htid
        rw [ht']
        show [Signal.notification (.pageFree (Veil.sansFreed.thread t') cpu)] =
          [Signal.notification (.pageFree (Veil.sansFreed.thread t) cpu)]
        rw [hshown]

end IoRequests

/-! ## Orders -/

/-- What an update leaves behind, with the signals as they are shown. -/
def Outcome.shown {α : Type} (o : Outcome α) : State × List Signal :=
  (o.state, shownSignals o.signals)

/-- Updates that come to the same overflow alike, or leave the same state with signals shown the
same. -/
theorem Outcome.shown_cases {α : Type} {x x' : Except Overflow (Outcome α)}
    (h : x'.map shown = x.map shown) : (∃ f, x = .error f ∧ x' = .error f) ∨
      ∃ o o', x = .ok o ∧ x' = .ok o' ∧ o'.state = o.state ∧
        shownSignals o'.signals = shownSignals o.signals := by
  cases x with
  | error f =>
    cases x' with
    | error f' => exact Or.inl ⟨f, rfl, congrArg Except.error (Except.error.inj h)⟩
    | ok o' => cases h
  | ok o =>
    cases x' with
    | error f' => cases h
    | ok o' =>
      obtain ⟨hstate, hsignals⟩ := Prod.mk.inj (Except.ok.inj h)
      exact Or.inr ⟨o, o', rfl, rfl, hstate, hsignals⟩

/-- Counting a page freed for requests first, and then taking it off the count of pages, comes to
the same. -/
theorem pageFree_swap (e : Event) (s : State) :
    ((IoRequests.pageFree >>= fun _ => Paging.free e) s).map Outcome.shown =
      ((Paging.free e >>= fun _ => IoRequests.pageFree) s).map Outcome.shown := by
  rw [bind_run, bind_run, IoRequests.pageFree_run, Paging.free_run]
  dsimp only
  rw [Paging.free_run, IoRequests.pageFree_run, IoRequests.pageFreed_freed,
    IoRequests.pageCount_pageFreed]
  dsimp only [Except.map, Outcome.shown]
  rw [List.nil_append, List.append_nil]
  split
  · rfl
  · rw [IoRequests.announced_pageFreed]

namespace Subsystem

variable {kind : EventKind} {e : Event}

/-- The subsystems in another order, with syscalls before I/O requests. -/
structure Ordered (remaps : List Remap) (l : List Subsystem) : Prop where
  perm : l.Perm (standardWith remaps)
  first : [syscalls, ioRequests].Sublist l

theorem Ordered.after {remaps : List Remap} {l : List Subsystem} (h : Ordered remaps l)
    (e : Event) : Ordered (e.remapsFrom remaps) (l.map (after e)) :=
  ⟨h.perm.map (Subsystem.after e), h.first.map (Subsystem.after e)⟩

/-- Those that act on an event of a kind stand in the standard order, but for a page freed. -/
theorem Ordered.filter_eq {remaps : List Remap} {l : List Subsystem} (h : Ordered remaps l)
    (hkind : kind ≠ .pageFree) : (l.filter fun u => kind ∈ u.kinds) =
      (standardWith remaps).filter fun u => kind ∈ u.kinds := by
  have hperm := h.perm.filter fun u => kind ∈ u.kinds
  have hfirst := h.first.filter fun u => kind ∈ u.kinds
  cases kind
  case pageFree => exact (hkind rfl).elim
  case syscallEntry | syscallExit => exact (hfirst.eq_of_length hperm.length_eq.symm).symm
  all_goals first
    | exact List.perm_singleton.1 hperm
    | exact List.perm_nil.1 hperm

theorem act_paging_pageFree : act .pageFree e paging = Paging.free e := by
  show (Paging.free e >>= fun _ => pure paging) >>= (fun _ => pure ()) = _
  simp only [bind_assoc, pure_bind, bind_pure_unit]

theorem act_ioRequests_pageFree : act .pageFree e ioRequests = IoRequests.pageFree := by
  show (IoRequests.pageFree >>= fun _ => pure ioRequests) >>= (fun _ => pure ()) = _
  simp only [bind_assoc, pure_bind, bind_pure_unit]

/-- What all of them do about an event comes to the same in the other order. -/
theorem Ordered.forEach_act {remaps : List Remap} {l : List Subsystem} (h : Ordered remaps l)
    (kind : EventKind) (e : Event) (s : State) :
    (forEach l (act kind e) s).map Outcome.shown =
      (forEach (standardWith remaps) (act kind e) s).map Outcome.shown := by
  rw [← forEach_act_filter kind e l, ← forEach_act_filter kind e (standardWith remaps)]
  by_cases hkind : kind = .pageFree
  · subst hkind
    have hperm : (l.filter fun u => .pageFree ∈ u.kinds).Perm [paging, ioRequests] :=
      h.perm.filter fun u => .pageFree ∈ u.kinds
    have hstandard : ((standardWith remaps).filter fun u => .pageFree ∈ u.kinds) =
      [paging, ioRequests] := rfl
    rw [hstandard]
    rcases List.perm_pair.1 hperm with hl | hl
    · rw [hl]
    · rw [hl]
      simp only [forEach_cons, forEach_nil, act_paging_pageFree, act_ioRequests_pageFree,
        bind_pure_unit]
      exact pageFree_swap e s
  · rw [h.filter_eq hkind]

end Subsystem

open Subsystem

/-- A replay that is where another one is, with its subsystems in another order. -/
structure Reordered (r r' : Replay) : Prop where
  state : r'.state = r.state
  processed : r'.processed = r.processed
  order : ∃ remaps, r.subsystems = standardWith remaps ∧ Ordered remaps r'.subsystems

/-- Two results are both the same overflow, or both give what replays of two orders give. -/
inductive Agree : Except Overflow Replay.Progress → Except Overflow Replay.Progress → Prop
  | error (f : Overflow) : Agree (.error f) (.error f)
  | ok {p p' : Replay.Progress} (replay : Reordered p.replay p'.replay)
      (signals : shownSignals p'.signals = shownSignals p.signals) : Agree (.ok p) (.ok p')

namespace Reordered

variable {r r' : Replay}

/-- An event finds the subsystems in whichever order, and leaves them in it. -/
theorem process (h : Reordered r r') (e : Event) : Agree (r.process e) (r'.process e) := by
  obtain ⟨remaps, hstandard, hordered⟩ := h.order
  unfold Replay.process
  rw [h.state, h.processed]
  cases hk : e.kind? with
  | none =>
    rw [applyAll_of_no_kind hk, applyAll_of_no_kind hk]
    cases hcount : checkedSucc r.processed with
    | error f => exact .error f
    | ok processed => exact .ok ⟨rfl, rfl, remaps, hstandard, hordered⟩ rfl
  | some kind =>
    rw [applyAll_eq_forEach hk, applyAll_eq_forEach hk, bind_pure_run (f := fun _ => _),
      bind_pure_run (f := fun _ => _), hstandard]
    rcases Outcome.shown_cases (hordered.forEach_act kind e r.state) with
      ⟨f, ho, ho'⟩ | ⟨o, o', ho, ho', hstate, hsignals⟩
    · rw [ho, ho']
      exact .error f
    · rw [ho, ho']
      cases hcount : checkedSucc r.processed with
      | error f => exact .error f
      | ok processed =>
        exact .ok ⟨hstate, rfl, e.remapsFrom remaps, rfl, hordered.after e⟩ hsignals

theorem run (h : Reordered r r') (events : List Event) : Agree (r.run events) (r'.run events) := by
  induction events generalizing r r' with
  | nil => exact .ok h rfl
  | cons e rest ih =>
    have hfirst := h.process e
    unfold Replay.run
    generalize r.process e = first, r'.process e = first' at hfirst ⊢
    cases hfirst with
    | error f => exact .error f
    | @ok p p' hreplay hsignals =>
      have hrest := ih hreplay
      show Agree (p.replay.run rest >>= _) (p'.replay.run rest >>= _)
      generalize p.replay.run rest = last, p'.replay.run rest = last' at hrest ⊢
      cases hrest with
      | error f => exact .error f
      | ok hlast htold =>
        refine .ok hlast ?_
        rw [shownSignals_append, shownSignals_append, hsignals, htold]

end Reordered

/-- Every order of the subsystems in which syscalls come before I/O requests replays a stream to
the state and the signals of the standard order, or overflows as it does. The signals are the same
but for the pages that requests in flight count as freed. As this holds of every stream, it holds
after each event of one. -/
theorem run_in_order (settings : Settings) {order : List Subsystem}
    (hperm : order.Perm Subsystem.standard) (hfirst : [syscalls, ioRequests].Sublist order)
    (events : List Event) :
    (∃ f, (Replay.ofSettings settings).run events = .error f ∧
      ({ Replay.ofSettings settings with subsystems := order } : Replay).run events = .error f) ∨
    ∃ p p', (Replay.ofSettings settings).run events = .ok p ∧
      ({ Replay.ofSettings settings with subsystems := order } : Replay).run events = .ok p' ∧
      p'.replay.state = p.replay.state ∧ p'.replay.subsystems.Perm p.replay.subsystems ∧
      shownSignals p'.signals = shownSignals p.signals := by
  have hstart : Reordered (.ofSettings settings)
      { Replay.ofSettings settings with subsystems := order } :=
    ⟨rfl, rfl, [], rfl, hperm, hfirst⟩
  have hrun := hstart.run events
  generalize (Replay.ofSettings settings).run events = last,
    ({ Replay.ofSettings settings with subsystems := order } : Replay).run events = last' at hrun ⊢
  cases hrun with
  | error f => exact Or.inl ⟨f, rfl, rfl⟩
  | @ok p p' hreplay hsignals =>
    obtain ⟨remaps, hstandard, hordered⟩ := hreplay.order
    refine Or.inr ⟨p, p', rfl, rfl, hreplay.state, ?_, hsignals⟩
    rw [hstandard]
    exact hordered.perm

/-- The subsystems the other way round, but for syscalls and I/O requests. -/
def backwards : List Subsystem :=
  [.traffic, .blockRequests [], .snapshot, .syscalls, .ioRequests, .interrupts, .paging,
   .scheduling]

/-- A page allocated before a thread reads is freed while it reads, after it has woken the thread
that reclaims pages. -/
def freeingRead : List Event :=
  [.recorded 0 10 "sched_switch" [("prev_tid", .signed 0), ("next_tid", .signed 7)],
   .recorded 0 20 "mm_page_alloc" [],
   .recorded 0 30 "syscall_entry_read" [("fd", .signed 3)],
   .recorded 0 40 "mm_vmscan_wakeup_kswapd" [],
   .recorded 0 50 "mm_page_free" [],
   .recorded 0 60 "syscall_exit_read" [("ret", .signed 5)]]

/-- Backwards, the thread that is told to free the page shows that the page is counted already. Up
to that the signals are the same, and so is the state. -/
theorem run_in_order_backwards : backwards.Perm Subsystem.standard ∧
    [syscalls, ioRequests].Sublist backwards ∧
    ∃ p p', (Replay.ofSettings {}).run freeingRead = .ok p ∧
      ({ Replay.ofSettings {} with subsystems := backwards } : Replay).run freeingRead = .ok p' ∧
      p'.replay.state = p.replay.state ∧ p'.replay.subsystems.Perm p.replay.subsystems ∧
      shownSignals p'.signals = shownSignals p.signals ∧ p'.signals ≠ p.signals := by
  have hperm : backwards.Perm Subsystem.standard := by decide
  have hfirst : [syscalls, ioRequests].Sublist backwards := by decide
  have hdiffer : (({ Replay.ofSettings {} with subsystems := backwards } : Replay).run
      freeingRead).map (·.signals) ≠ ((Replay.ofSettings {}).run freeingRead).map (·.signals) := by
    decide +kernel
  refine ⟨hperm, hfirst, ?_⟩
  rcases run_in_order {} hperm hfirst freeingRead with
    ⟨f, hf, hf'⟩ | ⟨p, p', hp, hp', hstate, hsubsystems, hsignals⟩
  · rw [hf, hf'] at hdiffer
    exact (hdiffer rfl).elim
  · refine ⟨p, p', hp, hp', hstate, hsubsystems, hsignals, fun hsame => hdiffer ?_⟩
    rw [hp, hp']
    exact congrArg Except.ok hsame

/-- With I/O requests before syscalls, no request is ever attached to the read, and no byte is
counted. -/
example : (({ Replay.ofSettings {} with
      subsystems := [.scheduling, .paging, .interrupts, .ioRequests, .syscalls, .snapshot,
        .blockRequests [], .traffic] } : Replay).run freeingRead).map (·.replay.state) ≠
    ((Replay.ofSettings {}).run freeingRead).map (·.replay.state) := by
  decide +kernel

end KernelReplay
