import KernelReplay.Proofs.CallSteps

/-
  How the exits of syscalls pair with their entries. An entry is open for a thread until the thread
  enters another syscall, leaves one, or is made anew by a fork (`OpenEntry`). A state remembers of
  each thread's open entry the syscall's name and its time and nothing else of the past
  (`Run.mark?_eq_some_iff`), so an exit announces the syscall of the entry that is open for the
  thread on its CPU, wherever that entry was recorded (`Run.exit_pairs_entry`).
-/

namespace KernelReplay

/-- An entry of a thread into a syscall that has neither ended nor been displaced since. -/
def OpenEntry (past : List Event) (tid : Int) (entry : Event) : Prop :=
  ∃ before after, past = before ++ entry :: after ∧ entry.Enters (runningAfter before) tid ∧
    ∀ mid e rest, after = mid ++ e :: rest →
      ¬ e.Displaces (runningAfter (before ++ entry :: mid)) tid

theorem not_openEntry_nil (tid : Int) (entry : Event) : ¬ OpenEntry [] tid entry := by
  rintro ⟨before, after, h, -⟩
  simp at h

/-- The last event opens its own entry and leaves open those that it does not displace. -/
theorem openEntry_snoc {past : List Event} {e entry : Event} {tid : Int} :
    OpenEntry (past ++ [e]) tid entry ↔
      (entry = e ∧ e.Enters (runningAfter past) tid) ∨
        (OpenEntry past tid entry ∧ ¬ e.Displaces (runningAfter past) tid) := by
  constructor
  · rintro ⟨before, after, hpast, henters, hopen⟩
    rcases split_snoc hpast with ⟨rfl, rfl, rfl⟩ | ⟨after, rfl, rfl⟩
    · exact Or.inl ⟨rfl, henters⟩
    · refine Or.inr ⟨⟨before, after, rfl, henters, fun mid e' rest h => ?_⟩, ?_⟩
      · exact hopen mid e' (rest ++ [e]) (by rw [h]; simp)
      · exact hopen after e [] rfl
  · intro h
    rcases h with ⟨rfl, henters⟩ | ⟨⟨before, after, rfl, henters, hopen⟩, hd⟩
    · exact ⟨past, [], rfl, henters, fun mid e' rest h => by simp at h⟩
    · refine ⟨before, after ++ [e], by simp, henters, fun mid e' rest h => ?_⟩
      rcases split_snoc h with ⟨rfl, rfl, -⟩ | ⟨rest, rfl, -⟩
      · exact hd
      · exact hopen mid e' rest rfl

/-- What is announced of a syscall, from the event that began it to the one that ended it. -/
structure Call.Spans (call : Call) (entry exit : Event) : Prop where
  name : call.name = syscallName entry.name
  begun : call.begun = entry.time
  ended : call.ended = some exit.time
  ret : call.ret = exit.int? "ret"
  duration : call.duration = some (exit.time - entry.time)

namespace State

/-- The list of syscalls in flight shows the syscall of every thread that is in one. -/
theorem mem_inFlight_iff {s : State} (h : s.CallsSound) {tid : Int} {call : Call} :
    (tid, call) ∈ s.inFlight ↔ s.call? tid = some call := by
  unfold inFlight call?
  simp only [List.mem_filterMap, Option.map_eq_some_iff, Prod.mk.injEq, Option.bind_eq_some_iff]
  constructor
  · rintro ⟨t, hmem, c, hc, rfl, rfl⟩
    obtain ⟨⟨k, t'⟩, hentry, rfl⟩ := List.mem_map.1 hmem
    have ht : s.thread? k = some t' := Table.mem_toList_iff.1 hentry
    rw [h.tid_of_thread? ht]
    exact ⟨t', ht, hc⟩
  · rintro ⟨t, ht, hc⟩
    have hmem : t ∈ s.threads.values := List.mem_map.2 ⟨(tid, t), Table.mem_toList_iff.2 ht, rfl⟩
    exact ⟨t, hmem, call, hc, h.tid_of_thread? ht, rfl⟩

/-- The list is in rising order of the threads, each of which is in it once. -/
theorem inFlight_ascending {s : State} (h : s.CallsSound) :
    (s.inFlight.map (·.1)).Pairwise (· < ·) := by
  have hnum : ∀ p ∈ s.threads.toList, p.2.tid = p.1 := by
    intro p hp
    exact h.tid_of_thread? (Table.mem_toList_iff.1 hp)
  have hsorted : s.threads.toList.Pairwise fun p q => p.2.tid < q.2.tid := by
    refine s.threads.ascending.imp_of_mem fun {p q} hp hq hpq => ?_
    rw [hnum p hp, hnum q hq]
    exact Int.compare_eq_lt.1 hpq
  unfold inFlight Table.values
  rw [List.pairwise_map, List.filterMap_map]
  refine hsorted.filterMap _ fun p q hpq k hk m hm => ?_
  obtain ⟨-, -, rfl⟩ := Option.map_eq_some_iff.1 hk
  obtain ⟨-, -, rfl⟩ := Option.map_eq_some_iff.1 hm
  exact hpq

end State

namespace Run

variable {settings : Settings} {history : List Step} {r : Replay}

/-- A thread is in the syscall of its open entry, and in none if it has none. -/
theorem mark?_eq_some_iff (h : Run settings history r) (tid : Int) (mark : String × Int) :
    r.state.mark? tid = some mark ↔ ∃ entry, OpenEntry (history.map (·.event)) tid entry ∧
      (syscallName entry.name, entry.time) = mark := by
  induction h with
  | start =>
    constructor
    · intro h
      cases h
    · rintro ⟨entry, h, -⟩
      exact (not_openEntry_nil _ _ h).elim
  | @next history r e p h hp ih =>
    have hstep := h.callStep hp
    have hrun : r.state.running? = runningAfter (history.map (·.event)) := h.running?_eq
    rw [List.map_append, List.map_singleton]
    simp only [openEntry_snoc]
    rw [← hrun]
    by_cases hent : e.Enters r.state.running? tid
    · rw [hstep.entered tid hent]
      constructor
      · intro hm
        exact ⟨e, Or.inl ⟨rfl, hent⟩, Option.some.inj hm⟩
      · rintro ⟨entry, ⟨rfl, -⟩ | ⟨-, hd⟩, hm⟩
        · rw [hm]
        · exact (hd (Or.inl hent)).elim
    by_cases hend : e.Leaves r.state.running? tid ∨ e.forked? = some tid
    · rw [hstep.ended tid hend]
      constructor
      · intro hm
        cases hm
      · rintro ⟨entry, ⟨-, henters⟩ | ⟨-, hd⟩, -⟩
        · exact (hent henters).elim
        · exact (hd (Or.inr hend)).elim
    · have hd : ¬ e.Displaces r.state.running? tid := by
        intro h
        rcases h with h | h
        · exact hent h
        · exact hend h
      rw [hstep.other tid hd, ih]
      constructor
      · rintro ⟨entry, hopen, hm⟩
        exact ⟨entry, Or.inr ⟨hopen, hd⟩, hm⟩
      · rintro ⟨entry, ⟨-, henters⟩ | ⟨hopen, -⟩, hm⟩
        · exact (hent henters).elim
        · exact ⟨entry, hopen, hm⟩

theorem call?_isSome_iff (h : Run settings history r) (tid : Int) :
    (∃ call, r.state.call? tid = some call) ↔
      ∃ entry, OpenEntry (history.map (·.event)) tid entry := by
  constructor
  · rintro ⟨call, hc⟩
    have hm : r.state.mark? tid = some call.mark := by rw [State.mark?, hc]; rfl
    obtain ⟨entry, hopen, -⟩ := (h.mark?_eq_some_iff tid _).1 hm
    exact ⟨entry, hopen⟩
  · rintro ⟨entry, hopen⟩
    have hm := (h.mark?_eq_some_iff tid _).2 ⟨entry, hopen, rfl⟩
    obtain ⟨call, hc, -⟩ := Option.map_eq_some_iff.1 hm
    exact ⟨call, hc⟩

theorem mem_inFlight_iff_openEntry (h : Run settings history r) (tid : Int) :
    tid ∈ r.state.inFlight.map (·.1) ↔ ∃ entry, OpenEntry (history.map (·.event)) tid entry := by
  rw [← h.call?_isSome_iff, List.mem_map]
  constructor
  · rintro ⟨⟨k, call⟩, hmem, rfl⟩
    exact ⟨call, (State.mem_inFlight_iff h.callsSound).1 hmem⟩
  · rintro ⟨call, hc⟩
    exact ⟨(tid, call), (State.mem_inFlight_iff h.callsSound).2 hc, rfl⟩

/-- The exit of the thread of an open entry announces the syscall from that entry to the exit. -/
theorem callExits_of_openEntry {e : Event} {p : Replay.Progress} (h : Run settings history r)
    (hp : r.process e = .ok p) {tid : Int} (hleaves : e.Leaves r.state.running? tid) {entry : Event}
    (hopen : OpenEntry (history.map (·.event)) tid entry) :
    ∃ cpu thread call, e.cpu? = some cpu ∧ callExits p.signals = [(thread, call, cpu)] ∧
      thread.tid = tid ∧ call.Spans entry e := by
  have hm := (h.mark?_eq_some_iff tid _).2 ⟨entry, hopen, rfl⟩
  obtain ⟨call, hc, hmark⟩ := Option.map_eq_some_iff.1 hm
  obtain ⟨hname, hbegun⟩ := Prod.mk.inj hmark
  obtain ⟨cpu, thread, ended, hcpu, ht, hf, hexits⟩ := (h.callStep hp).told tid call hleaves hc
  obtain ⟨-, hended⟩ := Call.finish_eq_ok_iff.1 hf
  have htid : thread.tid = tid := h.callsSound.tid_of_thread? ht
  refine ⟨cpu, _, ended, hcpu, hexits, htid, ?_⟩
  rw [hended]
  exact ⟨hname, hbegun, rfl, rfl, by rw [← hbegun]⟩

/-- Syscalls pair by thread. An exit on the CPU of a thread announces a syscall exactly if the
thread has an open entry, and then the one syscall from that entry to the exit, on whichever CPUs
the two were recorded; no other event announces one. The threads listed as inside a syscall are
those with an open entry, each once. -/
theorem exit_pairs_entry (h : Run settings history r) :
    (∀ e p, r.process e = .ok p →
      (∀ tid, e.Leaves (runningAfter (history.map (·.event))) tid →
        (callExits p.signals ≠ [] ↔ ∃ entry, OpenEntry (history.map (·.event)) tid entry) ∧
        ∀ entry, OpenEntry (history.map (·.event)) tid entry →
          ∃ cpu thread call, e.cpu? = some cpu ∧ callExits p.signals = [(thread, call, cpu)] ∧
            thread.tid = tid ∧ call.Spans entry e) ∧
      ((∀ tid, ¬ e.Leaves (runningAfter (history.map (·.event))) tid) → callExits p.signals = [])) ∧
    (∀ tid, tid ∈ r.state.inFlight.map (·.1) ↔
      ∃ entry, OpenEntry (history.map (·.event)) tid entry) ∧
    (r.state.inFlight.map (·.1)).Pairwise (· < ·) := by
  refine ⟨fun e p hp => ?_, h.mem_inFlight_iff_openEntry, State.inFlight_ascending h.callsSound⟩
  rw [← h.running?_eq]
  refine ⟨fun tid hleaves => ⟨⟨fun hne => ?_, ?_⟩, ?_⟩, ?_⟩
  · rw [← h.call?_isSome_iff]
    cases hc : r.state.call? tid with
    | some call => exact ⟨call, rfl⟩
    | none =>
      refine (hne ((h.callStep hp).silent fun tid' hleaves' => ?_)).elim
      obtain rfl : tid = tid' := Option.some.inj (hleaves.2.symm.trans hleaves'.2)
      exact hc
  · rintro ⟨entry, hopen⟩
    obtain ⟨cpu, thread, call, -, hexits, -⟩ := h.callExits_of_openEntry hp hleaves hopen
    rw [hexits]
    exact List.cons_ne_nil _ _
  · exact fun entry => h.callExits_of_openEntry hp hleaves
  · exact fun hnone => (h.callStep hp).silent fun tid hleaves => (hnone tid hleaves).elim

end Run

/-- A thread enters a read on one CPU and goes on on another. -/
def migratingRead : List Event :=
  [.recorded 0 10 "sched_switch" [("prev_tid", .signed 0), ("next_tid", .signed 7)],
   .recorded 0 20 "syscall_entry_read" [("fd", .signed 3)],
   .recorded 0 30 "sched_switch" [("prev_tid", .signed 7), ("next_tid", .signed 0)],
   .recorded 1 40 "sched_switch" [("prev_tid", .signed 0), ("next_tid", .signed 7)]]

/-- The read ends on the other CPU. -/
def migratedExit : Event := .recorded 1 50 "syscall_exit_read" [("ret", .signed 5)]

theorem migratedExit_pairs : ∃ history r p, Run {} history r ∧ r.process migratedExit = .ok p ∧
    ∃ entry thread call, OpenEntry migratingRead 7 entry ∧ callExits p.signals = [(thread, call, 1)] ∧
      thread.tid = 7 ∧ call.Spans entry migratedExit := by
  have hgives : Replay.gives {} migratingRead (fun p =>
      (p.replay.process migratedExit).toOption.any fun q =>
        (callExits q.signals).length = 1) = true := by decide +kernel
  have hkind : migratedExit.kind? = some .syscallExit := by decide +kernel
  have hactor : migratedExit.actor? (runningAfter migratingRead) = some 7 := by decide +kernel
  have hcpu : migratedExit.cpu? = some 1 := by decide +kernel
  obtain ⟨history, p, h, he, -, htest⟩ := Run.of_gives hgives
  cases hq : p.replay.process migratedExit with
  | error e =>
    rw [hq] at htest
    cases htest
  | ok q =>
    rw [hq] at htest
    have hlength : (callExits q.signals).length = 1 := by simpa [Except.toOption] using htest
    rw [← he] at hactor ⊢
    obtain ⟨hiff, hspans⟩ := ((Run.exit_pairs_entry h).1 migratedExit q hq).1 7 ⟨hkind, hactor⟩
    obtain ⟨entry, hopen⟩ := hiff.1 fun hnil => by simp [hnil] at hlength
    obtain ⟨cpu, thread, call, hcpu', hexits, ht, hc⟩ := hspans entry hopen
    obtain rfl : cpu = 1 := Option.some.inj (hcpu'.symm.trans hcpu)
    exact ⟨history, p.replay, q, h, hq, entry, thread, call, hopen, hexits, ht, hc⟩

end KernelReplay
