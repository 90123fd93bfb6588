import KernelReplay.Proofs.TableFrames

/-
  What a syscall that fails leaves behind. Its exit changes no table of descriptors, no counts of bytes
  and tells nothing of tables, and neither does its entry, with one exception: a call of the `dup`
  family that chooses a number closes it as it is entered, before it is known whether the call succeeds
  (`Run.failed_call`).
-/

namespace KernelReplay

open Law Update

namespace Run

variable {settings : Settings} {history : List Step} {r : Replay} {e x : Event}
  {p q : Replay.Progress} {tid n : Int}

/-- A thread that has entered a syscall is in it, on the same CPU. -/
theorem in_call_of_enters (h : Run settings history r) (hp : r.process e = .ok p)
    (henters : e.Enters r.state.running? tid) :
    p.replay.state.running? = r.state.running? ∧
      ∃ call, p.replay.state.call? tid = some call ∧ call.name = syscallName e.name := by
  have hstep := h.callStep hp
  constructor
  · funext cpu
    rw [hstep.running, Event.switched?_eq_none (by simp [henters.1])]
  · obtain ⟨call, hcall, hmark⟩ := Option.map_eq_some_iff.1 (hstep.entered tid henters)
    exact ⟨call, hcall, congrArg Prod.fst hmark⟩

/-- The entry of a syscall frees the number that it chooses and does nothing else to tables. -/
theorem entry_frees (h : Run settings history r) (hp : r.process e = .ok p)
    (henters : e.Enters r.state.running? tid) :
    e.dupTarget? = none ∧ tablesKept.rel r.state p.signals p.replay.state ∨
    ∃ number, e.dupTarget? = some number ∧
      Frees r.state p.signals p.replay.state (p.replay.state.fdOwner tid) number := by
  obtain ⟨o, ho, hs, hl⟩ := h.entry_run hp henters.1
  rw [hs, hl]
  rcases Syscalls.entries_frees h.keyed_view.1 ho with
    ⟨hnone, hkept⟩ | ⟨tid', number, hact, htarget, hfrees⟩
  · exact Or.inl ⟨hnone tid henters.2, hkept⟩
  · obtain rfl : tid' = tid := Option.some.inj (hact.symm.trans henters.2)
    exact Or.inr ⟨number, htarget, hfrees⟩

/-- The exit of a syscall that failed does nothing to tables. -/
theorem exit_of_failed (h : Run settings history r) (hp : r.process x = .ok p) {call : Call}
    (hleaves : x.Leaves r.state.running? tid) (hcall : r.state.call? tid = some call)
    (hret : x.int? "ret" = some n) (hneg : n < 0)
    (hconnect : n = -115 → SyscallClass.ofName? call.name ≠ some .connect) :
    tablesKept.rel r.state p.signals p.replay.state := by
  obtain ⟨o, ho, hs, hl⟩ := h.exit_run hp hleaves.1
  rw [hs, hl]
  refine Syscalls.exits_of_failed hleaves.2 hcall ho fun rq m hrq hm => ?_
  obtain rfl : n = m := Option.some.inj (hret.symm.trans hm)
  refine ⟨hneg, fun hn hop => ?_⟩
  obtain ⟨kind, hkind, hbody⟩ := ((h.callsSound.pending tid call hcall).request rq hrq).body
  rw [(hbody.eq_connect hop).1] at hkind
  exact hconnect hn hkind

/-- A syscall that fails, with its entry and its exit next to each other, leaves tables and counts as
they are and tells no change to a descriptor. Only a call of the `dup` family that chooses a number other
than the one to be copied closes it all the same, in the table that its thread uses by then. -/
theorem failed_call (h : Run settings history r) (hp : r.process e = .ok p)
    (hq : p.replay.process x = .ok q) (henters : e.Enters r.state.running? tid)
    (hexit : x.kind? = some .syscallExit) (hcpu : x.cpu? = e.cpu?) (hret : x.int? "ret" = some n)
    (hneg : n < 0)
    (hconnect : n = -115 → SyscallClass.ofName? (syscallName e.name) ≠ some .connect) :
    (e.dupTarget? = none →
      (∀ k, q.replay.state.fds k = r.state.fds k ∧
        (q.replay.state.holdings k).io = (r.state.holdings k).io) ∧
      fdNotices (p.signals ++ q.signals) = []) ∧
    ∀ number, e.dupTarget? = some number →
      Frees r.state (p.signals ++ q.signals) q.replay.state (p.replay.state.fdOwner tid) number := by
  obtain ⟨hrunning, call, hcall, hname⟩ := h.in_call_of_enters hp henters
  have hleaves : x.Leaves p.replay.state.running? tid := by
    refine ⟨hexit, ?_⟩
    rw [Event.actor?, hrunning, hcpu]
    exact henters.2
  have hleft : tablesKept.rel p.replay.state q.signals q.replay.state :=
    (h.next hp).exit_of_failed hq hleaves hcall hret hneg (hname ▸ hconnect)
  rcases h.entry_frees hp henters with ⟨hnone, hkept⟩ | ⟨number, htarget, hfrees⟩
  · have hboth := tablesKept.chain hkept hleft
    refine ⟨fun _ => ⟨fun k => ?_, fdNotices_of_not_tellsTables hboth.2⟩, fun number hsome => ?_⟩
    · exact ⟨State.fds_of_tablesKept hboth k, State.io_of_atRest_eq hboth.1 k⟩
    · rw [hnone] at hsome
      cases hsome
  · refine ⟨fun hnone => ?_, fun number' hsome => ?_⟩
    · rw [hnone] at htarget
      cases htarget
    · obtain rfl : number = number' := Option.some.inj (htarget.symm.trans hsome)
      exact hfrees.around (tablesKept.idle _) hleft

end Run

/-- Whether two more events after events from the start give what a test accepts. -/
def Replay.showsPair (settings : Settings) (events : List Event) (e x : Event)
    (test : Replay → Replay.Progress → Replay.Progress → Bool) : Bool :=
  Replay.showsNext settings events e fun _ r p =>
    match p.replay.process x with
    | .ok q => test r p q
    | .error _ => false

namespace Run

theorem of_showsPair {settings : Settings} {events : List Event} {e x : Event}
    {test : Replay → Replay.Progress → Replay.Progress → Bool}
    (h : Replay.showsPair settings events e x test = true) :
    ∃ history r p q, Run settings history r ∧ r.process e = .ok p ∧ p.replay.process x = .ok q ∧
      test r p q = true := by
  obtain ⟨history, r, p, hr, hp, htest⟩ := of_showsNext h
  split at htest
  · rename_i q hq
    exact ⟨history, r, p, q, hr, hp, hq, htest⟩
  · cases htest

/-- A thread of another's group has opened a file. -/
def openedForLeader : List Event :=
  [.recorded 0 10 "sched_switch" [("prev_tid", .signed 0), ("next_tid", .signed 7)],
   .recorded 0 20 "lttng_statedump_process_state" [("tid", .signed 7), ("pid", .signed 5)],
   .recorded 0 30 "syscall_entry_open" [("filename", .text "/etc/hosts")],
   .recorded 0 40 "syscall_exit_open" [("ret", .signed 3)]]

/-- A copy of a descriptor that is not there is asked for, in the place of the file. -/
def dupOfMissing : Event :=
  .recorded 0 50 "syscall_entry_dup2" [("oldfd", .signed 9), ("newfd", .signed 3)]

/-- No copy was made. -/
def dupFailed : Event := .recorded 0 60 "syscall_exit_dup2" [("ret", .signed (-9))]

/-- Bytes are to be written to a descriptor that is not there. -/
def writeToMissing : Event :=
  .recorded 0 50 "syscall_entry_write" [("fd", .signed 8), ("count", .unsigned 64)]

/-- The file is gone from the leader's table after the copy has failed. After a write has failed it is
there, and no descriptor has been made for the write. -/
theorem failed_call_dupOfMissing :
    (∃ history r p q, Run {} history r ∧
      r.process dupOfMissing = .ok p ∧ p.replay.process dupFailed = .ok q ∧
      (r.state.ownFd? 5 3).isSome ∧ q.replay.state.ownFd? 5 3 = none ∧
      fdNotices (p.signals ++ q.signals) = [⟨.close, 5, 3⟩]) ∧
    ∃ history r p q, Run {} history r ∧ r.process writeToMissing = .ok p ∧
      p.replay.process (.recorded 0 60 "syscall_exit_write" [("ret", .signed (-9))]) = .ok q ∧
      (q.replay.state.ownFd? 5 3).isSome ∧ q.replay.state.ownFd? 5 8 = none ∧
      fdNotices (p.signals ++ q.signals) = [] := by
  constructor
  · have hshows : Replay.showsPair {} openedForLeader dupOfMissing dupFailed (fun r p _ =>
        r.state.running? 0 = some 7 ∧ (r.state.ownFd? 5 3).isSome ∧ p.replay.state.fdOwner 7 = 5) =
          true := by decide +kernel
    obtain ⟨history, r, p, q, h, hp, hq, htest⟩ := of_showsPair hshows
    obtain ⟨hrunning, hopen, howner⟩ := of_decide_eq_true htest
    have henters : dupOfMissing.Enters r.state.running? 7 := ⟨by decide +kernel, hrunning⟩
    have hret : dupFailed.int? "ret" = some (-9) := by decide +kernel
    have hfrees := (failed_call h hp hq henters (by decide +kernel) (by decide +kernel) hret
      (by decide) (by decide)).2 3 (by decide +kernel)
    rw [howner] at hfrees
    refine ⟨history, r, p, q, h, hp, hq, hopen, ?_, hfrees.told.trans (if_pos hopen)⟩
    rw [State.ownFd?, hfrees.fds, if_pos rfl, Table.get?_erase_self]
  · have hshows : Replay.showsPair {} openedForLeader writeToMissing
        (.recorded 0 60 "syscall_exit_write" [("ret", .signed (-9))]) (fun r _ _ =>
          r.state.running? 0 = some 7 ∧ (r.state.ownFd? 5 3).isSome ∧ r.state.ownFd? 5 8 = none) =
            true := by decide +kernel
    obtain ⟨history, r, p, q, h, hp, hq, htest⟩ := of_showsPair hshows
    obtain ⟨hrunning, hopen, hmissing⟩ := of_decide_eq_true htest
    have henters : writeToMissing.Enters r.state.running? 7 := ⟨by decide +kernel, hrunning⟩
    obtain ⟨hkept, htold⟩ := (failed_call h hp hq henters (n := -9) (by decide +kernel)
      (by decide +kernel) (by decide +kernel) (by decide) (by decide)).1 (by decide +kernel)
    have hfds : ∀ number, q.replay.state.ownFd? 5 number = r.state.ownFd? 5 number := by
      intro number
      rw [State.ownFd?, (hkept 5).1, ← State.ownFd?]
    rw [← hfds] at hopen hmissing
    exact ⟨history, r, p, q, h, hp, hq, hopen, hmissing, htold⟩

/-- A failed call does not leave every table as it was, nor is nothing told: the file that a thread has
opened is closed where a copy was to be made in its place. -/
theorem failed_call_closes : ∃ history r p q, Run {} history r ∧
    r.process dupOfMissing = .ok p ∧ p.replay.process dupFailed = .ok q ∧
    dupOfMissing.Enters r.state.running? 7 ∧ dupFailed.Leaves p.replay.state.running? 7 ∧
    dupFailed.int? "ret" = some (-9) ∧ fdNotices p.signals = [⟨.close, 7, 3⟩] ∧
    q.replay.state.fds 7 ≠ r.state.fds 7 := by
  have hshows : Replay.showsPair {} openedAlone dupOfMissing dupFailed (fun r p q =>
      r.state.running? 0 = some 7 ∧ p.replay.state.running? 0 = some 7 ∧
      fdNotices p.signals = [⟨.close, 7, 3⟩] ∧ q.replay.state.fds 7 ≠ r.state.fds 7) = true := by
    decide +kernel
  obtain ⟨history, r, p, q, h, hp, hq, htest⟩ := of_showsPair hshows
  obtain ⟨hrunning, hrunning', htold, hfds⟩ := of_decide_eq_true htest
  exact ⟨history, r, p, q, h, hp, hq, ⟨by decide +kernel, hrunning⟩,
    ⟨by decide +kernel, hrunning'⟩, by decide +kernel, htold, hfds⟩

end Run

end KernelReplay
