import KernelReplay.Machine.State.Holdings
import KernelReplay.Proofs.EventReadings
import KernelReplay.Rules.IoRequests
import KernelReplay.Rules.Syscalls
import KernelReplay.Update.Lemmas

/-
  The entry and the exit of a syscall, case by case. Two subsystems end a syscall: the first keeps
  that of an I/O syscall for the second to take off. `exit_cases` says what both do together, so
  no other proof sees the state between them.
-/

namespace KernelReplay

open Update

namespace Syscalls

theorem entry_cases {e : Event} {s : State} {o : Outcome Unit} (h : entry e s = .ok o) :
    notificationsOf o.signals = [] ∧
      ((e.actor? s.running? = none ∧ o.state = s) ∨
        ∃ tid, e.actor? s.running? = some tid ∧ o.state = s.updateThread tid fun t =>
          { t with call := some { name := syscallName e.name, begun := e.time } }) := by
  unfold entry at h
  unfold Event.actor?
  cases hc : e.cpu? with
  | none =>
    rw [hc] at h
    cases h
    exact ⟨rfl, Or.inl ⟨rfl, rfl⟩⟩
  | some cpu =>
    rw [hc, whenSome_some, get_bind_run] at h
    cases hr : s.running? cpu with
    | none =>
      rw [hr] at h
      cases h
      exact ⟨rfl, Or.inl ⟨hr, rfl⟩⟩
    | some tid =>
      rw [hr] at h
      cases h
      exact ⟨rfl, Or.inr ⟨tid, hr, rfl⟩⟩

section Exit

variable {e : Event} {s : State} {cpu : Nat} {tid : Int} {thread : Thread} {call ended : Call}

theorem leave_run (h : call.finish e.time (e.int? "ret") = .ok ended) :
    leave e cpu tid thread call s =
      .ok ⟨(), s.setThread tid
          { thread with call := if isIoSyscall call.name then some ended else none },
        [.notification (.syscallExit { thread with call := some ended } ended cpu)]⟩ := by
  have hname : ended.name = call.name := by
    obtain ⟨-, rfl⟩ := Call.finish_eq_ok_iff.1 h
    rfl
  unfold leave
  rw [h]
  simp only [bind_run, compute_ok, modify_run, notify_run, hname]
  by_cases hio : isIoSyscall call.name
  · simp [hio]
  · simp [hio, State.setThread]

/-- A syscall whose duration leaves the range cannot be left. -/
theorem finish_of_leave {o : Outcome Unit} (h : leave e cpu tid thread call s = .ok o) :
    ∃ ended, call.finish e.time (e.int? "ret") = .ok ended := by
  unfold leave at h
  cases hf : call.finish e.time (e.int? "ret") with
  | error f =>
    rw [hf] at h
    cases h
  | ok ended => exact ⟨ended, rfl⟩

theorem exit_run (hc : e.cpu? = some cpu) (hr : s.running? cpu = some tid)
    (ht : s.thread? tid = some thread) (hcall : thread.call = some call) :
    exit e s = leave e cpu tid thread call s := by
  unfold exit
  rw [hc, whenSome_some, get_bind_run, hr, whenSome_some, ht, whenSome_some, hcall]

theorem exit_run_of_no_call (h : ∀ tid, e.actor? s.running? = some tid → s.call? tid = none) :
    ∃ l, exit e s = .ok ⟨(), s, l⟩ ∧ notificationsOf l = [] := by
  unfold exit
  cases hc : e.cpu? with
  | none => exact ⟨[], rfl, rfl⟩
  | some cpu =>
    rw [whenSome_some, get_bind_run]
    cases hr : s.running? cpu with
    | none => exact ⟨[], rfl, rfl⟩
    | some tid =>
      have hcall : s.call? tid = none := h tid (by simp [Event.actor?, hc, hr])
      rw [whenSome_some]
      cases ht : s.thread? tid with
      | none => exact ⟨[], rfl, rfl⟩
      | some thread =>
        have hnone : thread.call = none := by
          unfold State.call? at hcall
          rwa [ht] at hcall
        rw [whenSome_some, hnone]
        exact ⟨_, rfl, rfl⟩

end Exit

end Syscalls

namespace IoRequests

variable {e : Event} {s : State} {cpu : Nat} {tid : Int} {call : Call}

theorem exit_run (hc : e.cpu? = some cpu) (hr : s.running? cpu = some tid)
    (hcall : s.call? tid = some call) :
    exit e s = if isIoSyscall call.name then
      whenSome call.request (finish e cpu tid) (s.adjustThread tid fun t => { t with call := none })
      else .ok ⟨(), s, []⟩ := by
  unfold State.call? at hcall
  unfold exit
  rw [hc, whenSome_some, get_bind_run, hr, whenSome_some, hcall, whenSome_some]
  split
  · exact modify_bind_run ..
  · rfl

theorem exit_run_of_no_call (h : ∀ tid, e.actor? s.running? = some tid → s.call? tid = none) :
    exit e s = .ok ⟨(), s, []⟩ := by
  unfold exit
  cases hc : e.cpu? with
  | none => rfl
  | some cpu =>
    rw [whenSome_some, get_bind_run]
    cases hr : s.running? cpu with
    | none => rfl
    | some tid =>
      have hcall : (s.thread? tid).bind (·.call) = none := h tid (by simp [Event.actor?, hc, hr])
      rw [whenSome_some, hcall]
      rfl

end IoRequests

namespace Syscalls

section Exits

variable {e : Event} {s : State} {o : Outcome Unit}

/-- Both subsystems together announce the end of the syscall and finish the request that it carries
from the state in which the thread is in none. -/
theorem exits_run {cpu : Nat} {tid : Int} {thread : Thread} {call ended : Call}
    (hc : e.cpu? = some cpu) (hr : s.running? cpu = some tid) (ht : s.thread? tid = some thread)
    (hcall : thread.call = some call) (hf : call.finish e.time (e.int? "ret") = .ok ended) :
    (Syscalls.exit e >>= fun _ => IoRequests.exit e) s =
      (notify (.syscallExit { thread with call := some ended } ended cpu) >>= fun _ =>
        if isIoSyscall call.name then whenSome call.request (IoRequests.finish e cpu tid)
        else pure ()) (s.setThread tid { thread with call := none }) := by
  obtain ⟨-, hended⟩ := Call.finish_eq_ok_iff.1 hf
  rw [bind_run, exit_run hc hr ht hcall, leave_run hf, bind_run, notify_run]
  dsimp only
  by_cases hio : isIoSyscall call.name
  · -- The first subsystem leaves the syscall, ended, to the second one.
    rw [if_pos hio, if_pos hio]
    have hafter : (s.setThread tid { thread with call := some ended }).call? tid = some ended := by
      rw [State.call?_setThread, if_pos rfl]
    rw [IoRequests.exit_run (s := s.setThread tid _) hc hr hafter, hended, if_pos hio]
    rw [State.adjustThread_eq_setThread (by rw [State.thread?_setThread, if_pos rfl])]
    rw [State.setThread_setThread]
  · rw [if_neg hio, if_neg hio, IoRequests.exit_run_of_no_call]
    · rfl
    · intro tid' htid'
      obtain ⟨cpu', hc', hr'⟩ := Option.bind_eq_some_iff.1 htid'
      obtain rfl : cpu = cpu' := Option.some.inj (hc.symm.trans hc')
      obtain rfl : tid = tid' := Option.some.inj (hr.symm.trans hr')
      rw [State.call?_setThread, if_pos rfl]

theorem exits_run_of_no_call (h : ∀ tid, e.actor? s.running? = some tid → s.call? tid = none) :
    ∃ l, (Syscalls.exit e >>= fun _ => IoRequests.exit e) s = .ok ⟨(), s, l⟩ ∧
      notificationsOf l = [] := by
  obtain ⟨l, hl, hn⟩ := exit_run_of_no_call h
  refine ⟨l, ?_, hn⟩
  rw [bind_run, hl]
  dsimp only
  rw [IoRequests.exit_run_of_no_call h]
  simp

/-- The thread on the event's CPU, if it is in a syscall. -/
theorem caller_of_call (h : ¬ ∀ tid, e.actor? s.running? = some tid → s.call? tid = none) :
    ∃ cpu tid thread call, e.cpu? = some cpu ∧ s.running? cpu = some tid ∧
      s.thread? tid = some thread ∧ thread.call = some call := by
  simp only [Classical.not_forall] at h
  obtain ⟨tid, hact, hcall⟩ := h
  obtain ⟨cpu, hc, hr⟩ := Option.bind_eq_some_iff.1 hact
  obtain ⟨call, hcall⟩ := Option.ne_none_iff_exists'.1 hcall
  obtain ⟨thread, ht, hcall⟩ := Option.bind_eq_some_iff.1 hcall
  exact ⟨cpu, tid, thread, call, hc, hr, ht, hcall⟩

/-- Who exits a syscall is in none afterwards, and its request, if it has one, is finished from the
state in which the thread is in none. Where there is no syscall to exit, nothing happens. -/
theorem exit_cases (h : (Syscalls.exit e >>= fun _ => IoRequests.exit e) s = .ok o) :
    ((∀ tid, e.actor? s.running? = some tid → s.call? tid = none) ∧ o.state = s ∧
      notificationsOf o.signals = []) ∨
    ∃ cpu tid thread call ended o', e.cpu? = some cpu ∧ s.running? cpu = some tid ∧
      s.thread? tid = some thread ∧ thread.call = some call ∧
      call.finish e.time (e.int? "ret") = .ok ended ∧
      (if isIoSyscall call.name then whenSome call.request (IoRequests.finish e cpu tid) else pure ())
        (s.setThread tid { thread with call := none }) = .ok o' ∧ o.state = o'.state ∧
      o.signals =
        .notification (.syscallExit { thread with call := some ended } ended cpu) :: o'.signals := by
  by_cases hnone : ∀ tid, e.actor? s.running? = some tid → s.call? tid = none
  · obtain ⟨l, hl, hn⟩ := exits_run_of_no_call hnone
    rw [hl] at h
    cases h
    exact Or.inl ⟨hnone, rfl, hn⟩
  · obtain ⟨cpu, tid, thread, call, hc, hr, ht, hcall⟩ := caller_of_call hnone
    obtain ⟨o₁, o₂, h₁, -, -⟩ := bind_eq_ok_iff.1 h
    rw [exit_run hc hr ht hcall] at h₁
    obtain ⟨ended, hf⟩ := finish_of_leave h₁
    rw [exits_run hc hr ht hcall hf] at h
    obtain ⟨o₃, o', h₃, hrest, rfl⟩ := bind_eq_ok_iff.1 h
    cases h₃
    exact Or.inr ⟨cpu, tid, thread, call, ended, o', hc, hr, ht, hcall, hf, hrest, rfl, rfl⟩

end Exits

end Syscalls

end KernelReplay
