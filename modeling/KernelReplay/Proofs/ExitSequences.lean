import KernelReplay.Machine.State.Links
import KernelReplay.Proofs.TableSteps

/-
  What the exit of a syscall tells, in order: the syscall, then of its request the descriptors that it
  made or changed, the request itself and the descriptor that it closed. All of them name the thread
  whose table the caller uses. Making the descriptors comes first, so the request is told with the
  table as it is by then; closing comes last (`IoRequests.finish_parts`). Nothing is told of a request
  that there is not, and nothing at all where there is no syscall to leave (`Run.exit_told`).
-/

namespace KernelReplay

open Law Update

/-! ## Owners of tables -/

namespace State

variable {s : State} {tid : Int}

/-- The table that a known thread uses is that of a known thread. -/
theorem knows_fdOwner (h : s.Knows tid) : s.Knows (s.fdOwner tid) := by
  unfold fdOwner
  split
  · split
    · rename_i hpid
      exact Option.isSome_iff_exists.1 hpid
    · exact h
  · exact h

end State

/-! ## Changes to one table -/

/-- The notification is of a change to a descriptor in the table of a thread. -/
def Notification.Changes (n : Notification) (change : FdChange) (owner : Int) : Prop :=
  ∃ fd leader time cpu, n = .fd change fd leader time cpu ∧ leader.tid = owner

/-- At most so many changes of one sort are told of, all of them to one table. -/
structure TellsChanges (change : FdChange) (owner : Int) (most : Nat) (l : List Notification) :
    Prop where
  most : l.length ≤ most
  each : ∀ n ∈ l, n.Changes change owner

namespace TellsChanges

variable {change : FdChange} {owner : Int}

theorem nil (most : Nat) : TellsChanges change owner most [] :=
  ⟨Nat.zero_le most, fun _ hn => (List.not_mem_nil hn).elim⟩

theorem one {fd : Fd} {leader : Thread} {time : Int} {cpu : Option Nat} (h : leader.tid = owner) :
    TellsChanges change owner 1 [.fd change fd leader time cpu] := by
  refine ⟨Nat.le_refl 1, fun n hn => ?_⟩
  rw [List.mem_singleton.1 hn]
  exact ⟨fd, leader, time, cpu, rfl, h⟩

theorem append {m m' : Nat} {l l' : List Notification} (h : TellsChanges change owner m l)
    (h' : TellsChanges change owner m' l') : TellsChanges change owner (m + m') (l ++ l') := by
  constructor
  · rw [List.length_append]
    exact Nat.add_le_add h.most h'.most
  · intro n hn
    rcases List.mem_append.1 hn with hn | hn
    · exact h.each n hn
    · exact h'.each n hn

theorem mono {m m' : Nat} {l : List Notification} (h : TellsChanges change owner m l)
    (hm : m ≤ m') : TellsChanges change owner m' l :=
  ⟨Nat.le_trans h.most hm, h.each⟩

end TellsChanges

/-- The thread of a number is held under it. -/
def State.Numbered (s : State) (tid : Int) : Prop := (s.holdings tid).tid = tid

namespace State.Numbered

variable {s : State} {tid : Int}

theorem tid_of_thread? {t : Thread} (h : s.Numbered tid) (ht : s.thread? tid = some t) :
    t.tid = tid := by
  unfold Numbered at h
  rwa [State.holdings_of_thread? ht] at h

theorem of_callsKept {s' : State} {l : List Signal} (h : s.Numbered tid)
    (hkept : callsKept.rel s l s') : s'.Numbered tid := by
  have hbare : s'.bare = s.bare := hkept.2.1
  have htid := congrArg Holdings.tid (congrFun hbare tid)
  exact htid.trans h

end State.Numbered

namespace Descriptors

variable {owner time : Int} {cpu : Option Nat} {s : State} {o : Outcome Unit}

theorem ensure_told (hs : s.Numbered owner) {fd : Fd} (h : ensure owner fd time cpu s = .ok o) :
    TellsChanges .create owner 1 (notificationsOf o.signals) := by
  cases hf : s.ownFd? owner fd.number with
  | some own =>
    rw [ensure_run_of_some (by simp [hf])] at h
    cases h
    exact .nil 1
  | none =>
    rw [ensure_run_of_none hf] at h
    cases h
    exact .one hs

/-- Of each number at most one new descriptor is told. -/
theorem ensureAll_told (fdOf : Int → Fd) {numbers : List Int} (hs : s.Numbered owner)
    (h : forEach numbers (fun n => ensure owner (fdOf n) time cpu) s = .ok o) :
    TellsChanges .create owner numbers.length (notificationsOf o.signals) := by
  induction numbers generalizing s o with
  | nil =>
    cases h
    exact .nil 0
  | cons n rest ih =>
    obtain ⟨o₁, o₂, h₁, h₂, rfl⟩ := bind_eq_ok_iff.1 h
    have hs₁ := hs.of_callsKept (callsKept_ensure _ _ _ _ s o₁ h₁)
    have htold := (ensure_told hs h₁).append (ih hs₁ h₂)
    rw [notificationsOf_append, List.length_cons, Nat.add_comm]
    exact htold

theorem announceUpdate_told {number : Int} (hs : s.Numbered owner)
    (h : announce .update owner number time cpu s = .ok o) :
    TellsChanges .update owner 1 (notificationsOf o.signals) := by
  cases hf : s.ownFd? owner number with
  | none =>
    rw [announce_run_of_none _ hf] at h
    cases h
    exact .nil 1
  | some fd =>
    obtain ⟨leader, hl, hf⟩ := ownFd?_eq_some_iff.1 hf
    rw [announce_run _ hl hf] at h
    cases h
    exact .one (hs.tid_of_thread? hl)

/-- A descriptor that goes is told of if it is there. -/
theorem close_told {number : Int} (hs : s.Numbered owner)
    (h : close owner number time cpu s = .ok o) :
    TellsChanges .close owner 1 (notificationsOf o.signals) ∧
      (notificationsOf o.signals ≠ [] ↔ (s.ownFd? owner number).isSome) := by
  cases hf : s.ownFd? owner number with
  | none =>
    rw [close_run_of_none hf] at h
    cases h
    exact ⟨.nil 1, by simp⟩
  | some fd =>
    obtain ⟨leader, hl, hf⟩ := ownFd?_eq_some_iff.1 hf
    rw [close_run hl hf] at h
    cases h
    exact ⟨.one (hs.tid_of_thread? hl), by simp⟩

end Descriptors

/-! ## Requests -/

/-- A transfer is a plain read or write, or one between two descriptors. -/
structure Transfer.Formed (t : Transfer) : Prop where
  operation : t.operation = .read ∨ t.operation = .write ∨ t.operation = .readWrite
  plain : t.operation ≠ .readWrite → t.source = none ∧ t.target = none
  between : t.operation = .readWrite → t.fd = none

namespace Transfer.Formed

variable {t : Transfer}

theorem of_pending {kind : SyscallClass} (h : IoBody.Pending kind (.transfer t)) : t.Formed := by
  cases kind
  case read =>
    obtain ⟨hop, hsource, htarget, -, -⟩ := h
    exact ⟨Or.inl hop, fun _ => ⟨hsource, htarget⟩, fun hrw => by simp [hop] at hrw⟩
  case write =>
    obtain ⟨hop, hsource, htarget, -, -⟩ := h
    exact ⟨Or.inr (Or.inl hop), fun _ => ⟨hsource, htarget⟩, fun hrw => by simp [hop] at hrw⟩
  case readWrite =>
    obtain ⟨hop, hfd, -, -⟩ := h
    exact ⟨Or.inr (Or.inr hop), fun hne => (hne hop).elim, fun _ => hfd⟩
  all_goals exact h.elim

theorem complete (h : t.Formed) (bytes : Nat) : (t.complete bytes).Formed :=
  ⟨h.operation, h.plain, h.between⟩

/-- A transfer names at most two descriptors. -/
theorem numbers_le (h : t.Formed) : ([t.fd, t.source, t.target].filterMap id).length ≤ 2 := by
  by_cases hop : t.operation = .readWrite
  · rw [h.between hop]
    exact List.length_filterMap_le id [t.source, t.target]
  · obtain ⟨hsource, htarget⟩ := h.plain hop
    rw [hsource, htarget]
    cases t.fd <;> simp

end Transfer.Formed

namespace IoRequest

variable {rq finished : IoRequest} {time : Int} {ret : Option Int}

/-- A transfer that a syscall has finished is formed like the one that it began. -/
theorem formed_of_finish {tid : Int} {call : Call} (hp : rq.Pending tid call)
    (h : rq.finish time ret = .ok finished) {t : Transfer} (hb : finished.body = .transfer t) :
    t.Formed := by
  obtain ⟨kind, -, hbody⟩ := hp.body
  rcases finish_body h with heq | ⟨n, -, heq⟩
  · rw [← heq, hb] at hbody
    exact .of_pending hbody
  · rw [hb] at heq
    cases hq : rq.body with
    | transfer t₀ =>
      rw [hq] at heq hbody
      rw [IoBody.transfer.inj heq]
      exact (Transfer.Formed.of_pending hbody).complete n.toNat
    | opening _ | close _ | sync _ _ | connect _ _ =>
      rw [hq] at heq
      cases heq

/-- A request stays of the same operation when it is finished. -/
theorem operation_of_finish (h : rq.finish time ret = .ok finished) :
    finished.body.operation = rq.body.operation := by
  rcases finish_body h with heq | ⟨n, -, heq⟩
  · rw [heq]
  · rw [heq]
    cases rq.body <;> rfl

/-- A closing request stays one when it is finished, and no other request becomes one. -/
theorem close_of_finish (h : rq.finish time ret = .ok finished) (number : Int) :
    finished.body = .close number ↔ rq.body = .close number := by
  rcases finish_body h with heq | ⟨n, -, heq⟩
  · rw [heq]
  · rw [heq]
    cases rq.body <;> simp [IoBody.complete]

theorem succeeded_iff : rq.succeeded ret = true ↔
    ∃ n, ret = some n ∧ (0 ≤ n ∨ n = -115 ∧ rq.body.operation = .connect) := by
  cases ret with
  | none => simp [succeeded]
  | some n =>
    simp only [succeeded, Bool.or_eq_true, Bool.and_eq_true, decide_eq_true_eq, Option.some.injEq]
    constructor
    · exact fun h => ⟨n, rfl, h⟩
    · rintro ⟨_, rfl, h⟩
      exact h

end IoRequest

namespace IoRequests

variable {request : IoRequest} {e : Event} {tid owner : Int} {cpu : Nat} {s : State}
  {o : Outcome Unit}

/-- What a finished request tells of the table: new descriptors, or the one that it names. -/
theorem applyBody_told (hs : s.Numbered owner)
    (hformed : ∀ t, request.body = .transfer t → t.Formed)
    (h : applyBody request.body e tid owner cpu s = .ok o) :
    ∃ creates updates, notificationsOf o.signals = creates ++ updates ∧
      TellsChanges .create owner 2 creates ∧ TellsChanges .update owner 1 updates := by
  have made : ∀ {l m}, TellsChanges .create owner m l → m ≤ 2 →
      ∃ creates updates, l = creates ++ updates ∧ TellsChanges .create owner 2 creates ∧
        TellsChanges .update owner 1 updates :=
    fun hl hm => ⟨_, [], (List.append_nil _).symm, hl.mono hm, .nil 1⟩
  cases hb : request.body with
  | opening r =>
    rw [hb] at h
    rcases whenSome_cases h with ⟨-, rfl⟩ | ⟨number, -, h⟩
    · exact made (.nil 0) (Nat.zero_le 2)
    · exact made (Descriptors.ensure_told hs h) (Nat.le_succ 1)
  | close number =>
    rw [hb] at h
    cases h
    exact made (.nil 0) (Nat.zero_le 2)
  | sync fd size =>
    rw [hb] at h
    rcases whenSome_cases h with ⟨-, rfl⟩ | ⟨number, -, h⟩
    · exact made (.nil 0) (Nat.zero_le 2)
    · exact made (Descriptors.ensure_told hs h) (Nat.le_succ 1)
  | transfer t =>
    rw [hb] at h
    obtain ⟨o₁, o₂, h₁, h₂, rfl⟩ := bind_eq_ok_iff.1 h
    cases h₂
    have hcreates := Descriptors.ensureAll_told (fun number => { number }) hs h₁
    rw [List.append_nil]
    exact made hcreates (hformed t hb).numbers_le
  | connect number address =>
    rw [hb] at h
    rcases whenSome_cases h with ⟨-, rfl⟩ | ⟨filename, -, h⟩
    · exact made (.nil 0) (Nat.zero_le 2)
    · rw [modify_bind_run] at h
      have htold := Descriptors.announceUpdate_told (hs.of_callsKept (callsKept_adjustFd ..)) h
      exact ⟨[], _, rfl, .nil 2, htold⟩

/-- A request that failed tells nothing of the table. -/
theorem settle_told (hs : s.Numbered owner)
    (hformed : ∀ t, request.body = .transfer t → t.Formed)
    (h : settle request e tid owner cpu s = .ok o) :
    ∃ creates updates, notificationsOf o.signals = creates ++ updates ∧
      TellsChanges .create owner 2 creates ∧ TellsChanges .update owner 1 updates ∧
      (creates ++ updates ≠ [] → request.succeeded (e.int? "ret") = true) := by
  unfold settle at h
  split at h
  · rename_i hsucceeded
    obtain ⟨creates, updates, hl, hcreates, hupdates⟩ := applyBody_told hs hformed h
    exact ⟨creates, updates, hl, hcreates, hupdates, fun _ => hsucceeded⟩
  · cases h
    exact ⟨[], [], rfl, .nil 2, .nil 1, fun hne => (hne rfl).elim⟩

/-- Nothing that a request does to a table makes a thread unknown. -/
theorem knows_settle {k : Int} (h : settle request e tid owner cpu s = .ok o) (hk : s.Knows k) :
    o.state.Knows k := by
  have hensure : ∀ fd, Obeys (maintaining fun s => s.Knows k)
      (Descriptors.ensure owner fd e.time (some cpu)) :=
    fun fd => Descriptors.known_ensure k owner fd e.time (some cpu)
  have hsettle : Obeys (maintaining fun s => s.Knows k) (settle request e tid owner cpu) := by
    refine obeys_ite ?_ (obeys_pure _)
    cases request.body with
    | opening r => exact obeys_whenSome fun number => hensure _
    | close number => exact obeys_pure _
    | sync fd size => exact obeys_whenSome fun number => hensure _
    | transfer t =>
      refine Obeys.bind (obeys_forEach fun number => hensure _) fun _ => obeys_modify fun s hs => ?_
      unfold countBytes
      split
      · exact hs
      · exact known_countSide _ _ _ _ _ (known_countSide _ _ _ _ _ hs)
    | connect number address =>
      refine obeys_whenSome fun filename => ?_
      refine Obeys.modify_bind (fun s hs => hs.adjustThread owner _) (obeys_get.bind fun s => ?_)
      split
      · exact obeys_notify fun s => id
      · exact obeys_pure _
  exact hsettle s o h hk

/-- A request is finished in three parts: its effect on the table, its announcement and, if it closes
a descriptor, the end of that one. -/
theorem finish_parts (hknown : s.Knows tid) (h : finish e cpu tid request s = .ok o) :
    ∃ finished o₁ o₂ thread leader, request.finish e.time (e.int? "ret") = .ok finished ∧
      settle finished e tid (s.fdOwner tid) cpu s = .ok o₁ ∧
      o₁.state.thread? tid = some thread ∧ o₁.state.thread? (s.fdOwner tid) = some leader ∧
      whenSome (closed? finished.body (e.int? "ret")) (fun number =>
        Descriptors.close (s.fdOwner tid) number e.time (some cpu)) o₁.state = .ok o₂ ∧
      o.state = o₂.state ∧ o.signals =
        o₁.signals ++ .notification (.requestExit finished thread leader) :: o₂.signals := by
  obtain ⟨o₀, o₁, h₀, h₁, rfl⟩ := bind_eq_ok_iff.1 h
  obtain ⟨finished, hf, rfl⟩ := compute_eq_ok_iff.1 h₀
  rw [get_bind_run] at h₁
  obtain ⟨o₂, o₃, h₂, h₃, rfl⟩ := bind_eq_ok_iff.1 h₁
  obtain ⟨thread, ht⟩ := knows_settle h₂ hknown
  obtain ⟨leader, hl⟩ := knows_settle h₂ (s.knows_fdOwner hknown)
  obtain ⟨o₄, o₅, h₄, h₅, rfl⟩ := bind_eq_ok_iff.1 h₃
  unfold announceExit at h₄
  rw [get_bind_run, ht, hl] at h₄
  cases h₄
  exact ⟨finished, o₂, o₅, thread, leader, hf, h₂, ht, hl, h₅, rfl, rfl⟩

theorem closed?_eq_some_iff {body : IoBody} {ret : Option Int} {number : Int} :
    closed? body ret = some number ↔ body = .close number ∧ ret = some 0 := by
  unfold closed?
  split
  · rename_i n
    by_cases hret : ret = some 0 <;> simp [hret]
  · rename_i hne
    simp only [reduceCtorEq, false_iff]
    exact fun h => hne number h.1

/-- Closing a descriptor does nothing to the table before its announcement. -/
theorem settle_close {number : Int} (hb : request.body = .close number)
    (h : settle request e tid owner cpu s = .ok o) : o.state = s := by
  unfold settle at h
  rw [hb] at h
  split at h <;> cases h <;> rfl

/-- A descriptor is told to be closed if the request closes it and it was open. -/
theorem close_told {finished : IoRequest} {o₂ : Outcome Unit} (hs : s.Numbered owner)
    (hsettle : settle finished e tid owner cpu s = .ok o)
    (h : whenSome (closed? finished.body (e.int? "ret")) (fun number =>
      Descriptors.close owner number e.time (some cpu)) o.state = .ok o₂) :
    TellsChanges .close owner 1 (notificationsOf o₂.signals) ∧
      (notificationsOf o₂.signals ≠ [] ↔ ∃ number, finished.body = .close number ∧
        e.int? "ret" = some 0 ∧ (s.ownFd? owner number).isSome) := by
  rcases whenSome_cases h with ⟨hnone, rfl⟩ | ⟨number, hsome, h⟩
  · refine ⟨.nil 1, by simp, ?_⟩
    rintro ⟨number, hb, hret, -⟩
    rw [closed?_eq_some_iff.2 ⟨hb, hret⟩] at hnone
    cases hnone
  · obtain ⟨hb, hret⟩ := closed?_eq_some_iff.1 hsome
    rw [settle_close hb hsettle] at h
    obtain ⟨htold, hiff⟩ := Descriptors.close_told hs h
    refine ⟨htold, hiff.trans ⟨fun hopen => ⟨number, hb, hret, hopen⟩, ?_⟩⟩
    rintro ⟨number', hb', -, hopen⟩
    obtain rfl : number = number' := IoBody.close.inj (hb.symm.trans hb')
    exact hopen

end IoRequests

/-! ## Syscalls -/

/-- What the end of a syscall tells of the request that it carries: at most two descriptors that were
made and one that changed, if the request succeeded; the request, with the times of the syscall; and
the descriptor that it closed. The descriptors are those of the owner of a table. -/
inductive TellsRequest (e : Event) (tid owner : Int) (fds : Table Int Fd) (rq : IoRequest)
    (ended : Call) : List Notification → Prop
  | told {creates updates closes : List Notification} {finished : IoRequest} {thread leader : Thread}
      (created : TellsChanges .create owner 2 creates)
      (updated : TellsChanges .update owner 1 updates)
      (succeeded : creates ++ updates ≠ [] → ∃ n, e.int? "ret" = some n ∧
        (0 ≤ n ∨ n = -115 ∧ rq.body.operation = .connect))
      (tid_eq : finished.tid = tid) (begun : finished.begun = ended.begun)
      (ended_eq : finished.ended = ended.ended) (duration : finished.duration = ended.duration)
      (errno : ∀ m, finished.errno = some m ↔ ∃ n, e.int? "ret" = some n ∧ n < 0 ∧ m = -n)
      (thread_tid : thread.tid = tid) (leader_tid : leader.tid = owner)
      (closed : TellsChanges .close owner 1 closes)
      (closes_iff : closes ≠ [] ↔ ∃ number, rq.body = .close number ∧ e.int? "ret" = some 0 ∧
        (fds.get? number).isSome) :
      TellsRequest e tid owner fds rq ended
        (creates ++ updates ++ .requestExit finished thread leader :: closes)

namespace IoRequests

variable {e : Event} {cpu : Nat} {tid : Int} {rq : IoRequest} {call ended : Call} {s : State}
  {o : Outcome Unit}

theorem finish_told (hp : rq.Pending tid call) (hcall : call.finish e.time (e.int? "ret") = .ok ended)
    (hs : ∀ k, s.Numbered k) (hknown : s.Knows tid) (h : finish e cpu tid rq s = .ok o) :
    TellsRequest e tid (s.fdOwner tid) (s.fds (s.fdOwner tid)) rq ended
      (notificationsOf o.signals) := by
  obtain ⟨finished, o₁, o₂, thread, leader, hf, hsettle, ht, hl, hclose, -, hsignals⟩ :=
    finish_parts hknown h
  have hformed : ∀ t, finished.body = .transfer t → t.Formed :=
    fun t hb => IoRequest.formed_of_finish hp hf hb
  obtain ⟨creates, updates, htold, hcreates, hupdates, hsucceeded⟩ :=
    settle_told (hs _) hformed hsettle
  obtain ⟨hcloses, hcloses_iff⟩ := close_told (hs _) hsettle hclose
  -- Threads keep their numbers while the table changes.
  have hkept : callsKept.rel s o₁.signals o₁.state :=
    obeys_ite (callsKept_applyBody _ _ _ _ _) (obeys_pure _) s o₁ hsettle
  have hthread := ((hs tid).of_callsKept hkept).tid_of_thread? ht
  have hleader := ((hs (s.fdOwner tid)).of_callsKept hkept).tid_of_thread? hl
  obtain ⟨-, rfl⟩ := Call.finish_eq_ok_iff.1 hcall
  obtain ⟨errno, body, hfinished, hresult⟩ := IoRequest.finish_cases hf
  rw [hsignals, notificationsOf_append, htold, notificationsOf_notification]
  refine .told hcreates hupdates (fun hne => ?_) ?_ ?_ ?_ ?_ (fun m => ?_) hthread hleader hcloses ?_
  · obtain ⟨n, hn, hresult⟩ := IoRequest.succeeded_iff.1 (hsucceeded hne)
    rw [IoRequest.operation_of_finish hf] at hresult
    exact ⟨n, hn, hresult⟩
  · rw [hfinished]
    exact hp.tid
  · rw [hfinished]
    exact hp.begun
  · rw [hfinished]
  · rw [hfinished, hp.begun]
  · rw [hfinished]
    rcases hresult with ⟨hret, rfl, -⟩ | ⟨n, hret, ⟨hneg, rfl, -⟩ | ⟨hpos, rfl, -⟩⟩
    · simp [hp.errno, hret]
    · simp only [hret, Option.some.injEq]
      exact ⟨fun h => ⟨n, rfl, hneg, h.symm⟩, fun ⟨k, hk, _, hm⟩ => by omega⟩
    · simp only [hp.errno, hret, Option.some.injEq, reduceCtorEq, false_iff]
      rintro ⟨k, rfl, hneg, -⟩
      exact Int.not_lt.2 hpos hneg
  · rw [hcloses_iff]
    simp only [IoRequest.close_of_finish hf]
    rfl

end IoRequests

/-- A syscall that has left its thread tells of its request, and the thread stays in none. -/
theorem Syscalls.exits_told {e : Event} {cpu : Nat} {tid : Int} {thread : Thread} {call ended : Call}
    {s : State} {o : Outcome Unit} (hs : s.CallsSound) (ht : s.thread? tid = some thread)
    (hcall : s.call? tid = some call) (hf : call.finish e.time (e.int? "ret") = .ok ended)
    (h : (if isIoSyscall call.name then whenSome call.request (IoRequests.finish e cpu tid) else pure ())
      (s.setThread tid { thread with call := none }) = .ok o) :
    (call.request = none → notificationsOf o.signals = []) ∧
    (∀ rq, call.request = some rq → TellsRequest e tid (s.fdOwner tid) (s.fds (s.fdOwner tid)) rq
      ended (notificationsOf o.signals)) ∧
    o.state.call? tid = none := by
  generalize hleft : s.setThread tid { thread with call := none } = s₁ at h
  have hknown : s₁.Knows tid := ⟨_, by rw [← hleft, State.thread?_setThread, if_pos rfl]⟩
  have hnone : s₁.call? tid = none := by rw [← hleft, State.call?_setThread, if_pos rfl]
  have howner : s₁.fdOwner tid = s.fdOwner tid := by
    rw [← hleft]
    exact State.fdOwner_setThread ht rfl
  have hkept : tablesKept.rel s [] s₁ := by
    rw [← hleft]
    exact Syscalls.tablesKept_setCall ht none
  have hfds := State.fds_of_tablesKept hkept
  have hnumbered : ∀ k, s₁.Numbered k := fun k =>
    (State.tid_of_atRest_eq hkept.1 k).trans (hs.numbered k)
  cases hrq : call.request with
  | none =>
    have ho : o = ⟨(), s₁, []⟩ := by
      rw [hrq] at h
      split at h <;> exact (Except.ok.inj h).symm
    rw [ho]
    exact ⟨fun _ => rfl, fun rq heq => (nomatch heq), hnone⟩
  | some rq =>
    have hp := (hs.pending tid call hcall).request rq hrq
    obtain ⟨kind, hkind, -⟩ := hp.body
    rw [if_pos (show isIoSyscall call.name = true by simp [isIoSyscall, hkind]), hrq] at h
    have htold := IoRequests.finish_told hp hf hnumbered hknown h
    have hbare : o.state.bare = s₁.bare := (IoRequests.callsKept_finish e cpu tid rq s₁ o h).2.1
    rw [howner, hfds] at htold
    refine ⟨fun heq => (nomatch heq), fun rq' heq => ?_, ?_⟩
    · rw [← Option.some.inj heq]
      exact htold
    · rw [State.call?_of_bare_eq hbare]
      exact hnone

namespace Run

variable {settings : Settings} {history : List Step} {r : Replay} {e : Event} {p : Replay.Progress}

/-- The exit of a syscall tells of the syscall first. Of a request that the syscall carries it tells
next, in the order of `TellsRequest`, and of nothing else; the thread is in no syscall then. Without a
thread on the CPU, or a syscall that it is in, nothing is told and nothing changes. -/
theorem exit_told (h : Run settings history r) (hp : r.process e = .ok p)
    (hk : e.kind? = some .syscallExit) :
    (∀ tid call, e.actor? r.state.running? = some tid → r.state.call? tid = some call →
      ∃ thread ended cpu rest,
        notificationsOf p.signals = .syscallExit thread ended cpu :: rest ∧ e.cpu? = some cpu ∧
        thread.tid = tid ∧ call.finish e.time (e.int? "ret") = .ok ended ∧
        (call.request = none → rest = []) ∧
        (∀ rq, call.request = some rq → TellsRequest e tid (r.state.fdOwner tid)
          (r.state.fds (r.state.fdOwner tid)) rq ended rest) ∧
        p.replay.state.call? tid = none) ∧
    ((∀ tid, e.actor? r.state.running? = some tid → r.state.call? tid = none) →
      notificationsOf p.signals = [] ∧ p.replay.state = r.state) := by
  obtain ⟨o, ho, hs, hl⟩ := h.exit_run hp hk
  rw [hs, hl]
  rcases Syscalls.exit_cases ho with ⟨hnone, hstate, htold⟩ |
    ⟨cpu, tid, thread, call, ended, o', hc, hr, ht, hcall, hf, hrest, hstate, hsignals⟩
  · refine ⟨fun tid call hactor hcall => ?_, fun _ => ⟨htold, hstate⟩⟩
    rw [hnone tid hactor] at hcall
    cases hcall
  have hactor : e.actor? r.state.running? = some tid := by
    unfold Event.actor?
    rw [hc]
    exact hr
  have hin : r.state.call? tid = some call := by
    rw [State.call?, ht]
    exact hcall
  refine ⟨fun tid' call' hactor' hin' => ?_, fun hnone => ?_⟩
  · obtain rfl : tid = tid' := Option.some.inj (hactor.symm.trans hactor')
    obtain rfl : call = call' := Option.some.inj (hin.symm.trans hin')
    have htid : thread.tid = tid := h.callsSound.tid_of_thread? ht
    obtain ⟨hsilent, hrequest, hafter⟩ := Syscalls.exits_told h.callsSound ht hin hf hrest
    refine ⟨{ thread with call := some ended }, ended, cpu, notificationsOf o'.signals, ?_, hc, htid,
      hf, hsilent, hrequest, ?_⟩
    · rw [hsignals, notificationsOf_notification]
    · rw [hstate]
      exact hafter
  · rw [hnone tid hactor] at hin
    cases hin

/-- A thread moves bytes between two descriptors of which nothing is known. -/
def splicing : List Event :=
  [.recorded 0 10 "sched_switch" [("prev_tid", .signed 0), ("next_tid", .signed 7)],
   .recorded 0 20 "syscall_entry_splice"
     [("fd_in", .signed 3), ("fd_out", .signed 4), ("len", .unsigned 64)]]

/-- The bytes have moved. -/
def spliced : Event := .recorded 0 30 "syscall_exit_splice" [("ret", .signed 64)]

theorem exit_told_spliced : ∃ history r p thread ended cpu rq rest,
    Run {} history r ∧ r.process spliced = .ok p ∧
    notificationsOf p.signals = .syscallExit thread ended cpu :: rest ∧
    rest.map (·.kind) = [.createFd, .createFd, .requestExit] ∧
    TellsRequest spliced 7 7 (r.state.fds 7) rq ended rest := by
  have hgives : Replay.gives {} splicing (fun q =>
      spliced.actor? q.replay.state.running? = some 7 ∧ q.replay.state.fdOwner 7 = 7 ∧
        ((q.replay.state.call? 7).bind (·.request)).isSome ∧
        ((q.replay.process spliced).toOption.map fun p =>
          (notificationsOf p.signals).map (·.kind)) =
            some [.syscallExit, .createFd, .createFd, .requestExit]) = true := by decide +kernel
  have hk : spliced.kind? = some .syscallExit := by decide +kernel
  obtain ⟨history, q, h, -, -, htest⟩ := Run.of_gives hgives
  obtain ⟨hactor, howner, hrequest, hkinds⟩ := of_decide_eq_true htest
  obtain ⟨rq, hrq⟩ := Option.isSome_iff_exists.1 hrequest
  obtain ⟨call, hcall, hrq⟩ := Option.bind_eq_some_iff.1 hrq
  cases hp : q.replay.process spliced with
  | error f =>
    rw [hp] at hkinds
    cases hkinds
  | ok p =>
    obtain ⟨thread, ended, cpu, rest, htold, -, -, -, -, htells, -⟩ :=
      (exit_told h hp hk).1 7 call hactor hcall
    have htells := htells rq hrq
    rw [howner] at htells
    rw [hp] at hkinds
    have hkinds : (notificationsOf p.signals).map (·.kind) = _ := Option.some.inj hkinds
    rw [htold, List.map_cons] at hkinds
    exact ⟨history, q.replay, p, thread, ended, cpu, rq, rest, h, hp, htold,
      (List.cons.inj hkinds).2, htells⟩

end Run

end KernelReplay
