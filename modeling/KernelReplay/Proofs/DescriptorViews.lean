import Mathlib
import KernelReplay.Proofs.TableSteps

/-
  Tables of descriptors as a subscriber can follow them. A subscriber who keeps the owner and the
  number of every descriptor it is told of, renames the owner where a table moves, and drops what a
  forked thread's number stood for, knows after every event which descriptors there are
  (`Run.view_shows`). Every notification comes when it is due: a descriptor is made that the
  subscriber did not know, and one that changes or goes is one that it knew.
-/

namespace KernelReplay

open Law Update

/-- The descriptors that a subscriber knows of, by owner and number. -/
abbrev FdView := Finset (Int × Int)

namespace FdView

/-- What a subscriber makes of a notification. -/
def heed (view : FdView) : Notification → FdView
  | .fd .create fd owner _ _ => insert (owner.tid, fd.number) view
  | .fd .close fd owner _ _ => view.erase (owner.tid, fd.number)
  | .createParent thread parent =>
    view.image fun p => if p.1 = thread.tid then (parent.tid, p.2) else p
  | _ => view

/-- Whether a notification is about descriptors as the subscriber knows them. -/
def Expects (view : FdView) : Notification → Prop
  | .fd .create fd owner _ _ => (owner.tid, fd.number) ∉ view
  | .fd .update fd owner _ _ | .fd .close fd owner _ _ => (owner.tid, fd.number) ∈ view
  | _ => True

/-- What a subscriber makes of notifications in order. -/
def heedAll (view : FdView) (l : List Notification) : FdView := l.foldl heed view

/-- Every notification is expected when it comes. -/
def ExpectsAll : FdView → List Notification → Prop
  | _, [] => True
  | view, n :: rest => view.Expects n ∧ ExpectsAll (view.heed n) rest

/-- A fork drops what the number of its child stood for. -/
def forget (view : FdView) (e : Event) : FdView :=
  match e.forked? with
  | some child => view.filter fun p => p.1 ≠ child
  | none => view

/-- What a subscriber knows after the steps of a run, of which it knew nothing before. -/
def after (history : List Step) : FdView :=
  history.foldl (fun view step => (view.forget step.event).heedAll (notificationsOf step.signals)) ∅

/-- The subscriber knows the descriptors of a state and no others. -/
def Shows (view : FdView) (s : State) : Prop :=
  ∀ tid number, (tid, number) ∈ view ↔ ∃ thread, s.thread? tid = some thread ∧ number ∈ thread.fds

theorem heedAll_append (view : FdView) (l m : List Notification) :
    view.heedAll (l ++ m) = (view.heedAll l).heedAll m := List.foldl_append

theorem expectsAll_append {view : FdView} {l m : List Notification} :
    view.ExpectsAll (l ++ m) ↔ view.ExpectsAll l ∧ (view.heedAll l).ExpectsAll m := by
  induction l generalizing view with
  | nil => simp [ExpectsAll, heedAll]
  | cons n rest ih =>
    rw [List.cons_append, ExpectsAll, ExpectsAll, ih, and_assoc]
    rfl

theorem after_snoc (history : List Step) (step : Step) :
    after (history ++ [step]) =
      ((after history).forget step.event).heedAll (notificationsOf step.signals) := by
  simp [after]

/-- Notifications about other things are always expected and tell the subscriber nothing. -/
theorem heedAll_of_not_tellsTables (view : FdView) {l : List Notification}
    (h : ∀ n ∈ l, ¬ n.TellsTables) : view.ExpectsAll l ∧ view.heedAll l = view := by
  induction l with
  | nil => exact ⟨trivial, rfl⟩
  | cons n rest ih =>
    have hn : view.Expects n ∧ view.heed n = view := by
      cases n
      case fd => exact (h _ List.mem_cons_self trivial).elim
      case createParent => exact (h _ List.mem_cons_self trivial).elim
      all_goals exact ⟨trivial, rfl⟩
    obtain ⟨hexp, hheed⟩ := ih fun m hm => h m (List.mem_cons_of_mem _ hm)
    have hheed' : view.heedAll (n :: rest) = (view.heed n).heedAll rest := rfl
    rw [ExpectsAll, hheed', hn.2]
    exact ⟨⟨hn.1, hexp⟩, hheed⟩

theorem shows_iff_holdings {view : FdView} {s : State} : view.Shows s ↔
    ∀ tid number, (tid, number) ∈ view ↔ number ∈ (s.holdings tid).fds := by
  have hiff : ∀ tid number, (∃ thread, s.thread? tid = some thread ∧ number ∈ thread.fds) ↔
      number ∈ (s.holdings tid).fds := by
    intro tid number
    cases h : s.thread? tid with
    | none =>
      rw [State.holdings_of_none h]
      simp [Holdings.blank, Table.mem_iff]
    | some thread =>
      rw [State.holdings_of_thread? h]
      simp [Thread.holdings]
  unfold Shows
  simp only [hiff]

end FdView

/-- Threads and descriptors are held under their own numbers. -/
structure State.Keyed (s : State) : Prop where
  tids : ∀ tid, (s.holdings tid).tid = tid
  numbers : ∀ tid number fd, (s.holdings tid).fds.get? number = some fd → fd.number = number

/-- A subscriber who knows the descriptors of a state keeps knowing them. -/
def Law.tracked : Law where
  rel s l s' := s.Keyed → s'.Keyed ∧ ∀ view : FdView, view.Shows s →
    view.ExpectsAll (notificationsOf l) ∧ (view.heedAll (notificationsOf l)).Shows s'
  idle s hk := ⟨hk, fun view h => ⟨trivial, h⟩⟩
  chain h h' hk := by
    obtain ⟨hk₂, hv⟩ := h hk
    obtain ⟨hk₃, hv'⟩ := h' hk₂
    refine ⟨hk₃, fun view hs => ?_⟩
    obtain ⟨hexp, hs₂⟩ := hv view hs
    obtain ⟨hexp', hs₃⟩ := hv' _ hs₂
    rw [notificationsOf_append, FdView.expectsAll_append, FdView.heedAll_append]
    exact ⟨⟨hexp, hexp'⟩, hs₃⟩

/-! ## What the law allows -/

/-- Where numbers stay and no table is spoken of, a subscriber keeps knowing the same. -/
theorem tracked_of_eq {s s' : State} {l : List Signal}
    (htid : ∀ k, (s'.holdings k).tid = (s.holdings k).tid)
    (hfds : ∀ k, (s'.holdings k).fds = (s.holdings k).fds)
    (hn : ∀ n ∈ notificationsOf l, ¬ n.TellsTables) : tracked.rel s l s' := by
  intro hk
  refine ⟨⟨fun tid => (htid tid).trans (hk.tids tid), fun tid number fd h => ?_⟩, fun view hs => ?_⟩
  · rw [hfds] at h
    exact hk.numbers tid number fd h
  · obtain ⟨hexp, hheed⟩ := FdView.heedAll_of_not_tellsTables view hn
    rw [hheed]
    rw [FdView.shows_iff_holdings] at hs ⊢
    simp only [hfds]
    exact ⟨hexp, hs⟩

/-- Putting a thread with a new table into a state keeps what is held under its own number. -/
theorem State.Keyed.setThread {s : State} (h : s.Keyed) {tid : Int} {t : Thread} (ht : t.tid = tid)
    (hfds : ∀ number fd, t.fds.get? number = some fd → fd.number = number) :
    (s.setThread tid t).Keyed := by
  constructor
  · intro k
    rw [State.holdings_setThread]
    split
    · rename_i hk
      rw [hk]
      exact ht
    · exact h.tids k
  · intro k number fd hget
    rw [State.holdings_setThread] at hget
    split at hget
    · exact hfds number fd hget
    · exact h.numbers k number fd hget

namespace State.Keyed

variable {s : State} {tid : Int} {thread : Thread}

theorem tid_of_thread? (h : s.Keyed) (ht : s.thread? tid = some thread) : thread.tid = tid := by
  have hk := h.tids tid
  rwa [holdings_of_thread? ht] at hk

theorem number_of_thread? (h : s.Keyed) (ht : s.thread? tid = some thread) {number : Int} {fd : Fd}
    (hf : thread.fds.get? number = some fd) : fd.number = number := by
  refine h.numbers tid number fd ?_
  rw [holdings_of_thread? ht]
  exact hf

theorem number_insert {fds : Table Int Fd} (h : ∀ n fd, fds.get? n = some fd → fd.number = n)
    {number : Int} {fd : Fd} (hn : fd.number = number) :
    ∀ n fd', (fds.insert number fd).get? n = some fd' → fd'.number = n := by
  intro n fd' hget
  rw [Table.get?_insert] at hget
  split at hget
  · rename_i heq
    rw [heq, ← Option.some.inj hget]
    exact hn
  · exact h n fd' hget

end State.Keyed

/-- A subscriber who knows a state knows the numbers in the table of any thread of it. -/
theorem FdView.Shows.mem_iff {view : FdView} {s : State} (h : view.Shows s) {tid : Int}
    {thread : Thread} (ht : s.thread? tid = some thread) {number : Int} :
    (tid, number) ∈ view ↔ number ∈ thread.fds := by
  rw [h tid number, ht]
  simp

theorem FdView.Shows.setThread {view : FdView} {s : State} {tid : Int} {t : Thread}
    (hself : ∀ number, (tid, number) ∈ view ↔ number ∈ t.fds)
    (hother : ∀ k number, k ≠ tid → ((k, number) ∈ view ↔ ∃ thread, s.thread? k = some thread ∧
      number ∈ thread.fds)) : view.Shows (s.setThread tid t) := by
  intro k number
  rw [State.thread?_setThread]
  by_cases hk : k = tid
  · rw [if_pos hk, hk, hself]
    simp
  · rw [if_neg hk]
    exact hother k number hk

/-- A descriptor that changes under its number is the same to a subscriber. -/
theorem tracked_alter {s : State} {owner number : Int} {thread : Thread} {fd fd' : Fd}
    (ht : s.thread? owner = some thread) (hf : thread.fds.get? number = some fd)
    (hn : fd'.number = fd.number) :
    tracked.rel s [] (s.setThread owner { thread with fds := thread.fds.insert number fd' }) := by
  intro hk
  have hnum : fd'.number = number := hn.trans (hk.number_of_thread? ht hf)
  have htid : thread.tid = owner := hk.tid_of_thread? ht
  refine ⟨hk.setThread htid ?_, fun view hs => ⟨trivial, ?_⟩⟩
  · exact State.Keyed.number_insert (fun n fd => hk.number_of_thread? ht) hnum
  · refine FdView.Shows.setThread (fun n => ?_) fun k n _ => hs k n
    show (owner, n) ∈ view ↔ _
    rw [hs.mem_iff ht, Table.mem_iff, Table.mem_iff, Table.get?_insert]
    split
    · rename_i heq
      simp [heq, hf]
    · rfl

theorem tracked_create {s : State} {owner : Int} {fd : Fd} (time : Int) (cpu : Option Nat)
    (hnone : s.ownFd? owner fd.number = none) :
    tracked.rel s [.notification (.fd .create fd (Descriptors.withFd s owner fd) time cpu)]
      (s.setThread owner (Descriptors.withFd s owner fd)) := by
  intro hk
  have htid : (Descriptors.withFd s owner fd).tid = owner := hk.tids owner
  have hfds : (Descriptors.withFd s owner fd).fds = (s.holdings owner).fds.insert fd.number fd := rfl
  have hnone : (s.holdings owner).fds.get? fd.number = none := by
    rw [← State.fds_eq_holdings]
    exact hnone
  refine ⟨hk.setThread htid ?_, fun view hs => ?_⟩
  · rw [hfds]
    exact State.Keyed.number_insert (hk.numbers owner) rfl
  · have hs' := FdView.shows_iff_holdings.1 hs
    refine ⟨⟨?_, trivial⟩, FdView.Shows.setThread (fun n => ?_) fun k n hne => ?_⟩
    · show ((Descriptors.withFd s owner fd).tid, fd.number) ∉ view
      rw [htid, hs', Table.mem_iff, hnone]
      simp
    · show (owner, n) ∈ insert ((Descriptors.withFd s owner fd).tid, fd.number) view ↔ _
      rw [htid, Finset.mem_insert, hs', hfds, Table.mem_iff, Table.mem_iff, Table.get?_insert]
      split
      · rename_i heq
        simp [heq]
      · rename_i hne
        simp [hne]
    · show (k, n) ∈ insert ((Descriptors.withFd s owner fd).tid, fd.number) view ↔ _
      rw [htid, Finset.mem_insert, ← hs k n]
      simp [hne]

theorem tracked_update {s : State} {owner number : Int} {thread : Thread} {fd : Fd} (time : Int)
    (cpu : Option Nat) (ht : s.thread? owner = some thread)
    (hf : thread.fds.get? number = some fd) :
    tracked.rel s [.notification (.fd .update fd thread time cpu)] s := by
  intro hk
  refine ⟨hk, fun view hs => ⟨⟨?_, trivial⟩, hs⟩⟩
  show (thread.tid, fd.number) ∈ view
  rw [hk.tid_of_thread? ht, hk.number_of_thread? ht hf, hs.mem_iff ht, Table.mem_iff, hf]
  rfl

theorem tracked_close {s : State} {owner number : Int} {thread : Thread} {fd : Fd} (time : Int)
    (cpu : Option Nat) (ht : s.thread? owner = some thread)
    (hf : thread.fds.get? number = some fd) :
    tracked.rel s [.notification (.fd .close fd thread time cpu)]
      (s.setThread owner { thread with fds := thread.fds.erase number }) := by
  intro hk
  have htid : thread.tid = owner := hk.tid_of_thread? ht
  have hnum : fd.number = number := hk.number_of_thread? ht hf
  refine ⟨hk.setThread htid fun n fd' hget => ?_, fun view hs => ⟨⟨?_, trivial⟩, ?_⟩⟩
  · rw [Table.get?_erase] at hget
    split at hget
    · cases hget
    · exact hk.number_of_thread? ht hget
  · show (thread.tid, fd.number) ∈ view
    rw [htid, hnum, hs.mem_iff ht, Table.mem_iff, hf]
    rfl
  · refine FdView.Shows.setThread (fun n => ?_) fun k n hne => ?_
    · show (owner, n) ∈ view.erase (thread.tid, fd.number) ↔ _
      rw [htid, hnum, Finset.mem_erase, hs.mem_iff ht, Table.mem_iff, Table.mem_iff, Table.get?_erase]
      split
      · rename_i heq
        simp [heq]
      · rename_i hne
        simp [hne]
    · show (k, n) ∈ view.erase (thread.tid, fd.number) ↔ _
      rw [htid, hnum, Finset.mem_erase, ← hs k n]
      simp [hne]

namespace Snapshot

theorem get?_foldl_absorbAt {l : List (Int × Fd)} (hl : Ascending l) (leader : Table Int Fd)
    (number : Int) :
    (l.foldl absorbAt leader).get? number = match Table.lookup number l with
      | some fd => some (((leader.get? number).map (·.absorb fd)).getD fd)
      | none => leader.get? number := by
  induction l generalizing leader with
  | nil => rfl
  | cons p rest ih =>
    obtain ⟨k, fd⟩ := p
    have hhead : ∀ q ∈ rest, compare k q.1 = .lt := (List.pairwise_cons.1 hl).1
    have hrest : Ascending rest := List.Pairwise.of_cons hl
    rw [List.foldl_cons, ih hrest]
    simp only [absorbAt, Table.lookup, Table.compare_eq_iff, Table.get?_insert]
    by_cases hk : number = k
    · have hnone : Table.lookup k rest = none := by
        cases hlook : Table.lookup k rest with
        | none => rfl
        | some fd' => simpa using hhead _ ((Table.lookup_eq_some_iff hrest).1 hlook)
      simp [hk, hnone]
    · simp [hk]

/-- What is under a number after tables were merged: what the thread had there, taken in by what the
leader had, or else what the leader had. -/
theorem get?_mergeFds (leader thread : Table Int Fd) (number : Int) :
    (mergeFds leader thread).get? number = match thread.get? number with
      | some fd => some (((leader.get? number).map (·.absorb fd)).getD fd)
      | none => leader.get? number := by
  rw [mergeFds_eq_foldl]
  exact get?_foldl_absorbAt thread.ascending leader number

theorem mem_mergeFds_iff {leader thread : Table Int Fd} {number : Int} :
    number ∈ mergeFds leader thread ↔ number ∈ leader ∨ number ∈ thread := by
  rw [Table.mem_iff, Table.mem_iff, Table.mem_iff, get?_mergeFds]
  cases thread.get? number <;> simp

theorem number_mergeFds {leader thread : Table Int Fd}
    (hl : ∀ n fd, leader.get? n = some fd → fd.number = n)
    (ht : ∀ n fd, thread.get? n = some fd → fd.number = n) :
    ∀ n fd, (mergeFds leader thread).get? n = some fd → fd.number = n := by
  intro n fd hget
  rw [get?_mergeFds] at hget
  cases hthread : thread.get? n with
  | none =>
    rw [hthread] at hget
    exact hl n fd hget
  | some fd' =>
    rw [hthread] at hget
    cases hleader : leader.get? n with
    | none =>
      rw [hleader] at hget
      rw [← Option.some.inj hget]
      exact ht n fd' hthread
    | some own =>
      rw [hleader] at hget
      rw [← Option.some.inj hget]
      exact hl n own hleader

end Snapshot

theorem tracked_merge {s : State} {tid pid : Int} {t p : Thread} (ht : s.thread? tid = some t)
    (hp : s.thread? pid = some p) (hne : tid ≠ pid) :
    tracked.rel s
      [.notification (.createParent { t with fds := ∅ }
        { p with fds := Snapshot.mergeFds p.fds t.fds })]
      ((s.setThread tid { t with fds := ∅ }).setThread pid
        { p with fds := Snapshot.mergeFds p.fds t.fds }) := by
  intro hk
  have htid : t.tid = tid := hk.tid_of_thread? ht
  have hpid : p.tid = pid := hk.tid_of_thread? hp
  have hk₁ : (s.setThread tid { t with fds := ∅ }).Keyed := hk.setThread htid fun n fd hget => by
    cases hget
  refine ⟨hk₁.setThread hpid ?_, fun view hs => ⟨⟨trivial, trivial⟩, ?_⟩⟩
  · exact Snapshot.number_mergeFds (fun n fd => hk.number_of_thread? hp)
      fun n fd => hk.number_of_thread? ht
  · show FdView.Shows (view.image fun q => if q.1 = t.tid then (p.tid, q.2) else q) _
    rw [htid, hpid]
    -- A pair is in the renamed set if it was there under its own owner or under the thread.
    have hmem : ∀ k n, (k, n) ∈ view.image (fun q => if q.1 = tid then (pid, q.2) else q) ↔
        (k = pid ∧ (tid, n) ∈ view) ∨ (k ≠ tid ∧ (k, n) ∈ view) := by
      intro k n
      rw [Finset.mem_image]
      constructor
      · rintro ⟨⟨k', n'⟩, hin, heq⟩
        dsimp only at heq
        split at heq
        · rename_i hk'
          cases heq
          exact Or.inl ⟨rfl, hk' ▸ hin⟩
        · rename_i hk'
          cases heq
          exact Or.inr ⟨hk', hin⟩
      · intro h
        rcases h with ⟨rfl, hin⟩ | ⟨hk', hin⟩
        · exact ⟨(tid, n), hin, by simp⟩
        · exact ⟨(k, n), hin, by simp [hk']⟩
    refine FdView.Shows.setThread (fun n => ?_) fun k n hkp => ?_
    · rw [hmem, hs.mem_iff ht, hs.mem_iff hp, Snapshot.mem_mergeFds_iff]
      simp [hne.symm, or_comm]
    · rw [hmem, State.thread?_setThread]
      by_cases hkt : k = tid
      · simp [hkt, hne, Table.mem_iff]
      · rw [if_neg hkt, ← hs k n]
        simp [hkt, hkp]

theorem tracked_tableLaw : TableLaw tracked where
  rest h := tracked_of_eq (State.tid_of_atRest_eq h.1) (State.fds_of_atRest_eq h.1) h.2
  create _ time cpu hnone _ := tracked_create time cpu hnone
  alter ht hf hn _ := tracked_alter ht hf hn
  update ht hf := tracked_update _ _ ht hf
  close ht hf := tracked_close _ _ ht hf
  merge ht hp hne := tracked_merge ht hp hne

/-! ## Transfers and forks -/

theorem tracked_countSide (owner tid : Int) (side : Option Int) {onFd : Fd → Fd}
    (onThread : FdType → IoCounts → IoCounts) (hn : ∀ fd, (onFd fd).number = fd.number) (s : State) :
    tracked.rel s [] (IoRequests.countSide owner tid side onFd onThread s) := by
  rcases IoRequests.countSide_cases owner tid side onFd onThread s with
    hs | ⟨number, thread, fd, -, ht, hf, hs⟩
  · rw [hs]
    exact tracked.idle s
  · rw [hs]
    refine tracked.chain_silent (tracked_alter ht hf (hn fd)) (tracked_of_eq ?_ ?_ (by simp))
    · exact State.view_adjustThread_of_eq fun _ => rfl
    · exact State.view_adjustThread_of_eq fun _ => rfl

theorem tracked_counted {limit : Nat} {s s' : State} (h : Counted limit s s') :
    tracked.rel s [] s' := by
  rcases h with rfl | ⟨t, tid, owner, bytes, hret, -, -, rfl⟩
  · exact tracked.idle s'
  · unfold IoRequests.countBytes
    rw [hret]
    refine tracked.chain_silent (tracked_countSide owner tid _ _ ?_ s)
      (tracked_countSide owner tid _ _ ?_ _)
    · exact fun _ => rfl
    · exact fun fd => fd.number_guessed t.guess

namespace FdView

/-- Descriptors that are announced one after the other for an owner who had none of them. -/
theorem heedAll_creates (owner : Thread) (time : Int) (cpu : Option Nat) {l : List (Int × Fd)}
    (hl : Ascending l) (hn : ∀ q ∈ l, q.2.number = q.1) (view : FdView)
    (hnew : ∀ q ∈ l, (owner.tid, q.1) ∉ view) :
    view.ExpectsAll (l.map fun q => .fd .create q.2 owner time cpu) ∧
      ∀ p, p ∈ view.heedAll (l.map fun q => .fd .create q.2 owner time cpu) ↔
        p ∈ view ∨ ∃ q ∈ l, p = (owner.tid, q.1) := by
  induction l generalizing view with
  | nil => simp [ExpectsAll, heedAll]
  | cons q rest ih =>
    have hq : q.2.number = q.1 := hn q List.mem_cons_self
    have hhead : ∀ q' ∈ rest, compare q.1 q'.1 = .lt := (List.pairwise_cons.1 hl).1
    have hheed : view.heed (.fd .create q.2 owner time cpu) = insert (owner.tid, q.1) view := by
      rw [← hq]
      rfl
    have hnew' : ∀ q' ∈ rest, (owner.tid, q'.1) ∉ insert (owner.tid, q.1) view := by
      intro q' hq'
      have hne : q'.1 ≠ q.1 := by
        intro heq
        simpa [heq] using hhead q' hq'
      simpa [hne] using hnew q' (List.mem_cons_of_mem _ hq')
    obtain ⟨hexp, hmem⟩ := ih (List.Pairwise.of_cons hl)
      (fun q' hq' => hn q' (List.mem_cons_of_mem _ hq')) (insert (owner.tid, q.1) view) hnew'
    rw [List.map_cons]
    refine ⟨⟨?_, ?_⟩, fun p => ?_⟩
    · show (owner.tid, q.2.number) ∉ view
      rw [hq]
      exact hnew q List.mem_cons_self
    · rw [hheed]
      exact hexp
    · show p ∈ (view.heed (.fd .create q.2 owner time cpu)).heedAll _ ↔ _
      rw [hheed, hmem, Finset.mem_insert, List.exists_mem_cons_iff]
      rw [or_comm (a := p = _), or_assoc]

end FdView

namespace Run

variable {settings : Settings} {history : List Step} {r : Replay} {e : Event} {p : Replay.Progress}

/-- A subscriber who knows the descriptors before an event expects what it sends and knows the
descriptors after it. -/
theorem view_step (h : Run settings history r) (hp : r.process e = .ok p) (hk : r.state.Keyed)
    {view : FdView} (hs : view.Shows r.state) :
    p.replay.state.Keyed ∧ (view.forget e).ExpectsAll (notificationsOf p.signals) ∧
      ((view.forget e).heedAll (notificationsOf p.signals)).Shows p.replay.state := by
  rcases h.tableStep tracked_tableLaw hp with
    ⟨hf, s₁, s₂, l₁, l₂, h₁, hc, h₂, hl⟩ | ⟨tid, s₁, owner, thread, d, hf, hq, ht, hstate, hl⟩
  · have hlaw : tracked.rel r.state p.signals p.replay.state := by
      rw [hl]
      exact tracked.chain h₁ (tracked.chain_silent (tracked_counted hc) h₂)
    obtain ⟨hk', hview⟩ := hlaw hk
    rw [FdView.forget, hf]
    exact ⟨hk', hview view hs⟩
  · obtain ⟨hk₁, hview₁⟩ := tracked_tableLaw.rest (tablesKept_of_quiet hq) hk
    have hs₁ : view.Shows s₁ := (hview₁ view hs).2
    have htid : thread.tid = tid := by rw [ht]; rfl
    have hnum : ∀ number fd, thread.fds.get? number = some fd → fd.number = number := by
      intro number fd hget
      rw [ht] at hget
      obtain ⟨fd', hget', rfl⟩ := Option.map_eq_some_iff.1 ((Table.get?_map ..).symm.trans hget)
      rw [State.fds_eq_holdings] at hget'
      exact hk₁.numbers owner number fd' hget'
    have hforget : ∀ k n, (k, n) ∈ view.forget e ↔ (k, n) ∈ view ∧ k ≠ tid := by
      intro k n
      rw [FdView.forget, hf]
      exact Finset.mem_filter
    have hsent : notificationsOf p.signals =
        thread.fds.toList.map fun q => .fd .create q.2 thread e.time e.cpu? := by
      rw [hl, notificationsOf_diagnostic, notificationsOf_map]
    obtain ⟨hexp, hmem⟩ := FdView.heedAll_creates thread e.time e.cpu? thread.fds.ascending
      (fun q hq => hnum q.1 q.2 (Table.mem_toList_iff.1 hq)) (view.forget e)
      fun q _ => by rw [hforget, htid]; simp
    rw [hsent, hstate]
    refine ⟨hk₁.setThread htid hnum, hexp, FdView.Shows.setThread (fun n => ?_) fun k n hne => ?_⟩
    · rw [Table.toList, hmem, hforget, htid, ← Table.mem_keys_iff]
      simp [Table.keys]
    · rw [Table.toList, hmem, hforget, htid, ← hs₁ k n]
      simp [hne]

theorem keyed_view (h : Run settings history r) :
    r.state.Keyed ∧ (FdView.after history).Shows r.state := by
  induction h with
  | start =>
    refine ⟨⟨fun tid => congrArg Holdings.tid (Thread.holdings_fresh tid), ?_⟩, ?_⟩
    · intro tid number fd hget
      rw [State.holdings_of_none rfl] at hget
      cases hget
    · intro tid number
      have hnone : (Replay.ofSettings settings).state.thread? tid = none := rfl
      rw [hnone]
      simp [FdView.after]
  | next h hp ih =>
    obtain ⟨hk, hs⟩ := ih
    obtain ⟨hk', -, hs'⟩ := h.view_step hp hk hs
    rw [FdView.after_snoc]
    exact ⟨hk', hs'⟩

/-- Tables and what is told of them never drift apart. A subscriber who follows the notifications of
a run knows after every event exactly the descriptors of the state; each one made was new to it, and
each one that changed or went was known. -/
theorem view_shows (h : Run settings history r) :
    (FdView.after history).Shows r.state ∧ ∀ before step rest, history = before ++ step :: rest →
      ((FdView.after before).forget step.event).ExpectsAll (notificationsOf step.signals) := by
  refine ⟨h.keyed_view.2, ?_⟩
  induction h with
  | start =>
    intro before step rest heq
    simp at heq
  | next h hp ih =>
    intro before step rest heq
    rcases List.eq_nil_or_concat rest with rfl | ⟨rest, last, rfl⟩
    · obtain ⟨rfl, hstep⟩ := List.append_inj' heq rfl
      rw [← (List.cons.inj hstep).1]
      exact (h.view_step hp h.keyed_view.1 h.keyed_view.2).2.1
    · rw [List.concat_eq_append, ← List.cons_append, ← List.append_assoc] at heq
      obtain ⟨hbefore, -⟩ := List.append_inj' heq rfl
      exact ih before step rest hbefore

/-- A descriptor that a thread opened is known as its leader's once the leader is. -/
theorem view_shows_moved : ∃ history r, Run {} history r ∧ (5, 3) ∈ FdView.after history := by
  have hgives : Replay.gives {}
      [.recorded 0 10 "sched_switch" [("prev_tid", .signed 0), ("next_tid", .signed 7)],
       .recorded 0 20 "syscall_entry_open" [("filename", .text "/etc/hosts")],
       .recorded 0 30 "syscall_exit_open" [("ret", .signed 3)],
       .recorded 0 40 "lttng_statedump_process_state" [("tid", .signed 7), ("pid", .signed 5)]]
      (fun p => (p.replay.state.thread? 5).any fun t => t.fds.contains 3) = true := by decide +kernel
  obtain ⟨history, p, h, -, -, htest⟩ := Run.of_gives hgives
  obtain ⟨thread, ht, hf⟩ := (Option.any_eq_true ..).1 htest
  exact ⟨history, p.replay, h, ((view_shows h).1 5 3).2 ⟨thread, ht, hf⟩⟩

end Run

end KernelReplay
