import KernelReplay.Proofs.ByteSplits
import KernelReplay.Proofs.ByteTotals
import KernelReplay.Proofs.ExitSequences
import KernelReplay.Proofs.FacetRuns

/-
  The bytes counted for a thread are those that its requests are told to have moved. A transfer counts
  for a thread only through a descriptor that is in the owner's table, and one that it names is there
  by then, because it was made if it was not (`Descriptors.owns_ensureAll`). So the exit of a syscall
  adds to a counter what the request that it tells of has moved (`Syscalls.counted_exits`); no other
  event counts or tells of a request, and a fork starts again from nothing. A counter that has reached
  the greatest word stays there, so over a run it shows the sum since the last such fork, or the
  greatest word where that is less (`Run.counters_told`).
-/

namespace KernelReplay

open Law Update

/-! ## What is told -/

namespace Transfer

/-- The transfer moves bytes in a direction: it reads or writes a descriptor, or moves bytes between
two, the one on that side being known. -/
def Moves (t : Transfer) : Direction → Prop
  | .read => t.operation = .read ∧ t.fd.isSome ∨ t.operation = .readWrite ∧ t.source.isSome
  | .write => t.operation = .write ∧ t.fd.isSome ∨ t.operation = .readWrite ∧ t.target.isSome

instance (t : Transfer) (d : Direction) : Decidable (t.Moves d) :=
  match d with
  | .read => inferInstanceAs (Decidable (_ ∨ _))
  | .write => inferInstanceAs (Decidable (_ ∨ _))

/-- The descriptor that bytes in a direction go through. -/
def side (t : Transfer) : Direction → Option Int
  | .read => t.readSide
  | .write => t.writeSide

theorem Formed.moves_iff {t : Transfer} (h : t.Formed) (d : Direction) :
    t.Moves d ↔ (t.side d).isSome := by
  rcases h.operation with hop | hop | hop <;> cases d <;>
    simp [Moves, side, readSide, writeSide, hop]

/-- A transfer names the descriptors that it moves bytes through. -/
theorem mem_numbers_of_side {t : Transfer} {d : Direction} {number : Int}
    (h : t.side d = some number) : number ∈ [t.fd, t.source, t.target].filterMap id := by
  suffices t.fd = some number ∨ t.source = some number ∨ t.target = some number by
    simpa [List.mem_filterMap, eq_comm] using this
  cases d <;> cases hop : t.operation <;> simp_all [side, readSide, writeSide]

end Transfer

/-- The bytes that a request has moved in a direction. -/
def IoRequest.moved (rq : IoRequest) (d : Direction) : Nat :=
  match rq.body with
  | .transfer t => if t.Moves d then t.returned.getD 0 else 0
  | _ => 0

/-- The bytes that a notification says a request of a thread has moved. -/
def Notification.moved (tid : Int) (d : Direction) : Notification → Nat
  | .requestExit rq _ _ => if rq.tid = tid then rq.moved d else 0
  | _ => 0

@[simp] theorem Notification.moved_requestExit (tid : Int) (d : Direction) (rq : IoRequest)
    (thread owner : Thread) :
    (requestExit rq thread owner).moved tid d = if rq.tid = tid then rq.moved d else 0 := rfl

/-- The bytes that signals say the requests of a thread have moved. -/
def toldBytes (tid : Int) (d : Direction) (l : List Signal) : Nat :=
  ((notificationsOf l).map (·.moved tid d)).sum

section Told

variable (tid : Int) (d : Direction)

@[simp] theorem toldBytes_nil : toldBytes tid d [] = 0 := rfl

@[simp] theorem toldBytes_append (l m : List Signal) :
    toldBytes tid d (l ++ m) = toldBytes tid d l + toldBytes tid d m := by
  unfold toldBytes
  rw [notificationsOf_append, List.map_append, List.sum_append]

@[simp] theorem toldBytes_cons (n : Notification) (l : List Signal) :
    toldBytes tid d (.notification n :: l) = n.moved tid d + toldBytes tid d l := by
  unfold toldBytes
  rw [notificationsOf_notification, List.map_cons, List.sum_cons]

theorem toldBytes_of_untold {l : List Signal} (h : ∀ n ∈ notificationsOf l, ¬ n.EndsRequest) :
    toldBytes tid d l = 0 := by
  unfold toldBytes
  refine List.sum_eq_zero fun b hb => ?_
  obtain ⟨n, hn, rfl⟩ := List.mem_map.1 hb
  unfold Notification.moved
  split
  · exact (h _ hn trivial).elim
  · rfl

end Told

/-! ## What is counted -/

/-- The bytes counted for a thread in a direction. -/
def State.counted (s : State) (d : Direction) (tid : Int) : Nat :=
  (s.holdings tid).io.amount d .total

namespace IoCounts

theorem total_addRead (c : IoCounts) (type : FdType) (bytes : Nat) (d : Direction) :
    (c.addRead type bytes).amount d .total =
      if d = .read then saturatingAdd (c.amount d .total) bytes else c.amount d .total := by
  cases d <;> cases type <;> rfl

theorem total_addWrite (c : IoCounts) (type : FdType) (bytes : Nat) (d : Direction) :
    (c.addWrite type bytes).amount d .total =
      if d = .write then saturatingAdd (c.amount d .total) bytes else c.amount d .total := by
  cases d <;> cases type <;> rfl

end IoCounts

/-- Every thread has counted the same. -/
def Law.countsKept : Law := keeping fun s tid => (s.holdings tid).io

theorem countsKept_setThread {s : State} {tid : Int} {t : Thread}
    (h : t.io = (s.holdings tid).io) (l : List Signal) : countsKept.rel s l (s.setThread tid t) :=
  funext (State.view_setThread_of_eq (v := Holdings.io) h)

theorem countsKept_tableLaw : TableLaw countsKept where
  rest h := funext fun k => State.io_of_atRest_eq h.1 k
  create {s owner} fd time cpu _ _ := by
    have hio : (Descriptors.withFd s owner fd).io = (s.holdings owner).io := rfl
    exact countsKept_setThread hio _
  alter ht _ _ _ := countsKept_setThread (by rw [State.holdings_of_thread? ht]; rfl) _
  update _ _ := rfl
  close ht _ := countsKept_setThread (by rw [State.holdings_of_thread? ht]; rfl) _
  merge {s tid pid t p} ht hp hne := by
    have hp₁ : (s.setThread tid { t with fds := ∅ }).thread? pid = some p := by
      rw [State.thread?_setThread, if_neg hne.symm, hp]
    refine countsKept.chain_silent (countsKept_setThread ?_ []) (countsKept_setThread ?_ _)
    · rw [State.holdings_of_thread? ht]
      rfl
    · rw [State.holdings_of_thread? hp₁]
      rfl

theorem State.counted_of_countsKept {s s' : State} {l : List Signal} (h : countsKept.rel s l s')
    (d : Direction) (tid : Int) : s'.counted d tid = s.counted d tid := by
  have hio : (s'.holdings tid).io = (s.holdings tid).io := congrFun h tid
  unfold counted
  rw [hio]

/-! ## Tables that hold what a transfer names -/

/-- A descriptor is in a thread's own table. -/
def State.Owns (s : State) (owner number : Int) : Prop := (s.ownFd? owner number).isSome

theorem State.owns_iff {s : State} {owner number : Int} :
    s.Owns owner number ↔ ((s.holdings owner).fds.get? number).isSome := by
  rw [Owns, ownFd?, fds_eq_holdings]

namespace Descriptors

variable {owner time : Int} {cpu : Option Nat} {s : State} {o : Outcome Unit}

/-- A descriptor that is ensured is in the table, and no other one goes. -/
theorem owns_ensure {fd : Fd} (h : ensure owner fd time cpu s = .ok o) :
    o.state.Owns owner fd.number ∧ ∀ k n, s.Owns k n → o.state.Owns k n := by
  cases hf : s.ownFd? owner fd.number with
  | some own =>
    rw [ensure_run_of_some (by simp [hf])] at h
    cases h
    exact ⟨by simp [State.Owns, hf], fun _ _ => id⟩
  | none =>
    rw [ensure_run_of_none hf] at h
    cases h
    have htable : ∀ k, ((s.setThread owner (withFd s owner fd)).holdings k).fds =
        if k = owner then (s.holdings owner).fds.insert fd.number fd else (s.holdings k).fds := by
      intro k
      rw [State.holdings_setThread]
      split <;> rfl
    simp only [State.owns_iff, htable]
    refine ⟨by simp, fun k n hown => ?_⟩
    by_cases hk : k = owner <;> by_cases hn : n = fd.number <;> simp_all [Table.get?_insert]

theorem owns_ensureAll (fdOf : Int → Fd) (hnumber : ∀ n, (fdOf n).number = n) {numbers : List Int}
    (h : forEach numbers (fun n => ensure owner (fdOf n) time cpu) s = .ok o) :
    (∀ n ∈ numbers, o.state.Owns owner n) ∧ ∀ k n, s.Owns k n → o.state.Owns k n := by
  induction numbers generalizing s o with
  | nil =>
    cases h
    exact ⟨by simp, fun _ _ => id⟩
  | cons number rest ih =>
    obtain ⟨o₁, o₂, h₁, h₂, rfl⟩ := bind_eq_ok_iff.1 h
    obtain ⟨hmade, hkept⟩ := owns_ensure h₁
    obtain ⟨hrest, hkept'⟩ := ih h₂
    rw [hnumber] at hmade
    refine ⟨fun n hn => ?_, fun k n hown => hkept' k n (hkept k n hown)⟩
    rcases List.mem_cons.1 hn with rfl | hn
    · exact hkept' owner n hmade
    · exact hrest n hn

end Descriptors

/-! ## Transfers -/

namespace IoRequests

variable {s : State} {owner tid : Int}

section Side

variable (side : Option Int) (onFd : Fd → Fd) (onThread : FdType → IoCounts → IoCounts)

/-- One side of a transfer counts for its thread if its descriptor is in the table. -/
theorem io_countSide (hown : ∀ number, side = some number → s.Owns owner number)
    (hknown : s.Knows tid) : ∃ type, ∀ k,
      ((countSide owner tid side onFd onThread s).holdings k).io =
        if k = tid ∧ side.isSome then onThread type (s.holdings k).io else (s.holdings k).io := by
  cases side with
  | none => exact ⟨.unknown, fun k => by simp [countSide]⟩
  | some number =>
    obtain ⟨fd, hfd⟩ := Option.isSome_iff_exists.1 (hown number rfl)
    have hcount : countSide owner tid (some number) onFd onThread s =
        (s.adjustFd owner number onFd).adjustThread tid fun t =>
          { t with io := onThread (onFd fd).type t.io } := by
      unfold countSide
      rw [Option.bind_some, hfd]
    have hkept : ∀ k, ((s.adjustFd owner number onFd).holdings k).io = (s.holdings k).io :=
      State.view_adjustThread_of_eq (v := Holdings.io) fun _ => rfl
    obtain ⟨t, ht⟩ := hknown.adjustThread owner
      fun t => { t with fds := t.fds.adjust number onFd }
    have ht : (s.adjustFd owner number onFd).thread? tid = some t := ht
    have hio : t.io = (s.holdings tid).io := by
      rw [← hkept tid, State.holdings_of_thread? ht]
      rfl
    refine ⟨(onFd fd).type, fun k => ?_⟩
    rw [hcount, State.adjustThread_eq_setThread ht, State.holdings_setThread]
    by_cases hk : k = tid
    · rw [if_pos hk, if_pos ⟨hk, rfl⟩, hk, ← hio]
      rfl
    · rw [if_neg hk, if_neg fun h => hk h.1]
      exact hkept k

/-- Counting takes no descriptor out of a table. -/
theorem owns_countSide {k n : Int} (h : s.Owns k n) :
    (countSide owner tid side onFd onThread s).Owns k n := by
  unfold countSide
  split
  · rename_i fd number _
    have hadjusted : (s.adjustFd owner number onFd).Owns k n := by
      unfold State.Owns at h ⊢
      rw [State.ownFd?_adjustFd]
      split
      · rwa [Option.isSome_map]
      · exact h
    have hkept (t : Thread) :
        ({ t with io := onThread (onFd fd).type t.io } : Thread).holdings.fds = t.holdings.fds := rfl
    rw [State.owns_iff] at hadjusted ⊢
    rwa [State.view_adjustThread_of_eq (v := Holdings.fds) hkept]
  · exact h

end Side

/-- A transfer whose descriptors are in the table counts what it has moved for its thread. -/
theorem counted_countBytes {t : Transfer} (hformed : t.Formed)
    (hown : ∀ number ∈ [t.fd, t.source, t.target].filterMap id, s.Owns owner number)
    (hknown : s.Knows tid) {d : Direction} {k : Int} (hmax : s.counted d k ≤ maxWord) :
    (countBytes t tid owner s).counted d k = saturatingAdd (s.counted d k)
      (if tid = k then if t.Moves d then t.returned.getD 0 else 0 else 0) := by
  unfold countBytes
  cases hret : t.returned with
  | none => simp [saturatingAdd_zero hmax]
  | some bytes =>
    dsimp only
    have hside : ∀ side number, t.side side = some number → s.Owns owner number :=
      fun side number h => hown number (Transfer.mem_numbers_of_side h)
    obtain ⟨read, hread⟩ := io_countSide t.readSide (·.countRead bytes)
      (fun type io => io.addRead type bytes) (hside .read) hknown
    obtain ⟨write, hwrite⟩ := io_countSide t.writeSide
      (fun fd => (fd.guessed t.guess).countWrite bytes) (fun type io => io.addWrite type bytes)
      (fun number h => owns_countSide t.readSide (·.countRead bytes)
        (fun type io => io.addRead type bytes) (hside .write number h))
      (known_countSide owner tid t.readSide (·.countRead bytes)
        (fun type io => io.addRead type bytes) hknown)
    have hmoves := hformed.moves_iff d
    unfold State.counted at hmax ⊢
    rw [hwrite, hread, Option.getD_some]
    by_cases hk : tid = k
    · subst hk
      -- Only the side of the direction counts in it.
      cases d <;> by_cases hr : t.readSide.isSome = true <;>
        by_cases hw : t.writeSide.isSome = true <;>
        simp_all [IoCounts.total_addRead, IoCounts.total_addWrite, saturatingAdd_zero, Transfer.side]
    · rw [if_neg fun h => hk h.1.symm, if_neg fun h => hk h.1.symm, if_neg hk]
      exact (saturatingAdd_zero hmax).symm

end IoRequests

/-! ## Requests -/

/-- A request that failed has moved nothing. -/
theorem IoRequest.moved_of_failed {rq finished : IoRequest} {tid time : Int} {call : Call}
    {ret : Option Int} (hp : rq.Pending tid call) (hf : rq.finish time ret = .ok finished)
    (hfailed : ¬ finished.succeeded ret = true) (d : Direction) : finished.moved d = 0 := by
  obtain ⟨kind, -, hbody⟩ := hp.body
  have hunmoved : finished.body = rq.body → finished.moved d = 0 := by
    intro hsame
    unfold moved
    split
    · rename_i t ht
      rw [← hsame, ht] at hbody
      rw [hbody.returned]
      exact ite_self 0
    · rfl
  obtain ⟨errno, body, hfinished, hresult⟩ := finish_cases hf
  rcases hresult with ⟨-, -, hsame⟩ | ⟨n, hret, ⟨-, -, hsame⟩ | ⟨hpos, -, -⟩⟩
  · exact hunmoved (by rw [hfinished]; exact hsame)
  · exact hunmoved (by rw [hfinished]; exact hsame)
  · exact (hfailed (succeeded_iff.2 ⟨n, hret, Or.inl hpos⟩)).elim

namespace IoRequests

variable {e : Event} {cpu : Nat} {tid owner : Int} {s : State} {o : Outcome Unit} {d : Direction}
  {k : Int}

/-- The effect of a finished request on the table counts what the request has moved. -/
theorem counted_settle {request : IoRequest} (hformed : ∀ t, request.body = .transfer t → t.Formed)
    (hfailed : ¬ request.succeeded (e.int? "ret") = true → request.moved d = 0)
    (hknown : s.Knows tid) (hmax : s.counted d k ≤ maxWord)
    (h : settle request e tid owner cpu s = .ok o) :
    o.state.counted d k =
      saturatingAdd (s.counted d k) (if tid = k then request.moved d else 0) := by
  unfold settle at h
  split at h
  · rcases countsKept_tableLaw.applyBody h with
      ⟨hother, hkept⟩ | ⟨t, s₁, hb, hmade, hkept, hcounted⟩
    · have hmoved : request.moved d = 0 := by
        unfold IoRequest.moved
        split
        · rename_i t ht
          exact (hother t ht).elim
        · rfl
      rw [State.counted_of_countsKept hkept, hmoved, ite_self, saturatingAdd_zero hmax]
    · have hknown₁ : s₁.Knows tid := obeys_forEach (fun number =>
        Descriptors.known_ensure tid owner { number } e.time (some cpu)) s _ hmade hknown
      obtain ⟨hown, -⟩ := Descriptors.owns_ensureAll (fun number => { number }) (fun _ => rfl) hmade
      rw [← State.counted_of_countsKept hkept] at hmax ⊢
      rw [hcounted, counted_countBytes (hformed t hb) hown hknown₁ hmax]
      unfold IoRequest.moved
      rw [hb]
  · rename_i hnot
    cases h
    rw [hfailed hnot, ite_self, saturatingAdd_zero hmax]

/-- Finishing a request counts what it tells the request to have moved. -/
theorem counted_finish {rq : IoRequest} {call : Call} (hp : rq.Pending tid call)
    (hknown : s.Knows tid) (hmax : s.counted d k ≤ maxWord)
    (h : finish e cpu tid rq s = .ok o) :
    o.state.counted d k = saturatingAdd (s.counted d k) (toldBytes k d o.signals) := by
  obtain ⟨finished, o₁, o₂, thread, leader, hf, hsettle, -, -, hclose, hstate, hsignals⟩ :=
    finish_parts hknown h
  have htid : finished.tid = tid := by
    obtain ⟨errno, body, hfinished, -⟩ := IoRequest.finish_cases hf
    rw [hfinished]
    exact hp.tid
  have hbefore : toldBytes k d o₁.signals = 0 :=
    toldBytes_of_untold k d ((aside_settle finished e tid (s.fdOwner tid) cpu).obeys s o₁ hsettle).2
  have hclosed : aside.rel o₁.state o₂.signals o₂.state :=
    obeys_whenSome (fun number =>
      (Descriptors.aside_close (s.fdOwner tid) number e.time (some cpu)).obeys) o₁.state o₂ hclose
  have hafter : toldBytes k d o₂.signals = 0 := toldBytes_of_untold k d hclosed.2
  have hkept : countsKept.rel o₁.state o₂.signals o₂.state :=
    obeys_whenSome (fun number =>
      countsKept_tableLaw.closeFd (s.fdOwner tid) number e.time (some cpu)) o₁.state o₂ hclose
  have hcounted := counted_settle (d := d) (k := k)
    (fun t hb => IoRequest.formed_of_finish hp hf hb)
    (fun hfailed => IoRequest.moved_of_failed hp hf hfailed d) hknown hmax hsettle
  rw [hstate, State.counted_of_countsKept hkept, hcounted, hsignals, toldBytes_append,
    toldBytes_cons, Notification.moved_requestExit, htid, hbefore, hafter, Nat.zero_add, Nat.add_zero]

end IoRequests

/-- The exit of a syscall counts what it tells the syscall's request to have moved. -/
theorem Syscalls.counted_exits {e : Event} {s : State} {o : Outcome Unit} {d : Direction} {k : Int}
    (hs : s.CallsSound) (hmax : s.counted d k ≤ maxWord)
    (h : (Syscalls.exit e >>= fun _ => IoRequests.exit e) s = .ok o) :
    o.state.counted d k = saturatingAdd (s.counted d k) (toldBytes k d o.signals) := by
  rcases Syscalls.exit_cases h with ⟨-, hstate, htold⟩ |
    ⟨cpu, tid, thread, call, ended, o', -, -, ht, hcall, -, hrest, hstate, hsignals⟩
  · have hnone : toldBytes k d o.signals = 0 := by
      unfold toldBytes
      rw [htold]
      rfl
    rw [hstate, hnone, saturatingAdd_zero hmax]
  have hin : s.call? tid = some call := by
    rw [State.call?, ht]
    exact hcall
  have hleft : countsKept.rel s [] (s.setThread tid { thread with call := none }) :=
    countsKept_tableLaw.rest (Syscalls.tablesKept_setCall ht none)
  have hknown : (s.setThread tid { thread with call := none }).Knows tid :=
    ⟨_, by rw [State.thread?_setThread, if_pos rfl]⟩
  have hexit : ∀ (t : Thread) (c : Call) (l : List Signal),
      toldBytes k d (.notification (.syscallExit t c cpu) :: l) = toldBytes k d l := by
    intro t c l
    rw [toldBytes_cons]
    exact Nat.zero_add _
  rw [hstate, hsignals, hexit, ← State.counted_of_countsKept hleft]
  rw [← State.counted_of_countsKept hleft] at hmax
  have hidle : (pure () : Update Unit) (s.setThread tid { thread with call := none }) = .ok o' →
      o'.state.counted d k = saturatingAdd
        ((s.setThread tid { thread with call := none }).counted d k) (toldBytes k d o'.signals) := by
    intro hpure
    cases hpure
    exact (saturatingAdd_zero hmax).symm
  split at hrest
  · cases hrq : call.request with
    | none =>
      rw [hrq] at hrest
      exact hidle hrest
    | some rq =>
      rw [hrq] at hrest
      exact IoRequests.counted_finish ((hs.pending tid call hin).request rq hrq) hknown hmax hrest
  · exact hidle hrest

/-! ## Runs -/

/-- The steps since a fork last made a thread. -/
def stepsSinceFork (tid : Int) (history : List Step) : List Step :=
  history.rtakeWhile fun step => step.event.forked? ≠ some tid

namespace Run

variable {settings : Settings} {history : List Step} {r : Replay} {e : Event} {p : Replay.Progress}

theorem counted_le (h : Run settings history r) (d : Direction) (tid : Int) :
    r.state.counted d tid ≤ maxWord := by
  obtain ⟨hread, hwrite⟩ := h.bytesSplit.threads tid
  cases d with
  | read => exact Nat.le_trans (Nat.le_of_eq hread) (Nat.min_le_left _ _)
  | write => exact Nat.le_trans (Nat.le_of_eq hwrite) (Nat.min_le_left _ _)

/-- Every event counts what it tells, except that a thread which is made by a fork has counted
nothing. -/
theorem counted_step (h : Run settings history r) (hp : r.process e = .ok p) (d : Direction)
    (tid : Int) : p.replay.state.counted d tid =
      if e.forked? = some tid then 0
      else saturatingAdd (r.state.counted d tid) (toldBytes tid d p.signals) := by
  have hmax := h.counted_le d tid
  by_cases hexit : e.kind? = some .syscallExit
  · obtain ⟨o, ho, hs, hl⟩ := h.exit_run hp hexit
    rw [if_neg (by simp [Event.forked?_eq_none (e := e) (by simp [hexit])]), hs, hl]
    exact Syscalls.counted_exits h.callsSound hmax ho
  · have htold : toldBytes tid d p.signals = 0 :=
      toldBytes_of_untold tid d ((h.facetStep hp).unfinished hexit)
    rcases h.tableStep_of_ne_exit countsKept_tableLaw hp hexit with
      ⟨hfork, hkept⟩ | ⟨child, s₁, owner, thread, report, hfork, hquiet, hthread, hstate, -⟩
    · rw [if_neg (by simp [hfork]), htold, saturatingAdd_zero hmax]
      exact State.counted_of_countsKept hkept d tid
    · have hh : s₁.holdings = r.state.holdings := hquiet.2.1
      unfold State.counted at hmax ⊢
      rw [hstate, State.holdings_setThread, hfork, htold, hh]
      by_cases htid : tid = child
      · rw [if_pos htid, if_pos (by rw [htid]), hthread]
        exact IoCounts.amount_empty d .total
      · rw [if_neg htid, if_neg fun heq => htid (Option.some.inj heq).symm, saturatingAdd_zero hmax]

/-- What a thread has counted is what it is told to have moved since it was made, as far as a counter
reaches. -/
theorem counted_eq (h : Run settings history r) (d : Direction) (tid : Int) :
    r.state.counted d tid =
      min maxWord (toldBytes tid d ((stepsSinceFork tid history).flatMap (·.signals))) := by
  induction h with
  | start =>
    have hblank : (Replay.ofSettings settings).state.holdings tid = .blank tid :=
      State.holdings_of_none rfl
    unfold State.counted
    rw [hblank]
    exact IoCounts.amount_empty d .total
  | @next history r e p h hp ih =>
    rw [h.counted_step hp]
    unfold stepsSinceFork at ih ⊢
    by_cases hfork : e.forked? = some tid
    · rw [if_pos hfork, List.rtakeWhile_concat_neg _ _ _ (by simp [hfork]), List.flatMap_nil,
        toldBytes_nil, Nat.min_zero]
    · rw [if_neg hfork, List.rtakeWhile_concat_pos _ _ _ (by simpa using hfork), ih,
        List.flatMap_append, List.flatMap_singleton, toldBytes_append]
      unfold saturatingAdd
      dsimp only
      omega

/-- What a thread has read and written in all is what its finished requests are told to have moved since
it was made, as far as a counter reaches. -/
theorem counters_told (h : Run settings history r) {tid : Int} {thread : Thread}
    (ht : r.state.thread? tid = some thread) :
    thread.io.read.total =
        min maxWord (toldBytes tid .read ((stepsSinceFork tid history).flatMap (·.signals))) ∧
      thread.io.write.total =
        min maxWord (toldBytes tid .write ((stepsSinceFork tid history).flatMap (·.signals))) := by
  have hcounted : ∀ d, r.state.counted d tid = thread.io.amount d .total := by
    intro d
    rw [State.counted, State.holdings_of_thread? ht]
    rfl
  exact ⟨(hcounted .read).symm.trans (h.counted_eq .read tid),
    (hcounted .write).symm.trans (h.counted_eq .write tid)⟩

/-- A thread reads and is made anew; then it moves bytes between two descriptors, and writes to one of
them without success. -/
def remadeSplicer : List Event :=
  [.recorded 0 10 "sched_switch" [("prev_tid", .signed 0), ("next_tid", .signed 7)],
   .recorded 0 20 "syscall_entry_read" [("fd", .signed 3)],
   .recorded 0 30 "syscall_exit_read" [("ret", .signed 100)],
   .recorded 1 40 "sched_process_fork" [("parent_tid", .signed 1), ("child_tid", .signed 7)],
   .recorded 0 50 "syscall_entry_splice"
     [("fd_in", .signed 3), ("fd_out", .signed 4), ("len", .unsigned 64)],
   .recorded 0 60 "syscall_exit_splice" [("ret", .signed 64)],
   .recorded 0 70 "syscall_entry_write" [("fd", .signed 4), ("count", .unsigned 8)],
   .recorded 0 80 "syscall_exit_write" [("ret", .signed (-11))]]

theorem counters_told_remadeSplicer : ∃ history r thread, Run {} history r ∧
    r.state.thread? 7 = some thread ∧ thread.io.read.total = 64 ∧ thread.io.write.total = 64 ∧
    toldBytes 7 .read (history.flatMap (·.signals)) = 164 ∧
    toldBytes 7 .read ((stepsSinceFork 7 history).flatMap (·.signals)) = 64 ∧
    toldBytes 7 .write ((stepsSinceFork 7 history).flatMap (·.signals)) = 64 := by
  have hgives : Replay.gives {} remadeSplicer (fun q =>
      (q.replay.state.thread? 7).any (fun t => t.io.read.total = 64 ∧ t.io.write.total = 64) ∧
        toldBytes 7 .read q.signals = 164) = true := by decide +kernel
  obtain ⟨history, q, h, -, hsignals, htest⟩ := Run.of_gives hgives
  obtain ⟨hcounts, hall⟩ := of_decide_eq_true htest
  obtain ⟨thread, ht, hcounts⟩ := (Option.any_eq_true ..).1 hcounts
  obtain ⟨hread, hwrite⟩ := of_decide_eq_true hcounts
  obtain ⟨hreads, hwrites⟩ := counters_told h ht
  refine ⟨history, q.replay, thread, h, ht, hread, hwrite, by rw [hsignals, hall], ?_, ?_⟩
  · rw [hread] at hreads
    unfold maxWord at hreads
    omega
  · rw [hwrite] at hwrites
    unfold maxWord at hwrites
    omega

end Run

end KernelReplay
