import Mathlib.Data.List.Induction
import KernelReplay.Proofs.RequestWays

/-
  The ledger of a run lists the block requests that its events issue and those that its signals tell
  to be completed, in order. The place of a request is its sector on the device that it goes back to,
  which the events before it tell (`originDev`). The last entry at a place says what waits there, so no
  request is lost and none is told of twice: each one that was issued still waits, or was replaced by
  the next one issued at its place, or was told to be completed once (`Run.blocks_accounted`). The
  orphans listed at the end of a replay are those that wait.
-/

namespace KernelReplay

/-! ## Ledgers -/

/-- An entry of a ledger: a request that an event issues, or that an event is told to complete after
those of the past. -/
inductive BlockEntry
  | issued (e : Event) (request : BlockRequest)
  | completed (past : List Event) (e : Event) (request : BlockRequest)
  deriving DecidableEq

namespace BlockEntry

/-- The place of an entry's request. -/
def place : BlockEntry → Location
  | issued _ rq | completed _ _ rq => rq.place

@[simp] theorem place_issued (e : Event) (rq : BlockRequest) : (issued e rq).place = rq.place := rfl

@[simp] theorem place_completed (past : List Event) (e : Event) (rq : BlockRequest) :
    (completed past e rq).place = rq.place := rfl

/-- The request that waits after an entry. -/
def waiting? : BlockEntry → Option BlockRequest
  | issued _ rq => some rq
  | completed .. => none

end BlockEntry

/-- What a step adds to the ledger of the past. -/
def Step.blockEntries (step : Step) (past : List Event) : List BlockEntry :=
  (step.event.issue? (originDev past)).toList.map (.issued step.event) ++
    (blockExits step.signals).map (.completed past step.event)

/-- The ledger of steps after those of the past. -/
def ledgerFrom (past : List Event) : List Step → List BlockEntry
  | [] => []
  | step :: rest => step.blockEntries past ++ ledgerFrom (past ++ [step.event]) rest

/-- The ledger of a run. -/
def blockLedger (history : List Step) : List BlockEntry := ledgerFrom [] history

theorem ledgerFrom_snoc (past : List Event) (steps : List Step) (step : Step) :
    ledgerFrom past (steps ++ [step]) =
      ledgerFrom past steps ++ step.blockEntries (past ++ steps.map (·.event)) := by
  induction steps generalizing past with
  | nil => simp [ledgerFrom]
  | cons first rest ih => simp [ledgerFrom, ih]

theorem blockLedger_snoc (history : List Step) (step : Step) :
    blockLedger (history ++ [step]) =
      blockLedger history ++ step.blockEntries (history.map (·.event)) :=
  ledgerFrom_snoc [] history step

/-- The request that waits at a place: that of the last entry there, unless it is completed. -/
def openAt (ledger : List BlockEntry) (place : Location) : Option BlockRequest :=
  (ledger.filter fun entry => entry.place = place).getLast?.bind BlockEntry.waiting?

theorem openAt_snoc (ledger : List BlockEntry) (entry : BlockEntry) (place : Location) :
    openAt (ledger ++ [entry]) place =
      if entry.place = place then entry.waiting? else openAt ledger place := by
  unfold openAt
  rw [List.filter_append]
  by_cases h : entry.place = place <;> simp [h]

theorem openAt_issued (ledger : List BlockEntry) (e : Event) (rq : BlockRequest) :
    openAt (ledger ++ [.issued e rq]) rq.place = some rq := by
  rw [openAt_snoc]
  exact if_pos rfl

theorem openAt_completed (ledger : List BlockEntry) (past : List Event) (e : Event)
    (rq : BlockRequest) : openAt (ledger ++ [.completed past e rq]) rq.place = none := by
  rw [openAt_snoc]
  exact if_pos rfl

theorem openAt_append_of_ne {ledger later : List BlockEntry} {place : Location}
    (h : ∀ entry ∈ later, entry.place ≠ place) :
    openAt (ledger ++ later) place = openAt ledger place := by
  have hnone : (later.filter fun entry => entry.place = place) = [] := by simpa using h
  unfold openAt
  rw [List.filter_append, hnone, List.append_nil]

/-- A request waits at its own place. -/
theorem place_of_openAt {ledger : List BlockEntry} {place : Location} {rq : BlockRequest}
    (h : openAt ledger place = some rq) : rq.place = place := by
  obtain ⟨entry, hlast, hrq⟩ := Option.bind_eq_some_iff.1 h
  have hplace := (List.mem_filter.1 (List.mem_of_getLast? hlast)).2
  cases entry with
  | issued e rq' =>
    cases hrq
    exact of_decide_eq_true hplace
  | completed past e rq' => cases hrq

/-- What is told of a request that an event completes after those of the past. -/
structure BlockRequest.Ends (completed rq : BlockRequest) (past : List Event) (e : Event) :
    Prop where
  /-- The completion is at the place of the request and gives its size. -/
  answers : e.completion? (originDev past) = some (rq.place, rq.sectors)
  request : completed =
    { rq with ended := some e.time, duration := some (e.time - rq.begun) }

theorem BlockRequest.Ends.place {completed rq : BlockRequest} {past : List Event} {e : Event}
    (h : completed.Ends rq past e) : completed.place = rq.place := by
  rw [h.request]
  rfl

/-- Every completion in the ledger ends the request that waits at its place. -/
def Answered (ledger : List BlockEntry) : Prop :=
  ∀ before past e completed after, ledger = before ++ .completed past e completed :: after →
    ∃ rq, openAt before completed.place = some rq ∧ completed.Ends rq past e

theorem answered_nil : Answered [] := by
  intro before past e completed after h
  simp at h

theorem answered_snoc {ledger : List BlockEntry} {entry : BlockEntry} (h : Answered ledger)
    (hentry : ∀ past e completed, entry = .completed past e completed →
      ∃ rq, openAt ledger completed.place = some rq ∧ completed.Ends rq past e) :
    Answered (ledger ++ [entry]) := by
  intro before past e completed after heq
  rcases split_snoc heq with ⟨rfl, hlast, -⟩ | ⟨after, hledger, -⟩
  · exact hentry past e completed hlast
  · exact h before past e completed after hledger

/-! ## What becomes of a request -/

/-- The completions told of the request last issued at a place: those before the next issue. -/
def publications (place : Location) : List BlockEntry → List (List Event × Event × BlockRequest)
  | [] => []
  | entry :: later =>
    if entry.place = place then
      match entry with
      | .issued .. => []
      | .completed past e rq => (past, e, rq) :: publications place later
    else
      publications place later

theorem publications_cons_of_ne {entry : BlockEntry} {place : Location} (h : entry.place ≠ place)
    (later : List BlockEntry) :
    publications place (entry :: later) = publications place later :=
  if_neg h

theorem publications_append_of_ne {mid : List BlockEntry} {place : Location}
    (h : ∀ entry ∈ mid, entry.place ≠ place) (later : List BlockEntry) :
    publications place (mid ++ later) = publications place later := by
  induction mid with
  | nil => rfl
  | cons entry mid ih =>
    rw [List.forall_mem_cons] at h
    rw [List.cons_append, publications_cons_of_ne h.1, ih h.2]

theorem publications_issued {rq : BlockRequest} {place : Location} (h : rq.place = place)
    (e : Event) (later : List BlockEntry) : publications place (.issued e rq :: later) = [] :=
  if_pos h

theorem publications_completed {rq : BlockRequest} {place : Location} (h : rq.place = place)
    (past : List Event) (e : Event) (later : List BlockEntry) :
    publications place (.completed past e rq :: later) =
      (past, e, rq) :: publications place later :=
  if_pos h

namespace BlockRequest

/-- The request waits at its place, and none was issued there since. -/
def IsPending (rq : BlockRequest) (s : State) (later : List BlockEntry) : Prop :=
  s.pendingAt rq.place = some rq ∧ ∀ e rq', .issued e rq' ∈ later → rq'.place ≠ rq.place

/-- The next entry at the place of the request issues another one. -/
def IsReplaced (rq : BlockRequest) (later : List BlockEntry) : Prop :=
  ∃ mid e rq' rest, later = mid ++ .issued e rq' :: rest ∧ rq'.place = rq.place ∧
    ∀ entry ∈ mid, entry.place ≠ rq.place

/-- Exactly one completion of the request is told. -/
def IsPublished (rq : BlockRequest) (later : List BlockEntry) : Prop :=
  ∃ past e completed, publications rq.place later = [(past, e, completed)] ∧
    completed.Ends rq past e

end BlockRequest

/-- The entries up to the next one at a place, if there is one. -/
theorem next_entry (place : Location) (later : List BlockEntry) :
    (∀ entry ∈ later, entry.place ≠ place) ∨
    ∃ mid entry rest, later = mid ++ entry :: rest ∧ entry.place = place ∧
      ∀ x ∈ mid, x.place ≠ place := by
  cases h : later.find? fun entry => entry.place = place with
  | none =>
    refine Or.inl fun entry hentry => ?_
    simpa using List.find?_eq_none.1 h entry hentry
  | some entry =>
    obtain ⟨hplace, mid, rest, hlater, hmid⟩ := List.find?_eq_some_iff_append.1 h
    refine Or.inr ⟨mid, entry, rest, hlater, by simpa using hplace, fun x hx => ?_⟩
    simpa using hmid x hx

/-- Nothing more is told at a place where nothing waits. -/
theorem publications_of_closed {before later : List BlockEntry} {place : Location}
    (h : Answered (before ++ later)) (hclosed : openAt before place = none) :
    publications place later = [] := by
  rcases next_entry place later with hnone | ⟨mid, entry, rest, rfl, hplace, hmid⟩
  · have hsilent := publications_append_of_ne hnone []
    rwa [List.append_nil] at hsilent
  · rw [publications_append_of_ne hmid]
    cases entry with
    | issued e rq => exact publications_issued hplace e rest
    | completed past e rq =>
      obtain ⟨rq', hopen, -⟩ := h (before ++ mid) past e rq rest (by simp)
      rw [BlockEntry.place_completed] at hplace
      rw [hplace, openAt_append_of_ne hmid, hclosed] at hopen
      cases hopen

/-- Without an issue, nothing comes to wait at a place. -/
theorem openAt_append_of_closed {ledger later : List BlockEntry} {place : Location}
    (hclosed : openAt ledger place = none) (h : ∀ e rq, .issued e rq ∈ later → rq.place ≠ place) :
    openAt (ledger ++ later) place = none := by
  induction later generalizing ledger with
  | nil => rwa [List.append_nil]
  | cons entry later ih =>
    rw [← List.singleton_append, ← List.append_assoc]
    refine ih ?_ fun e rq hmem => h e rq (List.mem_cons_of_mem _ hmem)
    rw [openAt_snoc]
    split
    · rename_i hplace
      cases entry with
      | issued e rq => exact (h e rq List.mem_cons_self hplace).elim
      | completed past e rq => rfl
    · exact hclosed

/-- Exactly one of three things is the case. -/
def OneOf (a b c : Prop) : Prop := (a ∧ ¬b ∧ ¬c) ∨ (¬a ∧ b ∧ ¬c) ∨ (¬a ∧ ¬b ∧ c)

namespace BlockRequest

variable {rq : BlockRequest} {s : State}

theorem IsReplaced.untold {later : List BlockEntry} (h : rq.IsReplaced later) :
    publications rq.place later = [] := by
  obtain ⟨mid, e, rq', rest, rfl, hplace, hmid⟩ := h
  rw [publications_append_of_ne hmid, publications_issued hplace]

/-- Nothing more happens at the place of a request. -/
theorem oneOf_of_untouched {later : List BlockEntry} (hwaits : s.pendingAt rq.place = some rq)
    (hnone : ∀ entry ∈ later, entry.place ≠ rq.place) :
    OneOf (rq.IsPending s later) (rq.IsReplaced later) (rq.IsPublished later) := by
  refine Or.inl ⟨⟨hwaits, fun e rq' hmem => hnone _ hmem⟩, ?_, ?_⟩
  · rintro ⟨mid, e, rq', rest, rfl, hplace, -⟩
    exact hnone (.issued e rq') (by simp) hplace
  · rintro ⟨past, e, completed, hpub, -⟩
    have hsilent := publications_append_of_ne hnone []
    rw [List.append_nil, hpub] at hsilent
    cases hsilent

/-- The next thing that happens at the place of a request is another issue. -/
theorem oneOf_of_replaced {later : List BlockEntry} (h : rq.IsReplaced later) :
    OneOf (rq.IsPending s later) (rq.IsReplaced later) (rq.IsPublished later) := by
  refine Or.inr (Or.inl ⟨fun hpending => ?_, h, fun hpublished => ?_⟩)
  · obtain ⟨mid, e, rq', rest, rfl, hplace, -⟩ := h
    exact hpending.2 e rq' (by simp) hplace
  · obtain ⟨past, e, completed, hpub, -⟩ := hpublished
    rw [h.untold] at hpub
    cases hpub

/-- The next thing that happens at the place of a request is its completion, and nothing waits there
or is told of from then on, unless another request is issued. -/
theorem oneOf_of_completed {mid rest : List BlockEntry} {past : List Event} {e : Event}
    {completed : BlockRequest} (hends : completed.Ends rq past e)
    (hmid : ∀ entry ∈ mid, entry.place ≠ rq.place) (hsilent : publications rq.place rest = [])
    (hfree : (∀ e' rq', .issued e' rq' ∈ rest → rq'.place ≠ rq.place) →
      s.pendingAt rq.place = none) :
    OneOf (rq.IsPending s (mid ++ .completed past e completed :: rest))
      (rq.IsReplaced (mid ++ .completed past e completed :: rest))
      (rq.IsPublished (mid ++ .completed past e completed :: rest)) := by
  have hpub : publications rq.place (mid ++ .completed past e completed :: rest) =
      [(past, e, completed)] := by
    rw [publications_append_of_ne hmid, publications_completed hends.place, hsilent]
  refine Or.inr (Or.inr ⟨fun hpending => ?_, fun hreplaced => ?_, past, e, completed, hpub, hends⟩)
  · obtain ⟨hwaits, hissues⟩ := hpending
    rw [hfree fun e' rq' hmem => hissues e' rq' (by simp [hmem])] at hwaits
    cases hwaits
  · rw [hreplaced.untold] at hpub
    cases hpub

end BlockRequest

/-- A request that was issued waits, was replaced or was told to be completed, and only one of these. -/
theorem issued_accounted {before later : List BlockEntry} {e : Event} {rq : BlockRequest} {s : State}
    (h : Answered (before ++ .issued e rq :: later))
    (hs : ∀ place, s.pendingAt place = openAt (before ++ .issued e rq :: later) place) :
    OneOf (rq.IsPending s later) (rq.IsReplaced later) (rq.IsPublished later) := by
  have hassoc : before ++ .issued e rq :: later = (before ++ [.issued e rq]) ++ later := by simp
  have hopen := openAt_issued before e rq
  rw [hassoc] at h hs
  rcases next_entry rq.place later with hnone | ⟨mid, entry, rest, rfl, hplace, hmid⟩
  · refine BlockRequest.oneOf_of_untouched ?_ hnone
    rw [hs, openAt_append_of_ne hnone, hopen]
  cases entry with
  | issued e' rq' => exact BlockRequest.oneOf_of_replaced ⟨mid, e', rq', rest, rfl, hplace, hmid⟩
  | completed past e' completed =>
    rw [BlockEntry.place_completed] at hplace
    obtain ⟨rq', hrq', hends⟩ :=
      h (before ++ [.issued e rq] ++ mid) past e' completed rest (by simp)
    rw [hplace, openAt_append_of_ne hmid, hopen] at hrq'
    cases hrq'
    have hclosed := openAt_completed (before ++ [.issued e rq] ++ mid) past e' completed
    rw [hplace] at hclosed
    refine BlockRequest.oneOf_of_completed hends hmid ?_ fun hissues => ?_
    · exact publications_of_closed (by simpa using h) hclosed
    · have hstill := openAt_append_of_closed hclosed hissues
      rw [hs]
      simpa using hstill

/-- A completion in the ledger is of the request last issued at its place. -/
theorem issued_of_openAt {ledger : List BlockEntry} {place : Location} {rq : BlockRequest}
    (h : openAt ledger place = some rq) : ∃ before e mid, ledger = before ++ .issued e rq :: mid ∧
      ∀ entry ∈ mid, entry.place ≠ place := by
  induction ledger using List.reverseRecOn with
  | nil => cases h
  | append_singleton ledger entry ih =>
    rw [openAt_snoc] at h
    split at h
    · cases entry with
      | issued e rq' =>
        cases h
        exact ⟨ledger, e, [], rfl, by simp⟩
      | completed past e rq' => cases h
    · rename_i hplace
      obtain ⟨before, e, mid, rfl, hmid⟩ := ih h
      refine ⟨before, e, mid ++ [entry], by simp, fun x hx => ?_⟩
      rcases List.mem_append.1 hx with hx | hx
      · exact hmid x hx
      · rw [List.mem_singleton.1 hx]
        exact hplace

/-! ## Orphans -/

namespace State

/-- The orphans are the requests that wait somewhere. -/
theorem mem_orphans_iff {s : State} {rq : BlockRequest} :
    rq ∈ s.orphans ↔ ∃ place, s.pendingAt place = some rq := by
  unfold orphans
  simp only [List.mem_flatMap, Table.mem_values_iff]
  constructor
  · rintro ⟨disk, ⟨dev, hdisk⟩, sector, hrq⟩
    exact ⟨{ dev, sector }, (BlockRequests.pendingAt_of_disk hdisk).trans hrq⟩
  · rintro ⟨⟨dev, sector⟩, hrq⟩
    cases hdisk : s.disks.get? dev with
    | none =>
      unfold pendingAt pending at hrq
      rw [hdisk] at hrq
      cases hrq
    | some disk =>
      exact ⟨disk, ⟨dev, hdisk⟩, sector, (BlockRequests.pendingAt_of_disk hdisk).symm.trans hrq⟩

/-- The orphans are listed by rising devices, and those of a device by rising sectors. -/
theorem orphans_ascending {s : State}
    (h : ∀ place rq, s.pendingAt place = some rq → rq.place = place) :
    s.orphans.Pairwise fun a b => a.dev < b.dev ∨ a.dev = b.dev ∧ a.sector < b.sector := by
  have hplace : ∀ p ∈ s.disks.toList, ∀ q ∈ p.2.pending.toList,
      q.2.dev = p.1 ∧ q.2.sector = q.1 := by
    intro p hp q hq
    have hdisk := Table.mem_toList_iff.1 hp
    have hrq := Table.mem_toList_iff.1 hq
    have hown := h { dev := p.1, sector := q.1 } q.2
      ((BlockRequests.pendingAt_of_disk hdisk).trans hrq)
    exact ⟨congrArg Location.dev hown, congrArg Location.sector hown⟩
  unfold orphans Table.values
  rw [List.flatMap_map, List.pairwise_flatMap]
  constructor
  · intro p hp
    rw [List.pairwise_map]
    refine p.2.pending.ascending.imp_of_mem fun {a b} ha hb hab => Or.inr ?_
    obtain ⟨ha₁, ha₂⟩ := hplace p hp a ha
    obtain ⟨hb₁, hb₂⟩ := hplace p hp b hb
    rw [ha₁, ha₂, hb₁, hb₂]
    exact ⟨rfl, Nat.compare_eq_lt.1 hab⟩
  · refine s.disks.ascending.imp_of_mem fun {p q} hp hq hpq a ha b hb => Or.inl ?_
    obtain ⟨x, hx, rfl⟩ := List.mem_map.1 ha
    obtain ⟨y, hy, rfl⟩ := List.mem_map.1 hb
    rw [(hplace p hp x hx).1, (hplace q hq y hy).1]
    exact Nat.compare_eq_lt.1 hpq

end State

/-! ## Runs -/

theorem Event.kind_of_completion? {e : Event} {device : Location → Nat} {answer : Location × Nat}
    (h : e.completion? device = some answer) : e.kind? = some .blockComplete := by
  by_contra hk
  rw [Event.completion?_of_ne hk] at h
  cases h

namespace Run

variable {settings : Settings} {history : List Step} {r : Replay}

/-- What waits at a place is what the last entry of the ledger there says, and the ledger's
completions end requests that waited. -/
theorem ledger_sound (h : Run settings history r) :
    (∀ place, r.state.pendingAt place = openAt (blockLedger history) place) ∧
      Answered (blockLedger history) := by
  induction h with
  | start => exact ⟨fun place => rfl, answered_nil⟩
  | @next history r e p h hp ih =>
    obtain ⟨hopen, hanswered⟩ := ih
    rw [blockLedger_snoc, Step.blockEntries]
    dsimp only
    cases h.blockStep hp with
    | issue rq issued told pending =>
      rw [issuedTo_remapsAfter] at issued
      rw [issued, told]
      refine ⟨fun place => ?_, answered_snoc hanswered fun past e' completed heq => by cases heq⟩
      refine Eq.trans ?_ (openAt_snoc _ (.issued e rq) place).symm
      rw [pending, hopen, BlockEntry.place_issued]
      simp only [eq_comm]
      rfl
    | complete place rq completed ends waiting succeeds told pending =>
      rw [issuedTo_remapsAfter] at ends
      have hk := Event.kind_of_completion? ends
      rw [hopen] at waiting
      obtain rfl : rq.place = place := place_of_openAt waiting
      obtain ⟨-, hcompleted⟩ := BlockRequest.complete_eq_ok_iff.1 succeeds
      have hends : completed.Ends rq (history.map (·.event)) e := ⟨ends, hcompleted⟩
      rw [Event.issue?_of_ne (by simp [hk]), told]
      refine ⟨fun k => ?_, answered_snoc hanswered fun past e' completed' heq => ?_⟩
      · refine Eq.trans ?_
          (openAt_snoc _ (.completed (history.map (·.event)) e completed) k).symm
        rw [pending, hopen, BlockEntry.place_completed, hends.place]
        simp only [eq_comm]
        rfl
      · cases heq
        exact ⟨rq, by rw [hends.place]; exact waiting, hends⟩
    | idle unissued told pending =>
      rw [issuedTo_remapsAfter] at unissued
      rw [unissued, told]
      refine ⟨fun place => ?_, by simpa using hanswered⟩
      unfold State.pendingAt at hopen ⊢
      rw [pending, hopen]
      simp

/-- Block requests are neither lost nor told of twice. Each one that was issued still waits, or was
replaced by the next one issued at its place, or was told to be completed exactly once. What is told
is the request last issued at the place of the completion, with the size that the completion gives; a
completion of which nothing is told is at the place of no request of its size that waits, and leaves
what waits alone. The orphans are the requests that wait, in order. -/
theorem blocks_accounted (h : Run settings history r) :
    (∀ before e rq later, blockLedger history = before ++ .issued e rq :: later →
      OneOf (rq.IsPending r.state later) (rq.IsReplaced later) (rq.IsPublished later)) ∧
    (∀ before past e completed later,
      blockLedger history = before ++ .completed past e completed :: later →
      ∃ pre e₀ rq mid, before = pre ++ .issued e₀ rq :: mid ∧ completed.Ends rq past e ∧
        ∀ entry ∈ mid, entry.place ≠ rq.place) ∧
    (∀ e p, r.process e = .ok p → e.kind? = some .blockComplete → blockExits p.signals = [] →
      p.replay.state.pending = r.state.pending ∧
      ∀ place rq, r.state.pendingAt place = some rq →
        e.completion? (originDev (history.map (·.event))) ≠ some (place, rq.sectors)) ∧
    (∀ place rq, r.state.pendingAt place = some rq ↔ rq ∈ r.state.orphans ∧ rq.place = place) ∧
    r.state.orphans.Pairwise fun a b => a.dev < b.dev ∨ a.dev = b.dev ∧ a.sector < b.sector := by
  obtain ⟨hopen, hanswered⟩ := h.ledger_sound
  have hplace : ∀ place rq, r.state.pendingAt place = some rq → rq.place = place := by
    intro place rq hrq
    rw [hopen] at hrq
    exact place_of_openAt hrq
  refine ⟨fun before e rq later heq => ?_, fun before past e completed later heq => ?_,
    fun e p hp hk htold => ?_, fun place rq => ⟨fun hrq => ?_, ?_⟩, State.orphans_ascending hplace⟩
  · rw [heq] at hopen hanswered
    exact issued_accounted hanswered hopen
  · obtain ⟨rq, hrq, hends⟩ := hanswered before past e completed later heq
    obtain ⟨pre, e₀, mid, hbefore, hmid⟩ := issued_of_openAt hrq
    rw [hends.place] at hmid
    exact ⟨pre, e₀, rq, mid, hbefore, hends, hmid⟩
  · cases h.blockStep hp with
    | issue rq issued =>
      rw [Event.issue?_of_ne (by simp [hk])] at issued
      cases issued
    | complete place rq completed _ _ _ told =>
      rw [htold] at told
      cases told
    | idle _ _ pending unmatched =>
      rw [issuedTo_remapsAfter] at unmatched
      exact ⟨pending, unmatched⟩
  · exact ⟨State.mem_orphans_iff.2 ⟨place, hrq⟩, hplace place rq hrq⟩
  · rintro ⟨hrq, rfl⟩
    obtain ⟨place, hwaits⟩ := State.mem_orphans_iff.1 hrq
    rwa [hplace place rq hwaits]

end Run

/-- A recorded event about a location. -/
def locatedEvent (timestamp : Int64) (name : String) (dev sector : UInt64)
    (more : List (String × FieldValue)) : Event :=
  .recorded 0 timestamp name ([("dev", .unsigned dev), ("sector", .unsigned sector)] ++ more)

/-- A read at the end of one remap, and a write that is issued in its place and completed after another
remap has got there. Then that one is the first, and eight sectors are read from it. -/
def sharedLocation : List Event :=
  [locatedEvent 1 "block_bio_remap" 1 100 [("old_dev", .unsigned 2), ("old_sector", .unsigned 200)],
   locatedEvent 10 "block_rq_issue" 1 100
     [("nr_sector", .unsigned 8), ("rwbs", .unsigned 0), ("tid", .signed 42)],
   locatedEvent 20 "block_rq_issue" 1 100 [("nr_sector", .unsigned 8), ("rwbs", .unsigned 1)],
   locatedEvent 30 "block_bio_remap" 1 100 [("old_dev", .unsigned 5), ("old_sector", .unsigned 500)],
   locatedEvent 50 "block_rq_complete" 1 100 [("nr_sector", .unsigned 8)],
   locatedEvent 60 "block_rq_issue" 1 100 [("nr_sector", .unsigned 8), ("rwbs", .unsigned 0)]]

/-- The requests go back to the two devices that they were remapped from. -/
def sharedLedger : List BlockEntry :=
  [.issued sharedLocation[1] { dev := 2, sector := 100, sectors := 8, operation := .read
                               tid := some 42, begun := 10 },
   .issued sharedLocation[2] { dev := 2, sector := 100, sectors := 8, operation := .write
                               begun := 20 },
   .completed (sharedLocation.take 4) sharedLocation[4]
     { dev := 2, sector := 100, sectors := 8, operation := .write, begun := 20, ended := some 50
       duration := some 30 },
   .issued sharedLocation[5] { dev := 5, sector := 100, sectors := 8, operation := .read
                               begun := 60 }]

theorem sharedLocation_accounted : ∃ history r, Run {} history r ∧
    history.map (·.event) = sharedLocation ∧ blockLedger history = sharedLedger ∧
    (∀ before e rq later, sharedLedger = before ++ .issued e rq :: later →
      OneOf (rq.IsPending r.state later) (rq.IsReplaced later) (rq.IsPublished later)) ∧
    r.state.pendingAt { dev := 2, sector := 100 } = none ∧
    (r.state.pendingAt { dev := 5, sector := 100 }).map (·.begun) = some 60 := by
  have hsteps : Replay.showsSteps {} sharedLocation (fun history r =>
      history.map (·.event) = sharedLocation ∧ blockLedger history = sharedLedger ∧
      r.state.orphans.map (fun rq => (rq.place, rq.begun)) =
        [({ dev := 5, sector := 100 }, 60)]) = true := by
    decide +kernel
  obtain ⟨history, r, h, htest⟩ := Run.of_showsSteps hsteps
  obtain ⟨hevents, hledger, horphans⟩ := of_decide_eq_true htest
  obtain ⟨haccounted, -, -, hwaiting, -⟩ := h.blocks_accounted
  rw [hledger] at haccounted
  obtain ⟨rq, hone, hrq⟩ := List.map_eq_singleton_iff.1 horphans
  obtain ⟨hplace, hbegun⟩ := Prod.mk.inj hrq
  refine ⟨history, r, h, hevents, hledger, haccounted, ?_, ?_⟩
  · refine Option.eq_none_iff_forall_ne_some.2 fun other hother => ?_
    obtain ⟨hmem, hat⟩ := (hwaiting _ other).1 hother
    rw [hone, List.mem_singleton] at hmem
    rw [hmem, hplace] at hat
    cases hat
  · rw [(hwaiting _ rq).2 ⟨by rw [hone]; exact List.mem_cons_self, hplace⟩, Option.map_some, hbegun]

end KernelReplay
