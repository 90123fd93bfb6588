import Mathlib.Data.Finset.Card
import Mathlib.Data.List.Induction
import Mathlib.Order.Bounds.Basic
import KernelReplay.Proofs.DescriptorViews
import KernelReplay.Proofs.PageSpellings
import KernelReplay.Proofs.SeparateParts

/-
  How many pages are counted. An allocation adds one and a free takes one off unless none is left,
  so the count depends on the order of all events and not only on how many there are of each kind.
  It is said here without following the events one by one: as the greatest of what the ends of the
  history add up to, and as the number of allocations that are left when each free is matched with
  one before it that is still unmatched, whichever it is, and with none if there is none. A free is
  told if it is matched and a thread runs on its CPU (`Run.pages_unmatched`).
-/

namespace KernelReplay

open Update

/-! ## What events add up to -/

/-- What an event adds to the pages that are in use. -/
def Event.pageGain (e : Event) : Int :=
  if e.name ∈ allocNames then 1 else if e.name ∈ freeNames then -1 else 0

theorem Event.pageGain_of_alloc {e : Event} (h : e.name ∈ allocNames) : e.pageGain = 1 := if_pos h

theorem Event.pageGain_of_free {e : Event} (h : e.name ∈ freeNames) : e.pageGain = -1 := by
  unfold pageGain
  rw [if_neg (not_alloc_of_free _ h), if_pos h]

theorem Event.pageGain_of_other {e : Event} (ha : e.name ∉ allocNames) (hf : e.name ∉ freeNames) :
    e.pageGain = 0 := by
  unfold pageGain
  rw [if_neg ha, if_neg hf]

theorem Event.pageGain_le_one (e : Event) : e.pageGain ≤ 1 := by
  unfold pageGain
  split
  · exact Int.le_refl 1
  · split <;> decide

/-- What events add to the pages that are in use, taken together. -/
def pageGain (events : List Event) : Int := (events.map (·.pageGain)).sum

/-- What the ends of a history add to the pages in use, each end for itself. The empty one adds
nothing. -/
def endGains (events : List Event) : Set Int :=
  {gain | ∃ recent, recent <:+ events ∧ pageGain recent = gain}

theorem pageGain_snoc (events : List Event) (e : Event) :
    pageGain (events ++ [e]) = pageGain events + e.pageGain := by
  simp [pageGain]

theorem isGreatest_endGains_nil : IsGreatest (endGains []) 0 := by
  refine ⟨⟨[], List.suffix_refl [], rfl⟩, ?_⟩
  rintro gain ⟨recent, hrecent, rfl⟩
  rw [List.suffix_nil.1 hrecent]
  exact Int.le_refl 0

/-- One more event adds to every end of the history, and the empty end is there again. -/
theorem isGreatest_endGains_snoc {events : List Event} {count : Int}
    (h : IsGreatest (endGains events) count) (e : Event) :
    IsGreatest (endGains (events ++ [e])) (max 0 (count + e.pageGain)) := by
  obtain ⟨⟨greatest, hgreatest, hcount⟩, hbound⟩ := h
  constructor
  · rcases Int.le_total (count + e.pageGain) 0 with hle | hle
    · rw [max_eq_left hle]
      exact ⟨[], List.nil_suffix, rfl⟩
    · rw [max_eq_right hle]
      obtain ⟨past, rfl⟩ := hgreatest
      refine ⟨greatest ++ [e], ⟨past, (List.append_assoc ..).symm⟩, ?_⟩
      rw [pageGain_snoc, hcount]
  · rintro gain ⟨recent, hrecent, rfl⟩
    rcases List.suffix_concat_iff.1 hrecent with rfl | ⟨earlier, rfl, hearlier⟩
    · exact Int.le_max_left 0 _
    · have hle : pageGain earlier ≤ count := hbound ⟨earlier, hearlier, rfl⟩
      rw [pageGain_snoc]
      omega

/-! ## Matching frees with allocations -/

/-- Whether the event at a position has one of the names. -/
def namedAt (names : List String) (events : List Event) (i : Nat) : Bool :=
  events[i]?.any fun e => e.name ∈ names

/-- The allocations, by position, that no free is matched with. -/
def unmatchedAllocs (events : List Event) (partner : Nat → Option Nat) : Finset Nat :=
  (Finset.range events.length).filter fun i => namedAt allocNames events i ∧
    ∀ j < events.length, namedAt freeNames events j → partner j ≠ some i

/-- Each free, by position, is matched with an earlier allocation that no free before it is matched
with, and with none only if there is none. -/
structure PageMatching (events : List Event) (partner : Nat → Option Nat) : Prop where
  matched : ∀ past e rest i, events = past ++ e :: rest → e.name ∈ freeNames →
    partner past.length = some i → i ∈ unmatchedAllocs past partner
  discarded : ∀ past e rest, events = past ++ e :: rest → e.name ∈ freeNames →
    partner past.length = none → unmatchedAllocs past partner = ∅

theorem namedAt_snoc (names : List String) (events : List Event) (e : Event) (i : Nat) :
    namedAt names (events ++ [e]) i =
      if i = events.length then decide (e.name ∈ names) else namedAt names events i := by
  unfold namedAt
  split
  · rename_i hi
    rw [hi, List.getElem?_concat_length]
    rfl
  · rename_i hi
    rcases Nat.lt_or_gt_of_ne hi with hlt | hgt
    · rw [List.getElem?_append_left hlt]
    · have hlong : (events ++ [e]).length ≤ i := by
        rw [List.length_append]
        exact hgt
      rw [List.getElem?_eq_none hlong, List.getElem?_eq_none (by omega)]

section Unmatched

variable {events past : List Event} {e : Event} {partner partner' : Nat → Option Nat} {i : Nat}

theorem mem_unmatchedAllocs : i ∈ unmatchedAllocs events partner ↔ i < events.length ∧
    namedAt allocNames events i ∧
      ∀ j < events.length, namedAt freeNames events j → partner j ≠ some i := by
  rw [unmatchedAllocs, Finset.mem_filter, Finset.mem_range]

theorem lt_of_mem_unmatchedAllocs (h : i ∈ unmatchedAllocs events partner) : i < events.length :=
  (mem_unmatchedAllocs.1 h).1

/-- What frees outside the list are matched with does not matter. -/
theorem unmatchedAllocs_congr (h : ∀ j < events.length, partner' j = partner j) :
    unmatchedAllocs events partner' = unmatchedAllocs events partner := by
  ext i
  rw [mem_unmatchedAllocs, mem_unmatchedAllocs]
  refine and_congr_right fun _ => and_congr_right fun _ => forall₂_congr fun j hj => ?_
  rw [h j hj]

/-- An allocation of the past stays unmatched unless the last event is a free that is matched with
it. -/
theorem mem_unmatchedAllocs_snoc_of_ne (hi : i ≠ past.length) :
    i ∈ unmatchedAllocs (past ++ [e]) partner ↔
      i ∈ unmatchedAllocs past partner ∧ (e.name ∈ freeNames → partner past.length ≠ some i) := by
  have hbefore : (∀ j < past.length, namedAt freeNames (past ++ [e]) j → partner j ≠ some i) ↔
      ∀ j < past.length, namedAt freeNames past j → partner j ≠ some i := by
    refine forall₂_congr fun j hj => ?_
    rw [namedAt_snoc, if_neg (Nat.ne_of_lt hj)]
  have hlt : i < past.length + 1 ↔ i < past.length := by omega
  rw [mem_unmatchedAllocs, mem_unmatchedAllocs, List.length_append, List.length_singleton,
    Nat.forall_lt_succ_right, hbefore, namedAt_snoc, namedAt_snoc, if_neg hi, if_pos rfl,
    decide_eq_true_iff, hlt]
  simp only [and_assoc]

/-- Where nothing before is matched with it, an allocation is unmatched when it comes. -/
theorem mem_unmatchedAllocs_snoc_self
    (h : ∀ j < past.length, namedAt freeNames past j → partner j ≠ some past.length) :
    past.length ∈ unmatchedAllocs (past ++ [e]) partner ↔ e.name ∈ allocNames := by
  rw [mem_unmatchedAllocs, namedAt_snoc, if_pos rfl, decide_eq_true_iff]
  constructor
  · exact fun hmem => hmem.2.1
  · intro halloc
    refine ⟨by simp, halloc, fun j hj hfree => ?_⟩
    rw [namedAt_snoc] at hfree
    split at hfree
    · exact (not_alloc_of_free _ (of_decide_eq_true hfree) halloc).elim
    · rw [List.length_append, List.length_singleton] at hj
      exact h j (by omega) hfree

end Unmatched

namespace PageMatching

variable {events past : List Event} {e : Event} {partner partner' : Nat → Option Nat} {i j : Nat}

theorem nil (partner : Nat → Option Nat) : PageMatching [] partner := by
  constructor
  · intro past e rest i hsplit
    simp at hsplit
  · intro past e rest hsplit
    simp at hsplit

/-- A matching of events is one of those that come first. -/
theorem of_append {more : List Event} (h : PageMatching (events ++ more) partner) :
    PageMatching events partner := by
  constructor
  · rintro past e rest i rfl
    exact h.matched past e (rest ++ more) i (by simp)
  · rintro past e rest rfl
    exact h.discarded past e (rest ++ more) (by simp)

/-- One more event is matched with what the events before it leave. -/
theorem snoc (h : PageMatching past partner)
    (hmatched : ∀ i, e.name ∈ freeNames → partner past.length = some i →
      i ∈ unmatchedAllocs past partner)
    (hdiscarded : e.name ∈ freeNames → partner past.length = none →
      unmatchedAllocs past partner = ∅) : PageMatching (past ++ [e]) partner := by
  constructor
  · intro before e' rest i hsplit hfree hi
    rcases split_snoc hsplit with ⟨rfl, rfl, -⟩ | ⟨rest', hpast, -⟩
    · exact hmatched i hfree hi
    · exact h.matched before e' rest' i hpast hfree hi
  · intro before e' rest hsplit hfree hnone
    rcases split_snoc hsplit with ⟨rfl, rfl, -⟩ | ⟨rest', hpast, -⟩
    · exact hdiscarded hfree hnone
    · exact h.discarded before e' rest' hpast hfree hnone

/-- What comes after a list is of no matter to it. -/
theorem congr (h : PageMatching events partner)
    (hpartner : ∀ j < events.length, partner' j = partner j) : PageMatching events partner' := by
  constructor
  · rintro past e rest i rfl hfree hi
    have hlt : past.length < (past ++ e :: rest).length := by simp
    rw [hpartner _ hlt] at hi
    rw [unmatchedAllocs_congr fun j hj => hpartner j (by omega)]
    exact h.matched past e rest i rfl hfree hi
  · rintro past e rest rfl hfree hnone
    have hlt : past.length < (past ++ e :: rest).length := by simp
    rw [hpartner _ hlt] at hnone
    rw [unmatchedAllocs_congr fun j hj => hpartner j (by omega)]
    exact h.discarded past e rest rfl hfree hnone

/-- A free is matched with something before it. -/
theorem lt_of_matched (h : PageMatching events partner) (hfree : namedAt freeNames events j)
    (hi : partner j = some i) : i < j := by
  unfold namedAt at hfree
  obtain ⟨e, hget, hname⟩ := (Option.any_eq_true ..).1 hfree
  obtain ⟨hsplit, hlength⟩ := split_at_position hget
  have hmem : i ∈ unmatchedAllocs (events.take j) partner :=
    h.matched _ e _ i hsplit (of_decide_eq_true hname) (by rw [hlength, hi])
  exact hlength ▸ lt_of_mem_unmatchedAllocs hmem

/-- Nothing is matched with what is still to come. -/
theorem ne_length (h : PageMatching past partner) :
    ∀ j < past.length, namedAt freeNames past j → partner j ≠ some past.length := by
  intro j hj hfree hself
  have hlt := h.lt_of_matched hfree hself
  omega

/-! ## What is left -/

/-- An allocation is left until a free takes it. -/
theorem unmatchedAllocs_snoc_of_alloc (h : PageMatching past partner) (he : e.name ∈ allocNames) :
    unmatchedAllocs (past ++ [e]) partner =
      insert past.length (unmatchedAllocs past partner) := by
  have hnot : e.name ∉ freeNames := fun hfree => not_alloc_of_free _ hfree he
  ext i
  rw [Finset.mem_insert]
  by_cases hi : i = past.length
  · rw [hi, mem_unmatchedAllocs_snoc_self h.ne_length]
    simp [he]
  · rw [mem_unmatchedAllocs_snoc_of_ne hi]
    simp [hi, hnot]

/-- Every other event leaves what it is not matched with. -/
theorem mem_unmatchedAllocs_snoc (h : PageMatching past partner) (he : e.name ∉ allocNames) :
    i ∈ unmatchedAllocs (past ++ [e]) partner ↔
      i ∈ unmatchedAllocs past partner ∧ (e.name ∈ freeNames → partner past.length ≠ some i) := by
  by_cases hi : i = past.length
  · rw [hi, mem_unmatchedAllocs_snoc_self h.ne_length]
    refine iff_of_false he fun hmem => ?_
    exact Nat.lt_irrefl _ (lt_of_mem_unmatchedAllocs hmem.1)
  · exact mem_unmatchedAllocs_snoc_of_ne hi

/-- The allocations left go up and down with the events, but not below zero. -/
theorem card_unmatchedAllocs_snoc (h : PageMatching (past ++ [e]) partner) :
    ((unmatchedAllocs (past ++ [e]) partner).card : Int) =
      max 0 ((unmatchedAllocs past partner).card + e.pageGain) := by
  have hpast : PageMatching past partner := h.of_append
  by_cases halloc : e.name ∈ allocNames
  · have hlast : past.length ∉ unmatchedAllocs past partner := fun hmem =>
      Nat.lt_irrefl _ (lt_of_mem_unmatchedAllocs hmem)
    rw [hpast.unmatchedAllocs_snoc_of_alloc halloc, Finset.card_insert_of_notMem hlast,
      Event.pageGain_of_alloc halloc]
    omega
  by_cases hfree : e.name ∈ freeNames
  · rw [Event.pageGain_of_free hfree]
    cases hpartner : partner past.length with
    | none =>
      -- nothing was left for the free to be matched with, and nothing is
      have hempty : unmatchedAllocs past partner = ∅ := h.discarded past e [] rfl hfree hpartner
      have hleft : unmatchedAllocs (past ++ [e]) partner = ∅ := by
        ext i
        rw [hpast.mem_unmatchedAllocs_snoc halloc, hempty]
        simp
      rw [hleft, hempty]
      rfl
    | some i =>
      have hmem : i ∈ unmatchedAllocs past partner := h.matched past e [] i rfl hfree hpartner
      have hleft : unmatchedAllocs (past ++ [e]) partner =
          (unmatchedAllocs past partner).erase i := by
        ext k
        rw [hpast.mem_unmatchedAllocs_snoc halloc, Finset.mem_erase, hpartner]
        simp [hfree, and_comm, eq_comm]
      have hcard := Finset.card_erase_add_one hmem
      rw [hleft]
      omega
  · have hleft : unmatchedAllocs (past ++ [e]) partner = unmatchedAllocs past partner := by
      ext i
      rw [hpast.mem_unmatchedAllocs_snoc halloc]
      simp [hfree]
    rw [hleft, Event.pageGain_of_other halloc hfree]
    omega

/-- However frees are matched, as many allocations are left as the ends of the list add at most. -/
theorem isGreatest_card (h : PageMatching events partner) :
    IsGreatest (endGains events) (unmatchedAllocs events partner).card := by
  induction events using List.reverseRecOn with
  | nil => exact isGreatest_endGains_nil
  | append_singleton past e ih =>
    rw [h.card_unmatchedAllocs_snoc]
    exact isGreatest_endGains_snoc (ih h.of_append) e

/-- Frees can be matched in any list of events, one after the other with whatever is left. -/
theorem exists_partner (events : List Event) : ∃ partner, PageMatching events partner := by
  induction events using List.reverseRecOn with
  | nil => exact ⟨fun _ => none, .nil _⟩
  | append_singleton past e ih =>
    obtain ⟨partner, h⟩ := ih
    -- the events before keep their partners, so what they leave stays the same
    have hagree : ∀ choice, ∀ j < past.length,
        Function.update partner past.length choice j = partner j := fun choice j hj =>
      Function.update_of_ne (Nat.ne_of_lt hj) choice partner
    rcases (unmatchedAllocs past partner).eq_empty_or_nonempty with hempty | ⟨i, hi⟩
    · refine ⟨Function.update partner past.length none,
        (h.congr (hagree none)).snoc (fun k _ hk => ?_) fun _ _ => ?_⟩
      · rw [Function.update_self] at hk
        cases hk
      · rw [unmatchedAllocs_congr (hagree none), hempty]
    · refine ⟨Function.update partner past.length (some i),
        (h.congr (hagree (some i))).snoc (fun k _ hk => ?_) fun _ hnone => ?_⟩
      · rw [Function.update_self] at hk
        rw [unmatchedAllocs_congr (hagree (some i)), ← Option.some.inj hk]
        exact hi
      · rw [Function.update_self] at hnone
        cases hnone

/-- A free is matched exactly if an allocation is left for it. -/
theorem isSome_partner_iff {rest : List Event} (h : PageMatching (past ++ e :: rest) partner)
    (he : e.name ∈ freeNames) :
    (partner past.length).isSome ↔ 0 < (unmatchedAllocs past partner).card := by
  rw [Finset.card_pos]
  cases hpartner : partner past.length with
  | none =>
    rw [h.discarded past e rest rfl he hpartner]
    simp
  | some i =>
    refine iff_of_true rfl ⟨i, ?_⟩
    exact h.matched past e rest i rfl he hpartner

end PageMatching

/-! ## The count of a replay -/

/-- The threads that signals tell to run while a page is freed, each with its CPU. -/
def pageFrees (l : List Signal) : List (Int × Nat) :=
  (notificationsOf l).filterMap fun
    | .pageFree thread cpu => some (thread.tid, cpu)
    | _ => none

theorem pageFrees_announced (e : Event) (s : State) :
    pageFrees (Paging.announced e .pageFree s) = (e.cpu?.bind fun cpu =>
      ((s.running? cpu).bind s.thread?).map fun t => (t.tid, cpu)).toList := by
  unfold Paging.announced
  cases e.cpu? with
  | none => rfl
  | some cpu =>
    rw [Option.bind_some, Option.bind_some]
    cases (s.running? cpu).bind s.thread? <;> rfl

namespace Run

variable {settings : Settings} {history : List Step} {r : Replay} {e : Event} {p : Replay.Progress}

/-- What is counted and told of a page is what the rules for pages make of it. -/
theorem page_run (h : Run settings history r) (hp : r.process e = .ok p) {kind : EventKind}
    (hk : e.kind? = some kind) (hpage : kind ∈ [.pageAlloc, .pageFree, .pageFreeKmem]) :
    ∃ o, Paging.apply kind e r.state = .ok o ∧ p.replay.state.pageCount = o.state.pageCount ∧
      p.signals = o.signals := by
  have hmem := List.mem_append_left [.pagesWritten, .kswapdWakeup] hpage
  obtain ⟨o, ho, hs, hl⟩ := h.update_run hp hk (Subsystem.effect_pages hmem e)
  obtain ⟨o₁, o₂, h₁, h₂, rfl⟩ := bind_eq_ok_iff.1 ho
  have hrequests : o₂.state.pageCount = o₁.state.pageCount ∧ o₂.signals = [] := by
    simp only [List.mem_cons, List.not_mem_nil, or_false] at hpage
    rcases hpage with rfl | rfl | rfl
    · cases h₂
      exact ⟨rfl, rfl⟩
    · cases (IoRequests.pageFree_run o₁.state).symm.trans h₂
      exact ⟨IoRequests.pageCount_pageFreed o₁.state, rfl⟩
    · cases h₂
      exact ⟨rfl, rfl⟩
  refine ⟨o₁, h₁, ?_, ?_⟩
  · rw [hs]
    exact hrequests.1
  · rw [hl]
    show o₁.signals ++ o₂.signals = o₁.signals
    rw [hrequests.2, List.append_nil]

theorem alloc_counted (h : Run settings history r) (hp : r.process e = .ok p)
    (he : e.name ∈ allocNames) : p.replay.state.pageCount = saturatingAdd r.state.pageCount 1 := by
  have hk : e.kind? = some .pageAlloc := kind_of_allocNames e.name he
  obtain ⟨o, ho, hcount, -⟩ := h.page_run hp hk (by decide)
  cases (Paging.alloc_run e r.state).symm.trans ho
  exact hcount

/-- A free is counted and told under both names alike, and is neither where no page is left. -/
theorem free_counted (h : Run settings history r) (hp : r.process e = .ok p)
    (he : e.name ∈ freeNames) : p.replay.state.pageCount = r.state.pageCount - 1 ∧
      p.signals = if r.state.pageCount = 0 then [] else Paging.announced e .pageFree r.state := by
  have hk : e.kind? = some .pageFree ∨ e.kind? = some .pageFreeKmem := kind_of_freeNames e.name he
  have hrun : ∃ o, Paging.free e r.state = .ok o ∧
      p.replay.state.pageCount = o.state.pageCount ∧ p.signals = o.signals := by
    rcases hk with hk | hk
    · exact h.page_run hp hk (by decide)
    · exact h.page_run hp hk (by decide)
  obtain ⟨o, ho, hcount, hsignals⟩ := hrun
  cases (Paging.free_run e r.state).symm.trans ho
  exact ⟨hcount, hsignals⟩

/-- A free of a page that is left is told of the thread that runs on its CPU. Whoever runs is known,
so there is a thread to tell of unless the CPU is idle. -/
theorem mem_pageFrees_iff (h : Run settings history r) (hp : r.process e = .ok p)
    (he : e.name ∈ freeNames) {tid : Int} {cpu : Nat} : (tid, cpu) ∈ pageFrees p.signals ↔
      0 < r.state.pageCount ∧ e.cpu? = some cpu ∧ r.state.running? cpu = some tid := by
  rw [(h.free_counted hp he).2]
  split
  · rename_i hzero
    simp [hzero, pageFrees]
  rename_i hpages
  rw [and_iff_right (Nat.pos_of_ne_zero hpages), pageFrees_announced, Option.mem_toList,
    Option.bind_eq_some_iff]
  constructor
  · rintro ⟨k, hcpu, hthread⟩
    obtain ⟨thread, hrunning, heq⟩ := Option.map_eq_some_iff.1 hthread
    obtain ⟨k', hk', ht⟩ := Option.bind_eq_some_iff.1 hrunning
    obtain ⟨rfl, rfl⟩ := Prod.mk.inj heq
    rw [h.keyed_view.1.tid_of_thread? ht]
    exact ⟨hcpu, hk'⟩
  · rintro ⟨hcpu, hrunning⟩
    obtain ⟨-, thread, ht⟩ := h.knows_running hrunning
    refine ⟨cpu, hcpu, ?_⟩
    rw [hrunning, Option.bind_some, ht, Option.map_some, h.keyed_view.1.tid_of_thread? ht]

/-- The count goes up and down with the events, but not below zero. It does not reach the greatest
word, as a run is not longer than that. -/
theorem pageCount_step (h : Run settings history r) (hp : r.process e = .ok p)
    (hcount : r.state.pageCount ≤ history.length) :
    (p.replay.state.pageCount : Int) = max 0 (r.state.pageCount + e.pageGain) := by
  by_cases halloc : e.name ∈ allocNames
  · have hfits : history.length + 1 ≤ maxWord := by
      obtain ⟨o, processed, -, hsucc, -⟩ := Replay.process_eq_ok_iff.1 hp
      rw [← h.processed_eq]
      exact (checkedSucc_eq_ok_iff.1 hsucc).1
    rw [h.alloc_counted hp halloc, Event.pageGain_of_alloc halloc]
    unfold saturatingAdd
    omega
  by_cases hfree : e.name ∈ freeNames
  · rw [(h.free_counted hp hfree).1, Event.pageGain_of_free hfree]
    omega
  · have hother : e.name ∉ pageNames := fun hmem =>
      (List.mem_append.1 (show e.name ∈ allocNames ++ freeNames from hmem)).elim halloc hfree
    have hkept : p.replay.state.pageCount = r.state.pageCount :=
      ((pagePart_selfContained settings).aside h hp hother).1
    rw [hkept, Event.pageGain_of_other halloc hfree]
    omega

theorem pageCount_le (h : Run settings history r) : r.state.pageCount ≤ history.length := by
  induction h with
  | start => exact Nat.le_refl _
  | @next history r e p h hp ih =>
    have hstep := h.pageCount_step hp ih
    have hgain := e.pageGain_le_one
    rw [List.length_append, List.length_singleton]
    omega

theorem isGreatest_pageCount (h : Run settings history r) :
    IsGreatest (endGains (history.map (·.event))) (r.state.pageCount : Int) := by
  induction h with
  | start => exact isGreatest_endGains_nil
  | @next history r e p h hp ih =>
    rw [h.pageCount_step hp h.pageCount_le, List.map_append]
    exact isGreatest_endGains_snoc ih e

/-- Frees are matched in a run so as to leave as many allocations as pages are counted. -/
theorem card_unmatchedAllocs (h : Run settings history r) {partner : Nat → Option Nat}
    (hmatching : PageMatching (history.map (·.event)) partner) :
    (unmatchedAllocs (history.map (·.event)) partner).card = r.state.pageCount := by
  have hsame := hmatching.isGreatest_card.unique h.isGreatest_pageCount
  omega

/-- The count of pages is the greatest of what the ends of the history add up to. It is also the
number of allocations that are left when each free is matched with an earlier one that is still
unmatched, and with none if there is none, which can be done and may be done in any way. A free is
told exactly if it is matched so and a thread runs on its CPU, and it is told of that thread. -/
theorem pages_unmatched (h : Run settings history r) :
    IsGreatest (endGains (history.map (·.event))) (r.state.pageCount : Int) ∧
    (∃ partner, PageMatching (history.map (·.event)) partner) ∧
    ∀ partner, PageMatching (history.map (·.event)) partner →
      (unmatchedAllocs (history.map (·.event)) partner).card = r.state.pageCount ∧
      ∀ past step rest, history = past ++ step :: rest → step.event.name ∈ freeNames →
        ∀ tid cpu, (tid, cpu) ∈ pageFrees step.signals ↔ (partner past.length).isSome ∧
          step.event.cpu? = some cpu ∧ step.before.running? cpu = some tid := by
  refine ⟨h.isGreatest_pageCount, PageMatching.exists_partner _, fun partner hmatching => ?_⟩
  refine ⟨h.card_unmatchedAllocs hmatching, ?_⟩
  rintro past step rest rfl hfree tid cpu
  obtain ⟨r₀, p, h₀, hp, hbefore, -, hsignals⟩ := h.of_split
  rw [List.map_append, List.map_cons] at hmatching
  have hfound := hmatching.isSome_partner_iff hfree
  rw [List.length_map, h₀.card_unmatchedAllocs hmatching.of_append] at hfound
  rw [hfound, hbefore, hsignals]
  exact h₀.mem_pageFrees_iff hp hfree

/-- Two pages are allocated between frees that find none, and freed under both names, one of them
from an idle CPU. Then a page is allocated again. -/
def strayFrees : List Event :=
  [.recorded 0 10 "sched_switch" [("prev_tid", .signed 0), ("next_tid", .signed 7)],
   .recorded 1 20 "mm_page_free" [],
   .recorded 1 30 "kmem_mm_page_alloc" [],
   .recorded 0 40 "mm_page_alloc" [],
   .recorded 0 50 "kmem_mm_page_free" [],
   .recorded 1 60 "mm_page_free" [],
   .recorded 0 70 "mm_page_free" [],
   .recorded 1 80 "mm_page_alloc" []]

/-- More pages are freed than allocated, and one is counted. However frees are matched, the one that
is told has a partner, and the one that is not told though a thread runs has none. -/
theorem pages_unmatched_strayFrees : ∃ history r, Run {} history r ∧
    history.map (·.event) = strayFrees ∧ pageGain strayFrees = -1 ∧
    IsGreatest (endGains strayFrees) 1 ∧ (∃ partner, PageMatching strayFrees partner) ∧
    ∀ partner, PageMatching strayFrees partner →
      (unmatchedAllocs strayFrees partner).card = 1 ∧ (partner 4).isSome ∧ partner 6 = none := by
  have hshows : Replay.showsSteps {} strayFrees (fun history r =>
      history.map (·.event) = strayFrees ∧ r.state.pageCount = 1 ∧
      (history[4]?).any (fun step => step.event.name ∈ freeNames ∧
        pageFrees step.signals = [(7, 0)]) ∧
      (history[6]?).any fun step => step.event.name ∈ freeNames ∧ step.event.cpu? = some 0 ∧
        step.before.running? 0 = some 7 ∧ pageFrees step.signals = []) = true := by
    decide +kernel
  obtain ⟨history, r, h, htest⟩ := Run.of_showsSteps hshows
  obtain ⟨hevents, hcount, htold, huntold⟩ := of_decide_eq_true htest
  obtain ⟨hgreatest, hexists, hall⟩ := pages_unmatched h
  rw [hevents] at hgreatest hexists hall
  rw [hcount, Int.natCast_one] at hgreatest
  rw [hcount] at hall
  have hgain : pageGain strayFrees = -1 := by decide +kernel
  refine ⟨history, r, h, hevents, hgain, hgreatest, hexists, fun partner hmatching => ?_⟩
  obtain ⟨hcard, hfrees⟩ := hall partner hmatching
  refine ⟨hcard, ?_, ?_⟩
  · obtain ⟨step, hstep, htest⟩ := (Option.any_eq_true ..).1 htold
    obtain ⟨hfree, htold⟩ := of_decide_eq_true htest
    obtain ⟨hsplit, hlength⟩ := split_at_position hstep
    have hmem : (7, 0) ∈ pageFrees step.signals := htold ▸ List.mem_cons_self
    rw [← hlength]
    exact ((hfrees _ step _ hsplit hfree 7 0).1 hmem).1
  · obtain ⟨step, hstep, htest⟩ := (Option.any_eq_true ..).1 huntold
    obtain ⟨hfree, hcpu, hrunning, huntold⟩ := of_decide_eq_true htest
    obtain ⟨hsplit, hlength⟩ := split_at_position hstep
    by_contra hpartner
    have hmatched : (partner (history.take 6).length).isSome := by
      rwa [hlength, Option.isSome_iff_ne_none]
    have hmem := (hfrees _ step _ hsplit hfree 7 0).2 ⟨hmatched, hcpu, hrunning⟩
    rw [huntold] at hmem
    cases hmem

end Run

end KernelReplay
