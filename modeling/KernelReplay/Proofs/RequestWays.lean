import Mathlib.Data.List.Basic
import Mathlib.Data.List.Induction
import Mathlib.Data.Nat.Find
import KernelReplay.Proofs.BlockSteps

/-
  Where a request that is seen at a location comes from, told by the events alone. On its way down
  stacked devices a request is remapped from one location to the next, until it is merged into another
  one or completed. A way is known by the position of the event that it starts with, and where several
  ways have got to one location, the one that started first goes first (`Event.leads`). What the rules
  remember is the ways that are open, in the order of their starts (`remapsAfter_eq`), so a request at a
  location goes back to the device where the first way to the location started
  (`issuedTo_remapsAfter`).
-/

namespace KernelReplay

/-! ## Ways -/

/-- What an event says of requests on their way. -/
inductive Passage
  /-- A request goes on from one location to another. -/
  | moves (source target : Location)
  /-- The requests at a location are merged into others. -/
  | merges (place : Location)
  /-- A request at a location is completed. -/
  | completes (place : Location)
  deriving DecidableEq

/-- What the event says of requests on their way, if the fields that it takes can be read. -/
def Event.passage? (e : Event) : Option Passage :=
  match e.kind?, e.nat? "dev", e.nat? "sector" with
  | some .blockRemap, some dev, some sector =>
    match e.nat? "old_dev", e.nat? "old_sector" with
    | some oldDev, some oldSector => some (.moves ⟨oldDev, oldSector⟩ ⟨dev, sector⟩)
    | _, _ => none
  | some .blockBackmerge, some dev, some sector => some (.merges ⟨dev, sector⟩)
  | some .blockComplete, some dev, some sector =>
    match e.nat? "nr_sector" with
    | some sectors => if sectors = 0 then none else some (.completes ⟨dev, sector⟩)
    | none => none
  | _, _, _ => none

/-- Of the ways, by position, one is the first that has got to a location. -/
def FirstAt (ends : Nat → Option Location) (place : Location) (i : Nat) : Prop :=
  ends i = some place ∧ ∀ j < i, ends j ≠ some place

instance (ends : Nat → Option Location) (place : Location) (i : Nat) :
    Decidable (FirstAt ends place i) := inferInstanceAs (Decidable (_ ∧ _))

theorem FirstAt.eq {ends : Nat → Option Location} {place : Location} {i j : Nat}
    (hi : FirstAt ends place i) (hj : FirstAt ends place j) : i = j := by
  rcases Nat.lt_trichotomy i j with hlt | heq | hgt
  · exact (hj.2 i hlt hi.1).elim
  · exact heq
  · exact (hi.2 j hgt hj.1).elim

/-- Where ways have got to after an event at a position, from where they had got to before it. The
first way at a location goes on from there or is over. A remap from where no way has got to starts
one. -/
def Event.leads (e : Event) (position : Nat) (ends : Nat → Option Location) (i : Nat) :
    Option Location :=
  match e.passage? with
  | some (.moves source target) =>
    if FirstAt ends source i ∨ i = position ∧ ∀ j < position, ends j ≠ some source then some target
    else ends i
  | some (.merges place) => if ends i = some place then none else ends i
  | some (.completes place) => if FirstAt ends place i then none else ends i
  | none => ends i

/-- Where the way that starts with the event at a position has got to, if it is open. -/
def wayEnd (past : List Event) : Nat → Option Location :=
  past.zipIdx.foldl (fun ends entry => entry.1.leads entry.2 ends) fun _ => none

/-- Where the way that starts with the event at a position came from. -/
def wayStart (past : List Event) (i : Nat) : Option Location :=
  past[i]?.bind fun e =>
    match e.passage? with
    | some (.moves source _) => some source
    | _ => none

/-- The device that a request at a location goes back to: the one where the first way that has got
there started, or else that of the location. -/
def originDev (past : List Event) (l : Location) : Nat :=
  (((List.range past.length).find? fun i => wayEnd past i = some l).bind (wayStart past)).elim
    l.dev (·.dev)

theorem wayEnd_snoc (past : List Event) (e : Event) :
    wayEnd (past ++ [e]) = e.leads past.length (wayEnd past) := by
  unfold wayEnd
  rw [List.zipIdx_append, List.foldl_append, Nat.zero_add]
  rfl

theorem wayStart_snoc_of_lt {past : List Event} {i : Nat} (h : i < past.length) (e : Event) :
    wayStart (past ++ [e]) i = wayStart past i := by
  unfold wayStart
  rw [List.getElem?_append_left h]

theorem wayStart_snoc_length {past : List Event} {e : Event} {source target : Location}
    (h : e.passage? = some (.moves source target)) :
    wayStart (past ++ [e]) past.length = some source := by
  unfold wayStart
  rw [List.getElem?_concat_length, Option.bind_some, h]

theorem lt_of_isSome_wayStart {past : List Event} {i : Nat} (h : (wayStart past i).isSome) :
    i < past.length := by
  by_contra hge
  unfold wayStart at h
  rw [List.getElem?_eq_none (by omega)] at h
  cases h

/-- A way that is open was open before, or it starts with a remap. -/
theorem Event.isSome_of_leads {e : Event} {position i : Nat} {ends : Nat → Option Location}
    (h : (e.leads position ends i).isSome) :
    (ends i).isSome ∨ i = position ∧ ∃ source target, e.passage? = some (.moves source target) := by
  unfold leads at h
  split at h
  · rename_i source target hpassage
    split at h
    · rename_i hmoves
      rcases hmoves with hfirst | ⟨hi, -⟩
      · rw [hfirst.1]
        exact Or.inl rfl
      · exact Or.inr ⟨hi, source, target, hpassage⟩
    · exact Or.inl h
  · split at h
    · cases h
    · exact Or.inl h
  · split at h
    · cases h
    · exact Or.inl h
  · exact Or.inl h

/-- An open way came from somewhere. -/
theorem isSome_wayStart {past : List Event} {i : Nat} (h : (wayEnd past i).isSome) :
    (wayStart past i).isSome := by
  induction past using List.reverseRecOn with
  | nil => cases h
  | append_singleton past e ih =>
    rw [wayEnd_snoc] at h
    rcases Event.isSome_of_leads h with hopen | ⟨rfl, source, target, hpassage⟩
    · have hstart := ih hopen
      rwa [wayStart_snoc_of_lt (lt_of_isSome_wayStart hstart)]
    · rw [wayStart_snoc_length hpassage]
      rfl

/-- No way starts with an event that is still to come. -/
theorem wayEnd_eq_none {past : List Event} {i : Nat} (h : past.length ≤ i) :
    wayEnd past i = none := by
  rw [← Option.not_isSome_iff_eq_none]
  intro hopen
  have hlt := lt_of_isSome_wayStart (isSome_wayStart hopen)
  omega

/-! ## What is remembered -/

/-- An open way as a remap from where it has got to. -/
def openWay (past : List Event) (i : Nat) : Option Remap :=
  (wayEnd past i).bind fun current => (wayStart past i).map fun origin => { current, origin }

theorem openWay_eq_some_iff {past : List Event} {i : Nat} {m : Remap} :
    openWay past i = some m ↔ wayEnd past i = some m.current ∧ wayStart past i = some m.origin := by
  unfold openWay
  cases wayEnd past i <;> cases wayStart past i <;> cases m <;> simp

/-- The open way that has got to a location, if a way has. -/
theorem openWay_any (past : List Event) (place : Location) (i : Nat) :
    (openWay past i).any (·.current = place) = decide (wayEnd past i = some place) := by
  unfold openWay
  cases hend : wayEnd past i with
  | none => rfl
  | some l =>
    obtain ⟨start, hstart⟩ := Option.isSome_iff_exists.1 (isSome_wayStart (by rw [hend]; rfl))
    rw [hstart]
    simp

/-- The open ways in the order of their starts. -/
def openWays (past : List Event) : List Remap :=
  (List.range past.length).filterMap (openWay past)

namespace Remap

variable {place source target : Location} {front rest : List Remap} {m : Remap}

theorem record_of_forall_ne (h : ∀ m ∈ front, m.current ≠ source) :
    record source target front = front ++ [{ current := target, origin := source }] := by
  induction front with
  | nil => rfl
  | cons m front ih =>
    obtain ⟨hhead, hfront⟩ := List.forall_mem_cons.1 h
    rw [record, if_neg hhead, ih hfront, List.cons_append]

theorem record_append (h : ∀ m ∈ front, m.current ≠ source) (hm : m.current = source) :
    record source target (front ++ m :: rest) = front ++ { m with current := target } :: rest := by
  induction front with
  | nil => exact if_pos hm
  | cons first front ih =>
    obtain ⟨hhead, hfront⟩ := List.forall_mem_cons.1 h
    rw [List.cons_append, record, if_neg hhead, ih hfront, List.cons_append]

theorem release_append (h : ∀ m ∈ front, m.current ≠ place) (hm : m.current = place) :
    release (front ++ m :: rest) place = front ++ rest := by
  unfold release
  rw [List.eraseP_append_right _ (by simpa using h), List.eraseP_cons_of_pos (by simpa using hm)]

end Remap

/-- What an event does to the remaps is told by what it says of requests on their way. -/
theorem Event.remapsFrom_eq (e : Event) (remaps : List Remap) : e.remapsFrom remaps =
    match e.passage? with
    | some (.moves source target) => Remap.record source target remaps
    | some (.merges place) => Remap.discard remaps place
    | some (.completes place) => Remap.release remaps place
    | none => remaps := by
  unfold remapsFrom passage? BlockRequests.remap BlockRequests.backmerge BlockRequests.location?
    BlockRequests.sectors?
  cases e.kind? with
  | none => rfl
  | some kind =>
    cases e.nat? "dev" <;> cases e.nat? "sector" <;> cases e.nat? "old_dev" <;>
      cases e.nat? "old_sector" <;> cases hn : e.nat? "nr_sector" <;> cases kind <;> try rfl
    all_goals
      rename_i sectors
      by_cases hzero : sectors = 0 <;> simp [hzero, Option.filter_some]

section Snoc

variable {past : List Event} {e : Event} {place source target : Location} {i : Nat}

/-- A way that an event leaves alone stays as it was. -/
theorem openWay_snoc (hi : i < past.length) (hend : wayEnd (past ++ [e]) i = wayEnd past i) :
    openWay (past ++ [e]) i = openWay past i := by
  unfold openWay
  rw [hend, wayStart_snoc_of_lt hi]

theorem openWay_snoc_length (hend : wayEnd (past ++ [e]) past.length = none) :
    openWay (past ++ [e]) past.length = none := by
  unfold openWay
  rw [hend]
  rfl

theorem openWays_snoc (past : List Event) (e : Event) :
    openWays (past ++ [e]) = (List.range past.length).filterMap (openWay (past ++ [e])) ++
      (openWay (past ++ [e]) past.length).toList := by
  unfold openWays
  rw [List.length_append, List.length_singleton, List.range_succ, List.filterMap_append]
  cases hlast : openWay (past ++ [e]) past.length <;> simp [hlast]

/-- Ways that an event leaves alone are remembered as before. -/
theorem filterMap_openWay_snoc {positions : List Nat} (hlt : ∀ j ∈ positions, j < past.length)
    (hends : ∀ j ∈ positions, wayEnd (past ++ [e]) j = wayEnd past j) :
    positions.filterMap (openWay (past ++ [e])) = positions.filterMap (openWay past) :=
  List.filterMap_congr fun j hj => openWay_snoc (hlt j hj) (hends j hj)

/-- No way has got to a location, or one is the first. -/
theorem exists_firstAt (past : List Event) (place : Location) :
    (∀ j, wayEnd past j ≠ some place) ∨ ∃ i, FirstAt (wayEnd past) place i := by
  by_cases h : ∃ i, wayEnd past i = some place
  · exact Or.inr ⟨Nat.find h, Nat.find_spec h, fun j hj => Nat.find_min h hj⟩
  · exact Or.inl fun j hj => h ⟨j, hj⟩

theorem current_ne_of_mem (h : ∀ j, wayEnd past j ≠ some place) :
    ∀ m ∈ openWays past, m.current ≠ place := by
  intro m hm hplace
  obtain ⟨j, -, hopen⟩ := List.mem_filterMap.1 hm
  exact h j (hplace ▸ (openWay_eq_some_iff.1 hopen).1)

/-- What is remembered when an event changes no way but the first one that has got to a location: the
ways before it and after it, and what the event makes of it. -/
theorem FirstAt.openWays_eq (h : FirstAt (wayEnd past) place i)
    (hends : ∀ j, j ≠ i → j < past.length → wayEnd (past ++ [e]) j = wayEnd past j) :
    ∃ front m back, openWays past = front ++ m :: back ∧ (∀ m' ∈ front, m'.current ≠ place) ∧
      m.current = place ∧ i < past.length ∧ wayStart past i = some m.origin ∧
      (List.range past.length).filterMap (openWay (past ++ [e])) =
        front ++ ((openWay (past ++ [e]) i).toList ++ back) := by
  obtain ⟨start, hstart⟩ := Option.isSome_iff_exists.1 (isSome_wayStart (by rw [h.1]; rfl))
  have hlt : i < past.length := lt_of_isSome_wayStart (by rw [hstart]; rfl)
  have hopen : openWay past i = some { current := place, origin := start } :=
    openWay_eq_some_iff.2 ⟨h.1, hstart⟩
  have hrange : List.range past.length =
      List.range i ++ i :: List.range' (i + 1) (past.length - (i + 1)) := by
    have happend := @List.range'_append_1 0 i (past.length - (i + 1) + 1)
    rw [Nat.zero_add, List.range'_succ, ← List.range_eq_range'] at happend
    rw [happend, List.range_eq_range']
    congr 1
    omega
  refine ⟨(List.range i).filterMap (openWay past), { current := place, origin := start },
    (List.range' (i + 1) (past.length - (i + 1))).filterMap (openWay past), ?_, ?_, rfl, hlt, hstart,
    ?_⟩
  · rw [openWays, hrange, List.filterMap_append, List.filterMap_cons_some hopen]
  · intro m' hm' hplace
    obtain ⟨j, hj, hopen'⟩ := List.mem_filterMap.1 hm'
    exact h.2 j (List.mem_range.1 hj) (hplace ▸ (openWay_eq_some_iff.1 hopen').1)
  · have hfront : ∀ j ∈ List.range i, j < past.length ∧ j ≠ i := by
      intro j hj
      have hji := List.mem_range.1 hj
      omega
    have hback : ∀ j ∈ List.range' (i + 1) (past.length - (i + 1)), j < past.length ∧ j ≠ i := by
      intro j hj
      have hij := List.mem_range'_1.1 hj
      omega
    rw [hrange, List.filterMap_append, List.filterMap_cons,
      filterMap_openWay_snoc (fun j hj => (hfront j hj).1) fun j hj =>
        hends j (hfront j hj).2 (hfront j hj).1,
      filterMap_openWay_snoc (fun j hj => (hback j hj).1) fun j hj =>
        hends j (hback j hj).2 (hback j hj).1]
    cases openWay (past ++ [e]) i <;> rfl

/-- An event that says nothing of requests on their way leaves the ways alone. -/
theorem openWays_of_none (h : e.passage? = none) : openWays (past ++ [e]) = openWays past := by
  have hends : wayEnd (past ++ [e]) = wayEnd past := by
    rw [wayEnd_snoc]
    funext i
    rw [Event.leads, h]
  rw [openWays_snoc, openWay_snoc_length (by rw [hends]; exact wayEnd_eq_none (Nat.le_refl _)),
    filterMap_openWay_snoc (fun _ => List.mem_range.1) fun j _ => congrFun hends j]
  exact List.append_nil _

theorem openWays_of_merges (h : e.passage? = some (.merges place)) :
    openWays (past ++ [e]) = Remap.discard (openWays past) place := by
  have hends : ∀ i, wayEnd (past ++ [e]) i =
      if wayEnd past i = some place then none else wayEnd past i := by
    intro i
    rw [wayEnd_snoc, Event.leads, h]
  have hlast : wayEnd (past ++ [e]) past.length = none := by
    rw [hends, wayEnd_eq_none (Nat.le_refl _)]
    rfl
  rw [openWays_snoc, openWay_snoc_length hlast, Option.toList_none, List.append_nil, openWays,
    Remap.discard, List.filter_filterMap]
  refine List.filterMap_congr fun i hi => ?_
  by_cases hat : wayEnd past i = some place
  · unfold openWay
    rw [hends, if_pos hat, hat]
    cases wayStart past i <;> simp [Option.filter_some]
  · rw [openWay_snoc (List.mem_range.1 hi) (by rw [hends, if_neg hat])]
    cases hopen : openWay past i with
    | none => rfl
    | some m =>
      have hne : m.current ≠ place := fun hm => hat (hm ▸ (openWay_eq_some_iff.1 hopen).1)
      rw [Option.filter_some, if_pos (decide_eq_true hne)]

theorem openWays_of_completes (h : e.passage? = some (.completes place)) :
    openWays (past ++ [e]) = Remap.release (openWays past) place := by
  have hends : ∀ i, wayEnd (past ++ [e]) i =
      if FirstAt (wayEnd past) place i then none else wayEnd past i := by
    intro i
    rw [wayEnd_snoc, Event.leads, h]
  have hlast : wayEnd (past ++ [e]) past.length = none := by
    rw [hends, wayEnd_eq_none (Nat.le_refl _), ite_self]
  rw [openWays_snoc, openWay_snoc_length hlast, Option.toList_none, List.append_nil]
  rcases exists_firstAt past place with hnone | ⟨i, hfirst⟩
  · have hnot : ∀ m ∈ openWays past, ¬ decide (m.current = place) = true := by
      simpa using current_ne_of_mem hnone
    rw [Remap.release, List.eraseP_of_forall_not hnot]
    exact filterMap_openWay_snoc (fun _ => List.mem_range.1) fun j _ => by
      rw [hends, if_neg fun hfirst => hnone j hfirst.1]
  · obtain ⟨front, m, back, hbefore, hfront, hm, -, -, hafter⟩ := hfirst.openWays_eq (e := e)
      fun j hj _ => by rw [hends, if_neg fun hother => hj (hother.eq hfirst)]
    have hover : openWay (past ++ [e]) i = none := by
      unfold openWay
      rw [hends, if_pos hfirst]
      rfl
    rw [hafter, hover, hbefore, Remap.release_append hfront hm]
    rfl

theorem openWays_of_moves (h : e.passage? = some (.moves source target)) :
    openWays (past ++ [e]) = Remap.record source target (openWays past) := by
  have hends : ∀ i, wayEnd (past ++ [e]) i = if FirstAt (wayEnd past) source i ∨
      i = past.length ∧ ∀ j < past.length, wayEnd past j ≠ some source then some target
      else wayEnd past i := by
    intro i
    rw [wayEnd_snoc, Event.leads, h]
  have hlength : wayEnd past past.length = none := wayEnd_eq_none (Nat.le_refl _)
  rw [openWays_snoc]
  rcases exists_firstAt past source with hnone | ⟨i, hfirst⟩
  · have hstarts : openWay (past ++ [e]) past.length = some { current := target, origin := source } := by
      refine openWay_eq_some_iff.2 ⟨?_, wayStart_snoc_length h⟩
      rw [hends, if_pos (Or.inr ⟨rfl, fun j _ => hnone j⟩)]
    rw [Remap.record_of_forall_ne (current_ne_of_mem hnone), hstarts,
      filterMap_openWay_snoc (fun _ => List.mem_range.1) fun j hj => ?_]
    · rfl
    · rw [hends, if_neg]
      rintro (hfirst | ⟨rfl, -⟩)
      · exact hnone j hfirst.1
      · exact Nat.lt_irrefl _ (List.mem_range.1 hj)
  · obtain ⟨front, m, back, hbefore, hfront, hm, hlt, hstart, hafter⟩ := hfirst.openWays_eq (e := e)
      fun j hj hjlt => by
        rw [hends, if_neg]
        rintro (hother | ⟨rfl, -⟩)
        · exact hj (hother.eq hfirst)
        · exact Nat.lt_irrefl _ hjlt
    have hgoes : openWay (past ++ [e]) i = some { m with current := target } := by
      refine openWay_eq_some_iff.2 ⟨?_, ?_⟩
      · rw [hends, if_pos (Or.inl hfirst)]
      · rw [wayStart_snoc_of_lt hlt, hstart]
    have hlast : openWay (past ++ [e]) past.length = none := by
      refine openWay_snoc_length ?_
      rw [hends, if_neg, hlength]
      rintro (hother | ⟨-, hnone⟩)
      · rw [FirstAt, hlength] at hother
        cases hother.1
      · exact hnone i hlt hfirst.1
    rw [hafter, hgoes, hlast, hbefore, Remap.record_append hfront hm]
    simp

end Snoc

/-- What is remembered of remaps is the ways that are open, in the order of their starts. -/
theorem remapsAfter_eq (past : List Event) : remapsAfter past = openWays past := by
  induction past using List.reverseRecOn with
  | nil => rfl
  | append_singleton past e ih =>
    rw [remapsAfter_snoc, ih, Event.remapsFrom_eq]
    cases hpassage : e.passage? with
    | none => exact (openWays_of_none hpassage).symm
    | some passage =>
      cases passage with
      | moves source target => exact (openWays_of_moves hpassage).symm
      | merges place => exact (openWays_of_merges hpassage).symm
      | completes place => exact (openWays_of_completes hpassage).symm

/-- A location goes back to the device where the first way that has got there started. -/
theorem issuedTo_remapsAfter (past : List Event) :
    Remap.issuedTo (remapsAfter past) = originDev past := by
  funext l
  unfold Remap.issuedTo Remap.find? originDev
  rw [remapsAfter_eq, openWays, List.find?_filterMap]
  simp only [openWay_any]
  cases hfind : (List.range past.length).find? fun i => wayEnd past i = some l with
  | none => rfl
  | some i =>
    have hend : wayEnd past i = some l := by simpa using List.find?_some hfind
    rw [Option.bind_some, Option.bind_some, openWay, hend, Option.bind_some]
    cases wayStart past i <;> rfl

end KernelReplay
