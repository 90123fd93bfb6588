import Mathlib.Data.List.Nodup
import Mathlib.Data.List.Pairwise
import Mathlib.Data.List.Perm.Basic
import KernelReplay.Proofs.BlockPairing

/-
  Chains of remaps. On its way down stacked devices a request is remapped from one location to the
  next, and the ways of several requests mix. As long as no two of them share a location, what is
  remembered of each way is what would be remembered of it alone (`Remap.filter_recordAll`): one remap
  from its end back to its start. So a request that is issued at the end of a way waits on the device
  that the way started from, and its completion, like a back-merge at the end, forgets that way and no
  other (`Replay.chains_lead_to_origin`).
-/

namespace KernelReplay

open Update

/-- A part of a list without repetition is what the list has of it. -/
theorem filter_mem_of_sublist {α : Type} [DecidableEq α] {l part : List α} (hl : l.Nodup)
    (h : part.Sublist l) : l.filter (· ∈ part) = part := by
  have hsub := h.filter (· ∈ part)
  rw [List.filter_eq_self.2 fun a ha => decide_eq_true ha] at hsub
  have hsubset : l.filter (· ∈ part) ⊆ part := fun a ha => by simpa using (List.mem_filter.1 ha).2
  exact (hsub.eq_of_length_le (List.subperm_of_subset (hl.filter _) hsubset).length_le).symm

/-! ## What is remembered of steps -/

namespace Remap

variable {p : Location → Bool} {remaps steps : List Remap} {source target : Location}

/-- The remaps after steps, each of which is a remap of its own. -/
def recordAll (remaps steps : List Remap) : List Remap :=
  steps.foldl (fun remaps step => record step.origin step.current remaps) remaps

theorem recordAll_cons (remaps : List Remap) (step : Remap) (steps : List Remap) :
    recordAll remaps (step :: steps) = recordAll (record step.origin step.current remaps) steps := rfl

/-- Every remap has both its ends in a class of locations, or none. -/
def Splits (p : Location → Bool) (remaps : List Remap) : Prop :=
  ∀ m ∈ remaps, p m.current = p m.origin

theorem Splits.record (hr : Splits p remaps) (hst : p target = p source) :
    Splits p (record source target remaps) := by
  induction remaps with
  | nil =>
    intro m hm
    rw [List.mem_singleton.1 hm]
    exact hst
  | cons m rest ih =>
    obtain ⟨hhead, hrest⟩ := List.forall_mem_cons.1 hr
    unfold Remap.record
    split
    · rename_i hm
      refine List.forall_mem_cons.2 ⟨?_, hrest⟩
      rw [hst, ← hm]
      exact hhead
    · exact List.forall_mem_cons.2 ⟨hhead, ih hrest⟩

/-- A step shows in the class of its ends and nowhere else. -/
theorem filter_record (hr : Splits p remaps) :
    (record source target remaps).filter (p ·.origin) =
      if p source then record source target (remaps.filter (p ·.origin))
      else remaps.filter (p ·.origin) := by
  induction remaps with
  | nil => cases hp : p source <;> simp [record, hp]
  | cons m rest ih =>
    obtain ⟨hhead, hrest⟩ := List.forall_mem_cons.1 hr
    by_cases hm : m.current = source
    · have horigin : p m.origin = p source := by rw [← hhead, hm]
      cases hp : p source <;> simp [record, hm, horigin, hp]
    · cases horigin : p m.origin <;> cases hp : p source <;>
        simp [record, hm, horigin, hp, ih hrest]

/-- What is remembered of a class of locations is what its own steps leave. -/
theorem filter_recordAll (hr : Splits p remaps) (hs : Splits p steps) :
    (recordAll remaps steps).filter (p ·.origin) =
      recordAll (remaps.filter (p ·.origin)) (steps.filter (p ·.origin)) := by
  induction steps generalizing remaps with
  | nil => rfl
  | cons step rest ih =>
    obtain ⟨hhead, hrest⟩ := List.forall_mem_cons.1 hs
    rw [recordAll_cons, ih (hr.record hhead) hrest, filter_record hr]
    rw [List.filter_cons]
    split
    · exact (recordAll_cons _ _ _).symm
    · rfl

/-- A step leads a remap on or starts one. -/
theorem origins_record (source target : Location) (remaps : List Remap) :
    (record source target remaps).map (·.origin) = remaps.map (·.origin) ∨
      (record source target remaps).map (·.origin) = remaps.map (·.origin) ++ [source] := by
  induction remaps with
  | nil => exact Or.inr rfl
  | cons m rest ih =>
    unfold record
    split
    · exact Or.inl rfl
    · simpa using ih

/-- Remaps are remembered in the order of the steps that started them. -/
theorem origins_recordAll (remaps steps : List Remap) :
    ∃ started, List.Sublist started (steps.map (·.origin)) ∧
      (recordAll remaps steps).map (·.origin) = remaps.map (·.origin) ++ started := by
  induction steps generalizing remaps with
  | nil => exact ⟨[], List.Sublist.slnil, (List.append_nil _).symm⟩
  | cons step rest ih =>
    obtain ⟨started, hsub, hall⟩ := ih (record step.origin step.current remaps)
    rw [recordAll_cons, hall]
    rcases origins_record step.origin step.current remaps with hsame | hnew
    · exact ⟨started, hsub.cons _, by rw [hsame]⟩
    · exact ⟨step.origin :: started, hsub.cons_cons _, by simp [hnew]⟩

/-- The steps from a location through others, one after the other. -/
def along : Location → List Location → List Remap
  | _, [] => []
  | source, target :: rest => { current := target, origin := source } :: along target rest

theorem mem_along {l : Location} {hops : List Location} {step : Remap} (h : step ∈ along l hops) :
    step.origin ∈ l :: hops ∧ step.current ∈ l :: hops := by
  induction hops generalizing l with
  | nil => cases h
  | cons target rest ih =>
    rcases List.mem_cons.1 h with rfl | h
    · exact ⟨List.mem_cons_self, List.mem_cons_of_mem _ List.mem_cons_self⟩
    · exact (ih h).imp (List.mem_cons_of_mem l) (List.mem_cons_of_mem l)

theorem origins_along (l : Location) (hops : List Location) :
    List.Sublist ((along l hops).map (·.origin)) (l :: hops) := by
  induction hops generalizing l with
  | nil => exact List.nil_sublist _
  | cons target rest ih => exact (ih target).cons_cons l

/-- A remap that is led along locations ends at the last of them. -/
theorem recordAll_along (l origin : Location) (hops : List Location) :
    recordAll [{ current := l, origin }] (along l hops) =
      [{ current := (l :: hops).getLast (List.cons_ne_nil l hops), origin }] := by
  induction hops generalizing l with
  | nil => rfl
  | cons target rest ih =>
    have hstep : record l target [{ current := l, origin }] = [{ current := target, origin }] :=
      if_pos rfl
    rw [along, recordAll_cons, hstep, ih, List.getLast_cons_cons]

/-- Of remaps that end at different locations, at most one ends at a location. -/
theorem release_eq_discard (h : (remaps.map (·.current)).Nodup) (l : Location) :
    release remaps l = discard remaps l := by
  unfold release discard
  induction remaps with
  | nil => rfl
  | cons m rest ih =>
    obtain ⟨hhead, hrest⟩ := List.nodup_cons.1 h
    by_cases hm : m.current = l
    · have hothers : ∀ m' ∈ rest, m'.current ≠ l := fun m' hmem heq =>
        hhead (List.mem_map.2 ⟨m', hmem, heq.trans hm.symm⟩)
      rw [List.eraseP_cons_of_pos (by simpa using hm), List.filter_cons_of_neg (by simpa using hm)]
      exact (List.filter_eq_self.2 fun m' hmem => by simpa using hothers m' hmem).symm
    · rw [List.eraseP_cons_of_neg (by simpa using hm), List.filter_cons_of_pos (by simpa using hm),
        ih hrest]

end Remap

/-! ## Chains -/

/-- The way of a request down stacked devices: where it was issued, and the locations that it was
remapped to, one after the other. -/
structure RemapChain where
  origin : Location
  hops : List Location
  moved : hops ≠ []
  deriving DecidableEq

namespace RemapChain

/-- Every location on the way. -/
def locations (c : RemapChain) : List Location := c.origin :: c.hops

/-- Where the way ends. -/
def stop (c : RemapChain) : Location := c.hops.getLast c.moved

/-- The steps of the way. -/
def steps (c : RemapChain) : List Remap := Remap.along c.origin c.hops

/-- The way as one remap. -/
def record (c : RemapChain) : Remap := { current := c.stop, origin := c.origin }

/-- Steps mix those of chains: each belongs to a chain, and those of a chain come in its order. -/
structure Mixes (chains : List RemapChain) (steps : List Remap) : Prop where
  starts : ∀ step ∈ steps, ∃ c ∈ chains, step.origin ∈ c.locations
  inOrder : ∀ c ∈ chains, steps.filter (·.origin ∈ c.locations) = c.steps

/-- The chains in the order of their first steps. -/
def byStart (chains : List RemapChain) (steps : List Remap) : List RemapChain :=
  steps.filterMap fun step => chains.find? fun c => c.origin = step.origin

theorem origin_mem (c : RemapChain) : c.origin ∈ c.locations := List.mem_cons_self

theorem stop_mem (c : RemapChain) : c.stop ∈ c.locations :=
  List.mem_cons_of_mem _ (List.getLast_mem c.moved)

theorem recordAll_steps (c : RemapChain) : Remap.recordAll [] c.steps = [c.record] := by
  obtain ⟨origin, hops, moved⟩ := c
  cases hops with
  | nil => exact (moved rfl).elim
  | cons first rest => exact Remap.recordAll_along first origin rest

/-- The first step of a chain starts at its origin. -/
theorem exists_first_step (c : RemapChain) : ∃ step ∈ c.steps, step.origin = c.origin := by
  obtain ⟨origin, hops, moved⟩ := c
  cases hops with
  | nil => exact (moved rfl).elim
  | cons first rest => exact ⟨_, List.mem_cons_self, rfl⟩

section Family

variable {chains : List RemapChain} {steps : List Remap} {c c' : RemapChain} {l : Location}
  (hdistinct : (chains.flatMap locations).Nodup)

include hdistinct

/-- A location is on one way only. -/
theorem eq_of_mem (hc : c ∈ chains) (hc' : c' ∈ chains) (hl : l ∈ c.locations)
    (hl' : l ∈ c'.locations) : c = c' := by
  by_contra hne
  have hsymm : Std.Symm (Function.onFun List.Disjoint locations) := ⟨fun _ _ => List.disjoint_symm⟩
  exact (List.nodup_flatMap.1 hdistinct).2.forall hc hc' hne hl hl'

theorem nodup_chains : chains.Nodup := by
  refine (List.nodup_flatMap.1 hdistinct).2.imp fun {c c'} hdisjoint heq => ?_
  subst heq
  exact hdisjoint c.origin_mem c.origin_mem

/-- A chain is found by its origin. -/
theorem find?_eq_some_iff : chains.find? (·.origin = l) = some c ↔ c ∈ chains ∧ c.origin = l := by
  constructor
  · intro h
    exact ⟨List.mem_of_find?_eq_some h, by simpa using List.find?_some h⟩
  · rintro ⟨hc, rfl⟩
    have hsome : (chains.find? (·.origin = c.origin)).isSome :=
      List.find?_isSome.2 ⟨c, hc, decide_eq_true rfl⟩
    obtain ⟨c', hfind⟩ := Option.isSome_iff_exists.1 hsome
    have horigin : c'.origin = c.origin := by simpa using List.find?_some hfind
    rw [hfind, eq_of_mem hdistinct (List.mem_of_find?_eq_some hfind) hc c'.origin_mem
      (horigin ▸ c.origin_mem)]

namespace Mixes

variable (hmix : Mixes chains steps)

include hmix

omit hdistinct in
theorem mem_steps (hc : c ∈ chains) : ∀ {step}, step ∈ c.steps ↔
    step ∈ steps ∧ step.origin ∈ c.locations := by
  intro step
  rw [← hmix.inOrder c hc, List.mem_filter, decide_eq_true_iff]

/-- Every step stays on its way. -/
theorem splits (hc : c ∈ chains) : Remap.Splits (fun l => l ∈ c.locations) steps := by
  intro step hstep
  obtain ⟨c', hc', horigin⟩ := hmix.starts step hstep
  have hcurrent := (Remap.mem_along ((hmix.mem_steps hc').2 ⟨hstep, horigin⟩)).2
  have heq : step.current ∈ c.locations ↔ step.origin ∈ c.locations := by
    constructor
    · intro h
      rwa [eq_of_mem hdistinct hc hc' h hcurrent]
    · intro h
      rwa [eq_of_mem hdistinct hc hc' h horigin]
  simp only [heq]

/-- Of each chain its record is remembered. -/
theorem filter_recordAll (hc : c ∈ chains) :
    (Remap.recordAll [] steps).filter (·.origin ∈ c.locations) = [c.record] := by
  have hnone : Remap.Splits (· ∈ c.locations) [] := by nofun
  rw [Remap.filter_recordAll hnone (hmix.splits hdistinct hc), hmix.inOrder c hc]
  exact c.recordAll_steps

/-- The steps start at different locations. -/
theorem nodup_origins : (steps.map (·.origin)).Nodup := by
  rw [List.nodup_iff_count_le_one]
  intro l
  by_cases hl : ∃ c ∈ chains, l ∈ c.locations
  · obtain ⟨c, hc, hl⟩ := hl
    have hown : (steps.map (·.origin)).filter (· ∈ c.locations) = c.steps.map (·.origin) := by
      rw [List.filter_map, ← hmix.inOrder c hc]
      rfl
    have hnodup : (c.steps.map (·.origin)).Nodup :=
      (Remap.origins_along c.origin c.hops).nodup ((List.nodup_flatMap.1 hdistinct).1 c hc)
    rw [← List.count_filter (p := (· ∈ c.locations)) (by simpa using hl), hown]
    exact List.nodup_iff_count_le_one.1 hnodup l
  · rw [List.count_eq_zero.2]
    · exact Nat.zero_le 1
    · intro hmem
      obtain ⟨step, hstep, rfl⟩ := List.mem_map.1 hmem
      exact hl (hmix.starts step hstep)

theorem nodup_origins_recordAll : ((Remap.recordAll [] steps).map (·.origin)).Nodup := by
  obtain ⟨started, hsub, horigins⟩ := Remap.origins_recordAll [] steps
  rw [horigins]
  exact (hmix.nodup_origins hdistinct).sublist hsub

/-- What is remembered is the record of a chain. -/
theorem eq_record {m : Remap} (hm : m ∈ Remap.recordAll [] steps) :
    ∃ c ∈ chains, m = c.record := by
  obtain ⟨started, hsub, horigins⟩ := Remap.origins_recordAll [] steps
  have horigin : m.origin ∈ started := by
    rw [List.map_nil, List.nil_append] at horigins
    rw [← horigins]
    exact List.mem_map.2 ⟨m, hm, rfl⟩
  have hmem := hsub.subset horigin
  obtain ⟨step, hstep, heq⟩ := List.mem_map.1 hmem
  obtain ⟨c, hc, hl⟩ := hmix.starts step hstep
  refine ⟨c, hc, List.mem_singleton.1 ?_⟩
  rw [← hmix.filter_recordAll hdistinct hc]
  exact List.mem_filter.2 ⟨hm, by simpa [← heq] using hl⟩

theorem record_mem (hc : c ∈ chains) : c.record ∈ Remap.recordAll [] steps := by
  have hmem : c.record ∈ (Remap.recordAll [] steps).filter (·.origin ∈ c.locations) := by
    rw [hmix.filter_recordAll hdistinct hc]
    exact List.mem_singleton_self _
  exact (List.mem_filter.1 hmem).1

/-- One record is remembered per chain, in the order of the chains' first steps. -/
theorem recordAll_eq : Remap.recordAll [] steps = (byStart chains steps).map record := by
  obtain ⟨started, hsub, horigins⟩ := Remap.origins_recordAll [] steps
  rw [List.map_nil, List.nil_append] at horigins
  have hnone : ∀ l, l ∉ started → chains.find? (·.origin = l) = none := by
    intro l hl
    refine Option.eq_none_iff_forall_ne_some.2 fun c hfind => hl ?_
    obtain ⟨hc, rfl⟩ := (find?_eq_some_iff hdistinct).1 hfind
    rw [← horigins]
    exact List.mem_map.2 ⟨c.record, hmix.record_mem hdistinct hc, rfl⟩
  -- Steps that start no remap are no first steps of chains.
  have hstart : byStart chains steps = started.filterMap fun l => chains.find? (·.origin = l) := by
    rw [← filter_mem_of_sublist (hmix.nodup_origins hdistinct) hsub, List.filterMap_filter,
      List.filterMap_map]
    refine List.filterMap_congr fun step _ => ?_
    by_cases hl : step.origin ∈ started
    · simp [hl]
    · simp [hl, hnone step.origin hl]
  rw [hstart, ← horigins, List.filterMap_map, List.map_filterMap]
  refine ((List.filterMap_congr fun m hm => ?_).trans List.filterMap_some).symm
  obtain ⟨c, hc, rfl⟩ := hmix.eq_record hdistinct hm
  have hfind := (find?_eq_some_iff hdistinct).2 ⟨hc, rfl⟩
  exact congrArg (Option.map record) hfind

theorem byStart_perm : (byStart chains steps).Perm chains := by
  have hnodup := hmix.nodup_origins_recordAll hdistinct
  rw [hmix.recordAll_eq hdistinct, List.map_map] at hnodup
  refine (List.perm_ext_iff_of_nodup hnodup.of_map (nodup_chains hdistinct)).2 fun c => ?_
  constructor
  · intro hc
    obtain ⟨step, -, hfind⟩ := List.mem_filterMap.1 hc
    exact ((find?_eq_some_iff hdistinct).1 hfind).1
  · intro hc
    obtain ⟨step, hstep, horigin⟩ := c.exists_first_step
    refine List.mem_filterMap.2 ⟨step, ((hmix.mem_steps hc).1 hstep).1, ?_⟩
    exact (find?_eq_some_iff hdistinct).2 ⟨hc, horigin.symm⟩

/-! ### The end of a chain -/

theorem eq_record_of_current (hc : c ∈ chains) {m : Remap} (hm : m ∈ Remap.recordAll [] steps)
    (hcurrent : m.current = c.stop) : m = c.record := by
  obtain ⟨c', hc', rfl⟩ := hmix.eq_record hdistinct hm
  have hstop : c'.stop = c.stop := hcurrent
  rw [eq_of_mem hdistinct hc' hc c'.stop_mem (hstop ▸ c.stop_mem)]

/-- The end of a chain leads back to its start. -/
theorem issuedTo_stop (hc : c ∈ chains) :
    Remap.issuedTo (Remap.recordAll [] steps) c.stop = c.origin.dev := by
  unfold Remap.issuedTo Remap.find?
  have hsome : ((Remap.recordAll [] steps).find? (·.current = c.stop)).isSome :=
    List.find?_isSome.2 ⟨c.record, hmix.record_mem hdistinct hc, decide_eq_true rfl⟩
  obtain ⟨m, hfind⟩ := Option.isSome_iff_exists.1 hsome
  have hcurrent : m.current = c.stop := by simpa using List.find?_some hfind
  rw [hfind, hmix.eq_record_of_current hdistinct hc (List.mem_of_find?_eq_some hfind) hcurrent]
  rfl

/-- What is forgotten at the end of a chain is its record alone. -/
theorem discard_stop (hc : c ∈ chains) : Remap.discard (Remap.recordAll [] steps) c.stop =
    (Remap.recordAll [] steps).erase c.record := by
  rw [(hmix.nodup_origins_recordAll hdistinct).of_map.erase_eq_filter]
  refine List.filter_congr fun m hm => ?_
  have heq : m.current = c.stop ↔ m = c.record :=
    ⟨hmix.eq_record_of_current hdistinct hc hm, fun heq => by rw [heq]; rfl⟩
  rw [Bool.eq_iff_iff, decide_eq_true_iff, bne_iff_ne]
  exact not_congr heq

theorem release_stop (hc : c ∈ chains) : Remap.release (Remap.recordAll [] steps) c.stop =
    (Remap.recordAll [] steps).erase c.record := by
  rw [Remap.release_eq_discard, hmix.discard_stop hdistinct hc]
  refine List.Nodup.map_on (fun m hm m' hm' hcurrent => ?_)
    (hmix.nodup_origins_recordAll hdistinct).of_map
  obtain ⟨c', hc', rfl⟩ := hmix.eq_record hdistinct hm'
  exact hmix.eq_record_of_current hdistinct hc' hm hcurrent

end Mixes

end Family

end RemapChain

/-! ## Events -/

/-- The event tells a step: what is at one location was remapped to another. -/
structure Event.Remaps (e : Event) (step : Remap) : Prop where
  kind : e.kind? = some .blockRemap
  source : e.From step.origin
  target : e.At step.current

theorem Subsystem.effect_remapping {kind : EventKind} (h : kind = .blockRemap ∨ kind = .blockBackmerge)
    (e : Event) (remaps : List Remap) : effect kind e remaps = BlockRequests.apply kind e remaps := by
  rcases h with rfl | rfl <;>
    simp only [effect, Scheduling.apply, Paging.apply, Interrupts.apply, Syscalls.apply,
      IoRequests.apply, Snapshot.apply, Traffic.apply, pure_bind, bind_pure]

namespace State

/-- A request comes to wait. -/
def putPending (s : State) (rq : BlockRequest) : State :=
  s.updateDisk rq.dev fun d => { d with pending := d.pending.insert rq.sector rq }

/-- No request waits at a place any more. -/
def erasePending (s : State) (place : Location) : State :=
  s.updateDisk place.dev fun d => { d with pending := d.pending.erase place.sector }

theorem pendingAt_putPending (s : State) (rq : BlockRequest) (place : Location) :
    (s.putPending rq).pendingAt place = if place = rq.place then some rq else s.pendingAt place :=
  BlockRequests.pendingAt_place s rq place

end State

namespace BlockRequests

variable {e : Event} {remaps : List Remap} {l : Location} {sectors : Nat}

/-- A request that is issued waits on the device that its location leads back to. -/
theorem issue_run (h : e.Issues l sectors) (remaps : List Remap) (s : State) :
    ∃ rq flags signals,
      apply .blockIssue e remaps s = .ok ⟨remaps, s.putPending rq, signals⟩ ∧
      e.nat? "rwbs" = some flags ∧
      rq = { dev := Remap.issuedTo remaps l, sector := l.sector, sectors := sectors
             operation := if flags % 2 = 0 then .read else .write
             tid := e.int? "tid", begun := e.time } := by
  obtain ⟨rq, flags, hissue, hflags, hrq⟩ := h.issue? remaps
  obtain ⟨signals, hplace, -⟩ := place_run rq s
  refine ⟨rq, flags, signals, ?_, hflags, hrq⟩
  rw [Event.issue?_eq h.kind] at hissue
  unfold apply
  dsimp only
  rw [hissue, whenSome_some, bind_pure_run _ fun _ => remaps, hplace]
  rfl

theorem completion_run {s : State} {rq : BlockRequest} (h : e.Completes l sectors)
    (hwaits : s.pendingAt (Remap.placeOf remaps l) = some rq) (hsize : rq.sectors = sectors)
    (hfits : FitsSigned (e.time - rq.begun)) : ∃ thread, completion e remaps s = .ok
      ⟨Remap.release remaps l, s.erasePending (Remap.placeOf remaps l),
        [.notification (.blockComplete
          { rq with ended := some e.time, duration := some (e.time - rq.begun) } thread)]⟩ := by
  have hwaits : s.pendingAt { dev := Remap.issuedTo remaps l, sector := l.sector } = some rq := hwaits
  have hlocation : location? e "dev" "sector" = some l := Event.location?_eq_some_iff.2 h.location
  have hsectors : sectors? e = some sectors := by
    rw [sectors?, h.size, Option.filter_some, if_pos (decide_eq_true h.positive)]
  have hcompletes : FulfilsAt Law.any
      (complete (Remap.issuedTo remaps l) l.sector sectors e.time) s :=
    complete_succeeds fun rq' hrq' => Option.some.inj (hwaits.symm.trans hrq') ▸ hfits
  obtain ⟨o, ho, -⟩ := hcompletes
  unfold completion
  rw [hlocation, hsectors]
  dsimp only
  rw [bind_pure_run _ fun _ => Remap.release remaps l, ho]
  rcases complete_cases ho with ⟨-, -, hother⟩ | ⟨rq', completed, thread, hrq', -, hc, hs, hl⟩
  · exact (hother rq hwaits hsize).elim
  · obtain rfl : rq = rq' := Option.some.inj (hwaits.symm.trans hrq')
    obtain ⟨-, rfl⟩ := BlockRequest.complete_eq_ok_iff.1 hc
    refine ⟨thread, ?_⟩
    rw [Except.map, hs, hl]
    rfl

end BlockRequests

namespace Replay

variable {r : Replay} {remaps steps : List Remap} {events : List Event} {e : Event}

theorem process_remap {step : Remap} (hr : r.subsystems = Subsystem.standardWith remaps)
    (he : e.Remaps step) (hcount : FitsWord (r.processed + 1)) :
    r.process e = .ok
      { replay :=
          { r with
            subsystems := Subsystem.standardWith (Remap.record step.origin step.current remaps)
            processed := r.processed + 1 }
        signals := [] } := by
  have hsource : BlockRequests.location? e "old_dev" "old_sector" = some step.origin :=
    Event.location?_eq_some_iff.2 he.source
  have htarget : BlockRequests.location? e "dev" "sector" = some step.current :=
    Event.location?_eq_some_iff.2 he.target
  rw [process_of_kind hr he.kind, Subsystem.effect_remapping (Or.inl rfl),
    checkedSucc_eq_ok_iff.2 ⟨hcount, rfl⟩]
  unfold BlockRequests.apply BlockRequests.remap
  rw [hsource, htarget]
  rfl

theorem process_backmerge {l : Location} (hr : r.subsystems = Subsystem.standardWith remaps)
    (hk : e.kind? = some .blockBackmerge) (hat : e.At l) (hcount : FitsWord (r.processed + 1)) :
    r.process e = .ok
      { replay :=
          { r with
            subsystems := Subsystem.standardWith (Remap.discard remaps l)
            processed := r.processed + 1 }
        signals := [] } := by
  have hlocation : BlockRequests.location? e "dev" "sector" = some l :=
    Event.location?_eq_some_iff.2 hat
  rw [process_of_kind hr hk, Subsystem.effect_remapping (Or.inr rfl),
    checkedSucc_eq_ok_iff.2 ⟨hcount, rfl⟩]
  unfold BlockRequests.apply BlockRequests.backmerge
  rw [hlocation]
  rfl

theorem process_issue {l : Location} {sectors : Nat}
    (hr : r.subsystems = Subsystem.standardWith remaps) (he : e.Issues l sectors)
    (hcount : FitsWord (r.processed + 1)) :
    ∃ rq flags signals, r.process e = .ok
        { replay :=
            { state := r.state.putPending rq
              subsystems := Subsystem.standardWith remaps
              processed := r.processed + 1 }
          signals } ∧
      e.nat? "rwbs" = some flags ∧
      rq = { dev := Remap.issuedTo remaps l, sector := l.sector, sectors := sectors
             operation := if flags % 2 = 0 then .read else .write
             tid := e.int? "tid", begun := e.time } := by
  have hblock : EventKind.IsBlock .blockIssue := trivial
  obtain ⟨rq, flags, signals, happly, hflags, hrq⟩ := BlockRequests.issue_run he remaps r.state
  refine ⟨rq, flags, signals, ?_, hflags, hrq⟩
  rw [process_of_kind hr he.kind, Subsystem.effect_block e remaps hblock, happly,
    checkedSucc_eq_ok_iff.2 ⟨hcount, rfl⟩]
  rfl

theorem process_completion {l : Location} {sectors : Nat} {rq : BlockRequest}
    (hr : r.subsystems = Subsystem.standardWith remaps) (he : e.Completes l sectors)
    (hwaits : r.state.pendingAt (Remap.placeOf remaps l) = some rq) (hsize : rq.sectors = sectors)
    (hfits : FitsSigned (e.time - rq.begun)) (hcount : FitsWord (r.processed + 1)) :
    ∃ thread, r.process e = .ok
      { replay :=
          { state := r.state.erasePending (Remap.placeOf remaps l)
            subsystems := Subsystem.standardWith (Remap.release remaps l)
            processed := r.processed + 1 }
        signals := [.notification (.blockComplete
          { rq with ended := some e.time, duration := some (e.time - rq.begun) } thread)] } := by
  have hblock : EventKind.IsBlock .blockComplete := trivial
  obtain ⟨thread, hcomplete⟩ := BlockRequests.completion_run he hwaits hsize hfits
  refine ⟨thread, ?_⟩
  rw [process_of_kind hr he.kind, Subsystem.effect_block e remaps hblock,
    checkedSucc_eq_ok_iff.2 ⟨hcount, rfl⟩]
  unfold BlockRequests.apply
  dsimp only
  rw [hcomplete]
  rfl

/-- Steps that are told change nothing but what is remembered of them. -/
theorem run_remaps (hr : r.subsystems = Subsystem.standardWith remaps)
    (hevents : List.Forall₂ Event.Remaps events steps)
    (hcount : FitsWord (r.processed + events.length)) :
    r.run events = .ok
      { replay :=
          { r with
            subsystems := Subsystem.standardWith (Remap.recordAll remaps steps)
            processed := r.processed + events.length }
        signals := [] } := by
  induction hevents generalizing r remaps with
  | nil => rw [run, List.length_nil, Nat.add_zero, Remap.recordAll, List.foldl_nil, ← hr]
  | @cons e step rest steps he _ ih =>
    rw [List.length_cons] at hcount
    have hfirst := process_remap hr he (hcount.of_le (by omega))
    have hrest := ih (r := { r with
      subsystems := Subsystem.standardWith (Remap.record step.origin step.current remaps)
      processed := r.processed + 1 }) rfl (hcount.of_le (by dsimp only; omega))
    refine run_cons_eq_ok_iff.2 ⟨_, _, hfirst, hrest, ?_⟩
    rw [List.length_cons, Nat.add_assoc, Nat.add_comm 1]
    rfl

end Replay

/-! ## The end of a chain -/

/-- What follows at the end of a chain while remaps are remembered, that of the chain among them. -/
structure RemapChain.LeadsBack (c : RemapChain) (remaps : List Remap) (r : Replay) : Prop where
  /-- A back-merge forgets the chain and nothing else. -/
  merged : ∀ e : Event, e.kind? = some .blockBackmerge → e.At c.stop →
    ∃ p, r.process e = .ok p ∧ p.signals = [] ∧ p.replay.state = r.state ∧
      p.replay.subsystems = Subsystem.standardWith (remaps.erase c.record)
  /-- A request that is issued waits on the device of the chain's start, and only that device may be
  new. Its completion tells of it, and forgets the chain and nothing else. -/
  issued : ∀ (e : Event) (sectors : Nat), e.Issues c.stop sectors →
    ∃ p rq, r.process e = .ok p ∧ p.replay.subsystems = r.subsystems ∧
      rq.place = { dev := c.origin.dev, sector := c.stop.sector } ∧
      (∀ place, p.replay.state.pendingAt place =
        if place = rq.place then some rq else r.state.pendingAt place) ∧
      (∀ dev, dev ∈ p.replay.state.disks ↔ dev = c.origin.dev ∨ dev ∈ r.state.disks) ∧
      ∀ x : Event, x.Completes c.stop sectors → FitsSigned (x.time - e.time) →
        ∃ q done, p.replay.process x = .ok q ∧ blockExits q.signals = [done] ∧
          done.dev = c.origin.dev ∧ done.Spans e x c.stop sectors ∧
          q.replay.subsystems = Subsystem.standardWith (remaps.erase c.record) ∧
          ∀ dev, dev ∈ q.replay.state.disks ↔ dev ∈ p.replay.state.disks

/-- A chain leads back where its end goes back to its start, and the first remap from there is its own. -/
theorem RemapChain.leadsBack {c : RemapChain} {remaps : List Remap} {r : Replay}
    (hr : r.subsystems = Subsystem.standardWith remaps)
    (hback : Remap.issuedTo remaps c.stop = c.origin.dev)
    (hrelease : Remap.release remaps c.stop = remaps.erase c.record)
    (hdiscard : Remap.discard remaps c.stop = remaps.erase c.record)
    (hcount : FitsWord (r.processed + 2)) : c.LeadsBack remaps r := by
  have hnext : FitsWord (r.processed + 1) := hcount.of_le (Nat.le_succ _)
  refine ⟨fun e hk hat => ?_, fun e sectors he => ?_⟩
  · rw [Replay.process_backmerge hr hk hat hnext, hdiscard]
    exact ⟨_, rfl, rfl, rfl, rfl⟩
  obtain ⟨rq, flags, signals, hissue, hflags, hrq⟩ := Replay.process_issue hr he hnext
  have hplace : rq.place = Remap.placeOf remaps c.stop := by rw [hrq]; rfl
  have hdev : rq.dev = c.origin.dev := by rw [hrq]; exact hback
  have hbegun : rq.begun = e.time := by rw [hrq]
  have hsize : rq.sectors = sectors := by rw [hrq]
  have hdisks : ∀ dev, dev ∈ (r.state.putPending rq).disks ↔
      dev = c.origin.dev ∨ dev ∈ r.state.disks := by
    intro dev
    rw [← hdev]
    exact State.mem_disks_updateDisk ..
  refine ⟨_, rq, hissue, hr.symm, by rw [hplace, Remap.placeOf, hback],
    State.pendingAt_putPending r.state rq, hdisks, fun x hx hfits => ?_⟩
  have hwaits : (r.state.putPending rq).pendingAt (Remap.placeOf remaps c.stop) = some rq := by
    rw [State.pendingAt_putPending, if_pos hplace.symm]
  obtain ⟨thread, hended⟩ := Replay.process_completion
    (r := ⟨r.state.putPending rq, Subsystem.standardWith remaps, r.processed + 1⟩)
    rfl hx hwaits hsize (hbegun.symm ▸ hfits) hcount
  rw [hrelease] at hended
  refine ⟨_, _, hended, rfl, hdev,
    ⟨by rw [hrq], hsize, ⟨flags, hflags, by rw [hrq]⟩, by rw [hrq], hbegun, rfl, by rw [hbegun]⟩,
    rfl, fun dev => ?_⟩
  -- The device is known from the issue.
  rw [State.erasePending, State.mem_disks_updateDisk, hdisks, Remap.placeOf, hback]
  tauto

/-- Chains of remaps lead back to their starts: whatever way their steps mix, one remap is remembered
per chain, from its end to its start, in the order of the first steps. -/
theorem Replay.chains_lead_to_origin {r : Replay} {chains : List RemapChain} {steps : List Remap}
    {events : List Event} (hr : r.subsystems = Subsystem.standardWith [])
    (hdistinct : (chains.flatMap RemapChain.locations).Nodup) (hmix : RemapChain.Mixes chains steps)
    (hevents : List.Forall₂ Event.Remaps events steps)
    (hcount : FitsWord (r.processed + events.length + 2)) :
    (RemapChain.byStart chains steps).Perm chains ∧
    ∃ p, r.run events = .ok p ∧ p.signals = [] ∧ p.replay.state = r.state ∧
      p.replay.subsystems =
        Subsystem.standardWith ((RemapChain.byStart chains steps).map RemapChain.record) ∧
      ∀ c ∈ chains,
        c.LeadsBack ((RemapChain.byStart chains steps).map RemapChain.record) p.replay := by
  refine ⟨hmix.byStart_perm hdistinct, ?_⟩
  rw [← hmix.recordAll_eq hdistinct]
  have hrun := run_remaps hr hevents (hcount.of_le (Nat.le_add_right _ 2))
  refine ⟨_, hrun, rfl, rfl, rfl, fun c hc => ?_⟩
  exact RemapChain.leadsBack rfl (hmix.issuedTo_stop hdistinct hc) (hmix.release_stop hdistinct hc)
    (hmix.discard_stop hdistinct hc) hcount

/-- A request is remapped twice, and in between another one once. -/
def crossingRemaps : List Event :=
  [locatedEvent 1 "block_bio_remap" 3 300 [("old_dev", .unsigned 5), ("old_sector", .unsigned 500)],
   locatedEvent 2 "block_bio_remap" 2 200 [("old_dev", .unsigned 6), ("old_sector", .unsigned 600)],
   locatedEvent 3 "block_bio_remap" 1 100 [("old_dev", .unsigned 3), ("old_sector", .unsigned 300)]]

/-- The ways of the two requests. -/
def crossingChains : List RemapChain :=
  [{ origin := ⟨6, 600⟩, hops := [⟨2, 200⟩], moved := List.cons_ne_nil _ _ },
   { origin := ⟨5, 500⟩, hops := [⟨3, 300⟩, ⟨1, 100⟩], moved := List.cons_ne_nil _ _ }]

/-- Eight sectors are read from where the first request ends. -/
def crossingRead : Event :=
  locatedEvent 10 "block_rq_issue" 1 100
    [("nr_sector", .unsigned 8), ("rwbs", .unsigned 0), ("tid", .signed 42)]

def crossingReadEnd : Event :=
  locatedEvent 30 "block_rq_complete" 1 100 [("nr_sector", .unsigned 8)]

theorem Replay.crossingRemaps_lead_to_origin :
    ∃ p p' q done, (Replay.ofSettings {}).run crossingRemaps = .ok p ∧
      p.replay.subsystems = Subsystem.standardWith
        [{ current := ⟨1, 100⟩, origin := ⟨5, 500⟩ }, { current := ⟨2, 200⟩, origin := ⟨6, 600⟩ }] ∧
      p.replay.process crossingRead = .ok p' ∧
      (p'.replay.state.pendingAt ⟨5, 100⟩).isSome ∧
      p'.replay.process crossingReadEnd = .ok q ∧ blockExits q.signals = [done] ∧ done.dev = 5 ∧
      done.Spans crossingRead crossingReadEnd ⟨1, 100⟩ 8 ∧
      q.replay.subsystems =
        Subsystem.standardWith [{ current := ⟨2, 200⟩, origin := ⟨6, 600⟩ }] := by
  have hmix : RemapChain.Mixes crossingChains
      [{ current := ⟨3, 300⟩, origin := ⟨5, 500⟩ }, { current := ⟨2, 200⟩, origin := ⟨6, 600⟩ },
       { current := ⟨1, 100⟩, origin := ⟨3, 300⟩ }] := ⟨by decide, by decide⟩
  have hevents : List.Forall₂ Event.Remaps crossingRemaps
      [{ current := ⟨3, 300⟩, origin := ⟨5, 500⟩ }, { current := ⟨2, 200⟩, origin := ⟨6, 600⟩ },
       { current := ⟨1, 100⟩, origin := ⟨3, 300⟩ }] :=
    .cons ⟨by decide +kernel, by decide +kernel, by decide +kernel⟩
      (.cons ⟨by decide +kernel, by decide +kernel, by decide +kernel⟩
        (.cons ⟨by decide +kernel, by decide +kernel, by decide +kernel⟩ .nil))
  obtain ⟨-, p, hrun, -, -, hremaps, hback⟩ := Replay.chains_lead_to_origin
    (r := Replay.ofSettings {}) rfl (by decide) hmix hevents (by decide)
  obtain ⟨p', rq, hissue, -, hplace, hpending, -, hcompletion⟩ :=
    (hback crossingChains[1] (by decide)).issued crossingRead 8
      ⟨by decide +kernel, by decide +kernel, by decide +kernel, by decide, by decide +kernel⟩
  obtain ⟨q, done, hended, htold, hdev, hspans, hrest, -⟩ := hcompletion crossingReadEnd
    ⟨by decide +kernel, by decide +kernel, by decide +kernel, by decide⟩ (by decide +kernel)
  have hwaits : p'.replay.state.pendingAt ⟨5, 100⟩ = some rq := by
    rw [hpending, hplace]
    exact if_pos rfl
  exact ⟨p, p', q, done, hrun, hremaps, hissue, by rw [hwaits]; rfl, hended, htold, hdev, hspans,
    hrest⟩

end KernelReplay
