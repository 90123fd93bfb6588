import KernelReplay.Proofs.BlockLedger

/-
  Which completion ends the request of which issue, as seen from the location that both name. A
  request waits under the device that its location goes back to and under the sector of the location
  itself. As long as no event names the location, that device stays the same, so the completion finds
  the request of the issue (`Run.completion_of_issue`), unless an event at another location got there
  first: two locations with the same sector that go back to one device share a place, and only one
  request can wait there (`mirroredLegs_meet`).
-/

namespace KernelReplay

/-! ## Remaps of other locations -/

namespace Remap

variable {l other source target : Location}

theorem find?_record (hs : source ≠ l) (ht : target ≠ l) (remaps : List Remap) :
    find? (record source target remaps) l = find? remaps l := by
  unfold find?
  induction remaps with
  | nil => simp [record, ht]
  | cons m rest ih =>
    unfold record
    by_cases hm : m.current = source
    · simp [hm, hs, ht]
    · rw [if_neg hm, List.find?_cons, List.find?_cons, ih]

theorem find?_release (h : other ≠ l) (remaps : List Remap) :
    find? (release remaps other) l = find? remaps l := by
  unfold find? release
  induction remaps with
  | nil => rfl
  | cons m rest ih =>
    by_cases hm : m.current = other
    · simp [hm, h]
    · rw [List.eraseP_cons_of_neg (by simpa using hm), List.find?_cons, List.find?_cons, ih]

theorem find?_discard (h : other ≠ l) (remaps : List Remap) :
    find? (discard remaps other) l = find? remaps l := by
  unfold find? discard
  rw [List.find?_filter]
  congr 1
  funext m
  by_cases hm : m.current = l
  · simp [hm, h.symm]
  · simp [hm]

/-- Where a request that is seen at a location waits. -/
def placeOf (remaps : List Remap) (l : Location) : Location :=
  { dev := issuedTo remaps l, sector := l.sector }

end Remap

/-! ## Events and locations -/

namespace Event

/-- The location that the event is about. -/
def At (e : Event) (l : Location) : Prop :=
  e.nat? "dev" = some l.dev ∧ e.nat? "sector" = some l.sector

instance (e : Event) (l : Location) : Decidable (e.At l) := inferInstanceAs (Decidable (_ ∧ _))

/-- The location that the event says a request was remapped from. -/
def From (e : Event) (l : Location) : Prop :=
  e.nat? "old_dev" = some l.dev ∧ e.nat? "old_sector" = some l.sector

instance (e : Event) (l : Location) : Decidable (e.From l) := inferInstanceAs (Decidable (_ ∧ _))

/-- An event about block requests names the location that it is about and the one that it starts
from. -/
def NamesLocation (e : Event) (l : Location) : Prop :=
  e.kind? ∈ [some .blockRemap, some .blockBackmerge, some .blockIssue, some .blockComplete] ∧
    (e.At l ∨ e.From l)

instance (e : Event) (l : Location) : Decidable (e.NamesLocation l) :=
  inferInstanceAs (Decidable (_ ∧ _))

/-- The event issues a request of a size at a location. -/
structure Issues (e : Event) (l : Location) (sectors : Nat) : Prop where
  kind : e.kind? = some .blockIssue
  location : e.At l
  size : e.nat? "nr_sector" = some sectors
  positive : sectors ≠ 0
  flags : (e.nat? "rwbs").isSome

/-- The event completes a request of a size at a location. -/
structure Completes (e : Event) (l : Location) (sectors : Nat) : Prop where
  kind : e.kind? = some .blockComplete
  location : e.At l
  size : e.nat? "nr_sector" = some sectors
  positive : sectors ≠ 0

/-- At another location of the same sector that goes back to the same device, the event issues a
request or completes one of the size. -/
def Crosses (e : Event) (remaps : List Remap) (l : Location) (sectors : Nat) : Prop :=
  ∃ other : Location, other ≠ l ∧ other.sector = l.sector ∧
    Remap.issuedTo remaps other = Remap.issuedTo remaps l ∧
    ((∃ size, e.Issues other size) ∨ e.Completes other sectors)

theorem location?_eq_some_iff {e : Event} {devField sectorField : String} {l : Location} :
    BlockRequests.location? e devField sectorField = some l ↔
      e.nat? devField = some l.dev ∧ e.nat? sectorField = some l.sector := by
  unfold BlockRequests.location?
  cases l
  cases e.nat? devField <;> cases e.nat? sectorField <;> simp

/-- Where a location goes back to changes only by events that name it. -/
theorem issuedTo_remapsFrom {e : Event} {l : Location} (h : ¬ e.NamesLocation l)
    (remaps : List Remap) :
    Remap.issuedTo (e.remapsFrom remaps) l = Remap.issuedTo remaps l := by
  suffices hfind : Remap.find? (e.remapsFrom remaps) l = Remap.find? remaps l by
    unfold Remap.issuedTo
    rw [hfind]
  have hnot : ∀ {devField sectorField : String} {other : Location},
      BlockRequests.location? e devField sectorField = some other →
      ¬ (e.nat? devField = some l.dev ∧ e.nat? sectorField = some l.sector) → other ≠ l := by
    rintro devField sectorField other hother hl rfl
    exact hl (location?_eq_some_iff.1 hother)
  unfold remapsFrom
  split
  · rename_i hk
    have hat := fun hl => h ⟨by simp [hk], Or.inl hl⟩
    have hfrom := fun hl => h ⟨by simp [hk], Or.inr hl⟩
    unfold BlockRequests.remap
    split
    · rename_i source target hsource htarget
      exact Remap.find?_record (hnot hsource hfrom) (hnot htarget hat) remaps
    · rfl
  · rename_i hk
    have hat := fun hl => h ⟨by simp [hk], Or.inl hl⟩
    unfold BlockRequests.backmerge
    split
    · rename_i location hlocation
      exact Remap.find?_discard (hnot hlocation hat) remaps
    · rfl
  · rename_i hk
    have hat := fun hl => h ⟨by simp [hk], Or.inl hl⟩
    split
    · rename_i location sectors hlocation _
      exact Remap.find?_release (hnot hlocation hat) remaps
    · rfl
  · rfl

variable {e : Event} {remaps : List Remap} {l : Location} {sectors : Nat}

/-- What an accepted issue issues. -/
theorem Issues.issue? (h : e.Issues l sectors) (remaps : List Remap) :
    ∃ rq flags, e.issue? (Remap.issuedTo remaps) = some rq ∧ e.nat? "rwbs" = some flags ∧
      rq = { dev := Remap.issuedTo remaps l, sector := l.sector, sectors := sectors
             operation := if flags % 2 = 0 then .read else .write
             tid := e.int? "tid", begun := e.time } := by
  obtain ⟨flags, hflags⟩ := Option.isSome_iff_exists.1 h.flags
  refine ⟨_, flags, ?_, hflags, rfl⟩
  unfold Event.issue?
  rw [h.kind, h.location.1, h.location.2, h.size, hflags]
  exact if_neg h.positive

theorem issues_of_issue? {rq : BlockRequest} (h : e.issue? (Remap.issuedTo remaps) = some rq) :
    ∃ seen, e.Issues seen rq.sectors ∧
      rq.place = Remap.placeOf remaps seen := by
  unfold Event.issue? at h
  split at h
  · rename_i dev sector size flags hk hdev hsector hsize hflags
    split at h
    · cases h
    · rename_i hpositive
      cases h
      exact ⟨{ dev, sector }, ⟨hk, ⟨hdev, hsector⟩, hsize, hpositive, by simp [hflags]⟩, rfl⟩
  · cases h

theorem Completes.completion? (h : e.Completes l sectors) (remaps : List Remap) :
    e.completion? (Remap.issuedTo remaps) =
      some (Remap.placeOf remaps l, sectors) := by
  unfold Event.completion?
  rw [h.kind, h.location.1, h.location.2, h.size]
  exact if_neg h.positive

theorem completes_of_completion? {place : Location}
    (h : e.completion? (Remap.issuedTo remaps) = some (place, sectors)) :
    ∃ seen, e.Completes seen sectors ∧
      place = Remap.placeOf remaps seen := by
  unfold Event.completion? at h
  split at h
  · rename_i dev sector size hk hdev hsector hsize
    split at h
    · cases h
    · rename_i hpositive
      cases h
      exact ⟨{ dev, sector }, ⟨hk, ⟨hdev, hsector⟩, hsize, hpositive⟩, rfl⟩
  · cases h

theorem names_of_issues (h : e.Issues l sectors) : e.NamesLocation l :=
  ⟨by simp [h.kind], Or.inl h.location⟩

theorem names_of_completes (h : e.Completes l sectors) : e.NamesLocation l :=
  ⟨by simp [h.kind], Or.inl h.location⟩

/-- An event that neither names a location nor crosses it issues nothing where requests at the
location wait. -/
theorem place_ne_of_issue? (hnames : ¬ e.NamesLocation l) (hcrosses : ¬ e.Crosses remaps l sectors)
    {rq : BlockRequest} (h : e.issue? (Remap.issuedTo remaps) = some rq) :
    rq.place ≠ Remap.placeOf remaps l := by
  obtain ⟨seen, hissues, hplace⟩ := issues_of_issue? h
  have hne : seen ≠ l := by
    rintro rfl
    exact hnames (names_of_issues hissues)
  intro heq
  obtain ⟨hdev, hsector⟩ := Location.mk.inj (hplace.symm.trans heq)
  exact hcrosses ⟨seen, hne, hsector, hdev, Or.inl ⟨_, hissues⟩⟩

/-- Nor does it complete a request of the size there. -/
theorem completion?_ne (hnames : ¬ e.NamesLocation l) (hcrosses : ¬ e.Crosses remaps l sectors) :
    e.completion? (Remap.issuedTo remaps) ≠ some (Remap.placeOf remaps l, sectors) := by
  intro h
  obtain ⟨seen, hcompletes, hplace⟩ := completes_of_completion? h
  have hne : seen ≠ l := by
    rintro rfl
    exact hnames (names_of_completes hcompletes)
  obtain ⟨hdev, hsector⟩ := Location.mk.inj hplace
  exact hcrosses ⟨seen, hne, hsector.symm, hdev.symm, Or.inr hcompletes⟩

end Event

/-! ## Steps -/

namespace BlockStep

variable {e : Event} {remaps : List Remap} {s s' : State} {l : List Signal}

/-- A request that waits goes on waiting, unless the event issues another one at its place or
completes it. -/
theorem waits (h : BlockStep e remaps s l s') {place : Location} {rq : BlockRequest}
    (hwaits : s.pendingAt place = some rq)
    (hissue : ∀ rq', e.issue? (Remap.issuedTo remaps) = some rq' → rq'.place ≠ place)
    (hcomplete : e.completion? (Remap.issuedTo remaps) ≠ some (place, rq.sectors)) :
    s'.pendingAt place = some rq := by
  cases h with
  | issue rq' issued _ pending =>
    have hne := (hissue rq' issued).symm
    rwa [pending, if_neg hne]
  | complete taken rq' _ ends waiting _ _ pending =>
    have hne : place ≠ taken := by
      rintro rfl
      obtain rfl : rq' = rq := Option.some.inj (waiting.symm.trans hwaits)
      exact hcomplete ends
    rwa [pending, if_neg hne]
  | idle _ _ pending _ =>
    unfold State.pendingAt at hwaits ⊢
    rwa [pending]

/-- The completion of a request that waits tells of it. -/
theorem told_of_completion (h : BlockStep e remaps s l s') {place : Location} {rq : BlockRequest}
    (hwaits : s.pendingAt place = some rq)
    (hends : e.completion? (Remap.issuedTo remaps) = some (place, rq.sectors)) :
    blockExits l =
      [{ rq with ended := some e.time, duration := some (e.time - rq.begun) }] := by
  cases h with
  | issue rq' issued =>
    have hk := Event.kind_of_completion? hends
    rw [Event.issue?_of_ne (by simp [hk])] at issued
    cases issued
  | complete taken rq' completed ends waiting succeeds told _ =>
    obtain ⟨rfl, -⟩ := Prod.mk.inj (Option.some.inj (ends.symm.trans hends))
    obtain rfl : rq' = rq := Option.some.inj (waiting.symm.trans hwaits)
    obtain ⟨-, rfl⟩ := BlockRequest.complete_eq_ok_iff.1 succeeds
    exact told
  | idle _ _ _ unmatched => exact (unmatched place rq hwaits hends).elim

end BlockStep

/-! ## Runs -/

/-- The request of an issue at a location, ended by a completion. -/
structure BlockRequest.Spans (rq : BlockRequest) (issue completion : Event) (l : Location)
    (sectors : Nat) : Prop where
  sector : rq.sector = l.sector
  sectors : rq.sectors = sectors
  /-- Odd flags are those of writes. -/
  operation : ∃ flags, issue.nat? "rwbs" = some flags ∧
    rq.operation = if flags % 2 = 0 then .read else .write
  tid : rq.tid = issue.int? "tid"
  begun : rq.begun = issue.time
  ended : rq.ended = some completion.time
  duration : rq.duration = some (completion.time - issue.time)

namespace Run

variable {settings : Settings} {r : Replay} {l : Location} {sectors : Nat}

/-- After its issue a request waits at the place of its location. -/
theorem waits_of_issues {before : List Step} {first : Step}
    (h : Run settings (before ++ [first]) r) {rq : BlockRequest}
    (hissue : first.event.issue? (Remap.issuedTo (remapsAfter (before.map (·.event)))) = some rq) :
    r.state.pendingAt rq.place = some rq := by
  obtain ⟨r₀, p, h₀, hp, -, -, -, rfl⟩ := h.of_snoc
  cases h₀.blockStep hp with
  | issue rq' issued _ pending =>
    obtain rfl : rq' = rq := Option.some.inj (issued.symm.trans hissue)
    rw [pending]
    exact if_pos rfl
  | complete _ _ _ ends =>
    have hk := Event.kind_of_completion? ends
    rw [Event.issue?_of_ne (by simp [hk])] at hissue
    cases hissue
  | idle unissued =>
    rw [unissued] at hissue
    cases hissue

/-- It waits there, and the location goes back to the same device, for as long as no event names the
location or crosses it. -/
theorem waits_through {start mid : List Step} (h : Run settings (start ++ mid) r)
    {rq : BlockRequest} (hsize : rq.sectors = sectors)
    (hplace : rq.place = Remap.placeOf (remapsAfter (start.map (·.event))) l)
    (hwaits : ∀ r₀, Run settings start r₀ → r₀.state.pendingAt rq.place = some rq)
    (hnames : ∀ step ∈ mid, ¬ step.event.NamesLocation l)
    (hcrosses : ∀ earlier step later, mid = earlier ++ step :: later →
      ¬ step.event.Crosses (remapsAfter ((start ++ earlier).map (·.event))) l sectors) :
    r.state.pendingAt rq.place = some rq ∧
      rq.place = Remap.placeOf (remapsAfter ((start ++ mid).map (·.event))) l := by
  -- By induction on the events since the issue, the last one first.
  induction mid using List.reverseRecOn generalizing r with
  | nil =>
    rw [List.append_nil] at h ⊢
    exact ⟨hwaits r h, hplace⟩
  | append_singleton mid step ih =>
    rw [← List.append_assoc] at h ⊢
    obtain ⟨r₀, p, h₀, hp, -, -, -, rfl⟩ := h.of_snoc
    have hlast := hnames step (by simp)
    have hcross := hcrosses mid step [] rfl
    obtain ⟨hwaiting, hthere⟩ := ih h₀ (fun step' hmem => hnames step' (by simp [hmem]))
      fun earlier step' later heq => hcrosses earlier step' (later ++ [step]) (by simp [heq])
    refine ⟨(h₀.blockStep hp).waits hwaiting (fun rq' hrq' => ?_) ?_, ?_⟩
    · rw [hthere]
      exact Event.place_ne_of_issue? hlast hcross hrq'
    · rw [hthere, hsize]
      exact Event.completion?_ne hlast hcross
    · rw [List.map_append, List.map_singleton, remapsAfter_snoc]
      unfold Remap.placeOf at hthere ⊢
      rw [Event.issuedTo_remapsFrom hlast]
      exact hthere

/-- A completion at a location ends the request of the last issue there, if both give its size, no
event in between names the location and none issues or completes a request at another location with
the same sector that goes back to the same device. It tells of that request alone. -/
theorem completion_of_issue {before mid : List Step} {first last : Step}
    (h : Run settings (before ++ first :: (mid ++ [last])) r)
    (hfirst : first.event.Issues l sectors) (hlast : last.event.Completes l sectors)
    (hnames : ∀ step ∈ mid, ¬ step.event.NamesLocation l)
    (hcrosses : ∀ earlier step later, mid = earlier ++ step :: later →
      ¬ step.event.Crosses (remapsAfter ((before ++ first :: earlier).map (·.event))) l sectors) :
    ∃ done, blockExits last.signals = [done] ∧
      done.dev = Remap.issuedTo (remapsAfter (before.map (·.event))) l ∧
      done.Spans first.event last.event l sectors := by
  obtain ⟨rq, flags, hissue, hflags, hrq⟩ :=
    hfirst.issue? (remapsAfter (before.map (·.event)))
  have hassoc : ∀ later : List Step, before ++ first :: later = (before ++ [first]) ++ later := by
    simp
  rw [hassoc, ← List.append_assoc] at h
  obtain ⟨r₀, p, h₀, hp, -, -, hsignals, rfl⟩ := h.of_snoc
  have hsize : rq.sectors = sectors := by rw [hrq]
  have hplace : rq.place = Remap.placeOf (remapsAfter ((before ++ [first]).map (·.event))) l := by
    have hremaps : first.event.remapsFrom (remapsAfter (before.map (·.event))) =
        remapsAfter (before.map (·.event)) := by
      unfold Event.remapsFrom
      rw [hfirst.kind]
    rw [List.map_append, List.map_singleton, remapsAfter_snoc, hremaps, hrq]
    rfl
  obtain ⟨hwaiting, hthere⟩ := h₀.waits_through hsize hplace
    (fun r₁ h₁ => h₁.waits_of_issues hissue) hnames fun earlier step later heq => by
      rw [← hassoc]
      exact hcrosses earlier step later heq
  have htold := (h₀.blockStep hp).told_of_completion hwaiting (by
    rw [hlast.completion?, hthere, hsize])
  rw [hsignals]
  refine ⟨_, htold, by rw [hrq], ?_⟩
  rw [hrq]
  exact ⟨rfl, rfl, ⟨flags, hflags, rfl⟩, rfl, rfl, rfl, rfl⟩

end Run

/-! ## Mirrors -/

/-- Eight sectors are read from the first leg of a mirror, and meanwhile as many from a sector of the
second leg. -/
def mirroredReads (second : UInt64) : List Event :=
  [locatedEvent 1 "block_bio_remap" 1 100 [("old_dev", .unsigned 2), ("old_sector", .unsigned 200)],
   locatedEvent 2 "block_bio_remap" 3 second
     [("old_dev", .unsigned 2), ("old_sector", .unsigned 300)],
   locatedEvent 10 "block_rq_issue" 1 100
     [("nr_sector", .unsigned 8), ("rwbs", .unsigned 0), ("tid", .signed 42)],
   locatedEvent 20 "block_rq_issue" 3 second
     [("nr_sector", .unsigned 8), ("rwbs", .unsigned 0), ("tid", .signed 43)],
   locatedEvent 30 "block_rq_complete" 1 100 [("nr_sector", .unsigned 8)]]

/-- Whether steps replay the reads from a mirror, and the last one tells what a test accepts. -/
def tellsMirrored (second : UInt64) (test : List BlockRequest → Bool) : List Step → Bool
  | [s₁, s₂, first, other, last] =>
    [s₁, s₂, first, other, last].map (·.event) = mirroredReads second ∧
      test (blockExits last.signals)
  | _ => false

theorem mirroredReads_steps {second : UInt64} {test : List BlockRequest → Bool}
    (h : Replay.showsSteps {} (mirroredReads second) (fun history _ =>
      tellsMirrored second test history) = true) :
    ∃ s₁ s₂ first other last r, Run {} ([s₁, s₂] ++ first :: ([other] ++ [last])) r ∧
      [s₁, s₂, first, other, last].map (·.event) = mirroredReads second ∧
      test (blockExits last.signals) = true := by
  obtain ⟨history, r, hrun, htest⟩ := Run.of_showsSteps h
  unfold tellsMirrored at htest
  split at htest
  · rename_i s₁ s₂ first other last
    obtain ⟨hevents, hlast⟩ := of_decide_eq_true htest
    exact ⟨s₁, s₂, first, other, last, r, hrun, hevents, hlast⟩
  · cases htest

theorem mirroredReads_issues {s : Step} (h : s.event = locatedEvent 10 "block_rq_issue" 1 100
      [("nr_sector", .unsigned 8), ("rwbs", .unsigned 0), ("tid", .signed 42)]) :
    s.event.Issues { dev := 1, sector := 100 } 8 := by
  rw [h]
  exact ⟨by decide +kernel, by decide +kernel, by decide +kernel, by decide, by decide +kernel⟩

theorem mirroredReads_completes {s : Step}
    (h : s.event = locatedEvent 30 "block_rq_complete" 1 100 [("nr_sector", .unsigned 8)]) :
    s.event.Completes { dev := 1, sector := 100 } 8 := by
  rw [h]
  exact ⟨by decide +kernel, by decide +kernel, by decide +kernel, by decide⟩

/-- Legs that are read at different sectors are told of each with its own time. -/
theorem completion_of_mirroredIssue : ∃ history first last done r,
    Run {} (history ++ [last]) r ∧ (history ++ [last]).map (·.event) = mirroredReads 108 ∧
    first ∈ history ∧ blockExits last.signals = [done] ∧ done.dev = 2 ∧
    done.Spans first.event last.event { dev := 1, sector := 100 } 8 := by
  have hshows : Replay.showsSteps {} (mirroredReads 108) (fun history _ =>
      tellsMirrored 108 (fun _ => true) history) = true := by decide +kernel
  obtain ⟨s₁, s₂, first, other, last, r, h, hall, -⟩ := mirroredReads_steps hshows
  have hevents := hall
  simp only [mirroredReads, List.map_cons, List.map_nil, List.cons.injEq, and_true] at hevents
  obtain ⟨hs₁, hs₂, hfirst, hother, hlast⟩ := hevents
  have hnames : ∀ step ∈ [other], ¬ step.event.NamesLocation { dev := 1, sector := 100 } := by
    intro step hmem
    rw [List.mem_singleton.1 hmem, hother]
    decide +kernel
  have hcrosses : ∀ earlier step later, [other] = earlier ++ step :: later →
      ¬ step.event.Crosses (remapsAfter (([s₁, s₂] ++ first :: earlier).map (·.event)))
        { dev := 1, sector := 100 } 8 := by
    intro earlier step later heq
    have hmem : step ∈ [other] := by simp [heq]
    rw [List.mem_singleton.1 hmem, hother]
    rintro ⟨seen, -, hsector, -, ⟨size, hissues⟩ | hcompletes⟩
    · have hseen : some 108 = some seen.sector := Eq.trans (by decide +kernel) hissues.location.2
      rw [hsector] at hseen
      cases hseen
    · have hkind := hcompletes.kind
      revert hkind
      decide +kernel
  obtain ⟨done, htold, hdev, hspans⟩ := h.completion_of_issue (mirroredReads_issues hfirst)
    (mirroredReads_completes hlast) hnames hcrosses
  refine ⟨[s₁, s₂, first, other], first, last, done, r, h, hall, by simp, htold, ?_, hspans⟩
  rw [hdev, List.map_cons, List.map_singleton, hs₁, hs₂]
  decide +kernel

/-- Legs that are read at the same sector meet: the completion of the first one tells of the other,
which waits in its place. -/
theorem mirroredLegs_meet : ¬ ∀ (settings : Settings) (before mid : List Step) (first last : Step)
    (r : Replay) (l : Location) (sectors : Nat),
    Run settings (before ++ first :: (mid ++ [last])) r →
    first.event.Issues l sectors → last.event.Completes l sectors →
    (∀ step ∈ mid, ¬ step.event.NamesLocation l) →
    ∃ done, blockExits last.signals = [done] ∧ done.Spans first.event last.event l sectors := by
  intro hclaim
  have hshows : Replay.showsSteps {} (mirroredReads 100) (fun history _ =>
      tellsMirrored 100 (fun told => told.map (·.begun) = [20]) history) = true := by
    decide +kernel
  obtain ⟨s₁, s₂, first, other, last, r, h, hevents, htest⟩ := mirroredReads_steps hshows
  have hbegun := of_decide_eq_true htest
  simp only [mirroredReads, List.map_cons, List.map_nil, List.cons.injEq, and_true] at hevents
  obtain ⟨-, -, hfirst, hother, hlast⟩ := hevents
  obtain ⟨done, htold, hspans⟩ := hclaim {} [s₁, s₂] [other] first last r
    { dev := 1, sector := 100 } 8 h (mirroredReads_issues hfirst) (mirroredReads_completes hlast)
    fun step hmem => by
      rw [List.mem_singleton.1 hmem, hother]
      decide +kernel
  rw [htold, List.map_singleton, List.singleton_inj, hspans.begun, hfirst] at hbegun
  revert hbegun
  decide +kernel

end KernelReplay
