import KernelReplay.Proofs.FacetRuns

/-
  What an event does to the block requests that wait for their completion. A request is known by its
  place, the device it was issued to and its sector; which device that is depends on the remaps that
  earlier events have left (`remapsAfter`). `BlockStep` says what can happen: a request is issued at
  its place, the request that waits at a place is completed and told of, or nothing changes.
-/

namespace KernelReplay

open Law Update

/-! ## What events say of block requests -/

/-- The remaps after an event. -/
def Event.remapsFrom (e : Event) (remaps : List Remap) : List Remap :=
  match e.kind? with
  | some .blockRemap => BlockRequests.remap e remaps
  | some .blockBackmerge => BlockRequests.backmerge e remaps
  | some .blockComplete =>
    match BlockRequests.location? e "dev" "sector", BlockRequests.sectors? e with
    | some location, some _ => Remap.release remaps location
    | _, _ => remaps
  | _ => remaps

/-- The remaps after events. -/
def remapsAfter (past : List Event) : List Remap :=
  past.foldl (fun remaps e => e.remapsFrom remaps) []

theorem remapsAfter_snoc (past : List Event) (e : Event) :
    remapsAfter (past ++ [e]) = e.remapsFrom (remapsAfter past) := by
  unfold remapsAfter
  rw [List.foldl_append]
  rfl

/-- Where a request is known to wait. -/
def BlockRequest.place (rq : BlockRequest) : Location := { dev := rq.dev, sector := rq.sector }

/-- The request that an event issues, where locations go back to devices: its fields can be read, and
it has a size. -/
def Event.issue? (e : Event) (device : Location → Nat) : Option BlockRequest :=
  match e.kind?, e.nat? "dev", e.nat? "sector", e.nat? "nr_sector", e.nat? "rwbs" with
  | some .blockIssue, some dev, some sector, some sectors, some flags =>
    if sectors = 0 then none
    else some {
      dev := device { dev, sector }
      sector
      sectors
      operation := if flags % 2 = 0 then .read else .write
      tid := e.int? "tid"
      begun := e.time }
  | _, _, _, _, _ => none

/-- The place at which an event completes a request, where locations go back to devices, and the size
that it gives. -/
def Event.completion? (e : Event) (device : Location → Nat) : Option (Location × Nat) :=
  match e.kind?, e.nat? "dev", e.nat? "sector", e.nat? "nr_sector" with
  | some .blockComplete, some dev, some sector, some sectors =>
    if sectors = 0 then none
    else some ({ dev := device { dev, sector }, sector }, sectors)
  | _, _, _, _ => none

theorem Event.issue?_eq {e : Event} (hk : e.kind? = some .blockIssue) (remaps : List Remap) :
    e.issue? (Remap.issuedTo remaps) = BlockRequests.issued? e remaps := by
  unfold Event.issue? BlockRequests.issued? BlockRequests.location? BlockRequests.sectors?
  rw [hk]
  cases e.nat? "dev" <;> cases e.nat? "sector" <;> cases hn : e.nat? "nr_sector" <;>
    cases e.nat? "rwbs" <;> try simp
  rename_i sectors flags
  by_cases hzero : sectors = 0
  · simp [hzero, Option.filter_some]
  · simp [hzero, Option.filter_some, BlockRequest.directionOf]

theorem Event.issue?_of_ne {e : Event} (hk : e.kind? ≠ some .blockIssue)
    (device : Location → Nat) : e.issue? device = none := by
  unfold Event.issue?
  split
  · rename_i hissue _ _ _ _
    exact (hk hissue).elim
  · rfl

theorem Event.completion?_of_ne {e : Event} (hk : e.kind? ≠ some .blockComplete)
    (device : Location → Nat) : e.completion? device = none := by
  unfold Event.completion?
  split
  · rename_i hcomplete _ _ _
    exact (hk hcomplete).elim
  · rfl

theorem Event.completion?_eq {e : Event} (hk : e.kind? = some .blockComplete)
    (remaps : List Remap) : e.completion? (Remap.issuedTo remaps) =
      match BlockRequests.location? e "dev" "sector", BlockRequests.sectors? e with
      | some location, some sectors =>
        some ({ dev := Remap.issuedTo remaps location, sector := location.sector }, sectors)
      | _, _ => none := by
  unfold Event.completion? BlockRequests.location? BlockRequests.sectors?
  rw [hk]
  cases e.nat? "dev" <;> cases e.nat? "sector" <;> cases hn : e.nat? "nr_sector" <;> try simp
  rename_i sectors
  by_cases hzero : sectors = 0 <;> simp [hzero, Option.filter_some]

/-- The completed requests that signals tell of. -/
def blockExits (l : List Signal) : List BlockRequest :=
  (notificationsOf l).filterMap fun
    | .blockComplete request _ => some request
    | _ => none

/-- The request that waits at a place. -/
def State.pendingAt (s : State) (place : Location) : Option BlockRequest :=
  (s.pending place.dev).get? place.sector

/-! ## The rules -/

namespace BlockRequests

theorem place_run (request : BlockRequest) (s : State) : ∃ l, place request s =
    .ok ⟨(), s.updateDisk request.dev fun d =>
      { d with pending := d.pending.insert request.sector request }, l⟩ ∧
    notificationsOf l = [] := by
  unfold place
  rw [get_bind_run, modify_bind_run]
  cases (s.disks.get? request.dev).bind fun d => d.pending.get? request.sector with
  | none => exact ⟨[], rfl, rfl⟩
  | some stale => exact ⟨_, rfl, rfl⟩

theorem pendingAt_place (s : State) (rq : BlockRequest) (place : Location) :
    (s.updateDisk rq.dev fun d => { d with pending := d.pending.insert rq.sector rq }).pendingAt
      place = if place = rq.place then some rq else s.pendingAt place := by
  obtain ⟨dev, sector⟩ := place
  unfold State.pendingAt
  rw [State.pending_updateDisk (g := fun t => t.insert rq.sector rq) s rq.dev dev fun _ => rfl]
  by_cases hdev : dev = rq.dev
  · simp [hdev, Table.get?_insert, BlockRequest.place]
  · simp [hdev, BlockRequest.place]

theorem pendingAt_taken (s : State) (taken place : Location) :
    (s.updateDisk taken.dev fun d => { d with pending := d.pending.erase taken.sector }).pendingAt
      place = if place = taken then none else s.pendingAt place := by
  obtain ⟨dev, sector⟩ := place
  obtain ⟨dev', sector'⟩ := taken
  unfold State.pendingAt
  rw [State.pending_updateDisk (g := fun t => t.erase sector') s dev' dev fun _ => rfl]
  by_cases hdev : dev = dev'
  · simp [hdev, Table.get?_erase]
  · simp [hdev]

/-- The request that a completion ends. -/
theorem pendingAt_of_disk {s : State} {dev sector : Nat} {disk : Disk}
    (h : s.disks.get? dev = some disk) :
    s.pendingAt { dev, sector } = disk.pending.get? sector := by
  unfold State.pendingAt State.pending
  rw [h]
  rfl

theorem complete_cases {dev sector sectors : Nat} {time : Int} {s : State} {o : Outcome Unit}
    (h : complete dev sector sectors time s = .ok o) :
    (o.state = s ∧ notificationsOf o.signals = [] ∧
      ∀ rq, s.pendingAt { dev, sector } = some rq → rq.sectors ≠ sectors) ∨
    ∃ rq completed thread, s.pendingAt { dev, sector } = some rq ∧ rq.sectors = sectors ∧
      rq.complete time = .ok completed ∧
      o.state = s.updateDisk dev (fun d => { d with pending := d.pending.erase sector }) ∧
      o.signals = [.notification (.blockComplete completed thread)] := by
  unfold complete at h
  rw [get_bind_run] at h
  cases hd : s.disks.get? dev with
  | none =>
    rw [hd] at h
    cases h
    refine Or.inl ⟨rfl, rfl, fun rq hwaits => ?_⟩
    unfold State.pendingAt State.pending at hwaits
    rw [hd] at hwaits
    cases hwaits
  | some disk =>
    rw [hd] at h
    dsimp only at h
    cases hrq : (disk.pending.get? sector).filter fun rq => rq.sectors = sectors with
    | none =>
      rw [hrq] at h
      cases h
      refine Or.inl ⟨rfl, rfl, fun rq hwaits => ?_⟩
      rw [pendingAt_of_disk hd] at hwaits
      simpa using Option.filter_eq_none_iff.1 hrq rq hwaits
    | some rq =>
      rw [hrq] at h
      obtain ⟨hget, hsize⟩ := Option.filter_eq_some_iff.1 hrq
      dsimp only at h
      rw [modify_bind_run] at h
      obtain ⟨o₁, o₂, h₁, h₂, rfl⟩ := bind_eq_ok_iff.1 h
      obtain ⟨completed, hc, rfl⟩ := compute_eq_ok_iff.1 h₁
      cases h₂
      refine Or.inr ⟨rq, completed, _, ?_, by simpa using hsize, hc, rfl, rfl⟩
      rw [pendingAt_of_disk hd, hget]

/-- A completion succeeds unless the duration of the request leaves the range. -/
theorem complete_succeeds {dev sector sectors : Nat} {time : Int} {s : State}
    (h : ∀ rq, s.pendingAt { dev, sector } = some rq → FitsSigned (time - rq.begun)) :
    FulfilsAt any (complete dev sector sectors time) s := by
  refine FulfilsAt.get_bind ?_
  cases hd : s.disks.get? dev with
  | none => exact fulfils_report (fun _ => trivial) s
  | some disk =>
    dsimp only
    cases hrq : (disk.pending.get? sector).filter fun rq => rq.sectors = sectors with
    | none => exact fulfils_report (fun _ => trivial) s
    | some rq =>
      have hfits := h rq (by rw [pendingAt_of_disk hd, (Option.filter_eq_some_iff.1 hrq).1])
      refine FulfilsAt.modify_bind trivial ?_
      refine FulfilsAt.compute_bind (BlockRequest.complete_eq_ok_iff.2 ⟨hfits, rfl⟩) ?_
      exact fulfils_notify (fun _ => trivial) _

theorem apply_value {kind : EventKind} {e : Event} {remaps : List Remap} {s : State}
    {o : Outcome (List Remap)} (hk : e.kind? = some kind) (h : apply kind e remaps s = .ok o) :
    o.value = e.remapsFrom remaps := by
  unfold Event.remapsFrom
  rw [hk]
  cases kind
  case blockIssue =>
    obtain ⟨_, o₂, -, h₂, rfl⟩ := bind_eq_ok_iff.1 h
    cases h₂
    rfl
  case blockComplete =>
    have h : completion e remaps s = .ok o := h
    unfold completion at h
    dsimp only
    cases hl : location? e "dev" "sector" with
    | none =>
      rw [hl] at h
      cases h
      rfl
    | some location =>
      cases hn : sectors? e with
      | none =>
        rw [hl, hn] at h
        cases h
        rfl
      | some sectors =>
        rw [hl, hn] at h
        obtain ⟨_, o₂, -, h₂, rfl⟩ := bind_eq_ok_iff.1 h
        cases h₂
        rfl
  all_goals
    cases h
    rfl

end BlockRequests

/-- The remaps that an event leaves are the same whatever the state. -/
theorem Subsystem.effect_value {kind : EventKind} {e : Event} {remaps : List Remap} {s : State}
    {o : Outcome (List Remap)} (hk : e.kind? = some kind) (h : effect kind e remaps s = .ok o) :
    o.value = e.remapsFrom remaps := by
  unfold effect at h
  obtain ⟨_, _, -, h₁, hv₁⟩ := value_of_bind h
  obtain ⟨_, _, -, h₂, hv₂⟩ := value_of_bind h₁
  obtain ⟨_, _, -, h₃, hv₃⟩ := value_of_bind h₂
  obtain ⟨_, _, -, h₄, hv₄⟩ := value_of_bind h₃
  obtain ⟨_, _, -, h₅, hv₅⟩ := value_of_bind h₄
  obtain ⟨_, _, -, h₆, hv₆⟩ := value_of_bind h₅
  obtain ⟨_, _, hblocks, h₇, hv₇⟩ := value_of_bind h₆
  obtain ⟨_, _, -, h₈, hv₈⟩ := value_of_bind h₇
  have hvalue := BlockRequests.apply_value hk hblocks
  cases h₈
  rw [hv₁, hv₂, hv₃, hv₄, hv₅, hv₆, hv₇, hv₈]
  exact hvalue

theorem Event.remapsFrom_of_no_kind {e : Event} (h : e.kind? = none) (remaps : List Remap) :
    e.remapsFrom remaps = remaps := by
  unfold Event.remapsFrom
  rw [h]

/-! ## Steps -/

/-- The state before an event, the event with the remaps before it, its signals and the state after
it, as far as block requests are concerned. -/
inductive BlockStep (e : Event) (remaps : List Remap) (s : State) (l : List Signal) (s' : State) :
    Prop
  | issue (rq : BlockRequest) (issued : e.issue? (Remap.issuedTo remaps) = some rq)
      (told : blockExits l = [])
      (pending : ∀ place, s'.pendingAt place = if place = rq.place then some rq
        else s.pendingAt place)
  | complete (place : Location) (rq completed : BlockRequest)
      (ends : e.completion? (Remap.issuedTo remaps) = some (place, rq.sectors))
      (waiting : s.pendingAt place = some rq) (succeeds : rq.complete e.time = .ok completed)
      (told : blockExits l = [completed])
      (pending : ∀ k, s'.pendingAt k = if k = place then none else s.pendingAt k)
  | idle (unissued : e.issue? (Remap.issuedTo remaps) = none) (told : blockExits l = [])
      (pending : s'.pending = s.pending)
      (unmatched : ∀ place rq, s.pendingAt place = some rq →
        e.completion? (Remap.issuedTo remaps) ≠ some (place, rq.sectors))

theorem blockExits_of_untold {l : List Signal} (h : ∀ n ∈ notificationsOf l, ¬ n.TellsBlock) :
    blockExits l = [] := by
  refine List.filterMap_eq_nil_iff.2 fun n hn => ?_
  split
  · exact (h _ hn trivial).elim
  · rfl

namespace BlockRequests

variable {e : Event} {remaps : List Remap} {s : State} {o : Outcome (List Remap)}

theorem blockStep_issue (hk : e.kind? = some .blockIssue)
    (h : apply .blockIssue e remaps s = .ok o) : BlockStep e remaps s o.signals o.state := by
  obtain ⟨o₁, o₂, h₁, h₂, rfl⟩ := bind_eq_ok_iff.1 h
  cases h₂
  rw [List.append_nil]
  rw [← Event.issue?_eq hk] at h₁
  rcases whenSome_cases h₁ with ⟨hnone, rfl⟩ | ⟨rq, hrq, h₁⟩
  · refine .idle hnone rfl rfl fun place rq _ => ?_
    rw [Event.completion?_of_ne (by simp [hk])]
    exact (Option.some_ne_none _).symm
  · obtain ⟨l, hl, hn⟩ := place_run rq s
    rw [hl] at h₁
    cases h₁
    refine .issue rq hrq ?_ (pendingAt_place s rq)
    unfold blockExits
    rw [hn]
    rfl

theorem blockStep_complete (hk : e.kind? = some .blockComplete)
    (h : completion e remaps s = .ok o) : BlockStep e remaps s o.signals o.state := by
  have hissue : e.issue? (Remap.issuedTo remaps) = none := Event.issue?_of_ne (by simp [hk]) _
  have hends := Event.completion?_eq hk remaps
  unfold completion at h
  cases hl : location? e "dev" "sector" with
  | none =>
    rw [hl] at h hends
    cases h
    exact .idle hissue rfl rfl fun place rq _ => by simp [hends]
  | some location =>
    cases hn : sectors? e with
    | none =>
      rw [hl, hn] at h hends
      cases h
      exact .idle hissue rfl rfl fun place rq _ => by simp [hends]
    | some sectors =>
      rw [hl, hn] at h hends
      obtain ⟨o₁, o₂, h₁, h₂, rfl⟩ := bind_eq_ok_iff.1 h
      cases h₂
      rw [List.append_nil]
      rcases complete_cases h₁ with
        ⟨hs, hnone, hsize⟩ | ⟨rq, completed, thread, hrq, rfl, hc, hs, hsig⟩
      · refine .idle hissue ?_ (by rw [hs]) fun place rq hwaits heq => ?_
        · unfold blockExits
          rw [hnone]
          rfl
        · obtain ⟨rfl, rfl⟩ := Prod.mk.inj (Option.some.inj (hends.symm.trans heq))
          exact hsize rq hwaits rfl
      · refine .complete _ rq completed hends hrq hc (by rw [hsig]; rfl) ?_
        rw [hs]
        exact pendingAt_taken s { dev := Remap.issuedTo remaps location, sector := location.sector }

end BlockRequests

namespace Run

variable {settings : Settings} {history : List Step} {r : Replay} {e : Event} {p : Replay.Progress}

/-- The subsystems remember the remaps that the events have left. -/
theorem subsystems_eq (h : Run settings history r) :
    r.subsystems = Subsystem.standardWith (remapsAfter (history.map (·.event))) := by
  induction h with
  | start => rfl
  | @next history r e p _ hp ih =>
    obtain ⟨o, processed, ho, -, rfl⟩ := Replay.process_eq_ok_iff.1 hp
    rw [List.map_append, List.map_singleton, remapsAfter_snoc]
    rw [ih] at ho
    cases hk : e.kind? with
    | none =>
      rw [Subsystem.applyAll_of_no_kind hk] at ho
      cases ho
      rw [Event.remapsFrom_of_no_kind hk]
    | some kind =>
      rw [Subsystem.applyAll_standardWith hk] at ho
      obtain ⟨o₁, o₂, h₁, h₂, rfl⟩ := bind_eq_ok_iff.1 ho
      cases h₂
      rw [← Subsystem.effect_value hk h₁]

/-- An event of a kind does what the rules of its kind say, with the remaps that earlier events have
left. -/
theorem effect_run (h : Run settings history r) (hp : r.process e = .ok p) {kind : EventKind}
    (hk : e.kind? = some kind) :
    ∃ o, Subsystem.effect kind e (remapsAfter (history.map (·.event))) r.state = .ok o ∧
      p.replay.state = o.state ∧ p.signals = o.signals := by
  obtain ⟨o, processed, ho, -, rfl⟩ := Replay.process_eq_ok_iff.1 hp
  rw [h.subsystems_eq, Subsystem.applyAll_standardWith hk] at ho
  obtain ⟨o₁, o₂, h₁, h₂, rfl⟩ := bind_eq_ok_iff.1 ho
  cases h₂
  exact ⟨o₁, h₁, rfl, List.append_nil _⟩

/-- Every event of a run does to block requests what `BlockStep` says. -/
theorem blockStep (h : Run settings history r) (hp : r.process e = .ok p) :
    BlockStep e (remapsAfter (history.map (·.event))) r.state p.signals p.replay.state := by
  by_cases hnone : e.Avoids EventKind.IsBlock
  · obtain ⟨hpending, hn⟩ := (h.facetStep hp).pending hnone
    refine .idle (Event.issue?_of_ne (fun hk => ?_) _) (blockExits_of_untold hn) hpending
      fun place rq _ => ?_
    · exact hnone .blockIssue hk trivial
    · rw [Event.completion?_of_ne fun hk => hnone .blockComplete hk trivial]
      exact (Option.some_ne_none _).symm
  · obtain ⟨kind, hkind⟩ := Classical.not_forall.1 hnone
    obtain ⟨hk, hb⟩ := Classical.not_imp.1 hkind
    have hb := Classical.not_not.1 hb
    obtain ⟨o, ho, hs, hl⟩ := h.effect_run hp hk
    rw [Subsystem.effect_block e _ hb] at ho
    rw [hs, hl]
    cases kind <;> first
      | exact hb.elim
      | exact BlockRequests.blockStep_issue hk ho
      | exact BlockRequests.blockStep_complete hk ho

/-- What waits at a place is a request that some event issued there. -/
theorem issued_of_pendingAt (h : Run settings history r) {place : Location} {rq : BlockRequest}
    (hrq : r.state.pendingAt place = some rq) :
    rq.place = place ∧
      ∃ step ∈ history, ∃ remaps, step.event.issue? (Remap.issuedTo remaps) = some rq := by
  induction h with
  | start => cases hrq
  | @next history r e p h hp ih =>
    have hold : r.state.pendingAt place = some rq → rq.place = place ∧
        ∃ step ∈ history ++ [⟨r.state, e, p.replay.state, p.signals⟩],
          ∃ remaps, step.event.issue? (Remap.issuedTo remaps) = some rq := by
      intro hbefore
      obtain ⟨hplace, step, hmem, hissued⟩ := ih hbefore
      exact ⟨hplace, step, List.mem_append_left _ hmem, hissued⟩
    cases h.blockStep hp with
    | issue issued he told pending =>
      rw [pending] at hrq
      split at hrq
      · rename_i hplace
        cases hrq
        exact ⟨hplace.symm, _, List.mem_append_right _ List.mem_cons_self, _, he⟩
      · exact hold hrq
    | complete place' rq' completed ends waiting succeeds told pending =>
      rw [pending] at hrq
      split at hrq
      · cases hrq
      · exact hold hrq
    | idle unissued told pending =>
      unfold State.pendingAt at hrq
      rw [pending] at hrq
      exact hold hrq

end Run

end KernelReplay
