import KernelReplay.Proofs.CallSteps
import KernelReplay.Proofs.InterruptSteps
import KernelReplay.Proofs.Slices
import KernelReplay.Proofs.WakeupLatency

/-
  Parts of a replay that do not interfere. Devices with their remaps and pending requests, the
  interrupts of CPUs, the traffic of interfaces, the count of pages and who runs where each come
  out of the events of their own names as they come out of the whole stream, with the same
  notifications (`separate_run`), although every rule is given the whole state and many make CPUs
  and threads that others look at.

  A slice need not overflow where the stream did not: it is no longer, each part computes the same
  from what it sees, and a switch without wakeups computes nothing.
-/

namespace KernelReplay

open Update

/-- The notifications of given kinds among signals. -/
def toldOf (kinds : List NotificationKind) (l : List Signal) : List Notification :=
  (notificationsOf l).filter fun n => n.kind ∈ kinds

theorem filterMap_guard_eq_toldOf (kinds : List NotificationKind) (l : List Signal) :
    (notificationsOf l).filterMap (Option.guard fun n => decide (n.kind ∈ kinds)) =
      toldOf kinds l := by
  rw [List.filterMap_eq_filter]
  rfl

theorem toldOf_eq_nil {kinds : List NotificationKind} {l : List Signal}
    (h : ∀ n ∈ notificationsOf l, n.kind ∉ kinds) : toldOf kinds l = [] :=
  List.filter_eq_nil_iff.2 fun n hn => by simpa using h n hn

/-! ## Devices -/

/-- The names of events about block devices. -/
def blockNames : List String :=
  ["block_bio_remap", "block_bio_backmerge", "block_rq_issue", "block_rq_complete",
   "lttng_statedump_block_device"]

/-- What these events are about. -/
def blockKinds : List EventKind :=
  [.blockRemap, .blockBackmerge, .blockIssue, .blockComplete, .blockDevice]

/-- The devices with their requests, what is remembered beside the state, and the requests told to
be completed. -/
def blockPart : Part (Table Nat Disk × List Subsystem) BlockRequest where
  names := blockNames
  view r := (r.state.disks, r.subsystems)
  heard
    | .blockComplete request _ => some request
    | _ => none

theorem blockNames_spell : Spells blockNames blockKinds :=
  .of_table (by decide) (by decide) (by decide)

namespace BlockRequests

variable {s s' : State}

theorem disks_updateDisk (hd : s'.disks = s.disks) (dev : Nat) (f : Disk → Disk) :
    (s'.updateDisk dev f).disks = (s.updateDisk dev f).disks := by
  unfold State.updateDisk
  rw [hd]

theorem alike_place (hd : s'.disks = s.disks) (request : BlockRequest) :
    Alike (·.disks) blockPart.heard (place request) (place request) s s' := by
  refine .get_bind (.bind (.modify (disks_updateDisk hd ..)) fun _ _ t t' ht => ?_)
  rw [hd]
  exact .whenSome ht fun stale => .report ht

theorem alike_complete (hd : s'.disks = s.disks) (dev sector sectors : Nat) (time : Int) :
    Alike (·.disks) blockPart.heard (complete dev sector sectors time)
      (complete dev sector sectors time) s s' := by
  refine .get_bind ?_
  rw [hd]
  cases s.disks.get? dev with
  | none => exact .report hd
  | some disk =>
    dsimp only
    cases (disk.pending.get? sector).filter fun rq => rq.sectors = sectors with
    | none => exact .report hd
    | some request =>
      refine .bind (.modify (disks_updateDisk hd ..)) fun _ _ t t' ht => ?_
      exact .compute_bind fun done => .notify ht rfl

/-- What the rules for block requests make of an event depends on the devices and the remaps alone.
-/
theorem alike_apply (hd : s'.disks = s.disks) (kind : EventKind) (e : Event) (remaps : List Remap) :
    Alike (·.disks) blockPart.heard (apply kind e remaps) (apply kind e remaps) s s' := by
  cases kind
  case blockIssue =>
    exact .bind (.whenSome hd fun request => alike_place hd request) fun _ _ _ _ ht => .pure ht
  case blockComplete =>
    show Alike _ _ (completion e remaps) (completion e remaps) s s'
    unfold completion
    split
    · exact .bind (alike_complete hd _ _ _ _) fun _ _ _ _ ht => .pure ht
    · exact .pure hd
  all_goals exact .pure hd

end BlockRequests

theorem Snapshot.alike_blockDevice {s s' : State} (hd : s'.disks = s.disks) (e : Event) :
    Alike (·.disks) blockPart.heard (blockDevice e) (blockDevice e) s s' :=
  .whenSome hd fun dev => .whenSome hd fun _ =>
    .modify (BlockRequests.disks_updateDisk hd dev _)

/-- Every event about devices does the same to devices that are the same. -/
theorem Subsystem.alike_blocks {kind : EventKind} (hk : kind ∈ blockKinds) {s s' : State}
    (hd : s'.disks = s.disks) (e : Event) (remaps : List Remap) :
    Alike (·.disks) blockPart.heard (effect kind e remaps) (effect kind e remaps) s s' := by
  by_cases hdevice : kind = .blockDevice
  · subst hdevice
    have heffect : effect .blockDevice e remaps =
        Snapshot.blockDevice e >>= fun _ => pure remaps := by
      simp only [effect, Scheduling.apply, Paging.apply, Interrupts.apply, Syscalls.apply,
        IoRequests.apply, Snapshot.apply, BlockRequests.apply, Traffic.apply, pure_bind]
    rw [heffect]
    exact .bind (Snapshot.alike_blockDevice hd e) fun _ _ _ _ ht => .pure ht
  · have heffect : effect kind e remaps = BlockRequests.apply kind e remaps := by
      simp only [blockKinds, List.mem_cons, List.not_mem_nil, or_false] at hk
      rcases hk with rfl | rfl | rfl | rfl | rfl <;> first
        | exact (hdevice rfl).elim
        | simp only [effect, Scheduling.apply, Paging.apply, Interrupts.apply, Syscalls.apply,
            IoRequests.apply, Snapshot.apply, Traffic.apply, pure_bind, bind_pure]
    rw [heffect]
    exact BlockRequests.alike_apply hd kind e remaps

theorem Event.remapsFrom_of_ne {e : Event} (hremap : e.kind? ≠ some .blockRemap)
    (hmerge : e.kind? ≠ some .blockBackmerge) (hcomplete : e.kind? ≠ some .blockComplete)
    (remaps : List Remap) : e.remapsFrom remaps = remaps := by
  unfold Event.remapsFrom
  split
  · rename_i h
    exact (hremap h).elim
  · rename_i h
    exact (hmerge h).elim
  · rename_i h
    exact (hcomplete h).elim
  · rfl

/-- A veil that pins the devices to what they are. -/
def Veil.pinDisks (disks : Table Nat Disk) : Veil := { Veil.sheer with disks := fun _ => disks }

theorem Veil.pinDisks_spares {kind : EventKind} (h : kind ∉ blockKinds) (disks : Table Nat Disk) :
    (Veil.pinDisks disks).Spares kind := by
  cases kind <;> first
    | exact trivial
    | exact rfl
    | exact ⟨rfl, fun _ => rfl⟩
    | exact ⟨rfl, rfl⟩
    | exact (h (by decide)).elim

theorem blockPart_selfContained (settings : Settings) : blockPart.SelfContained settings where
  aside {history r e p} h hp he := by
    have hother : ∀ {kind}, e.kind? = some kind → kind ∉ blockKinds := blockNames_spell.not_mem he
    have hne : ∀ {kind}, kind ∈ blockKinds → e.kind? ≠ some kind := fun hmem hk => hother hk hmem
    have hspares : ∀ kind, e.kind? = some kind → (Veil.pinDisks r.state.disks).Spares kind :=
      fun kind hk => Veil.pinDisks_spares (hother hk) _
    have hpinned :=
      (Replay.process_pinned hspares (Veil.state_eq_self rfl rfl rfl rfl rfl rfl rfl) hp).1
    have hdisks : p.replay.state.disks = r.state.disks := (congrArg (·.disks) hpinned).symm
    have hsubsystems : p.replay.subsystems = r.subsystems := by
      rw [(h.next hp).subsystems_eq, h.subsystems_eq, List.map_append, List.map_singleton,
        remapsAfter_snoc]
      exact congrArg _
        (Event.remapsFrom_of_ne (hne (by decide)) (hne (by decide)) (hne (by decide)) _)
    have havoids : e.Avoids EventKind.IsBlock := by
      intro kind hk hb
      have hmem := hother hk
      cases kind <;> first
        | exact hb.elim
        | exact (hmem (by decide)).elim
    refine ⟨?_, blockExits_of_untold ((h.facetStep hp).pending havoids).2⟩
    show (p.replay.state.disks, p.replay.subsystems) = (r.state.disks, r.subsystems)
    rw [hdisks, hsubsystems]
  alike {history history' r r' e p} h h' hlength _ hview hp he := by
    obtain ⟨hdisks, hsubsystems⟩ := Prod.mk.inj hview
    obtain ⟨kind, hmem, hk⟩ := blockNames_spell.kind he
    have hremaps : remapsAfter (history'.map (·.event)) = remapsAfter (history.map (·.event)) := by
      rw [h'.subsystems_eq, h.subsystems_eq] at hsubsystems
      simpa [Subsystem.standardWith] using hsubsystems
    obtain ⟨p', hp', hdisks', hexits⟩ := h.process_alike h' hlength hp hk
      (by rw [hremaps]; exact Subsystem.alike_blocks hmem hdisks e _)
    have hsubsystems' : p'.replay.subsystems = p.replay.subsystems := by
      rw [(h'.next hp').subsystems_eq, (h.next hp).subsystems_eq, List.map_append,
        List.map_append, List.map_singleton, List.map_singleton, remapsAfter_snoc,
        remapsAfter_snoc, hremaps]
    refine ⟨p', hp', ?_, hexits⟩
    show (p'.replay.state.disks, p'.replay.subsystems) = (p.replay.state.disks, p.replay.subsystems)
    rw [hsubsystems', hdisks']

/-! ## Interrupts -/

/-- The names of events about interrupts. -/
def interruptNames : List String :=
  ["irq_handler_entry", "irq_handler_exit", "softirq_raise", "softirq_entry", "softirq_exit"]

/-- The kinds of notifications about interrupts. -/
def interruptNews : List NotificationKind := [.irqEntry, .irqExit, .softIrqExit]

/-- The interrupts of every CPU and the notifications about them. A CPU that is not known shows
none. -/
def interruptPart : Part (Nat → Cpu) Notification where
  names := interruptNames
  view r := r.state.handlers
  heard := Option.guard fun n => n.kind ∈ interruptNews

theorem interruptNames_spell : Spells interruptNames
    [.irqEntry, .irqExit, .softIrqRaise, .softIrqEntry, .softIrqExit] :=
  .of_table (by decide) (by decide) (by decide)

namespace Interrupts

variable {s s' : State}

theorem handlers_updateCpu_alike (hh : s'.handlers = s.handlers) (cpu : Nat) {f : Cpu → Cpu}
    (hf : ∀ c, (f c).handlers = f c.handlers) :
    (s'.updateCpu cpu f).handlers = (s.updateCpu cpu f).handlers := by
  funext k
  rw [State.handlers_updateCpu s' cpu k hf, State.handlers_updateCpu s cpu k hf, hh]

/-- What is asked of a CPU about its interrupts has the same answer. -/
theorem cpuOrFresh_alike {β : Type} (hh : s'.handlers = s.handlers) (cpu : Nat) {f : Cpu → β}
    (hf : ∀ c, f c.handlers = f c) : f (s'.cpuOrFresh cpu) = f (s.cpuOrFresh cpu) := by
  rw [← hf (s'.cpuOrFresh cpu), ← hf (s.cpuOrFresh cpu)]
  exact congrArg f (congrFun hh cpu)

/-- Making a CPU known tells no subscriber, and the CPU handles no interrupts. -/
theorem unseen_admitCpu (cpu : Nat) (s : State) :
    Unseen State.handlers interruptPart.heard (admitCpu cpu) s := by
  obtain ⟨o, ho, hkept, -⟩ := aside_admitCpu cpu s
  refine ⟨o, ho, hkept.2.1.1, ?_⟩
  unfold admitCpu at ho
  rw [get_bind_run] at ho
  split at ho <;> · cases ho; rfl

theorem alike_admitCpu {α : Type} (hh : s'.handlers = s.handlers) (cpu : Nat)
    {u : Update α} (hu : ∀ t t' : State, t'.handlers = t.handlers →
      Alike State.handlers interruptPart.heard u u t t') :
    Alike State.handlers interruptPart.heard (admitCpu cpu >>= fun _ => u)
      (admitCpu cpu >>= fun _ => u) s s' :=
  .bind (.of_unseen hh (unseen_admitCpu cpu s) (unseen_admitCpu cpu s')) fun _ _ => hu

/-- What the rules for interrupts make of an event depends on the interrupts of CPUs alone. -/
theorem alike_apply (hh : s'.handlers = s.handlers) (kind : EventKind) (e : Event) :
    Alike State.handlers interruptPart.heard (apply kind e) (apply kind e) s s' := by
  cases kind
  case irqEntry =>
    refine .whenSome hh fun cpu => .whenSome hh fun id => alike_admitCpu hh cpu fun t t' ht => ?_
    refine .bind (.modify (handlers_updateCpu_alike ht cpu fun _ => rfl)) fun _ _ _ _ hv => ?_
    exact .notify hv rfl
  case irqExit =>
    refine .whenSome hh fun cpu => alike_admitCpu hh cpu fun t t' ht => .get_bind ?_
    refine .bind (.modify (handlers_updateCpu_alike ht cpu fun _ => rfl)) fun _ _ _ _ hv => ?_
    refine .whenSome hv fun id => ?_
    rw [cpuOrFresh_alike ht cpu (f := (·.endedHardIrq? id e.time (e.int? "ret"))) fun _ => rfl]
    split
    · exact .notify hv rfl
    · exact .report hv
  case softIrqRaise =>
    refine .whenSome hh fun cpu => .whenSome hh fun vector => ?_
    refine alike_admitCpu hh cpu fun t t' ht => .get_bind ?_
    refine .bind (.modify (handlers_updateCpu_alike ht cpu
      ((CpuAction.raiseSoft vector).act_handlers e.time))) fun _ _ _ _ hv => ?_
    rw [cpuOrFresh_alike ht cpu (f := (·.awaitsEntry vector)) fun _ => rfl]
    split
    · exact .report hv
    · exact .pure hv
  case softIrqEntry =>
    refine .whenSome hh fun cpu => .whenSome hh fun vector => ?_
    refine alike_admitCpu hh cpu fun t t' ht => ?_
    exact .modify (handlers_updateCpu_alike ht cpu
      ((CpuAction.enterSoft vector).act_handlers e.time))
  case softIrqExit =>
    refine .whenSome hh fun cpu => .whenSome hh fun vector => ?_
    refine alike_admitCpu hh cpu fun t t' ht => .get_bind ?_
    refine .bind (.modify (handlers_updateCpu_alike ht cpu fun _ => rfl)) fun _ _ _ _ hv => ?_
    rw [cpuOrFresh_alike ht cpu (f := (·.endedSoftIrq? vector e.time)) fun _ => rfl]
    split
    · exact .notify hv rfl
    · exact .report hv
  all_goals exact .pure hh

end Interrupts

theorem Notification.tellsInterrupt_of_kind {n : Notification} (h : n.kind ∈ interruptNews) :
    n.TellsInterrupt := by
  cases n with
  | irqEntry | irqExit | softIrqExit => exact trivial
  | fd change => cases change <;> simp [interruptNews, Notification.kind] at h
  | _ => simp [interruptNews, Notification.kind] at h

theorem interruptPart_selfContained (settings : Settings) :
    interruptPart.SelfContained settings where
  aside {history r e p} h hp he := by
    have havoids : e.Avoids EventKind.IsInterrupt := by
      intro kind hk hi
      have hmem := interruptNames_spell.not_mem he hk
      cases kind <;> first
        | exact hi.elim
        | exact (hmem (by decide)).elim
    obtain ⟨hhandlers, huntold⟩ := (h.facetStep hp).handlers havoids
    refine ⟨hhandlers, (filterMap_guard_eq_toldOf ..).trans (toldOf_eq_nil fun n hn hkind => ?_)⟩
    exact huntold n hn (Notification.tellsInterrupt_of_kind hkind)
  alike {history history' r r' e p} h h' hlength _ hview hp he := by
    obtain ⟨kind, hmem, hk⟩ := interruptNames_spell.kind he
    have hi : kind.IsInterrupt := by
      simp only [List.mem_cons, List.not_mem_nil, or_false] at hmem
      rcases hmem with rfl | rfl | rfl | rfl | rfl <;> exact trivial
    have halike : ∀ remaps remaps', Alike State.handlers interruptPart.heard
        (Subsystem.effect kind e remaps) (Subsystem.effect kind e remaps') r.state r'.state := by
      intro remaps remaps'
      rw [Subsystem.effect_interrupt e remaps hi, Subsystem.effect_interrupt e remaps' hi]
      exact .bind (Interrupts.alike_apply hview kind e) fun _ _ _ _ ht => .pure ht
    exact h.process_alike h' hlength hp hk (halike _ _)

/-! ## Interfaces -/

/-- The names of events about packets. -/
def trafficNames : List String := ["net_dev_xmit", "netif_receive_skb"]

/-- The kinds of notifications about packets. -/
def trafficNews : List NotificationKind := [.transmit, .receive]

/-- The interfaces and the notifications about packets. -/
def trafficPart : Part (Table String Iface) Notification where
  names := trafficNames
  view r := r.state.ifaces
  heard := Option.guard fun n => n.kind ∈ trafficNews

theorem trafficNames_spell : Spells trafficNames [.netTransmit, .netReceive] :=
  .of_table (by decide) (by decide) (by decide)

namespace Traffic

theorem ifaces_guessFor (tid : Int) (s : State) : (guessFor tid s).ifaces = s.ifaces := by
  unfold guessFor
  split
  · rfl
  · dsimp only
    split <;> rfl

/-- Whatever a packet lets be guessed of a thread is not seen on interfaces. -/
theorem unseen_guess (tid? : Option Int) (s : State) :
    Unseen (·.ifaces) trafficPart.heard (whenSome tid? fun tid => modify (guessFor tid)) s := by
  cases tid? with
  | none => exact ⟨_, rfl, rfl, rfl⟩
  | some tid => exact ⟨_, rfl, ifaces_guessFor tid s, rfl⟩

/-- What the rules for packets make of interfaces, and what they tell, depends on interfaces alone.
-/
theorem alike_apply {s s' : State} (hi : s'.ifaces = s.ifaces) (kind : EventKind) (e : Event) :
    Alike (·.ifaces) trafficPart.heard (apply kind e) (apply kind e) s s' := by
  have hupdate : ∀ (name : String) (f : Iface → Iface),
      (s'.updateIface name f).ifaces = (s.updateIface name f).ifaces := by
    intro name f
    unfold State.updateIface
    rw [hi]
  cases kind
  case netTransmit =>
    refine .whenSome hi fun name => .bind (.modify (hupdate name _)) fun _ _ t t' ht => ?_
    refine .bind (.notify ht rfl) fun _ _ v v' hv => .get_bind ?_
    exact .of_unseen hv (unseen_guess _ v) (unseen_guess _ v')
  case netReceive =>
    refine .whenSome hi fun name => .bind (.modify (hupdate name _)) fun _ _ t t' ht => ?_
    exact .notify ht rfl
  all_goals exact .pure hi

end Traffic

/-- A veil that pins the interfaces to what they are, and under which a packet is told to be
larger. -/
def Veil.pinIfaces (ifaces : Table String Iface) : Veil :=
  { Veil.sheer with ifaces := fun _ => ifaces, bytes := (· + 1) }

theorem Veil.pinIfaces_spares {kind : EventKind} (h : kind ∉ [.netTransmit, .netReceive])
    (ifaces : Table String Iface) : (Veil.pinIfaces ifaces).Spares kind := by
  cases kind <;> first
    | exact trivial
    | exact rfl
    | exact ⟨rfl, fun _ => rfl⟩
    | exact ⟨rfl, rfl⟩
    | exact (h (by decide)).elim

theorem trafficPart_selfContained (settings : Settings) : trafficPart.SelfContained settings where
  aside {history r e p} h hp he := by
    have hspares : ∀ kind, e.kind? = some kind → (Veil.pinIfaces r.state.ifaces).Spares kind :=
      fun kind hk => Veil.pinIfaces_spares (trafficNames_spell.not_mem he hk) _
    obtain ⟨hstate, htold⟩ :=
      Replay.process_pinned hspares (Veil.state_eq_self rfl rfl rfl rfl rfl rfl rfl) hp
    refine ⟨(congrArg (·.ifaces) hstate).symm, ?_⟩
    refine (filterMap_guard_eq_toldOf ..).trans (toldOf_eq_nil fun n hn hkind => ?_)
    have hlarger := htold n hn
    cases n with
    | transmit iface bytes cpu =>
      exact (Nat.succ_ne_self bytes (Notification.transmit.inj hlarger).2.1).elim
    | receive iface bytes cpu =>
      exact (Nat.succ_ne_self bytes (Notification.receive.inj hlarger).2.1).elim
    | fd change => cases change <;> simp [trafficNews, Notification.kind] at hkind
    | _ => simp [trafficNews, Notification.kind] at hkind
  alike {history history' r r' e p} h h' hlength _ hview hp he := by
    obtain ⟨kind, hmem, hk⟩ := trafficNames_spell.kind he
    have heffect : ∀ remaps, Subsystem.effect kind e remaps =
        Traffic.apply kind e >>= fun _ => pure remaps := by
      intro remaps
      simp only [List.mem_cons, List.not_mem_nil, or_false] at hmem
      rcases hmem with rfl | rfl <;>
        simp only [Subsystem.effect, Scheduling.apply, Paging.apply, Interrupts.apply,
          Syscalls.apply, IoRequests.apply, Snapshot.apply, BlockRequests.apply, pure_bind]
    have halike : ∀ remaps remaps', Alike (·.ifaces) trafficPart.heard
        (Subsystem.effect kind e remaps) (Subsystem.effect kind e remaps') r.state r'.state := by
      intro remaps remaps'
      rw [heffect, heffect]
      exact .bind (Traffic.alike_apply hview kind e) fun _ _ _ _ ht => .pure ht
    exact h.process_alike h' hlength hp hk (halike _ _)

/-! ## Pages -/

/-- The names of events about pages. -/
def pageNames : List String :=
  ["mm_page_alloc", "kmem_mm_page_alloc", "mm_page_free", "kmem_mm_page_free"]

/-- The count of pages. -/
def pagePart : Part Nat Empty where
  names := pageNames
  view r := r.state.pageCount
  heard _ := none

theorem pageNames_spell : Spells pageNames [.pageAlloc, .pageFree, .pageFreeKmem] :=
  .of_table (by decide) (by decide) (by decide)

namespace Paging

/-- What the rules for pages make of their count depends on the count alone. -/
theorem alike_apply {s s' : State} (hc : s'.pageCount = s.pageCount) (kind : EventKind)
    (e : Event) :
    Alike (·.pageCount) pagePart.heard (apply kind e) (apply kind e) s s' := by
  have hunheard : ∀ l l' : List Signal, (notificationsOf l').filterMap pagePart.heard =
      (notificationsOf l).filterMap pagePart.heard :=
    fun l l' => (List.filterMap_none _).trans (List.filterMap_none _).symm
  cases kind
  case pageAlloc =>
    exact .of_run (alloc_run e s) (alloc_run e s') (congrArg (saturatingAdd · 1) hc) (hunheard ..)
  case pageFree | pageFreeKmem =>
    exact .of_run (free_run e s) (free_run e s') (congrArg (· - 1) hc) (hunheard ..)
  all_goals exact .pure hc

end Paging

/-- What a page does to requests is not seen on the count of pages. -/
theorem IoRequests.unseen_apply {kind : EventKind}
    (hk : kind ∈ [.pageAlloc, .pageFree, .pageFreeKmem]) (e : Event) (s : State) :
    Unseen (·.pageCount) pagePart.heard (apply kind e) s := by
  simp only [List.mem_cons, List.not_mem_nil, or_false] at hk
  rcases hk with rfl | rfl | rfl
  · exact ⟨_, rfl, rfl, rfl⟩
  · exact ⟨_, pageFree_run s, pageCount_pageFreed s, rfl⟩
  · exact ⟨_, rfl, rfl, rfl⟩

/-- A veil that pins the count of pages to what it is. -/
def Veil.pinPages (count : Nat) : Veil := { Veil.sheer with pageCount := fun _ => count }

theorem Veil.pinPages_spares {kind : EventKind}
    (h : kind ∉ [.pageAlloc, .pageFree, .pageFreeKmem]) (count : Nat) :
    (Veil.pinPages count).Spares kind := by
  cases kind <;> first
    | exact trivial
    | exact rfl
    | exact ⟨rfl, fun _ => rfl⟩
    | exact ⟨rfl, rfl⟩
    | exact (h (by decide)).elim

/-- Every event about pages does the same to counts that are the same. -/
theorem Subsystem.alike_pages {kind : EventKind}
    (hk : kind ∈ [.pageAlloc, .pageFree, .pageFreeKmem]) {s s' : State}
    (hc : s'.pageCount = s.pageCount) (e : Event) (remaps remaps' : List Remap) :
    Alike (·.pageCount) pagePart.heard (effect kind e remaps) (effect kind e remaps') s s' := by
  have hmem := List.mem_append_left [.pagesWritten, .kswapdWakeup] hk
  rw [effect_pages hmem e remaps, effect_pages hmem e remaps']
  refine .bind (.bind (Paging.alike_apply hc kind e) fun _ _ t t' ht => ?_)
    fun _ _ _ _ hv => .pure hv
  exact .of_unseen ht (IoRequests.unseen_apply hk e t) (IoRequests.unseen_apply hk e t')

theorem pagePart_selfContained (settings : Settings) : pagePart.SelfContained settings where
  aside {history r e p} h hp he := by
    have hspares : ∀ kind, e.kind? = some kind → (Veil.pinPages r.state.pageCount).Spares kind :=
      fun kind hk => Veil.pinPages_spares (pageNames_spell.not_mem he hk) _
    have hpinned :=
      (Replay.process_pinned hspares (Veil.state_eq_self rfl rfl rfl rfl rfl rfl rfl) hp).1
    exact ⟨(congrArg (·.pageCount) hpinned).symm, List.filterMap_none _⟩
  alike {history history' r r' e p} h h' hlength _ hview hp he := by
    obtain ⟨kind, hmem, hk⟩ := pageNames_spell.kind he
    exact h.process_alike h' hlength hp hk (Subsystem.alike_pages hmem hview e _ _)

/-! ## Who runs where -/

/-- The names of switches. -/
def switchNames : List String := ["sched_switch"]

/-- The thread that runs on each CPU. -/
def runningPart : Part (Nat → Option Int) Empty where
  names := switchNames
  view r := r.state.running?
  heard _ := none

theorem switchNames_spell : Spells switchNames [.schedSwitch] :=
  .of_table (by decide) (by decide) (by decide)

/-- No thread waits where nothing but switches has happened. -/
theorem Run.waited_of_switches {settings : Settings} {history : List Step} {r : Replay}
    (h : Run settings history r) (hnames : ∀ step ∈ history, step.event.name ∈ switchNames)
    (next time : Int) : Scheduling.waited r.state next time = .ok none := by
  have hnone : pendingWakeups next history = [] := by
    unfold pendingWakeups
    refine List.filterMap_eq_nil_iff.2 fun step hmem => ?_
    have hname := hnames step ((List.rtakeWhile_suffix ..).mem hmem)
    obtain ⟨kind, hkind, hk⟩ := switchNames_spell.kind hname
    rw [List.mem_singleton.1 hkind] at hk
    exact Event.wakeup?_eq_none (by simp [hk]) step.before next
  have hawaits := (h.awaits next).1
  rw [hnone] at hawaits
  unfold Scheduling.waited
  rw [hawaits]
  rfl

theorem runningPart_selfContained (settings : Settings) : runningPart.SelfContained settings where
  aside {history r e p} h hp he := by
    have hne : e.kind? ≠ some .schedSwitch := fun hk =>
      switchNames_spell.not_mem he hk List.mem_cons_self
    refine ⟨funext fun cpu => ?_, List.filterMap_none _⟩
    have hrunning := (h.callStep hp).running cpu
    rwa [Event.switched?_eq_none hne] at hrunning
  alike {history history' r r' e p} h h' hlength hnames hview hp he := by
    obtain ⟨kind, hmem, hk⟩ := switchNames_spell.kind he
    rw [List.mem_singleton.1 hmem] at hk
    have hwaited : ∀ next, ∃ latency, Scheduling.waited r'.state next e.time = .ok latency :=
      fun next => ⟨none, h'.waited_of_switches hnames next e.time⟩
    obtain ⟨o', ho', -⟩ := Scheduling.switch_succeeds hwaited
    obtain ⟨p', hp', -⟩ := h.process_of_effect h' hlength hp hk
      (by rw [Subsystem.effect_schedSwitch, bind_pure_run, ho']; rfl)
    refine ⟨p', hp', funext fun cpu => ?_,
      (List.filterMap_none _).trans (List.filterMap_none _).symm⟩
    show p'.replay.state.running? cpu = p.replay.state.running? cpu
    rw [(h'.callStep hp').running, (h.callStep hp).running]
    rw [show r'.state.running? = r.state.running? from hview]

/-! ## The five parts -/

/-- Where a stream is replayed, so are its slices by block devices, interrupts, packets, pages and
switches, and each shows of its own part what the stream shows. The remaps still waiting are in the
subsystems, where those of block devices keep them. -/
theorem separate_run (settings : Settings) {events : List Event} {p : Replay.Progress}
    (h : (Replay.ofSettings settings).run events = .ok p) :
    (∃ q, (Replay.ofSettings settings).run (slice blockNames events) = .ok q ∧
      q.replay.state.disks = p.replay.state.disks ∧ q.replay.subsystems = p.replay.subsystems ∧
      blockExits q.signals = blockExits p.signals) ∧
    (∃ q, (Replay.ofSettings settings).run (slice interruptNames events) = .ok q ∧
      q.replay.state.handlers = p.replay.state.handlers ∧
      toldOf interruptNews q.signals = toldOf interruptNews p.signals) ∧
    (∃ q, (Replay.ofSettings settings).run (slice trafficNames events) = .ok q ∧
      q.replay.state.ifaces = p.replay.state.ifaces ∧
      toldOf trafficNews q.signals = toldOf trafficNews p.signals) ∧
    (∃ q, (Replay.ofSettings settings).run (slice pageNames events) = .ok q ∧
      q.replay.state.pageCount = p.replay.state.pageCount) ∧
    ∃ q, (Replay.ofSettings settings).run (slice switchNames events) = .ok q ∧
      q.replay.state.running? = p.replay.state.running? := by
  refine ⟨?_, ?_, ?_, ?_, ?_⟩
  · obtain ⟨q, hq, hview, hnews⟩ := (blockPart_selfContained settings).slice h
    obtain ⟨hdisks, hsubsystems⟩ := Prod.mk.inj hview
    exact ⟨q, hq, hdisks, hsubsystems, hnews⟩
  · obtain ⟨q, hq, hview, hnews⟩ := (interruptPart_selfContained settings).slice h
    refine ⟨q, hq, hview, ?_⟩
    rwa [← filterMap_guard_eq_toldOf, ← filterMap_guard_eq_toldOf]
  · obtain ⟨q, hq, hview, hnews⟩ := (trafficPart_selfContained settings).slice h
    refine ⟨q, hq, hview, ?_⟩
    rwa [← filterMap_guard_eq_toldOf, ← filterMap_guard_eq_toldOf]
  · obtain ⟨q, hq, hview, -⟩ := (pagePart_selfContained settings).slice h
    exact ⟨q, hq, hview⟩
  · obtain ⟨q, hq, hview, -⟩ := (runningPart_selfContained settings).slice h
    exact ⟨q, hq, hview⟩

/-- A packet leaves while a thread writes, a request is remapped and completed, an interrupt is
handled and a page is freed, on two CPUs and under two spellings. -/
def crossingEvents : List Event :=
  [.recorded 0 10 "sched_switch" [("prev_tid", .signed 0), ("next_tid", .signed 7)],
   .recorded 0 20 "syscall_entry_write" [("fd", .signed 3)],
   .recorded 1 30 "kmem_mm_page_alloc" [],
   .recorded 1 40 "irq_handler_entry" [("irq", .signed 30)],
   .recorded 0 50 "net_dev_xmit" [("name", .text "eth0"), ("len", .unsigned 100)],
   .recorded 0 60 "block_bio_remap"
     [("old_dev", .unsigned 1), ("old_sector", .unsigned 100), ("dev", .unsigned 2),
      ("sector", .unsigned 400)],
   .recorded 0 70 "block_rq_issue"
     [("dev", .unsigned 2), ("sector", .unsigned 400), ("nr_sector", .unsigned 8),
      ("rwbs", .unsigned 1), ("tid", .signed 7)],
   .recorded 1 80 "softirq_raise" [("vec", .signed 3)],
   .recorded 1 85 "irq_handler_exit" [("irq", .signed 30), ("ret", .signed 1)],
   .recorded 1 90 "block_rq_complete"
     [("dev", .unsigned 2), ("sector", .unsigned 400), ("nr_sector", .unsigned 8)],
   .recorded 0 95 "mm_page_free" [],
   .recorded 0 99 "syscall_exit_write" [("ret", .signed 100)]]

/-- Each slice is shorter than the stream and shows what the stream shows: the request completed on
the device it was issued to, the interrupt's entry and exit, the packet, no page left and the thread
that runs. -/
theorem separate_run_crossingEvents : ∃ p, (Replay.ofSettings {}).run crossingEvents = .ok p ∧
    (∃ q, (Replay.ofSettings {}).run (slice blockNames crossingEvents) = .ok q ∧
      (blockExits q.signals).map (·.dev) = [1] ∧ blockExits q.signals = blockExits p.signals) ∧
    (∃ q, (Replay.ofSettings {}).run (slice interruptNames crossingEvents) = .ok q ∧
      (toldOf interruptNews q.signals).map (·.kind) = [.irqEntry, .irqExit] ∧
      q.replay.state.handlers = p.replay.state.handlers) ∧
    (∃ q, (Replay.ofSettings {}).run (slice trafficNames crossingEvents) = .ok q ∧
      toldOf trafficNews q.signals = [.transmit "eth0" 100 (some 0)] ∧
      q.replay.state.ifaces = p.replay.state.ifaces) ∧
    (∃ q, (Replay.ofSettings {}).run (slice pageNames crossingEvents) = .ok q ∧
      q.replay.state.pageCount = 0) ∧
    ∃ q, (Replay.ofSettings {}).run (slice switchNames crossingEvents) = .ok q ∧
      q.replay.state.running? 0 = some 7 := by
  have hgives : Replay.gives {} crossingEvents (fun p =>
      (blockExits p.signals).map (·.dev) = [1] ∧
      (toldOf interruptNews p.signals).map (·.kind) = [.irqEntry, .irqExit] ∧
      toldOf trafficNews p.signals = [.transmit "eth0" 100 (some 0)] ∧
      p.replay.state.pageCount = 0 ∧ p.replay.state.running? 0 = some 7) = true := by
    decide +kernel
  obtain ⟨history, p, h, hevents, hsignals, htest⟩ := Run.of_gives hgives
  obtain ⟨hexits, hirqs, hpackets, hpages, hrunning⟩ := of_decide_eq_true htest
  have hrun : (Replay.ofSettings {}).run crossingEvents = .ok p :=
    Run.run_eq_ok_iff.2 ⟨history, h, hevents, hsignals⟩
  obtain ⟨hblocks, hinterrupts, htraffic, hpage, hswitch⟩ := separate_run {} hrun
  refine ⟨p, hrun, ?_, ?_, ?_, ?_, ?_⟩
  · obtain ⟨q, hq, -, -, hsame⟩ := hblocks
    exact ⟨q, hq, by rw [hsame, hexits], hsame⟩
  · obtain ⟨q, hq, hhandlers, hsame⟩ := hinterrupts
    exact ⟨q, hq, by rw [hsame, hirqs], hhandlers⟩
  · obtain ⟨q, hq, hifaces, hsame⟩ := htraffic
    exact ⟨q, hq, hsame.trans hpackets, hifaces⟩
  · obtain ⟨q, hq, hsame⟩ := hpage
    exact ⟨q, hq, hsame.trans hpages⟩
  · obtain ⟨q, hq, hsame⟩ := hswitch
    exact ⟨q, hq, by rw [hsame, hrunning]⟩

end KernelReplay
