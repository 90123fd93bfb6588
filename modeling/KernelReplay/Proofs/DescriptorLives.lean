import KernelReplay.Proofs.ByteTotals
import KernelReplay.Proofs.TableFrames

/-
  What becomes of a descriptor that stays open. Whatever is made of its table, it keeps its number, its
  family and its mark, its counters do not go down, and its type changes at most from an unknown one to
  a guess (`Fd.LivesOn`). Its name changes where that is told, or where a fold gives a name to one that
  has none. The counters do not go down because none has passed the greatest word, at which they stop
  (`Run.fdsBounded`); that and the rest follow from what events make of tables (`Event.Rewrites.carried`),
  so they hold from one event to the next and for as long as the descriptor is open
  (`Run.descriptor_lives_on`).
-/

namespace KernelReplay

/-! ## Counters -/

/-- Counting bytes adds them to a counter or leaves it. -/
theorem Portion.of_add_cases (t : Tally) (type : FdType) (bytes : Nat) (p : Portion) :
    p.of (t.add type bytes) = p.of t ∨ p.of (t.add type bytes) = saturatingAdd (p.of t) bytes := by
  cases p <;> cases type <;> simp [of, Tally.add]

namespace IoCounts

variable {c c' c'' : IoCounts}

/-- None of the eight counters is above its like. -/
instance : LE IoCounts := ⟨fun c c' => ∀ d p, c.amount d p ≤ c'.amount d p⟩

theorem le_refl (c : IoCounts) : c ≤ c := fun _ _ => Nat.le_refl _

theorem le_trans (h : c ≤ c') (h' : c' ≤ c'') : c ≤ c'' := fun d p => Nat.le_trans (h d p) (h' d p)

/-- No counter has passed the greatest word. -/
def Bounded (c : IoCounts) : Prop := ∀ d p, c.amount d p ≤ maxWord

theorem bounded_empty : Bounded {} := fun d p => by
  rw [amount_empty]
  exact Nat.zero_le _

/-- Something may have been added to each counter. -/
def Grows (c c' : IoCounts) : Prop :=
  ∀ d p, c'.amount d p = c.amount d p ∨ ∃ n, c'.amount d p = saturatingAdd (c.amount d p) n

theorem grows_addRead (c : IoCounts) (type : FdType) (bytes : Nat) :
    c.Grows (c.addRead type bytes) := by
  intro d p
  cases d with
  | read => exact (p.of_add_cases c.read type bytes).imp_right fun h => ⟨bytes, h⟩
  | write => exact Or.inl rfl

theorem grows_addWrite (c : IoCounts) (type : FdType) (bytes : Nat) :
    c.Grows (c.addWrite type bytes) := by
  intro d p
  cases d with
  | read => exact Or.inl rfl
  | write => exact (p.of_add_cases c.write type bytes).imp_right fun h => ⟨bytes, h⟩

theorem grows_merge (c c' : IoCounts) : c.Grows (c.merge c') :=
  fun d p => Or.inr ⟨_, amount_merge c c' d p⟩

namespace Grows

variable (h : c.Grows c') (hc : c.Bounded)

include h hc

theorem bounded : c'.Bounded := by
  intro d p
  rcases h d p with heq | ⟨n, heq⟩ <;> rw [heq]
  · exact hc d p
  · exact saturatingAdd_le _ n

/-- A counter goes up as long as it has not passed the greatest word. -/
theorem le : c ≤ c' := by
  intro d p
  rcases h d p with heq | ⟨n, heq⟩ <;> rw [heq]
  exact le_saturatingAdd (hc d p) n

end Grows

end IoCounts

/-! ## Descriptors -/

/-- What a descriptor that stays open may become. -/
structure Fd.LivesOn (fd fd' : Fd) : Prop where
  number : fd'.number = fd.number
  cloexec : fd'.cloexec = fd.cloexec
  family : fd'.family = fd.family
  /-- Only an unknown type gives way, and only to a guess. -/
  type : fd'.type = fd.type ∨ fd.type = .unknown ∧ fd'.type = .maybeNet
  /-- None of the eight counters goes down. -/
  counts : fd.io ≤ fd'.io

namespace Fd.LivesOn

variable {fd fd' fd'' : Fd}

theorem refl (fd : Fd) : fd.LivesOn fd := ⟨rfl, rfl, rfl, Or.inl rfl, fd.io.le_refl⟩

theorem trans (h : fd.LivesOn fd') (h' : fd'.LivesOn fd'') : fd.LivesOn fd'' where
  number := h'.number.trans h.number
  cloexec := h'.cloexec.trans h.cloexec
  family := h'.family.trans h.family
  type := by
    rcases h.type with heq | ⟨hunknown, hguess⟩
    · rw [← heq]
      exact h'.type
    · rcases h'.type with heq | ⟨hunknown', -⟩
      · exact Or.inr ⟨hunknown, heq.trans hguess⟩
      · rw [hguess] at hunknown'
        cases hunknown'
  counts := IoCounts.le_trans h.counts h'.counts

/-- What is known to be a file or a socket stays one. -/
theorem type_eq (h : fd.LivesOn fd') (hknown : fd.type ≠ .unknown) : fd'.type = fd.type :=
  h.type.resolve_right fun ⟨hunknown, _⟩ => hknown hunknown

theorem rename (fd : Fd) (filename : String) : fd.LivesOn { fd with filename } :=
  ⟨rfl, rfl, rfl, Or.inl rfl, fd.io.le_refl⟩

theorem countRead (h : fd.io.Bounded) (bytes : Nat) : fd.LivesOn (fd.countRead bytes) :=
  ⟨rfl, rfl, rfl, Or.inl rfl, (IoCounts.grows_addRead fd.io fd.type bytes).le h⟩

theorem countWrite (h : fd.io.Bounded) (bytes : Nat) : fd.LivesOn (fd.countWrite bytes) :=
  ⟨rfl, rfl, rfl, Or.inl rfl, (IoCounts.grows_addWrite fd.io fd.type bytes).le h⟩

theorem absorb (h : fd.io.Bounded) (other : Fd) : fd.LivesOn (fd.absorb other) :=
  ⟨rfl, rfl, rfl, Or.inl rfl, (IoCounts.grows_merge fd.io other.io).le h⟩

theorem guessed {guess : Option FdType} (h : guess = none ∨ guess = some .maybeNet) (fd : Fd) :
    fd.LivesOn (fd.guessed guess) := by
  rw [Fd.guessed_eq]
  refine ⟨rfl, rfl, rfl, ?_, fd.io.le_refl⟩
  show fd.type.orGuess guess = fd.type ∨ fd.type = .unknown ∧ fd.type.orGuess guess = .maybeNet
  unfold FdType.orGuess
  split
  · rename_i hunknown
    rcases h with rfl | rfl
    · exact Or.inl hunknown.symm
    · exact Or.inr ⟨hunknown, rfl⟩
  · exact Or.inl rfl

end Fd.LivesOn

/-! ## Tables -/

/-- The counters of every descriptor of a table are bounded. -/
def TableBounded (fds : Table Int Fd) : Prop := ∀ number fd, fds.get? number = some fd → fd.io.Bounded

/-- A descriptor that a number has after a change to a table: its counters are bounded and, if there was
one, that one lives on in it, under its name or another one where that may be. -/
structure FdCarried (fds : Table Int Fd) (number : Int) (renamed : Fd → Prop) (fd' : Fd) : Prop where
  bounded : fd'.io.Bounded
  lives : ∀ fd, fds.get? number = some fd → fd.LivesOn fd'
  name : ∀ fd, fds.get? number = some fd → fd'.filename = fd.filename ∨ renamed fd

namespace FdCarried

variable {fds : Table Int Fd} {number : Int} {renamed : Fd → Prop} {fd fd' fd'' : Fd}

theorem mono {renamed' : Fd → Prop} (h : FdCarried fds number renamed fd')
    (himp : ∀ fd, renamed fd → renamed' fd) : FdCarried fds number renamed' fd' :=
  ⟨h.bounded, h.lives, fun fd hfd => (h.name fd hfd).imp_right (himp fd)⟩

theorem of_none (hget : fds.get? number = none) (h : fd'.io.Bounded) :
    FdCarried fds number renamed fd' := by
  refine ⟨h, fun fd hfd => ?_, fun fd hfd => ?_⟩ <;> rw [hget] at hfd <;> cases hfd

theorem of_some (hget : fds.get? number = some fd) (h : fd'.io.Bounded) (hlives : fd.LivesOn fd')
    (hname : fd'.filename = fd.filename ∨ renamed fd) : FdCarried fds number renamed fd' := by
  refine ⟨h, fun own hown => ?_, fun own hown => ?_⟩ <;>
    obtain rfl : fd = own := Option.some.inj (hget.symm.trans hown)
  · exact hlives
  · exact hname

/-- What stays is carried on. -/
theorem refl (hb : TableBounded fds) (hget : fds.get? number = some fd) :
    FdCarried fds number renamed fd :=
  .of_some hget (hb number fd hget) (.refl fd) (Or.inl rfl)

/-- What is made where there is nothing, and has moved nothing, leaves what there is. -/
theorem or {made : Option Fd} (hb : TableBounded fds) (hmade : ∀ fd, made = some fd → fd.io = {})
    (h : (fds.get? number).or made = some fd') : FdCarried fds number renamed fd' := by
  cases hget : fds.get? number with
  | some own =>
    rw [hget, Option.some_or] at h
    rw [← Option.some.inj h]
    exact .refl hb hget
  | none =>
    rw [hget, Option.none_or] at h
    refine .of_none hget ?_
    rw [hmade fd' h]
    exact IoCounts.bounded_empty

/-- What a thread had takes nothing from what its leader has, but may give it a name. -/
theorem mergeFds {thread : Table Int Fd} (hb : TableBounded fds) (ht : TableBounded thread)
    (h : (Snapshot.mergeFds fds thread).get? number = some fd') :
    FdCarried fds number (·.filename = "") fd' := by
  rw [Snapshot.get?_mergeFds] at h
  cases hthread : thread.get? number with
  | none =>
    rw [hthread] at h
    exact .refl hb h
  | some other =>
    rw [hthread] at h
    rw [← Option.some.inj h]
    cases hget : fds.get? number with
    | none => exact .of_none hget (ht number other hthread)
    | some own =>
      have hown := hb number own hget
      refine .of_some hget ((IoCounts.grows_merge own.io other.io).bounded hown)
        (.absorb hown other) ?_
      by_cases hname : own.filename = ""
      · exact Or.inr hname
      · exact Or.inl (if_neg hname)

/-- A name that a snapshot reports is that of what there is, or of something new. -/
theorem afterReport {e : Event} {filename : String} (hb : TableBounded fds) :
    FdCarried fds number (fun _ => number ∈ fds)
      (Snapshot.afterReport e number filename (fds.get? number)) := by
  cases hget : fds.get? number with
  | none => exact .of_none hget IoCounts.bounded_empty
  | some own =>
    exact .of_some hget (hb number own hget) (.rename own filename) (Or.inr (Table.mem_of_get? hget))

/-- A guess changes at most the type. -/
theorem guessed {guess : Option FdType} (hguess : guess = none ∨ guess = some .maybeNet)
    (hb : TableBounded fds) (hget : fds.get? number = some fd) :
    FdCarried fds number renamed (fd.guessed guess) := by
  refine .of_some hget ?_ (.guessed hguess fd) (Or.inl ?_)
  · rw [Fd.io_guessed]
    exact hb number fd hget
  · rw [Fd.guessed_eq]

end FdCarried

/-! ## Requests -/

theorem IoBody.Pending.guess {kind : SyscallClass} {t : Transfer}
    (h : IoBody.Pending kind (.transfer t)) : t.guess = none ∨ t.guess = some .maybeNet := by
  cases kind
  case read => exact Or.inl h.2.2.2.2
  case write => exact h.2.2.2.2
  case readWrite => exact Or.inl h.2.2.2
  all_goals exact h.elim

/-- A descriptor through which bytes pass lives on under its name. -/
theorem Transfer.pass_lives {t : Transfer} (hguess : t.guess = none ∨ t.guess = some .maybeNet)
    (bytes : Nat) (number : Int) {fd : Fd} (hfd : fd.io.Bounded) :
    (t.pass bytes number fd).io.Bounded ∧ fd.LivesOn (t.pass bytes number fd) ∧
      (t.pass bytes number fd).filename = fd.filename := by
  have hread : (if t.readFrom = some number then fd.countRead bytes else fd).io.Bounded ∧
      fd.LivesOn (if t.readFrom = some number then fd.countRead bytes else fd) ∧
      (if t.readFrom = some number then fd.countRead bytes else fd).filename = fd.filename := by
    split
    · exact ⟨(IoCounts.grows_addRead fd.io fd.type bytes).bounded hfd, .countRead hfd bytes, rfl⟩
    · exact ⟨hfd, .refl fd, rfl⟩
  rw [pass_eq]
  generalize (if t.readFrom = some number then fd.countRead bytes else fd) = fd₁ at hread ⊢
  obtain ⟨hbounded, hlives, hname⟩ := hread
  dsimp only
  split
  · have hguessed : (fd₁.guessed t.guess).io.Bounded := by rwa [Fd.io_guessed]
    refine ⟨(IoCounts.grows_addWrite _ _ bytes).bounded hguessed,
      hlives.trans ((Fd.LivesOn.guessed hguess fd₁).trans (.countWrite hguessed bytes)), ?_⟩
    rw [← hname, Fd.guessed_eq]
    rfl
  · exact ⟨hbounded, hlives, hname⟩

theorem FdCarried.pass {fds : Table Int Fd} {t : Transfer} {number : Int} {renamed : Fd → Prop}
    (hguess : t.guess = none ∨ t.guess = some .maybeNet) (hb : TableBounded fds) (bytes : Nat) :
    FdCarried fds number renamed (t.pass bytes number (fdOrFresh fds number)) := by
  unfold fdOrFresh
  cases hget : fds.get? number with
  | none => exact .of_none hget (Transfer.pass_lives hguess bytes number IoCounts.bounded_empty).1
  | some own =>
    obtain ⟨hbounded, hlives, hname⟩ := Transfer.pass_lives hguess bytes number (hb number own hget)
    exact .of_some hget hbounded hlives (Or.inl hname)

/-- What a table holds is carried on by a request that succeeded. Only a connection renames it. -/
theorem FdCarried.fdAfter {kind : SyscallClass} {body : IoBody} {n number : Int}
    {fds : Table Int Fd} {fd' : Fd} (hp : body.Pending kind) (hb : TableBounded fds)
    (h : body.fdAfter n fds number = some fd') :
    FdCarried fds number (fun _ => ∃ filename, body = .connect number (some filename)) fd' := by
  cases body with
  | opening r =>
    refine .or hb (fun fd hfd => ?_) h
    split at hfd <;> cases hfd
    rfl
  | sync fd size =>
    refine .or hb (fun fd hfd => ?_) h
    split at hfd <;> cases hfd
    rfl
  | close fd =>
    dsimp only [IoBody.fdAfter] at h
    split at h
    · cases h
    · exact .refl hb h
  | transfer t =>
    dsimp only [IoBody.fdAfter] at h
    split at h
    · cases h
      exact .pass hp.guess hb n.toNat
    · exact .refl hb h
  | connect fd address =>
    obtain ⟨own, hget, rfl⟩ := Option.map_eq_some_iff.1 h
    split
    · rename_i hn
      refine .of_some hget (hb number own hget) (.rename own _) ?_
      cases address with
      | none => exact Or.inl rfl
      | some filename => exact Or.inr ⟨filename, by rw [hn]⟩
    · exact .refl hb hget

/-! ## Events -/

/-- The counters of every descriptor are bounded. -/
def State.FdsBounded (s : State) : Prop := ∀ k, TableBounded (s.fds k)

/-- Where the name of a descriptor may change: the change is told, or the descriptor has no name and the
table of a thread is folded into the one that it is in. -/
def Event.MayRename (e : Event) (l : List Signal) (k number : Int) (fd : Fd) : Prop :=
  ⟨.update, k, number⟩ ∈ fdNotices l ∨ fd.filename = "" ∧ ∃ tid, tid ≠ k ∧ e.member? = some (tid, k)

/-- What is in a table that an event rewrites is a copy for the child of a fork, or carries on what was
there. -/
theorem Event.Rewrites.carried {e : Event} {s s' : State} {l : List Signal} {k number : Int} {fd' : Fd}
    (hs : s.CallsSound) (hb : s.FdsBounded) (h : e.Rewrites s s' l k)
    (hafter : (s'.fds k).get? number = some fd') :
    e.forked? = some k ∧ fd'.io = {} ∨
      FdCarried (s.fds k) number (e.MayRename l k number) fd' := by
  cases h with
  | entry enters owner target frees =>
    rw [frees.fds, if_pos rfl, Table.get?_erase] at hafter
    split at hafter
    · cases hafter
    · exact Or.inr (.refl (hb k) hafter)
  | @exit tid n rq succeeds owner fds told =>
    rw [fds] at hafter
    obtain ⟨call, hcall, hrq⟩ := Option.bind_eq_some_iff.1 succeeds.request
    obtain ⟨kind, -, hp⟩ := ((hs.pending tid call hcall).request rq hrq).body
    have hcarried := FdCarried.fdAfter hp (hb k) hafter
    refine Or.inr ⟨hcarried.bounded, hcarried.lives, fun fd hfd => ?_⟩
    refine (hcarried.name fd hfd).imp_right fun ⟨filename, hbody⟩ => Or.inl ?_
    exact told number filename hbody (Table.mem_of_get? hfd)
  | exec kind about owner fds =>
    rw [fds] at hafter
    exact Or.inr (.refl (hb k) (Option.filter_eq_some_iff.1 hafter).1)
  | fork child fds =>
    rw [fds, Table.get?_map] at hafter
    obtain ⟨fd, -, rfl⟩ := Option.map_eq_some_iff.1 hafter
    exact Or.inl ⟨child, rfl⟩
  | @report reported filename kind owner about name fds told =>
    rw [fds] at hafter
    split at hafter
    · rename_i hn
      subst hn
      rw [← Option.some.inj hafter]
      exact Or.inr ((FdCarried.afterReport (hb k)).mono fun _ hmem => Or.inl (told hmem))
    · exact Or.inr (.refl (hb k) hafter)
  | member told other fds =>
    rw [fds] at hafter
    cases hafter
  | @leader tid told other fds =>
    rw [fds] at hafter
    refine Or.inr ((FdCarried.mergeFds (hb k) (hb tid) hafter).mono fun fd hname => ?_)
    exact Or.inr ⟨hname, tid, Ne.symm other, told⟩
  | packet kind actor owner fds =>
    rw [fds, Table.get?_adjust] at hafter
    split at hafter
    · obtain ⟨own, hget, rfl⟩ := Option.map_eq_some_iff.1 hafter
      exact Or.inr (.guessed (Or.inr rfl) (hb k) hget)
    · exact Or.inr (.refl (hb k) hafter)

namespace Run

variable {settings : Settings} {history more : List Step} {r r' : Replay} {e : Event}
  {p : Replay.Progress} {k number : Int} {fd fd' : Fd}

theorem fdsBounded (h : Run settings history r) : r.state.FdsBounded := by
  induction h with
  | start => nofun
  | @next history r e p h hp ih =>
    intro k number fd hget
    rcases h.rewrites hp k with hsame | hrewrites
    · rw [hsame] at hget
      exact ih k number fd hget
    · rcases hrewrites.carried h.callsSound ih hget with ⟨-, hio⟩ | hcarried
      · rw [hio]
        exact IoCounts.bounded_empty
      · exact hcarried.bounded

/-- What is open before and after an event lives on, unless a fork makes the owner anew. -/
theorem livesOn_step (h : Run settings history r) (hp : r.process e = .ok p)
    (hopen : r.state.ownFd? k number = some fd) (hafter : p.replay.state.ownFd? k number = some fd')
    (hfork : e.forked? ≠ some k) :
    fd.LivesOn fd' ∧ (fd'.filename = fd.filename ∨ e.MayRename p.signals k number fd) := by
  rcases h.rewrites hp k with hsame | hrewrites
  · rw [State.ownFd?, hsame, ← State.ownFd?, hopen] at hafter
    rw [← Option.some.inj hafter]
    exact ⟨.refl fd, Or.inl rfl⟩
  · rcases hrewrites.carried h.callsSound h.fdsBounded hafter with ⟨hmade, -⟩ | hcarried
    · exact (hfork hmade).elim
    · exact ⟨hcarried.lives fd hopen, hcarried.name fd hopen⟩

/-- The life of a descriptor that is open. An event after which it still is, and that is no fork of its
owner, leaves its number, mark and family, lets no counter go down, changes at most an unknown type to a
guess, and changes the name only where that is told, or to name one without a name in a fold. So it is
for as long as the descriptor is open, and what is known to be a file or a socket stays one. -/
theorem descriptor_lives_on (h : Run settings history r)
    (hopen : r.state.ownFd? k number = some fd) :
    (∀ {e p fd'}, r.process e = .ok p → p.replay.state.ownFd? k number = some fd' →
      e.forked? ≠ some k →
      fd.LivesOn fd' ∧ (fd'.filename = fd.filename ∨ e.MayRename p.signals k number fd)) ∧
    ∀ {more r'}, Run settings (history ++ more) r' →
      (∀ step ∈ more, (step.after.ownFd? k number).isSome ∧ step.event.forked? ≠ some k) →
      ∃ fd', r'.state.ownFd? k number = some fd' ∧ fd.LivesOn fd' ∧
        (fd.type = .disk ∨ fd.type = .net → fd'.type = fd.type) := by
  refine ⟨fun hp hafter hfork => h.livesOn_step hp hopen hafter hfork, fun {more r'} h' hstays => ?_⟩
  have hlives : ∃ fd', r'.state.ownFd? k number = some fd' ∧ fd.LivesOn fd' := by
    refine h.later_induction (motive := fun more r' =>
      (∀ step ∈ more, (step.after.ownFd? k number).isSome ∧ step.event.forked? ≠ some k) →
        ∃ fd', r'.state.ownFd? k number = some fd' ∧ fd.LivesOn fd') (fun _ => ⟨fd, hopen, .refl fd⟩)
      (fun {more r' e p} h' hp ih hstays => ?_) h' hstays
    obtain ⟨fd₁, hopen₁, hlives⟩ := ih fun step hstep => hstays step (List.mem_append_left _ hstep)
    obtain ⟨hafter, hfork⟩ := hstays _ (List.mem_append_right _ List.mem_cons_self)
    obtain ⟨fd₂, hopen₂⟩ := Option.isSome_iff_exists.1 hafter
    exact ⟨fd₂, hopen₂, hlives.trans (h'.livesOn_step hp hopen₁ hopen₂ hfork).1⟩
  obtain ⟨fd', hafter, hlive⟩ := hlives
  exact ⟨fd', hafter, hlive, fun hknown => hlive.type_eq (by rcases hknown with hk | hk <;> simp [hk])⟩

/-- A thread writes to a file while a packet leaves the machine. -/
def writingDuringPacket : List Event :=
  [.recorded 0 10 "sched_switch" [("prev_tid", .signed 0), ("next_tid", .signed 7)],
   .recorded 0 20 "syscall_entry_open" [("filename", .text "/etc/hosts")],
   .recorded 0 30 "syscall_exit_open" [("ret", .signed 3)],
   .recorded 0 40 "syscall_entry_write" [("fd", .signed 3)],
   .recorded 0 50 "net_dev_xmit" [("name", .text "eth0"), ("len", .unsigned 64)]]

/-- The bytes have been written. -/
def writeEnds : Event := .recorded 0 60 "syscall_exit_write" [("ret", .signed 64)]

/-- The file is not taken for a socket, neither by the packet nor as its bytes are counted. -/
theorem descriptor_lives_on_writingDuringPacket : ∃ history r p fd fd', Run {} history r ∧
    r.process writeEnds = .ok p ∧ r.state.ownFd? 7 3 = some fd ∧
    p.replay.state.ownFd? 7 3 = some fd' ∧ fd.io ≠ fd'.io ∧ fd.io ≤ fd'.io ∧
    fd'.cloexec = fd.cloexec ∧ fd.type = .disk ∧ fd'.type = .disk := by
  have hshows : Replay.showsNext {} writingDuringPacket writeEnds (fun _ r p =>
      (r.state.ownFd? 7 3).isSome ∧ (p.replay.state.ownFd? 7 3).isSome ∧
      (r.state.ownFd? 7 3).map (·.type) = some .disk ∧
      (r.state.ownFd? 7 3).map (·.io) ≠ (p.replay.state.ownFd? 7 3).map (·.io)) = true := by
    decide +kernel
  obtain ⟨history, r, p, h, hp, htest⟩ := Run.of_showsNext hshows
  obtain ⟨hsome, hsome', htype, hcounted⟩ := of_decide_eq_true htest
  obtain ⟨fd, hopen⟩ := Option.isSome_iff_exists.1 hsome
  obtain ⟨fd', hafter⟩ := Option.isSome_iff_exists.1 hsome'
  rw [hopen] at htype hcounted
  rw [hafter] at hcounted
  have hdisk : fd.type = .disk := Option.some.inj htype
  have hfork : writeEnds.forked? ≠ some 7 := by decide +kernel
  obtain ⟨hstep, hlater⟩ := descriptor_lives_on h hopen
  have hlives := (hstep hp hafter hfork).1
  obtain ⟨last, hlast, -, hstays⟩ := hlater (h.next hp) fun step hmem => by
    rw [List.mem_singleton.1 hmem]
    exact ⟨hsome', hfork⟩
  obtain rfl : fd' = last := Option.some.inj (hafter.symm.trans hlast)
  exact ⟨history, r, p, fd, fd', h, hp, hopen, hafter, fun heq => hcounted (congrArg some heq),
    hlives.counts, hlives.cloexec, hdisk, (hstays (Or.inl hdisk)).trans hdisk⟩

end Run

end KernelReplay
