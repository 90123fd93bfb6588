import KernelReplay.Machine.State.Reworks
import KernelReplay.Proofs.CountersTold
import KernelReplay.Proofs.ExitSequences

/-
  What a finished request does, exactly. A request that succeeded changes the table that its thread
  uses and, if it moved bytes, the counts of its thread, and nothing else (`IoBody.Settles`). Both are
  told from the table before, number by number (`IoBody.fdAfter`, `IoBody.countsAfter`): the rules make
  descriptors, guess a type and count one after the other, and the two sides of a transfer may be one
  descriptor, but what is left does not show it. A request that failed changes nothing. So the state
  after the exit of a syscall is known in full (`Run.exit_settles`).
-/

namespace KernelReplay

open Law Update

namespace State

variable {s : State} {tid : Int}

/-- The state in which a thread is in no syscall. -/
def withoutCall (s : State) (tid : Int) : State := s.adjustThread tid fun t => { t with call := none }

theorem knows_withoutCall {k : Int} (h : s.Knows k) : (s.withoutCall tid).Knows k :=
  h.adjustThread tid _

theorem tablesKept_withoutCall (s : State) (tid : Int) : tablesKept.rel s [] (s.withoutCall tid) :=
  ⟨funext (view_adjustThread_of_eq fun _ => rfl), by simp [sending]⟩

theorem fds_withoutCall (s : State) (tid k : Int) : (s.withoutCall tid).fds k = s.fds k :=
  fds_of_tablesKept (s.tablesKept_withoutCall tid) k

theorem fdOwner_withoutCall (s : State) (tid k : Int) :
    (s.withoutCall tid).fdOwner k = s.fdOwner k :=
  s.fdOwner_adjustThread tid k fun _ => rfl

/-- The state after a thread has left its syscall, with another table for an owner and other counts for
the thread. -/
def afterExit (s : State) (tid owner : Int) (fds : Table Int Fd) (count : IoCounts → IoCounts) : State :=
  { s with threads := s.threads.map fun k t =>
    { t with
      call := if k = tid then none else t.call
      fds := if k = owner then fds else t.fds
      io := if k = tid then count t.io else t.io } }

theorem thread?_afterExit (s : State) (tid owner k : Int) (fds : Table Int Fd)
    (count : IoCounts → IoCounts) :
    (s.afterExit tid owner fds count).thread? k = (s.thread? k).map fun t =>
      { t with
        call := if k = tid then none else t.call
        fds := if k = owner then fds else t.fds
        io := if k = tid then count t.io else t.io } :=
  Table.get?_map ..

/-- The table of the owner is the other one. -/
theorem ownFd?_afterExit (tid : Int) {owner : Int} (number : Int) (fds : Table Int Fd)
    (count : IoCounts → IoCounts) (h : s.Knows owner) :
    (s.afterExit tid owner fds count).ownFd? owner number = fds.get? number := by
  obtain ⟨thread, ht⟩ := h
  rw [ownFd?, State.fds, thread?_afterExit, ht, Option.map_some, if_pos rfl]
  rfl

theorem rework_withoutCall (s : State) (owner tid : Int) (fds : Table Int Fd)
    (count : IoCounts → IoCounts) : (s.withoutCall tid).rework owner tid (fun _ => fds) count =
      s.afterExit tid owner fds count := by
  unfold withoutCall adjustThread rework afterExit
  congr 1
  refine Table.ext_get? fun k => ?_
  rw [Table.get?_map, Table.get?_adjust, Table.get?_map]
  by_cases hk : k = tid <;> cases s.threads.get? k <;> simp [hk]

end State

/-! ## What a request does to a table -/

/-- The descriptor of a number in a table, or a fresh one under it. -/
def fdOrFresh (fds : Table Int Fd) (number : Int) : Fd := (fds.get? number).getD { number }

/-- The type of a descriptor stays where what changes keeps it. -/
theorem type_fdOrFresh_adjustAt (fds : Table Int Fd) (side : Option Int) (number : Int) {f : Fd → Fd}
    (h : ∀ fd, (f fd).type = fd.type) :
    (fdOrFresh (fds.adjustAt side f) number).type = (fdOrFresh fds number).type := by
  unfold fdOrFresh
  rw [Table.get?_adjustAt]
  cases fds.get? number with
  | none => rfl
  | some fd =>
    show (if side = some number then f fd else fd).type = fd.type
    split
    · exact h fd
    · rfl

/-- The type that a guess leaves: only an unknown type gives way to one. -/
def FdType.orGuess (type : FdType) (guess : Option FdType) : FdType :=
  if type = .unknown then guess.getD .unknown else type

theorem Fd.guessed_eq (fd : Fd) (guess : Option FdType) :
    fd.guessed guess = { fd with type := fd.type.orGuess guess } := by
  obtain ⟨number, filename, type, cloexec, family, io⟩ := fd
  cases type <;> cases guess <;> rfl

/-- A tally with the bytes of one more transfer: in total and in the class of the type that they passed
under, no counter above the greatest word. -/
def Tally.plus (t : Tally) (type : FdType) (bytes : Nat) : Tally where
  total := min (t.total + bytes) maxWord
  net := if type = .net ∨ type = .maybeNet then min (t.net + bytes) maxWord else t.net
  disk := if type = .disk then min (t.disk + bytes) maxWord else t.disk
  other := if type = .unknown then min (t.other + bytes) maxWord else t.other

theorem Tally.add_eq_plus (t : Tally) (type : FdType) (bytes : Nat) :
    t.add type bytes = t.plus type bytes := by
  cases type <;> rfl

namespace Transfer

/-- The descriptors that a transfer names. -/
def numbers (t : Transfer) : List Int := [t.fd, t.source, t.target].filterMap id

/-- The descriptor that is read: that of a read, or the source between two. -/
def readFrom (t : Transfer) : Option Int :=
  match t.operation with
  | .read => t.fd
  | .readWrite => t.source
  | _ => none

/-- The descriptor that is written to: that of a write, or the target between two. -/
def writtenTo (t : Transfer) : Option Int :=
  match t.operation with
  | .write => t.fd
  | .readWrite => t.target
  | _ => none

theorem Formed.readSide_eq {t : Transfer} (h : t.Formed) : t.readSide = t.readFrom := by
  rcases h.operation with hop | hop | hop <;> rw [readSide, readFrom, hop]

theorem Formed.writeSide_eq {t : Transfer} (h : t.Formed) : t.writeSide = t.writtenTo := by
  rcases h.operation with hop | hop | hop <;> rw [writeSide, writtenTo, hop]

theorem mem_numbers_iff {t : Transfer} {number : Int} :
    number ∈ t.numbers ↔ t.fd = some number ∨ t.source = some number ∨ t.target = some number := by
  simp [numbers, eq_comm]

theorem mem_numbers_of_readFrom {t : Transfer} {number : Int} (h : t.readFrom = some number) :
    number ∈ t.numbers := by
  rw [mem_numbers_iff]
  unfold readFrom at h
  split at h
  · exact Or.inl h
  · exact Or.inr (Or.inl h)
  · cases h

theorem mem_numbers_of_writtenTo {t : Transfer} {number : Int} (h : t.writtenTo = some number) :
    number ∈ t.numbers := by
  rw [mem_numbers_iff]
  unfold writtenTo at h
  split at h
  · exact Or.inl h
  · exact Or.inr (Or.inr h)
  · cases h

/-- A descriptor after a transfer has moved bytes. They are counted under the type that it has, which
a guess may change before bytes are written to it. -/
def pass (t : Transfer) (bytes : Nat) (number : Int) (fd : Fd) : Fd :=
  { fd with
    type := if t.writtenTo = some number then fd.type.orGuess t.guess else fd.type
    io :=
      { read := if t.readFrom = some number then fd.io.read.plus fd.type bytes else fd.io.read
        write :=
          if t.writtenTo = some number then fd.io.write.plus (fd.type.orGuess t.guess) bytes
          else fd.io.write } }

/-- What passes through a descriptor is counted for one side after the other. -/
theorem pass_eq (t : Transfer) (bytes : Nat) (number : Int) (fd : Fd) :
    t.pass bytes number fd =
      let fd := if t.readFrom = some number then fd.countRead bytes else fd
      if t.writtenTo = some number then (fd.guessed t.guess).countWrite bytes else fd := by
  unfold pass
  simp only [Fd.guessed_eq, Fd.countRead, Fd.countWrite, IoCounts.addRead, IoCounts.addWrite,
    Tally.add_eq_plus]
  split <;> split <;> rfl

/-- No bytes pass through a descriptor that the transfer does not name. -/
theorem pass_of_not_mem (t : Transfer) (bytes : Nat) {number : Int} (h : number ∉ t.numbers) :
    t.pass bytes number = id := by
  have hread : t.readFrom ≠ some number := fun hd => h (mem_numbers_of_readFrom hd)
  have hwrite : t.writtenTo ≠ some number := fun hd => h (mem_numbers_of_writtenTo hd)
  funext fd
  rw [pass_eq, if_neg hread]
  exact if_neg hwrite

/-- A table after a transfer has moved bytes. -/
def passAll (t : Transfer) (bytes : Nat) (fds : Table Int Fd) : Table Int Fd :=
  (fds.adjustAt t.readSide (·.countRead bytes)).adjustAt t.writeSide fun fd =>
    (fd.guessed t.guess).countWrite bytes

theorem Formed.get?_passAll {t : Transfer} (h : t.Formed) (bytes : Nat) (fds : Table Int Fd)
    (number : Int) :
    (t.passAll bytes fds).get? number = (fds.get? number).map (t.pass bytes number) := by
  unfold passAll
  rw [Table.get?_adjustAt, Table.get?_adjustAt, Option.map_map, h.readSide_eq, h.writeSide_eq,
    funext (t.pass_eq bytes number)]
  rfl

/-- The counts of a thread after a transfer of its has moved bytes. They are counted under the types
of the descriptors. -/
def countsAfter (t : Transfer) (bytes : Nat) (fds : Table Int Fd) (io : IoCounts) : IoCounts where
  read :=
    match t.readFrom with
    | some number => io.read.plus (fdOrFresh fds number).type bytes
    | none => io.read
  write :=
    match t.writtenTo with
    | some number => io.write.plus ((fdOrFresh fds number).type.orGuess t.guess) bytes
    | none => io.write

end Transfer

namespace IoBody

/-- The descriptor of a number in a table after a request succeeded with a result. -/
def fdAfter (body : IoBody) (ret : Int) (fds : Table Int Fd) (number : Int) : Option Fd :=
  match body with
  | .opening o => (fds.get? number).or (if number = ret then
      some { number := ret, filename := o.filename, type := o.type, cloexec := o.cloexec,
             family := o.family, io := {} }
    else none)
  | .close fd => if number = fd ∧ ret = 0 then none else fds.get? number
  | .transfer t =>
    if number ∈ t.numbers then some (t.pass ret.toNat number (fdOrFresh fds number))
    else fds.get? number
  | .sync fd _ => (fds.get? number).or (if fd = some number then some { number } else none)
  | .connect fd address => (fds.get? number).map fun own =>
    if number = fd then { own with filename := address.getD own.filename } else own

/-- The counts of a thread after a request of its succeeded with a result. -/
def countsAfter (body : IoBody) (ret : Int) (fds : Table Int Fd) (io : IoCounts) : IoCounts :=
  match body with
  | .transfer t => t.countsAfter ret.toNat fds io
  | _ => io

/-- The second state is the first one after a request of a thread, which uses the table of an owner,
succeeded with a result. -/
def Settles (body : IoBody) (ret tid owner : Int) (s s' : State) : Prop :=
  ∃ fds, (∀ number, fds.get? number = body.fdAfter ret (s.fds owner) number) ∧
    s' = s.rework owner tid (fun _ => fds) (body.countsAfter ret (s.fds owner))

/-- A request settles if it does to the table that is there what it should. -/
theorem Settles.of_rework {body : IoBody} {ret tid owner : Int} {s s' : State}
    {f : Table Int Fd → Table Int Fd}
    (hf : ∀ number, (f (s.fds owner)).get? number = body.fdAfter ret (s.fds owner) number)
    (hs : s' = s.rework owner tid f (body.countsAfter ret (s.fds owner))) :
    body.Settles ret tid owner s s' :=
  ⟨f (s.fds owner), hf, hs.trans (State.rework_congr rfl)⟩

end IoBody

/-- What connects is a connection. -/
theorem IoBody.Pending.eq_connect {kind : SyscallClass} {body : IoBody} (h : body.Pending kind)
    (hop : body.operation = .connect) :
    kind = .connect ∧ ∃ fd address, body = .connect fd address := by
  cases body with
  | connect fd address => cases kind <;> first | exact ⟨rfl, fd, address, rfl⟩ | exact h.elim
  | transfer t =>
    obtain hformed := Transfer.Formed.of_pending h
    have hop : t.operation = .connect := hop
    rcases hformed.operation with hop' | hop' | hop' <;> rw [hop] at hop' <;> cases hop'
  | opening _ | close _ | sync _ _ => cases hop

/-- A request that succeeded is completed with the result. -/
theorem IoRequest.body_of_success {rq finished : IoRequest} {tid time n : Int} {call : Call}
    {ret : Option Int} (hp : rq.Pending tid call) (hret : ret = some n)
    (hsucceeded : 0 ≤ n ∨ n = -115 ∧ rq.body.operation = .connect)
    (h : rq.finish time ret = .ok finished) : finished.body = rq.body.complete n := by
  obtain ⟨errno, body, rfl, hresult⟩ := finish_cases h
  rcases hresult with ⟨hnone, -, -⟩ | ⟨m, hm, hcases⟩
  · rw [hret] at hnone
    cases hnone
  obtain rfl : n = m := Option.some.inj (hret.symm.trans hm)
  rcases hcases with ⟨hneg, -, hbody⟩ | ⟨-, -, hbody⟩
  · -- A connection that goes on has an error, but no result to complete it with.
    rcases hsucceeded with hpos | ⟨-, hop⟩
    · exact absurd hneg (Int.not_lt.2 hpos)
    · obtain ⟨kind, -, hpending⟩ := hp.body
      obtain ⟨-, fd, address, heq⟩ := hpending.eq_connect hop
      rw [heq] at hbody ⊢
      exact hbody
  · exact hbody

/-! ## What the rules do -/

namespace Descriptors

variable {s : State} {owner time : Int} {cpu : Option Nat} {o : Outcome Unit}

theorem ensure_rework (ho : s.Knows owner) (tid : Int) {fd : Fd}
    (h : ensure owner fd time cpu s = .ok o) :
    o.state = s.rework owner tid (·.insertNew fd.number fd) id := by
  cases hf : s.ownFd? owner fd.number with
  | some own =>
    rw [ensure_run_of_some (by rw [hf]; rfl)] at h
    cases h
    have hthere : (s.fds owner).insertNew fd.number fd = id (s.fds owner) :=
      if_pos (Table.mem_of_get? hf)
    exact ((State.rework_congr hthere).trans (s.rework_id owner tid)).symm
  | none =>
    rw [ensure_run_of_none hf] at h
    cases h
    obtain ⟨thread, ht⟩ := ho
    have hwith : withFd s owner fd = { thread with fds := thread.fds.insert fd.number fd } := by
      rw [withFd, State.threadOrFresh_of_thread? ht]
    have hnew : (s.fds owner).insert fd.number fd = (s.fds owner).insertNew fd.number fd :=
      (if_neg (Table.not_mem_of_get? hf)).symm
    rw [hwith, ← State.rework_congr (f := (·.insert fd.number fd)) hnew, ← State.adjustThread_fds,
      State.adjustThread_eq_setThread ht]

theorem state_of_announce {change : FdChange} {number : Int}
    (h : announce change owner number time cpu s = .ok o) : o.state = s := by
  cases hf : s.ownFd? owner number with
  | none =>
    rw [announce_run_of_none change hf] at h
    cases h
    rfl
  | some fd =>
    obtain ⟨thread, ht, hf⟩ := ownFd?_eq_some_iff.1 hf
    rw [announce_run change ht hf] at h
    cases h
    rfl

theorem close_rework (tid : Int) {number : Int} (h : close owner number time cpu s = .ok o) :
    o.state = s.rework owner tid (·.erase number) id := by
  obtain ⟨o₁, o₂, h₁, h₂, rfl⟩ := bind_eq_ok_iff.1 h
  cases h₂
  rw [state_of_announce h₁]
  exact s.adjustThread_fds owner tid (·.erase number)

/-- Of each number a descriptor is made unless there is one. -/
theorem ensureAll_rework (ho : s.Knows owner) (tid : Int) {numbers : List Int}
    (h : forEach numbers (fun number => ensure owner { number } time cpu) s = .ok o) :
    ∃ f, o.state = s.rework owner tid f id ∧ ∀ fds number, (f fds).get? number =
      (fds.get? number).or (if number ∈ numbers then some { number } else none) := by
  induction numbers generalizing s o with
  | nil =>
    cases h
    refine ⟨id, (s.rework_id owner tid).symm, fun fds number => ?_⟩
    rw [if_neg (by simp), Option.or_none, id_eq]
  | cons n rest ih =>
    obtain ⟨o₁, o₂, h₁, h₂, rfl⟩ := bind_eq_ok_iff.1 h
    have hs₁ := ensure_rework ho tid h₁
    obtain ⟨f, hs₂, hf⟩ := ih (s := o₁.state) (by rw [hs₁]; exact State.knows_rework.2 ho) h₂
    refine ⟨f ∘ (·.insertNew n { number := n }), ?_, fun fds number => ?_⟩
    · show o₂.state = _
      rw [hs₂, hs₁, State.rework_rework]
      rfl
    · rw [Function.comp_apply, hf, Table.get?_insertNew, Option.or_assoc]
      by_cases hn : number = n
      · rw [if_pos hn, Option.some_or, if_pos (by rw [hn]; exact List.mem_cons_self), hn]
      · rw [if_neg hn, Option.none_or]
        simp only [List.mem_cons, hn, false_or]

end Descriptors

namespace IoRequests

variable {e : Event} {cpu : Nat} {tid owner : Int} {s : State} {o : Outcome Unit}

/-- Counting one side of a transfer changes the descriptor, which is there, and counts the bytes of the
thread under the type that the descriptor then has. -/
theorem countSide_rework (side : Option Int) (onFd : Fd → Fd)
    (onThread : FdType → IoCounts → IoCounts)
    (hside : ∀ number, side = some number → number ∈ s.fds owner) :
    countSide owner tid side onFd onThread s = s.rework owner tid
      (fun fds => fds.adjustAt side onFd)
      (fun io => side.elim io fun number =>
        onThread (onFd (fdOrFresh (s.fds owner) number)).type io) := by
  cases side with
  | none => exact (s.rework_id owner tid).symm
  | some number =>
    obtain ⟨fd, hfd⟩ := Option.isSome_iff_exists.1 (Table.mem_iff.1 (hside number rfl))
    have hown : (some number).bind (s.ownFd? owner) = some fd := hfd
    have hfresh : fdOrFresh (s.fds owner) number = fd := by rw [fdOrFresh, hfd]; rfl
    unfold countSide
    rw [hown]
    dsimp only [Option.elim_some]
    rw [hfresh, s.adjustFd_rework owner tid, State.adjustThread_io _ owner tid (onThread (onFd fd).type),
      State.rework_rework]
    rfl

/-- A transfer whose descriptors are there passes its bytes through them. -/
theorem countBytes_rework {t : Transfer} {bytes : Nat} (hformed : t.Formed) (ho : s.Knows owner)
    (hret : t.returned = some bytes) (hnumbers : ∀ number ∈ t.numbers, number ∈ s.fds owner) :
    countBytes t tid owner s =
      s.rework owner tid (t.passAll bytes) (t.countsAfter bytes (s.fds owner)) := by
  have hread : ∀ number, t.readSide = some number → number ∈ s.fds owner := fun number h =>
    hnumbers number (Transfer.mem_numbers_of_readFrom (hformed.readSide_eq ▸ h))
  have hwrite : ∀ number, t.writeSide = some number → number ∈ s.fds owner := fun number h =>
    hnumbers number (Transfer.mem_numbers_of_writtenTo (hformed.writeSide_eq ▸ h))
  unfold countBytes
  rw [hret]
  dsimp only
  rw [countSide_rework t.readSide _ _ hread]
  generalize hs₁ : s.rework owner tid _ _ = s₁
  have hfds : s₁.fds owner = (s.fds owner).adjustAt t.readSide (·.countRead bytes) := by
    rw [← hs₁]
    exact State.fds_rework ho
  rw [countSide_rework t.writeSide _ _ fun number h => by
    rw [hfds, Table.mem_adjustAt]
    exact hwrite number h]
  -- Counting what is read leaves the types under which what is written is counted.
  have htype : ∀ number, (((fdOrFresh (s₁.fds owner) number).guessed t.guess).countWrite bytes).type =
      (fdOrFresh (s.fds owner) number).type.orGuess t.guess := by
    intro number
    have hkept := type_fdOrFresh_adjustAt (s.fds owner) t.readSide number
      (f := (·.countRead bytes)) fun _ => rfl
    rw [← hfds] at hkept
    rw [← hkept, Fd.guessed_eq]
    rfl
  rw [← hs₁, State.rework_rework, hs₁]
  congr 1
  funext io
  unfold Transfer.countsAfter
  rw [← hformed.readSide_eq, ← hformed.writeSide_eq]
  simp only [← Tally.add_eq_plus]
  cases t.writeSide with
  | none => cases t.readSide <;> rfl
  | some number =>
    rw [Function.comp_apply, Option.elim_some, htype]
    cases t.readSide <;> rfl

section Settles

variable {n : Int} (ho : s.Knows owner)

theorem settles_connect {number : Int} {address : Option String}
    (h : whenSome address (fun filename => do
      modify (·.adjustFd owner number fun fd => { fd with filename })
      Descriptors.announce .update owner number e.time (some cpu)) s = .ok o) :
    (IoBody.connect number address).Settles n tid owner s o.state := by
  rcases whenSome_cases h with ⟨rfl, rfl⟩ | ⟨filename, rfl, hrest⟩
  · refine .of_rework (f := id) (fun k => ?_) (s.rework_id owner tid).symm
    simp [IoBody.fdAfter]
  · rw [modify_bind_run] at hrest
    refine .of_rework (fun k => ?_)
      ((Descriptors.state_of_announce hrest).trans (s.adjustFd_rework owner tid number _))
    dsimp only [IoBody.fdAfter, Option.getD_some]
    rw [Table.get?_adjust]
    by_cases hk : k = number
    · simp only [if_pos hk]
    · simp only [if_neg hk, Option.map_id']

theorem settles_close {number : Int}
    (h : whenSome (closed? (.close number) (some n)) (fun number =>
      Descriptors.close owner number e.time (some cpu)) s = .ok o) :
    (IoBody.close number).Settles n tid owner s o.state := by
  rcases whenSome_cases h with ⟨hnone, rfl⟩ | ⟨k, hsome, h⟩
  · have hn : n ≠ 0 := by
      rintro rfl
      cases hnone
    refine .of_rework (f := id) (fun k => ?_) (s.rework_id owner tid).symm
    exact (if_neg fun h => hn h.2).symm
  · obtain ⟨hb, hn⟩ := closed?_eq_some_iff.1 hsome
    cases hb
    cases hn
    refine .of_rework (fun k => ?_) (Descriptors.close_rework tid h)
    dsimp only [IoBody.fdAfter]
    rw [Table.get?_erase]
    simp only [and_true]

include ho

theorem settles_opening {r : OpenRequest}
    (h : Descriptors.ensure owner (r.descriptor n) e.time (some cpu) s = .ok o) :
    (IoBody.opening r).Settles n tid owner s o.state := by
  refine .of_rework (fun number => ?_) (Descriptors.ensure_rework ho tid h)
  exact Table.get?_insertNew ..

theorem settles_sync {fd : Option Int} {size : Option Nat}
    (h : whenSome fd (fun number => Descriptors.ensure owner { number } e.time (some cpu)) s = .ok o) :
    (IoBody.sync fd size).Settles n tid owner s o.state := by
  rcases whenSome_cases h with ⟨rfl, rfl⟩ | ⟨number, rfl, hensure⟩
  · refine .of_rework (f := id) (fun number => ?_) (s.rework_id owner tid).symm
    exact (Option.or_none ..).symm
  · refine .of_rework (fun k => ?_) (Descriptors.ensure_rework ho tid hensure)
    dsimp only [IoBody.fdAfter]
    rw [Table.get?_insertNew]
    by_cases hk : k = number
    · rw [hk, if_pos rfl, if_pos rfl]
    · rw [if_neg hk, if_neg fun heq => hk (Option.some.inj heq).symm]

/-- The descriptors that a transfer names are made before its bytes pass through them, so they pass
under the types of the table before. -/
theorem settles_transfer {t : Transfer} (hformed : t.Formed)
    (h : (forEach t.numbers (fun number => Descriptors.ensure owner { number } e.time (some cpu))
      >>= fun _ => modify (countBytes (t.complete n.toNat) tid owner)) s = .ok o) :
    (IoBody.transfer t).Settles n tid owner s o.state := by
  obtain ⟨o₁, o₂, h₁, h₂, rfl⟩ := bind_eq_ok_iff.1 h
  cases h₂
  obtain ⟨f, hs₁, hf⟩ := Descriptors.ensureAll_rework ho tid h₁
  have hfds : o₁.state.fds owner = f (s.fds owner) := by
    rw [hs₁]
    exact State.fds_rework ho
  have hthere : ∀ number ∈ t.numbers, number ∈ o₁.state.fds owner := by
    intro number hnumber
    rw [hfds, Table.mem_iff, hf, if_pos hnumber]
    cases (s.fds owner).get? number <;> rfl
  have hfresh : fdOrFresh (f (s.fds owner)) = fdOrFresh (s.fds owner) := by
    funext number
    unfold fdOrFresh
    rw [hf]
    cases (s.fds owner).get? number with
    | some fd => rfl
    | none => by_cases hn : number ∈ t.numbers <;> simp [hn]
  have hcounts : t.countsAfter n.toNat (f (s.fds owner)) = t.countsAfter n.toNat (s.fds owner) := by
    funext io
    unfold Transfer.countsAfter
    rw [hfresh]
  have hknown : o₁.state.Knows owner := by
    rw [hs₁]
    exact State.knows_rework.2 ho
  have hcounted : countBytes (t.complete n.toNat) tid owner o₁.state = _ :=
    countBytes_rework (hformed.complete n.toNat) hknown rfl hthere
  refine .of_rework (f := t.passAll n.toNat ∘ f) (fun number => ?_) ?_
  · dsimp only [Function.comp_apply, IoBody.fdAfter]
    rw [hformed.get?_passAll, hf]
    by_cases hn : number ∈ t.numbers
    · rw [if_pos hn, if_pos hn]
      unfold fdOrFresh
      cases (s.fds owner).get? number <;> rfl
    · rw [if_neg hn, if_neg hn, Option.or_none]
      have hpass : t.pass n.toNat number = id := t.pass_of_not_mem n.toNat hn
      rw [hpass, Option.map_id, id_eq]
  · have hstate : countBytes (t.complete n.toNat) tid owner o₁.state =
        s.rework owner tid (t.passAll n.toNat ∘ f) (t.countsAfter n.toNat (s.fds owner)) := by
      rw [hcounted, hfds, hs₁, State.rework_rework]
      exact congrArg _ hcounts
    exact hstate

/-- A request that succeeded settles, with the descriptor that it closes taken out last. -/
theorem settles_of_applyBody {kind : SyscallClass} {body : IoBody} {o₁ o₂ : Outcome Unit}
    (hpending : body.Pending kind)
    (happly : applyBody (body.complete n) e tid owner cpu s = .ok o₁)
    (hclose : whenSome (closed? (body.complete n) (some n)) (fun number =>
      Descriptors.close owner number e.time (some cpu)) o₁.state = .ok o₂) :
    body.Settles n tid owner s o₂.state := by
  cases body with
  | opening r =>
    cases hclose
    exact settles_opening ho (o := o₁) happly
  | close number =>
    cases happly
    exact settles_close hclose
  | transfer t =>
    cases hclose
    exact settles_transfer ho (.of_pending hpending) (o := o₁) happly
  | sync fd size =>
    cases hclose
    exact settles_sync ho (o := o₁) happly
  | connect number address =>
    cases hclose
    exact settles_connect (o := o₁) happly

end Settles

section Finish

variable {rq : IoRequest} {call : Call} {n : Int}

/-- A request that succeeded settles when it is finished. -/
theorem finish_settles (hp : rq.Pending tid call) (hknown : s.Knows tid)
    (hret : e.int? "ret" = some n)
    (hsucceeded : 0 ≤ n ∨ n = -115 ∧ rq.body.operation = .connect)
    (h : finish e cpu tid rq s = .ok o) : rq.body.Settles n tid (s.fdOwner tid) s o.state := by
  obtain ⟨finished, o₁, o₂, thread, leader, hf, hsettle, -, -, hclose, hstate, -⟩ :=
    finish_parts hknown h
  have hbody : finished.body = rq.body.complete n := IoRequest.body_of_success hp hret hsucceeded hf
  have hdone : finished.succeeded (e.int? "ret") = true := by
    rw [IoRequest.succeeded_iff, IoRequest.operation_of_finish hf]
    exact ⟨n, hret, hsucceeded⟩
  unfold settle at hsettle
  rw [if_pos hdone, hbody] at hsettle
  rw [hbody, hret] at hclose
  rw [hstate]
  obtain ⟨kind, -, hpending⟩ := hp.body
  exact settles_of_applyBody (s.knows_fdOwner hknown) hpending hsettle hclose

/-- A request that failed changes nothing, and is told all the same. -/
theorem finish_of_failed (hknown : s.Knows tid)
    (hfailed : ∀ n, e.int? "ret" = some n → n < 0 ∧ (n = -115 → rq.body.operation ≠ .connect))
    (h : finish e cpu tid rq s = .ok o) :
    o.state = s ∧ ∃ finished thread leader,
      notificationsOf o.signals = [.requestExit finished thread leader] := by
  obtain ⟨finished, o₁, o₂, thread, leader, hf, hsettle, -, -, hclose, hstate, hsignals⟩ :=
    finish_parts hknown h
  have hnot : ¬ finished.succeeded (e.int? "ret") = true := by
    rw [IoRequest.succeeded_iff, IoRequest.operation_of_finish hf]
    rintro ⟨n, hret, hpos | ⟨hn, hop⟩⟩
    · exact Int.not_lt.2 hpos (hfailed n hret).1
    · exact (hfailed n hret).2 hn hop
  have hopen : closed? finished.body (e.int? "ret") = none := by
    refine Option.eq_none_iff_forall_ne_some.2 fun number hsome => ?_
    have hzero := (closed?_eq_some_iff.1 hsome).2
    exact absurd (hfailed 0 hzero).1 (Int.lt_irrefl 0)
  unfold settle at hsettle
  rw [if_neg hnot] at hsettle
  cases hsettle
  rw [hopen] at hclose
  cases hclose
  rw [hsignals]
  exact ⟨hstate, finished, thread, leader, rfl⟩

end Finish

end IoRequests

/-! ## Runs -/

/-- A request that is known by what it asks for is that of a call. -/
theorem State.exists_request {s : State} {tid : Int} {body : IoBody}
    (h : ((s.call? tid).bind (·.request)).map (·.body) = some body) :
    ∃ call rq, s.call? tid = some call ∧ call.request = some rq ∧ rq.body = body := by
  obtain ⟨rq, hrq, hbody⟩ := Option.map_eq_some_iff.1 h
  obtain ⟨call, hcall, hrq⟩ := Option.bind_eq_some_iff.1 hrq
  exact ⟨call, rq, hcall, hrq, hbody⟩

namespace Syscalls

variable {e : Event} {s : State} {o : Outcome Unit}

/-- The end of a syscall is announced, and its request is finished from the state in which the thread is
in none. -/
theorem exits_of_call {tid : Int} {call : Call} (hact : e.actor? s.running? = some tid)
    (hcall : s.call? tid = some call)
    (h : (Syscalls.exit e >>= fun _ => IoRequests.exit e) s = .ok o) :
    ∃ cpu thread ended o', s.Knows tid ∧
      (if isIoSyscall call.name then whenSome call.request (IoRequests.finish e cpu tid) else pure ())
        (s.withoutCall tid) = .ok o' ∧ o.state = o'.state ∧
      o.signals = .notification (.syscallExit thread ended cpu) :: o'.signals := by
  rcases exit_cases h with ⟨hnone, -, -⟩ |
    ⟨cpu, tid', thread, call', ended, o', hc, hr, ht, hcall', -, hrest, hstate, hsignals⟩
  · rw [hnone tid hact] at hcall
    cases hcall
  obtain rfl : tid' = tid := Option.some.inj ((Option.bind_eq_some_iff.2 ⟨cpu, hc, hr⟩).symm.trans hact)
  rw [State.call?, ht] at hcall
  obtain rfl : call' = call := Option.some.inj (hcall'.symm.trans hcall)
  have hafter : s.withoutCall tid' = s.setThread tid' { thread with call := none } :=
    State.adjustThread_eq_setThread ht _
  rw [← hafter] at hrest
  exact ⟨cpu, _, ended, o', ⟨thread, ht⟩, hrest, hstate, hsignals⟩

section Call

variable {tid n : Int} {call : Call} {rq : IoRequest} (hs : s.CallsSound)
  (hact : e.actor? s.running? = some tid) (hcall : s.call? tid = some call)
  (h : (Syscalls.exit e >>= fun _ => IoRequests.exit e) s = .ok o)

include hs hact hcall h

/-- The exit of a syscall settles its request, if it has one that succeeded. -/
theorem exits_settle (hrq : call.request = some rq) (hret : e.int? "ret" = some n)
    (hsucceeded : 0 ≤ n ∨ n = -115 ∧ rq.body.operation = .connect) :
    rq.body.Settles n tid (s.fdOwner tid) (s.withoutCall tid) o.state := by
  obtain ⟨cpu, thread, ended, o', hknown, hrest, hstate, -⟩ := exits_of_call hact hcall h
  have hp := (hs.pending tid call hcall).request rq hrq
  obtain ⟨kind, hkind, -⟩ := hp.body
  rw [isIoSyscall, hkind, Option.isSome_some, if_pos rfl, hrq, whenSome_some] at hrest
  have hsettles := IoRequests.finish_settles hp (State.knows_withoutCall hknown) hret hsucceeded hrest
  rwa [State.fdOwner_withoutCall, ← hstate] at hsettles

omit hs in
/-- The exit of a syscall leaves tables and counts alone, unless it has a request that succeeded. -/
theorem exits_of_failed (hfailed : ∀ rq n, call.request = some rq → e.int? "ret" = some n →
    n < 0 ∧ (n = -115 → rq.body.operation ≠ .connect)) : tablesKept.rel s o.signals o.state := by
  obtain ⟨cpu, thread, ended, o', hknown, hrest, hstate, hsignals⟩ := exits_of_call hact hcall h
  have hleft : tablesKept.rel s [.notification (.syscallExit thread ended cpu)] (s.withoutCall tid) :=
    ⟨(s.tablesKept_withoutCall tid).1, by simp [sending, Notification.TellsTables]⟩
  have hrest : tablesKept.rel (s.withoutCall tid) o'.signals o'.state := by
    split at hrest
    · rcases whenSome_cases hrest with ⟨-, rfl⟩ | ⟨rq, hrq, hfinish⟩
      · exact tablesKept.idle _
      · obtain ⟨hstate', finished, thread', leader, hn⟩ := IoRequests.finish_of_failed
          (State.knows_withoutCall hknown) (fun n hret => hfailed rq n hrq hret) hfinish
        rw [hstate']
        exact ⟨rfl, by simp [sending, hn, Notification.TellsTables]⟩
    · cases hrest
      exact tablesKept.idle _
  rw [hstate, hsignals]
  exact tablesKept.chain hleft hrest

end Call

end Syscalls

namespace Run

variable {settings : Settings} {history : List Step} {r : Replay} {e : Event} {p : Replay.Progress}
  {tid n : Int} {call : Call} {rq : IoRequest}

/-- The exit of a syscall whose request succeeded takes the syscall off its thread, leaves the table that
the thread uses as `IoBody.fdAfter` says of each number, counts for the thread what
`IoBody.countsAfter` says, and changes nothing else. -/
theorem exit_settles (h : Run settings history r) (hp : r.process e = .ok p)
    (hleaves : e.Leaves r.state.running? tid) (hcall : r.state.call? tid = some call)
    (hrq : call.request = some rq) (hret : e.int? "ret" = some n)
    (hsucceeded : 0 ≤ n ∨ n = -115 ∧ rq.body.operation = .connect) :
    ∃ fds, (∀ number, fds.get? number =
        rq.body.fdAfter n (r.state.fds (r.state.fdOwner tid)) number) ∧
      p.replay.state = r.state.afterExit tid (r.state.fdOwner tid) fds
        (rq.body.countsAfter n (r.state.fds (r.state.fdOwner tid))) := by
  obtain ⟨o, ho, hs, -⟩ := h.exit_run hp hleaves.1
  obtain ⟨fds, hfds, hstate⟩ :=
    Syscalls.exits_settle h.callsSound hleaves.2 hcall ho hrq hret hsucceeded
  rw [State.fds_withoutCall] at hfds hstate
  rw [State.rework_withoutCall] at hstate
  exact ⟨fds, hfds, hs.trans hstate⟩

/-- A thread of another's group moves bytes from a socket to that socket. -/
def loopedSocket : List Event :=
  [.recorded 0 10 "sched_switch" [("prev_tid", .signed 0), ("next_tid", .signed 7)],
   .recorded 0 20 "lttng_statedump_process_state" [("tid", .signed 7), ("pid", .signed 5)],
   .recorded 0 30 "syscall_entry_socket" [("family", .signed 2)],
   .recorded 0 40 "syscall_exit_socket" [("ret", .signed 3)],
   .recorded 0 50 "syscall_entry_splice"
     [("fd_in", .signed 3), ("fd_out", .signed 3), ("len", .unsigned 64)]]

/-- The socket is opened in the leader's table with what its request says. The bytes then count once for
each direction, for the socket and for the thread; the leader itself has moved none. -/
theorem exit_settles_loopedSocket :
    (∃ history r p, Run {} history r ∧
      r.process (.recorded 0 40 "syscall_exit_socket" [("ret", .signed 3)]) = .ok p ∧
      p.replay.state.ownFd? 5 3 =
        some { number := 3, filename := "socket", type := .net, family := some 2 }) ∧
    ∃ history r p, Run {} history r ∧
      r.process (.recorded 0 60 "syscall_exit_splice" [("ret", .signed 64)]) = .ok p ∧
      (p.replay.state.ownFd? 5 3).map (·.io) =
        some { read := { total := 64, net := 64 }, write := { total := 64, net := 64 } } ∧
      (p.replay.state.thread? 7).map (·.io) =
        some { read := { total := 64, net := 64 }, write := { total := 64, net := 64 } } ∧
      (p.replay.state.thread? 5).map (·.io) = some {} := by
  constructor
  · have hshows : Replay.showsNext {} (loopedSocket.take 3)
        (.recorded 0 40 "syscall_exit_socket" [("ret", .signed 3)]) (fun _ r _ =>
          r.state.running? 0 = some 7 ∧ r.state.fdOwner 7 = 5 ∧
          ((r.state.call? 7).bind (·.request)).map (·.body) =
            some (.opening { filename := "socket", type := .net, family := some 2 }) ∧
          (r.state.thread? 5).isSome ∧ r.state.ownFd? 5 3 = none) = true := by
      decide +kernel
    obtain ⟨history, r, p, h, hp, htest⟩ := Run.of_showsNext hshows
    obtain ⟨hrunning, howner, hbody, hleader, hnone⟩ := of_decide_eq_true htest
    obtain ⟨call, rq, hcall, hrq, hbody⟩ := State.exists_request hbody
    obtain ⟨fds, hfds, hstate⟩ := exit_settles h hp (n := 3) ⟨by decide +kernel, hrunning⟩ hcall hrq
      (by decide +kernel) (Or.inl (by decide))
    have hopened := hfds 3
    rw [howner, hbody] at hopened hstate
    refine ⟨history, r, p, h, hp, ?_⟩
    have hget : (r.state.fds 5).get? 3 = none := hnone
    rw [hstate, State.ownFd?_afterExit _ _ _ _ (Option.isSome_iff_exists.1 hleader), hopened]
    dsimp only [IoBody.fdAfter]
    rw [hget, if_pos rfl]
    rfl
  have hshows : Replay.showsNext {} loopedSocket
      (.recorded 0 60 "syscall_exit_splice" [("ret", .signed 64)]) (fun _ r _ =>
        r.state.running? 0 = some 7 ∧ r.state.fdOwner 7 = 5 ∧
        ((r.state.call? 7).bind (·.request)).map (·.body) =
          some (.transfer (.between (some 3) (some 3) (some 64))) ∧
        r.state.ownFd? 5 3 =
          some { number := 3, filename := "socket", type := .net, family := some 2 } ∧
        (r.state.thread? 7).map (·.io) = some {} ∧ (r.state.thread? 5).map (·.io) = some {}) = true := by
    decide +kernel
  obtain ⟨history, r, p, h, hp, htest⟩ := Run.of_showsNext hshows
  obtain ⟨hrunning, howner, hbody, hfd, hthread, hleader⟩ := of_decide_eq_true htest
  obtain ⟨call, rq, hcall, hrq, hbody⟩ := State.exists_request hbody
  obtain ⟨fds, hfds, hstate⟩ := exit_settles h hp (n := 64) ⟨by decide +kernel, hrunning⟩ hcall hrq
    (by decide +kernel) (Or.inl (by decide))
  have hsocket := hfds 3
  rw [howner, hbody] at hsocket hstate
  obtain ⟨thread, ht, hio⟩ := Option.map_eq_some_iff.1 hthread
  obtain ⟨leader, hl, hio'⟩ := Option.map_eq_some_iff.1 hleader
  have hside : fdOrFresh (r.state.fds 5) 3 =
      { number := 3, filename := "socket", type := .net, family := some 2 } := by
    rw [fdOrFresh, ← State.ownFd?, hfd]
    rfl
  refine ⟨history, r, p, h, hp, ?_, ?_, ?_⟩
  · rw [hstate, State.ownFd?_afterExit _ _ _ _ ⟨leader, hl⟩, hsocket]
    dsimp only [IoBody.fdAfter]
    rw [hside, if_pos (by decide)]
    decide
  · rw [hstate, State.thread?_afterExit, ht, Option.map_some, Option.map_some]
    dsimp only [IoBody.countsAfter, Transfer.countsAfter, Transfer.between, Transfer.readFrom,
      Transfer.writtenTo]
    rw [hside, if_pos rfl, hio]
    decide
  · rw [hstate, State.thread?_afterExit, hl, ← hio']
    rfl

end Run

end KernelReplay
