import KernelReplay.Machine.State.Holdings
import KernelReplay.Replay
import KernelReplay.Update.Lemmas

/-
  Veils. A veil alters parts of a state that few rules look at, and the same parts of what is told
  of it. An update is blind to a veil if from a veiled state it does what it does from the state
  itself, veiled (`Blind`): it overflows in both or in neither, gives the same value and reports
  the same.

  Blindness is read in two ways. What a veil alters has no influence on a blind update; and a blind
  update leaves alone what a veil pins to the value that it has (`Replay.process_pinned`), for
  under such a veil the state does not differ from itself.
-/

namespace KernelReplay

open Update

/-- A change of threads with other threads in it. -/
def Switch.mapThreads (f : Thread → Thread) (taken : Switch) : Switch :=
  { taken with next := f taken.next, waker := taken.waker.map f }

/-- A notification with other threads in it. -/
def Notification.mapThreads (f : Thread → Thread) : Notification → Notification
  | switchPerCpu taken => switchPerCpu (taken.mapThreads f)
  | switchPerThread taken => switchPerThread (taken.mapThreads f)
  | migrate thread cpu target => migrate (f thread) cpu target
  | requestExit rq thread owner => requestExit rq (f thread) (f owner)
  | blockComplete rq thread => blockComplete rq (thread.map f)
  | fd change descriptor owner time cpu => fd change descriptor (f owner) time cpu
  | createParent thread parent => createParent (f thread) (f parent)
  | pageAlloc thread cpu => pageAlloc (f thread) cpu
  | pageFree thread cpu => pageFree (f thread) cpu
  | syscallExit thread call cpu => syscallExit (f thread) call cpu
  | n => n

/-- A way to alter what few rules look at. A request that has just begun looks as it is: no page has
been freed for it, and it has woken nobody. -/
structure Veil where
  /-- The pages freed for a request. -/
  freed : Nat → Nat := id
  /-- Whether a request woke the thread that reclaims pages. -/
  woke : Bool → Bool := id
  disks : Table Nat Disk → Table Nat Disk := id
  ifaces : Table String Iface → Table String Iface := id
  pageCount : Nat → Nat := id
  version : Option TracerVersion → Option TracerVersion := id
  offset : Bool → Bool := id
  /-- The bytes that a packet is told to have. -/
  bytes : Nat → Nat := id
  freed_zero : freed 0 = 0 := by rfl
  woke_false : woke false = false := by rfl

namespace Veil

/-- The veil that hides nothing. -/
def sheer : Veil := {}

variable (v : Veil)

/-- A request under the veil. -/
def request (rq : IoRequest) : IoRequest :=
  { rq with pagesFreed := v.freed rq.pagesFreed, wokeKswapd := v.woke rq.wokeKswapd }

/-- A syscall under the veil. -/
def call (c : Call) : Call := { c with request := c.request.map v.request }

/-- A thread under the veil. -/
def thread (t : Thread) : Thread := t.mapRequest v.request

/-- A state under the veil. -/
def state (s : State) : State :=
  { s with
    threads := s.threads.map fun _ => v.thread
    disks := v.disks s.disks
    ifaces := v.ifaces s.ifaces
    pageCount := v.pageCount s.pageCount
    tracerVersion := v.version s.tracerVersion
    priorityOffset := v.offset s.priorityOffset }

/-- A notification under the veil: its threads, the request and the syscall that it tells to be
over, and the bytes of its packet. -/
def notification (n : Notification) : Notification :=
  match n.mapThreads v.thread with
  | .requestExit rq thread owner => .requestExit (v.request rq) thread owner
  | .transmit iface bytes cpu => .transmit iface (v.bytes bytes) cpu
  | .receive iface bytes cpu => .receive iface (v.bytes bytes) cpu
  | .syscallExit thread call cpu => .syscallExit thread (v.call call) cpu
  | told => told

/-- A signal under the veil. Nothing of what a veil alters is reported to people. -/
def signal : Signal → Signal
  | .notification n => .notification (v.notification n)
  | .diagnostic d => .diagnostic d

/-- What an update leaves behind, under the veil. -/
def outcome {α : Type} (o : Outcome α) : Outcome α :=
  ⟨o.value, v.state o.state, o.signals.map v.signal⟩

/-- A replay under the veil. -/
def replay (r : Replay) : Replay := { r with state := v.state r.state }

/-- What replaying gives, under the veil. -/
def progress (p : Replay.Progress) : Replay.Progress :=
  { replay := v.replay p.replay, signals := p.signals.map v.signal }

/-! ## Threads -/

@[simp] theorem thread_tid (t : Thread) : (v.thread t).tid = t.tid := rfl

@[simp] theorem thread_pid (t : Thread) : (v.thread t).pid = t.pid := rfl

@[simp] theorem thread_comm (t : Thread) : (v.thread t).comm = t.comm := rfl

@[simp] theorem thread_prio (t : Thread) : (v.thread t).prio = t.prio := rfl

@[simp] theorem thread_fds (t : Thread) : (v.thread t).fds = t.fds := rfl

@[simp] theorem thread_call (t : Thread) : (v.thread t).call = t.call.map v.call := rfl

@[simp] theorem thread_lastWakeup (t : Thread) : (v.thread t).lastWakeup = t.lastWakeup := rfl

@[simp] theorem thread_lastWaker (t : Thread) : (v.thread t).lastWaker = t.lastWaker := rfl

@[simp] theorem thread_migrations (t : Thread) : (v.thread t).migrations = t.migrations := rfl

@[simp] theorem call_name (c : Call) : (v.call c).name = c.name := rfl

@[simp] theorem call_request (c : Call) : (v.call c).request = c.request.map v.request := rfl

@[simp] theorem request_body (rq : IoRequest) : (v.request rq).body = rq.body := rfl

/-- A change of a request that reads nothing veiled commutes with the veil. -/
theorem mapRequest_thread {f : IoRequest → IoRequest}
    (h : ∀ rq, f (v.request rq) = v.request (f rq)) (t : Thread) :
    (v.thread t).mapRequest f = v.thread (t.mapRequest f) := by
  unfold thread
  rw [Thread.mapRequest_mapRequest, Thread.mapRequest_mapRequest]
  exact congrArg t.mapRequest (funext h)

@[simp] theorem thread_ofGroup (tid pid : Int) (comm : String) :
    v.thread (.ofGroup tid pid comm) = .ofGroup tid pid comm := rfl

@[simp] theorem thread_fresh (tid : Int) : v.thread (.fresh tid) = .fresh tid := by
  unfold Thread.fresh
  split <;> rfl

section Shown

variable {v} (hfreed : v.freed = id) (hwoke : v.woke = id)

include hfreed hwoke

/-- Requests look as they are if what pages mean to them does. -/
theorem request_eq_self (rq : IoRequest) : v.request rq = rq := by
  unfold request
  rw [hfreed, hwoke]
  rfl

theorem call_eq_self (c : Call) : v.call c = c := by
  unfold call
  rw [funext (request_eq_self hfreed hwoke)]
  show { c with request := c.request.map id } = c
  rw [Option.map_id]
  rfl

theorem thread_eq_self (t : Thread) : v.thread t = t := by
  have hrequest : v.request = id := funext (request_eq_self hfreed hwoke)
  unfold thread
  rw [hrequest, Thread.mapRequest_id]

/-- What is told looks as it is if packets do too. -/
theorem notification_eq_self (hbytes : v.bytes = id) (n : Notification) :
    v.notification n = n := by
  have hthread : v.thread = id := funext (thread_eq_self hfreed hwoke)
  have hthreads : ∀ t? : Option Thread, t?.map v.thread = t? := fun t? => by
    rw [hthread]
    exact congrFun Option.map_id t?
  unfold notification
  cases n <;> simp only [Notification.mapThreads, Switch.mapThreads, thread_eq_self hfreed hwoke,
    hthreads, request_eq_self hfreed hwoke, call_eq_self hfreed hwoke, hbytes, id]

/-- A state under a veil that is over other things than threads. -/
theorem state_of_threads (s : State) : v.state s =
    { s with
      disks := v.disks s.disks
      ifaces := v.ifaces s.ifaces
      pageCount := v.pageCount s.pageCount
      tracerVersion := v.version s.tracerVersion
      priorityOffset := v.offset s.priorityOffset } := by
  have hthreads : (s.threads.map fun _ => v.thread) = s.threads := by
    refine Table.ext_get? fun k => ?_
    rw [Table.get?_map, funext (thread_eq_self hfreed hwoke)]
    exact Option.map_id'
  unfold state
  rw [hthreads]

end Shown

/-! ## Queries -/

variable (s : State)

variable {v s} in
/-- A state under a veil that pins all of it to what it is. -/
theorem state_eq_self (hfreed : v.freed = id) (hwoke : v.woke = id)
    (hdisks : v.disks s.disks = s.disks) (hifaces : v.ifaces s.ifaces = s.ifaces)
    (hpages : v.pageCount s.pageCount = s.pageCount) (hversion : v.version = id)
    (hoffset : v.offset = id) : v.state s = s := by
  rw [state_of_threads hfreed hwoke, hdisks, hifaces, hpages, hversion, hoffset]
  rfl

@[simp] theorem cpus_state : (v.state s).cpus = s.cpus := rfl

@[simp] theorem running?_state (cpu : Nat) : (v.state s).running? cpu = s.running? cpu := rfl

@[simp] theorem running_state : (v.state s).running = s.running := rfl

@[simp] theorem isRunning_state (tid : Int) : (v.state s).isRunning tid = s.isRunning tid := rfl

@[simp] theorem cpuOrFresh_state (cpu : Nat) : (v.state s).cpuOrFresh cpu = s.cpuOrFresh cpu := rfl

@[simp] theorem thread?_state (tid : Int) :
    (v.state s).thread? tid = (s.thread? tid).map v.thread :=
  Table.get?_map ..

@[simp] theorem bind_thread?_state (tid? : Option Int) :
    tid?.bind (v.state s).thread? = (tid?.bind s.thread?).map v.thread := by
  cases tid? with
  | none => rfl
  | some tid => exact v.thread?_state s tid

@[simp] theorem contains_state (tid : Int) :
    (v.state s).threads.contains tid = s.threads.contains tid := by
  rw [Table.contains_eq, Table.contains_eq]
  show ((v.state s).thread? tid).isSome = (s.thread? tid).isSome
  rw [thread?_state, Option.isSome_map]

@[simp] theorem threadOrFresh_state (tid : Int) :
    (v.state s).threadOrFresh tid = v.thread (s.threadOrFresh tid) := by
  unfold State.threadOrFresh
  rw [thread?_state]
  cases s.thread? tid with
  | none => exact (v.thread_fresh tid).symm
  | some t => rfl

@[simp] theorem fdOwner_state (tid : Int) : (v.state s).fdOwner tid = s.fdOwner tid := by
  unfold State.fdOwner
  have hpid : ((v.state s).thread? tid).bind (·.pid) = (s.thread? tid).bind (·.pid) := by
    rw [thread?_state]
    cases s.thread? tid <;> rfl
  rw [hpid]
  simp only [contains_state]

@[simp] theorem fds_state (tid : Int) : (v.state s).fds tid = s.fds tid := by
  unfold State.fds
  rw [thread?_state]
  cases s.thread? tid <;> rfl

@[simp] theorem ownFd?_state (tid number : Int) :
    (v.state s).ownFd? tid number = s.ownFd? tid number := by
  unfold State.ownFd?
  rw [fds_state]

/-! ## Changes -/

theorem setThread_state {tid : Int} {t t' : Thread} (h : t' = v.thread t) :
    (v.state s).setThread tid t' = v.state (s.setThread tid t) := by
  subst h
  unfold State.setThread state
  dsimp only
  rw [Table.map_insert]

theorem updateThread_state (tid : Int) {f : Thread → Thread}
    (h : ∀ t, f (v.thread t) = v.thread (f t)) :
    (v.state s).updateThread tid f = v.state (s.updateThread tid f) := by
  unfold State.updateThread
  rw [threadOrFresh_state]
  exact setThread_state v s (h _)

theorem admitThread_state (tid : Int) :
    (v.state s).admitThread tid = v.state (s.admitThread tid) :=
  v.updateThread_state s tid fun _ => rfl

theorem adjustThread_state (tid : Int) {f : Thread → Thread}
    (h : ∀ t, f (v.thread t) = v.thread (f t)) :
    (v.state s).adjustThread tid f = v.state (s.adjustThread tid f) := by
  cases ht : s.thread? tid with
  | none =>
    rw [State.adjustThread_of_none ht, State.adjustThread_of_none]
    rw [thread?_state, ht]
    rfl
  | some t =>
    have ht' : (v.state s).thread? tid = some (v.thread t) := by
      rw [thread?_state, ht]
      rfl
    rw [State.adjustThread_eq_setThread ht, State.adjustThread_eq_setThread ht']
    exact v.setThread_state s (h t)

theorem adjustFd_state (tid number : Int) (f : Fd → Fd) :
    (v.state s).adjustFd tid number f = v.state (s.adjustFd tid number f) :=
  v.adjustThread_state s tid fun _ => rfl

theorem adjustRequest_state (tid : Int) {f : IoRequest → IoRequest}
    (h : ∀ rq, f (v.request rq) = v.request (f rq)) :
    (v.state s).adjustRequest tid f = v.state (s.adjustRequest tid f) :=
  v.adjustThread_state s tid (v.mapRequest_thread h)

theorem updateCpu_state (cpu : Nat) (f : Cpu → Cpu) :
    (v.state s).updateCpu cpu f = v.state (s.updateCpu cpu f) := rfl

end Veil

/-! ## Blindness -/

namespace Update

variable {α β : Type} {v : Veil} {s : State}

/-- From the veiled state the second update does what the first does from the state, veiled. -/
def BlindAt (v : Veil) (u u' : Update α) (s : State) : Prop :=
  u' (v.state s) = (u s).map v.outcome

/-- The update does not look behind the veil, and does not change what is there. -/
def Blind (v : Veil) (u : Update α) : Prop := ∀ s, BlindAt v u u s

theorem blindAt_pure (a : α) : BlindAt v (pure a) (pure a) s := rfl

theorem BlindAt.bind {u u' : Update α} {f f' : α → Update β} (hu : BlindAt v u u' s)
    (hf : ∀ o, u s = .ok o → BlindAt v (f o.value) (f' o.value) o.state) :
    BlindAt v (u >>= f) (u' >>= f') s := by
  unfold BlindAt at hu hf ⊢
  rw [bind_run, bind_run, hu]
  cases ho : u s with
  | error => rfl
  | ok o =>
    have hrest : f' (v.outcome o).value (v.outcome o).state = (f o.value o.state).map v.outcome :=
      hf o ho
    dsimp only [Except.map]
    rw [hrest]
    cases f o.value o.state with
    | error => rfl
    | ok o' => simp [Except.map, Veil.outcome]

theorem BlindAt.get_bind {f f' : State → Update β} (h : BlindAt v (f s) (f' (v.state s)) s) :
    BlindAt v (get >>= f) (get >>= f') s := by
  unfold BlindAt at h ⊢
  rw [get_bind_run, get_bind_run, h]

theorem BlindAt.modify_bind {g g' : State → State} {f f' : Unit → Update β}
    (hg : g' (v.state s) = v.state (g s)) (h : BlindAt v (f ()) (f' ()) (g s)) :
    BlindAt v (modify g >>= f) (modify g' >>= f') s := by
  unfold BlindAt at h ⊢
  rw [modify_bind_run, modify_bind_run, hg, h]

theorem blindAt_modify {g g' : State → State} (hg : g' (v.state s) = v.state (g s)) :
    BlindAt v (modify g) (modify g') s := by
  unfold BlindAt
  rw [modify_run, modify_run, hg]
  rfl

theorem blindAt_notify {n n' : Notification} (h : n' = v.notification n) :
    BlindAt v (notify n) (notify n') s := by
  subst h
  rfl

theorem blindAt_report (d : Diagnostic) : BlindAt v (report d) (report d) s := rfl

/-- A computation on what a veil alters, if it overflows as on the rest and its result is altered.
-/
theorem BlindAt.compute_bind {result result' : Except Overflow α} {φ : α → α}
    {f f' : α → Update β} (hr : result' = result.map φ)
    (h : ∀ a, result = .ok a → BlindAt v (f a) (f' (φ a)) s) :
    BlindAt v (compute result >>= f) (compute result' >>= f') s := by
  subst hr
  cases result with
  | error => rfl
  | ok a =>
    show BlindAt v (pure a >>= f) (pure (φ a) >>= f') s
    rw [pure_bind, pure_bind]
    exact h a rfl

theorem blindAt_whenSome {a? : Option α} {f f' : α → Update Unit}
    (h : ∀ a, a? = some a → BlindAt v (f a) (f' a) s) :
    BlindAt v (whenSome a? f) (whenSome a? f') s := by
  cases a? with
  | none => exact blindAt_pure ()
  | some a => exact h a rfl

/-- Going on with a value that is veiled. -/
theorem blindAt_whenSome_map {a? a'? : Option α} {φ : α → α} {f f' : α → Update Unit}
    (ha : a'? = a?.map φ) (h : ∀ a, a? = some a → BlindAt v (f a) (f' (φ a)) s) :
    BlindAt v (whenSome a? f) (whenSome a'? f') s := by
  subst ha
  cases a? with
  | none => exact blindAt_pure ()
  | some a => exact h a rfl

theorem blindAt_ite {c c' : Prop} [Decidable c] [Decidable c'] {u u' w w' : Update α}
    (hc : c' ↔ c) (hu : BlindAt v u u' s) (hw : BlindAt v w w' s) :
    BlindAt v (if c then u else w) (if c' then u' else w') s := by
  by_cases h : c
  · rwa [if_pos h, if_pos (hc.2 h)]
  · rwa [if_neg h, if_neg (h ∘ hc.1)]

theorem Blind.get_bind {f : State → Update β} (h : ∀ s, BlindAt v (f s) (f (v.state s)) s) :
    Blind v (get >>= f) :=
  fun s => BlindAt.get_bind (h s)

theorem Blind.modify_bind {g : State → State} {f : Unit → Update β}
    (hg : ∀ s, g (v.state s) = v.state (g s)) (hf : Blind v (f ())) :
    Blind v (modify g >>= f) :=
  fun s => BlindAt.modify_bind (hg s) (hf _)

theorem blind_modify {g : State → State} (hg : ∀ s, g (v.state s) = v.state (g s)) :
    Blind v (modify g) :=
  fun s => blindAt_modify (hg s)

theorem blind_notify {n : Notification} (h : n = v.notification n) : Blind v (notify n) :=
  fun _ => blindAt_notify h

theorem blind_report (d : Diagnostic) : Blind v (report d) := fun _ => blindAt_report d

theorem blind_whenSome {a? : Option α} {f : α → Update Unit} (h : ∀ a, Blind v (f a)) :
    Blind v (whenSome a? f) :=
  fun s => blindAt_whenSome fun a _ => h a s

theorem Blind.bind {u : Update α} {f : α → Update β} (hu : Blind v u) (hf : ∀ a, Blind v (f a)) :
    Blind v (u >>= f) :=
  fun s => (hu s).bind fun o _ => hf o.value o.state

theorem blind_pure (a : α) : Blind v (pure a) := fun _ => blindAt_pure a

theorem blind_ite {c : Prop} [Decidable c] {u w : Update α} (hu : Blind v u) (hw : Blind v w) :
    Blind v (if c then u else w) :=
  fun s => blindAt_ite Iff.rfl (hu s) (hw s)

theorem blind_forEach {l : List α} {f : α → Update Unit} (h : ∀ a, Blind v (f a)) :
    Blind v (forEach l f) := by
  induction l with
  | nil => exact blind_pure ()
  | cons a rest ih => exact (h a).bind fun _ => ih

theorem blind_admitCpu (cpu : Nat) : Blind v (admitCpu cpu) := by
  intro s
  refine BlindAt.get_bind (blindAt_ite Iff.rfl (blindAt_pure _) ?_)
  exact BlindAt.modify_bind (v.updateCpu_state s cpu id) (blindAt_report _)

end Update

end KernelReplay
