import KernelReplay.Update.Laws

/-
  Updates that succeed. `FulfilsAt L u s` says that an update that starts at `s` ends, without a
  number out of its range, and as the law allows; `Fulfils L u` says so of every state. An update
  that computes nothing fulfils whatever it obeys, so a rule without a calculation is shown to succeed
  and to keep a law in one go, by following its text as for `Obeys`.
-/

namespace KernelReplay

/-- The law that allows everything. -/
def Law.any : Law where
  rel _ _ _ := True
  idle _ := trivial
  chain _ _ := trivial

namespace Update

variable {α β : Type} {L M : Law}

/-- The update succeeds where it starts at `s`, and keeps the law. -/
def FulfilsAt (L : Law) (u : Update α) (s : State) : Prop :=
  ∃ o, u s = .ok o ∧ L.rel s o.signals o.state

/-- The update succeeds and keeps the law. -/
def Fulfils (L : Law) (u : Update α) : Prop := ∀ s, FulfilsAt L u s

theorem FulfilsAt.obeysAt {u : Update α} {s : State} (h : FulfilsAt L u s) : ObeysAt L u s := by
  obtain ⟨o, ho, hrel⟩ := h
  exact obeysAt_of_run ho hrel

theorem Fulfils.obeys {u : Update α} (h : Fulfils L u) : Obeys L u := fun s => (h s).obeysAt

theorem Fulfils.mono {u : Update α} (h : Fulfils L u)
    (hLM : ∀ {s l s'}, L.rel s l s' → M.rel s l s') : Fulfils M u := by
  intro s
  obtain ⟨o, ho, hrel⟩ := h s
  exact ⟨o, ho, hLM hrel⟩

/-- Whatever an update that succeeds does, it succeeds. -/
theorem FulfilsAt.any {u : Update α} {s : State} (h : FulfilsAt L u s) : FulfilsAt Law.any u s := by
  obtain ⟨o, ho, -⟩ := h
  exact ⟨o, ho, trivial⟩

theorem Fulfils.any {u : Update α} (h : Fulfils L u) : Fulfils Law.any u := fun s => (h s).any

/-! ## One state -/

variable {s : State}

theorem fulfilsAt_pure (a : α) : FulfilsAt L (pure a) s := ⟨_, rfl, L.idle s⟩

theorem FulfilsAt.bind {u : Update α} {f : α → Update β} (hu : FulfilsAt L u s)
    (hf : ∀ o, u s = .ok o → L.rel s o.signals o.state → FulfilsAt L (f o.value) o.state) :
    FulfilsAt L (u >>= f) s := by
  obtain ⟨o₁, h₁, hrel₁⟩ := hu
  obtain ⟨o₂, h₂, hrel₂⟩ := hf o₁ h₁ hrel₁
  exact ⟨_, bind_eq_ok_iff.2 ⟨o₁, o₂, h₁, h₂, rfl⟩, L.chain hrel₁ hrel₂⟩

theorem FulfilsAt.get_bind {f : State → Update β} (h : FulfilsAt L (f s) s) :
    FulfilsAt L (get >>= f) s := by
  unfold FulfilsAt
  rw [get_bind_run]
  exact h

theorem FulfilsAt.modify_bind {g : State → State} {f : Unit → Update β} (hg : L.rel s [] (g s))
    (h : FulfilsAt L (f ()) (g s)) : FulfilsAt L (modify g >>= f) s := by
  obtain ⟨o, ho, hrel⟩ := h
  exact ⟨o, (modify_bind_run g f s).trans ho, L.chain_silent hg hrel⟩

/-- A computation that does not overflow goes on with its result. -/
theorem FulfilsAt.compute_bind {result : Except Overflow α} {f : α → Update β} {a : α}
    (ha : result = .ok a) (h : FulfilsAt L (f a) s) : FulfilsAt L (compute result >>= f) s := by
  subst ha
  exact FulfilsAt.bind ⟨_, rfl, L.idle s⟩ fun o ho _ => by cases ho; exact h

theorem fulfilsAt_whenSome {a? : Option α} {f : α → Update Unit}
    (h : ∀ a, a? = some a → FulfilsAt L (f a) s) : FulfilsAt L (whenSome a? f) s := by
  cases a? with
  | none => exact fulfilsAt_pure ()
  | some a => exact h a rfl

/-! ## Every state -/

theorem fulfils_pure (a : α) : Fulfils L (pure a) := fun _ => fulfilsAt_pure a

theorem fulfils_get : Fulfils L get := fun s => ⟨_, rfl, L.idle s⟩

theorem fulfils_modify {g : State → State} (h : ∀ s, L.rel s [] (g s)) : Fulfils L (modify g) :=
  fun s => ⟨_, rfl, h s⟩

theorem fulfils_notify {n : Notification} (h : ∀ s, L.rel s [.notification n] s) :
    Fulfils L (notify n) :=
  fun s => ⟨_, rfl, h s⟩

theorem fulfils_report {d : Diagnostic} (h : ∀ s, L.rel s [.diagnostic d] s) :
    Fulfils L (report d) :=
  fun s => ⟨_, rfl, h s⟩

theorem Fulfils.bind {u : Update α} {f : α → Update β} (hu : Fulfils L u)
    (hf : ∀ a, Fulfils L (f a)) : Fulfils L (u >>= f) :=
  fun s => (hu s).bind fun o _ _ => hf o.value o.state

theorem Fulfils.get_bind {f : State → Update β} (h : ∀ s, FulfilsAt L (f s) s) :
    Fulfils L (get >>= f) :=
  fun s => FulfilsAt.get_bind (h s)

theorem Fulfils.modify_bind {g : State → State} {f : Unit → Update β}
    (hg : ∀ s, L.rel s [] (g s)) (hf : Fulfils L (f ())) : Fulfils L (modify g >>= f) :=
  fun s => FulfilsAt.modify_bind (hg s) (hf _)

theorem fulfils_whenSome {a? : Option α} {f : α → Update Unit} (h : ∀ a, Fulfils L (f a)) :
    Fulfils L (whenSome a? f) :=
  fun _ => fulfilsAt_whenSome fun a _ => h a _

theorem fulfils_ite {c : Prop} [Decidable c] {u v : Update α} (hu : Fulfils L u)
    (hv : Fulfils L v) : Fulfils L (if c then u else v) := by
  split
  · exact hu
  · exact hv

theorem fulfils_forEach {l : List α} {f : α → Update Unit} (h : ∀ a, Fulfils L (f a)) :
    Fulfils L (forEach l f) := by
  induction l with
  | nil => exact fulfils_pure ()
  | cons a rest ih => exact (h a).bind fun _ => ih

end Update

end KernelReplay
