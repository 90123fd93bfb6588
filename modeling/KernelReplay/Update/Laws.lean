import KernelReplay.Update.Lemmas

/-
  Laws of updates. A `Law` relates a state, the signals sent on the way and the state left behind;
  doing nothing keeps it and it composes. What is shown of the parts of a sequence then holds of the
  whole (`Obeys.bind`), so a rule is shown to obey a law by following its text.

  `ObeysAt L u s` speaks of one state and is for updates that read the state before they change it;
  `Obeys L u` speaks of every state.
-/

namespace KernelReplay

theorem notificationsOf_append (l m : List Signal) :
    notificationsOf (l ++ m) = notificationsOf l ++ notificationsOf m :=
  List.filterMap_append

@[simp] theorem notificationsOf_nil : notificationsOf [] = [] := rfl

@[simp] theorem notificationsOf_notification (n : Notification) (l : List Signal) :
    notificationsOf (.notification n :: l) = n :: notificationsOf l := rfl

@[simp] theorem notificationsOf_diagnostic (d : Diagnostic) (l : List Signal) :
    notificationsOf (.diagnostic d :: l) = notificationsOf l := rfl

theorem mem_notificationsOf {n : Notification} {l : List Signal} :
    n ∈ notificationsOf l ↔ .notification n ∈ l := by
  unfold notificationsOf
  rw [List.mem_filterMap]
  constructor
  · rintro ⟨signal, hmem, h⟩
    cases signal with
    | notification n' =>
      cases h
      exact hmem
    | diagnostic => cases h
  · exact fun h => ⟨_, h, rfl⟩

theorem notificationsOf_map {α : Type} (f : α → Notification) (l : List α) :
    notificationsOf (l.map fun a => .notification (f a)) = l.map f := by
  induction l with
  | nil => rfl
  | cons a rest ih => rw [List.map_cons, List.map_cons, notificationsOf_notification, ih]

/-- What can be said of the state before an update, the signals it sends and the state after it. -/
structure Law where
  rel : State → List Signal → State → Prop
  idle : ∀ s, rel s [] s
  chain : ∀ {s₁ s₂ s₃ l₁ l₂}, rel s₁ l₁ s₂ → rel s₂ l₂ s₃ → rel s₁ (l₁ ++ l₂) s₃

namespace Law

theorem chain_silent (L : Law) {s₁ s₂ s₃ : State} {l : List Signal} (h : L.rel s₁ [] s₂)
    (h' : L.rel s₂ l s₃) : L.rel s₁ l s₃ :=
  L.chain h h'

/-- A part of the state is as it was. -/
def keeping {β : Type} (view : State → β) : Law where
  rel s _ s' := view s' = view s
  idle _ := rfl
  chain h h' := h'.trans h

/-- A property of states is not lost. -/
def maintaining (P : State → Prop) : Law where
  rel s _ s' := P s → P s'
  idle _ := id
  chain h h' := h' ∘ h

/-- Every notification sent is of a kind. -/
def sending (K : Notification → Prop) : Law where
  rel _ l _ := ∀ n ∈ notificationsOf l, K n
  idle _ := by simp
  chain h h' := by
    intro n hn
    rw [notificationsOf_append] at hn
    rcases List.mem_append.1 hn with hn | hn
    · exact h n hn
    · exact h' n hn

/-- Two laws at once. -/
def both (L M : Law) : Law where
  rel s l s' := L.rel s l s' ∧ M.rel s l s'
  idle s := ⟨L.idle s, M.idle s⟩
  chain h h' := ⟨L.chain h.1 h'.1, M.chain h.2 h'.2⟩

end Law

namespace Update

variable {α β : Type} {L M : Law}

/-- The update keeps the law where it starts at `s`. -/
def ObeysAt (L : Law) (u : Update α) (s : State) : Prop :=
  ∀ o, u s = .ok o → L.rel s o.signals o.state

/-- The update keeps the law. -/
def Obeys (L : Law) (u : Update α) : Prop := ∀ s, ObeysAt L u s

/-- A law that another one implies is kept where that one is. -/
theorem Obeys.mono {u : Update α} (h : Obeys L u)
    (hLM : ∀ {s l s'}, L.rel s l s' → M.rel s l s') : Obeys M u :=
  fun s o ho => hLM (h s o ho)

theorem Obeys.both {u : Update α} (h : Obeys L u) (h' : Obeys M u) : Obeys (L.both M) u :=
  fun s o ho => ⟨h s o ho, h' s o ho⟩

/-! ## One state -/

variable {s : State}

theorem obeysAt_of_run {u : Update α} {o : Outcome α} (hu : u s = .ok o)
    (h : L.rel s o.signals o.state) : ObeysAt L u s := by
  intro o' ho'
  rw [hu] at ho'
  cases ho'
  exact h

theorem obeysAt_pure (a : α) : ObeysAt L (pure a) s := obeysAt_of_run rfl (L.idle s)

theorem ObeysAt.bind {u : Update α} {f : α → Update β} (hu : ObeysAt L u s)
    (hf : ∀ o, u s = .ok o → ObeysAt L (f o.value) o.state) : ObeysAt L (u >>= f) s := by
  intro o ho
  obtain ⟨o₁, o₂, h₁, h₂, rfl⟩ := bind_eq_ok_iff.1 ho
  exact L.chain (hu o₁ h₁) (hf o₁ h₁ o₂ h₂)

theorem ObeysAt.get_bind {f : State → Update β} (h : ObeysAt L (f s) s) :
    ObeysAt L (get >>= f) s :=
  ObeysAt.bind (obeysAt_of_run rfl (L.idle s)) fun o ho => by cases ho; exact h

theorem ObeysAt.modify_bind {g : State → State} {f : Unit → Update β} (hg : L.rel s [] (g s))
    (h : ObeysAt L (f ()) (g s)) : ObeysAt L (modify g >>= f) s :=
  ObeysAt.bind (obeysAt_of_run rfl hg) fun o ho => by cases ho; exact h

theorem ObeysAt.compute_bind {result : Except Overflow α} {f : α → Update β}
    (h : ∀ a, result = .ok a → ObeysAt L (f a) s) : ObeysAt L (compute result >>= f) s := by
  intro o ho
  obtain ⟨o₁, o₂, h₁, h₂, rfl⟩ := bind_eq_ok_iff.1 ho
  obtain ⟨a, ha, rfl⟩ := compute_eq_ok_iff.1 h₁
  exact h a ha o₂ h₂

theorem obeysAt_whenSome {a? : Option α} {f : α → Update Unit}
    (h : ∀ a, a? = some a → ObeysAt L (f a) s) : ObeysAt L (whenSome a? f) s := by
  cases a? with
  | none => exact obeysAt_pure ()
  | some a => exact h a rfl

/-! ## Every state -/

theorem obeys_pure (a : α) : Obeys L (pure a) := fun _ => obeysAt_pure a

theorem obeys_get : Obeys L get := fun s => obeysAt_of_run rfl (L.idle s)

theorem obeys_compute (result : Except Overflow α) : Obeys L (compute result) := by
  intro s o ho
  obtain ⟨a, -, rfl⟩ := compute_eq_ok_iff.1 ho
  exact L.idle s

theorem obeys_modify {g : State → State} (h : ∀ s, L.rel s [] (g s)) : Obeys L (modify g) :=
  fun s => obeysAt_of_run rfl (h s)

theorem obeys_notify {n : Notification} (h : ∀ s, L.rel s [.notification n] s) :
    Obeys L (notify n) :=
  fun s => obeysAt_of_run rfl (h s)

theorem obeys_report {d : Diagnostic} (h : ∀ s, L.rel s [.diagnostic d] s) :
    Obeys L (report d) :=
  fun s => obeysAt_of_run rfl (h s)

theorem Obeys.bind {u : Update α} {f : α → Update β} (hu : Obeys L u) (hf : ∀ a, Obeys L (f a)) :
    Obeys L (u >>= f) :=
  fun s => ObeysAt.bind (hu s) fun o _ => hf o.value o.state

theorem Obeys.get_bind {f : State → Update β} (h : ∀ s, ObeysAt L (f s) s) :
    Obeys L (get >>= f) :=
  fun s => ObeysAt.get_bind (h s)

theorem Obeys.modify_bind {g : State → State} {f : Unit → Update β} (hg : ∀ s, L.rel s [] (g s))
    (hf : Obeys L (f ())) : Obeys L (modify g >>= f) :=
  fun s => ObeysAt.modify_bind (hg s) (hf _)

theorem obeys_whenSome {a? : Option α} {f : α → Update Unit} (h : ∀ a, Obeys L (f a)) :
    Obeys L (whenSome a? f) :=
  fun _ => obeysAt_whenSome fun a _ => h a _

theorem obeys_ite {c : Prop} [Decidable c] {u v : Update α} (hu : Obeys L u) (hv : Obeys L v) :
    Obeys L (if c then u else v) := by
  split
  · exact hu
  · exact hv

theorem obeys_forEach {l : List α} {f : α → Update Unit} (h : ∀ a, Obeys L (f a)) :
    Obeys L (forEach l f) := by
  induction l with
  | nil => exact obeys_pure ()
  | cons a rest ih => exact (h a).bind fun _ => ih

end Update

end KernelReplay
