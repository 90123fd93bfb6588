import KernelReplay.Update.Basic

/-
  What each update does, as an equation on its run, and the laws of running one after the other. The
  signals of a sequence are those of its parts in order (`bind_eq_ok_iff`).
-/

namespace KernelReplay.Update

variable {α β γ : Type}

@[simp] theorem pure_run (a : α) (s : State) : (pure a : Update α) s = .ok ⟨a, s, []⟩ := rfl

@[simp] theorem get_run (s : State) : get s = .ok ⟨s, s, []⟩ := rfl

@[simp] theorem modify_run (f : State → State) (s : State) : modify f s = .ok ⟨(), f s, []⟩ := rfl

@[simp] theorem notify_run (n : Notification) (s : State) :
    notify n s = .ok ⟨(), s, [.notification n]⟩ := rfl

@[simp] theorem report_run (d : Diagnostic) (s : State) :
    report d s = .ok ⟨(), s, [.diagnostic d]⟩ := rfl

@[simp] theorem compute_ok (a : α) (s : State) :
    compute (.ok a) s = .ok ⟨a, s, []⟩ := rfl

@[simp] theorem compute_error (e : Overflow) (s : State) :
    (compute (.error e) : Update α) s = .error e := rfl

/-- A computation succeeds exactly if it does not overflow, and leaves the state as it was. -/
theorem compute_eq_ok_iff {result : Except Overflow α} {s : State} {o : Outcome α} :
    compute result s = .ok o ↔ ∃ a, result = .ok a ∧ o = ⟨a, s, []⟩ := by
  cases result with
  | error e => simp
  | ok a => simp [eq_comm]

@[simp] theorem whenSome_some (a : α) (f : α → Update Unit) : whenSome (some a) f = f a := rfl

@[simp] theorem whenSome_none (f : α → Update Unit) : whenSome none f = pure () := rfl

/-- What needs a value happens with it, or nothing happens. -/
theorem whenSome_cases {a? : Option α} {f : α → Update Unit} {s : State} {o : Outcome Unit}
    (h : whenSome a? f s = .ok o) :
    (a? = none ∧ o = ⟨(), s, []⟩) ∨ ∃ a, a? = some a ∧ f a s = .ok o := by
  cases a? with
  | none =>
    cases h
    exact Or.inl ⟨rfl, rfl⟩
  | some a => exact Or.inr ⟨a, rfl, h⟩

@[simp] theorem forEach_nil (f : α → Update Unit) : forEach [] f = pure () := rfl

theorem forEach_cons (a : α) (l : List α) (f : α → Update Unit) :
    forEach (a :: l) f = f a >>= fun _ => forEach l f := rfl

theorem bind_run (u : Update α) (f : α → Update β) (s : State) :
    (u >>= f) s = (match u s with
      | .error e => .error e
      | .ok o => match f o.value o.state with
        | .error e => .error e
        | .ok o' => .ok { o' with signals := o.signals ++ o'.signals }) := rfl

theorem get_bind_run (f : State → Update β) (s : State) : (get >>= f) s = f s s := by
  rw [bind_run, get_run]
  cases h : f s s <;> simp [h]

theorem modify_bind_run (g : State → State) (f : Unit → Update β) (s : State) :
    (modify g >>= f) s = f () (g s) := by
  rw [bind_run, modify_run]
  cases h : f () (g s) <;> simp [h]

/-- A sequence succeeds exactly if both parts do, and sends what they send. -/
theorem bind_eq_ok_iff {u : Update α} {f : α → Update β} {s : State} {o : Outcome β} :
    (u >>= f) s = .ok o ↔ ∃ o₁ o₂, u s = .ok o₁ ∧ f o₁.value o₁.state = .ok o₂ ∧
      o = { o₂ with signals := o₁.signals ++ o₂.signals } := by
  rw [bind_run]
  cases u s with
  | error e => simp
  | ok o₁ =>
    cases h : f o₁.value o₁.state with
    | error e => simp [h]
    | ok o₂ => simp [h, eq_comm]

/-- The value of a sequence is that of its second part. -/
theorem value_of_bind {u : Update α} {f : α → Update β} {s : State} {o : Outcome β}
    (h : (u >>= f) s = .ok o) : ∃ o₁ o₂, u s = .ok o₁ ∧ f o₁.value o₁.state = .ok o₂ ∧
      o.value = o₂.value := by
  obtain ⟨o₁, o₂, h₁, h₂, rfl⟩ := bind_eq_ok_iff.1 h
  exact ⟨o₁, o₂, h₁, h₂, rfl⟩

/-- A sequence overflows exactly if its first part does, or its second after the first. -/
theorem bind_eq_error_iff {u : Update α} {f : α → Update β} {s : State} {e : Overflow} :
    (u >>= f) s = .error e ↔ u s = .error e ∨
      ∃ o, u s = .ok o ∧ f o.value o.state = .error e := by
  rw [bind_run]
  cases u s with
  | error e' => simp
  | ok o =>
    cases h : f o.value o.state with
    | error e' => simp [h]
    | ok o' => simp [h]

/-- An update followed by nothing is itself. -/
theorem bind_pure_run (u : Update α) (f : α → β) (s : State) :
    (u >>= fun a => pure (f a)) s = (u s).map fun o => ⟨f o.value, o.state, o.signals⟩ := by
  rw [bind_run]
  cases u s <;> simp [Except.map]

theorem run_of_bind_pure {u : Update α} {b : β} {s : State} {o : Outcome β}
    (h : (u >>= fun _ => pure b) s = .ok o) :
    ∃ o', u s = .ok o' ∧ o.state = o'.state ∧ o.signals = o'.signals := by
  rw [bind_pure_run u (fun _ => b)] at h
  cases hu : u s with
  | error f =>
    rw [hu] at h
    cases h
  | ok o' =>
    rw [hu] at h
    cases h
    exact ⟨o', rfl, rfl, rfl⟩

theorem pure_bind_eq (a : α) (f : α → Update β) : (pure a >>= f) = f a := by
  funext s
  rw [bind_run]
  simp only [pure_run]
  cases f a s <;> simp

theorem bind_assoc_eq (u : Update α) (f : α → Update β) (g : β → Update γ) :
    (u >>= f) >>= g = u >>= fun a => f a >>= g := by
  funext s
  simp only [bind_run]
  cases u s with
  | error e => rfl
  | ok o =>
    dsimp only
    cases f o.value o.state with
    | error e => rfl
    | ok o' =>
      dsimp only
      cases g o'.value o'.state <;> simp [List.append_assoc]

instance : LawfulMonad Update :=
  LawfulMonad.mk' Update
    (fun u => by
      funext s
      refine (bind_pure_run u id s).trans ?_
      cases u s <;> rfl)
    pure_bind_eq bind_assoc_eq

/-- Members for which nothing is done can be left out. -/
theorem forEach_filter {p : α → Bool} {f : α → Update Unit} {l : List α}
    (h : ∀ a ∈ l, p a = false → f a = pure ()) : forEach (l.filter p) f = forEach l f := by
  induction l with
  | nil => rfl
  | cons a rest ih =>
    have ih := ih fun b hb => h b (List.mem_cons_of_mem a hb)
    cases hp : p a with
    | true => rw [List.filter_cons_of_pos hp, forEach_cons, forEach_cons, ih]
    | false =>
      rw [List.filter_cons_of_neg (by rw [hp]; exact Bool.false_ne_true), forEach_cons,
        h a List.mem_cons_self hp, ih, pure_bind]

/-- One change of the state for each member of a list. -/
theorem forEach_modify_run (g : α → State → State) (l : List α) (s : State) :
    forEach l (fun a => modify (g a)) s = .ok ⟨(), l.foldl (fun s a => g a s) s, []⟩ := by
  induction l generalizing s with
  | nil => rfl
  | cons a rest ih => rw [forEach_cons, modify_bind_run, ih, List.foldl_cons]

end KernelReplay.Update
