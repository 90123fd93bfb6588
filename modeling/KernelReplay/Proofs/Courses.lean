import Mathlib.Data.List.Forall2
import KernelReplay.Proofs.Runs

/-
  Courses of replays. The course of a replay is what is to be seen of it while it goes on: the state
  after each event and what is told of the event, up to the overflow that breaks it off, if there is
  one. Two replays that are compared event by event, the one being what the other is with an altered
  state, have courses that differ in the same way (`Replay.course_alter`).
-/

namespace KernelReplay

open Update

/-- What is to be seen of a replay while it goes on. -/
structure Course where
  /-- The state after each event, and the notifications that the event brings. -/
  steps : List (State × List Notification)
  /-- Why the replay came to no end. -/
  overflow : Option Overflow

namespace Course

/-- A course after a step. -/
def after (step : State × List Notification) (c : Course) : Course :=
  { c with steps := step :: c.steps }

/-- A course with other states. -/
def mapStates (f : State → State) (c : Course) : Course :=
  { c with steps := c.steps.map fun step => (f step.1, step.2) }

theorem mapStates_id (c : Course) : c.mapStates id = c := by
  show Course.mk (c.steps.map fun step => step) c.overflow = c
  rw [List.map_id']

theorem mapStates_after (f : State → State) (step : State × List Notification) (c : Course) :
    (c.after step).mapStates f = (c.mapStates f).after (f step.1, step.2) := rfl

end Course

namespace Replay

/-- The course of a replay through events. -/
def course (r : Replay) : List Event → Course
  | [] => { steps := [], overflow := none }
  | e :: rest =>
    match r.process e with
    | .error f => { steps := [], overflow := some f }
    | .ok p => (p.replay.course rest).after (p.replay.state, notificationsOf p.signals)

theorem course_of_error {r : Replay} {e : Event} {f : Overflow} (h : r.process e = .error f)
    (rest : List Event) : r.course (e :: rest) = { steps := [], overflow := some f } := by
  rw [course, h]

theorem course_of_ok {r : Replay} {e : Event} {p : Progress} (h : r.process e = .ok p)
    (rest : List Event) : r.course (e :: rest) =
      (p.replay.course rest).after (p.replay.state, notificationsOf p.signals) := by
  rw [course, h]

/-- A replay with an altered state. -/
def alter (f : State → State) (r : Replay) : Replay := { r with state := f r.state }

/-- What is to be seen of a replayed event, and the replay that goes on from there. -/
def Progress.shown (p : Progress) : Replay × List Notification :=
  (p.replay, notificationsOf p.signals)

/-- If an altered replay goes through each event as the replay goes through its counterpart, then it
goes through all of them so. What the comparison needs of the replay is kept along the way. -/
theorem course_alter {f : State → State} {P : Replay → Prop} {E : Event → Event → Prop}
    (hstep : ∀ {r : Replay} {e e'}, P r → E e e' → ((r.alter f).process e').map Progress.shown =
      (r.process e).map fun p => (p.replay.alter f, notificationsOf p.signals))
    (hkept : ∀ {r : Replay} {e p}, P r → r.process e = .ok p → P p.replay)
    {events events' : List Event} (h : List.Forall₂ E events events') {r : Replay} (hr : P r) :
    (r.alter f).course events' = (r.course events).mapStates f := by
  induction h generalizing r with
  | nil => rfl
  | @cons e e' rest rest' hfirst _ ih =>
    have hshown := hstep hr hfirst
    cases hp : r.process e with
    | error overflow =>
      cases hp' : (r.alter f).process e' with
      | error overflow' =>
        rw [hp, hp'] at hshown
        rw [course_of_error hp, course_of_error hp', Except.error.inj hshown]
        rfl
      | ok p' =>
        rw [hp, hp'] at hshown
        cases hshown
    | ok p =>
      cases hp' : (r.alter f).process e' with
      | error overflow' =>
        rw [hp, hp'] at hshown
        cases hshown
      | ok p' =>
        rw [hp, hp'] at hshown
        obtain ⟨hreplay, hnews⟩ := Prod.mk.inj (Except.ok.inj hshown)
        rw [course_of_ok hp, course_of_ok hp', hreplay, hnews, Course.mapStates_after,
          ih (hkept hr hp)]
        rfl

/-- Events that show the same to every replay show it in its course. -/
theorem course_eq {E : Event → Event → Prop}
    (hstep : ∀ {r : Replay} {e e'}, E e e' →
      (r.process e').map Progress.shown = (r.process e).map Progress.shown)
    {events events' : List Event} (h : List.Forall₂ E events events') (r : Replay) :
    r.course events' = r.course events := by
  have halter := course_alter (f := id) (P := fun _ => True) (fun _ he => hstep he)
    (fun _ _ => trivial) h (r := r) trivial
  rw [Course.mapStates_id] at halter
  exact halter

end Replay

/-- The course of the events of a run is made of its steps. -/
theorem Run.course_eq {settings : Settings} {history : List Step} {r : Replay}
    (h : Run settings history r) (later : List Event) :
    (Replay.ofSettings settings).course (history.map (·.event) ++ later) =
      { r.course later with
        steps := (history.map fun step => (step.after, notificationsOf step.signals)) ++
          (r.course later).steps } := by
  induction h generalizing later with
  | start => rfl
  | @next history r e p h hp ih =>
    rw [List.map_append, List.append_assoc, ih]
    show Course.mk _ _ = Course.mk _ _
    rw [List.map_singleton, List.singleton_append, Replay.course_of_ok hp]
    simp [Course.after]

end KernelReplay
