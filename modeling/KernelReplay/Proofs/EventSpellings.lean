import KernelReplay.Proofs.FacetFrames
import KernelReplay.Proofs.PendingCalls
import KernelReplay.Proofs.ReadAlike

/-
  The spellings of syscall and wakeup events. Tracers differ in how they name the entry of a
  syscall, its exit and the wakeup of a thread. The entry of a syscall is told by either of two
  names, of which the rules keep what follows the start; the exit is told by any of many names, of
  which they keep nothing, so that the syscall named there need not be the one that was entered.
  Renaming events within these spellings gives events that read alike, and so the same course
  (`renamed_course`).
-/

namespace KernelReplay

/-- The names of an event that enters a syscall. -/
def entryNames (syscall : String) : List String :=
  ["sys_" ++ syscall, "syscall_entry_" ++ syscall]

/-- The name is one of an event that leaves a syscall, whichever syscall it says that is. -/
inductive IsExitName : String → Prop
  | exitSyscall : IsExitName "exit_syscall"
  | syscallExit : IsExitName "syscall_exit"
  | named (syscall : String) : IsExitName ("syscall_exit_" ++ syscall)

/-- The names of an event that wakes a thread. -/
def wakeupNames : List String := ["sched_wakeup", "sched_wakeup_new", "sched_waking"]

/-- The second event is the first one, or the same one under another name of the entry of the same
syscall, of the exit of a syscall or of a wakeup. -/
inductive Event.Renames : Event → Event → Prop
  | same (e : Event) : Renames e e
  | entry (e : Event) (syscall name : String) (spelled : e.name ∈ entryNames syscall)
      (respelled : name ∈ entryNames syscall) : Renames e { e with name }
  | exit (e : Event) (name : String) (spelled : IsExitName e.name)
      (respelled : IsExitName name) : Renames e { e with name }
  | wakeup (e : Event) (name : String) (spelled : e.name ∈ wakeupNames)
      (respelled : name ∈ wakeupNames) : Renames e { e with name }

/-! ## What the names say -/

theorem kind_of_entryNames (syscall : String) :
    ∀ name ∈ entryNames syscall, EventKind.ofName? name = some .syscallEntry := by
  intro name hname
  have hstart : (afterPrefix? "sys_" name).isSome ∨
      (afterPrefix? "syscall_entry_" name).isSome := by
    rcases List.mem_pair.1 hname with rfl | rfl
    · exact Or.inl (by rw [afterPrefix?_append]; rfl)
    · exact Or.inr (by rw [afterPrefix?_append]; rfl)
  unfold EventKind.ofName?
  rw [if_pos (Bool.or_eq_true_iff.2 hstart)]

/-- Both names of an entry say the same syscall. -/
theorem syscallName_of_entryNames (syscall : String) :
    ∀ name ∈ entryNames syscall, syscallName name = syscall := by
  intro name hname
  unfold syscallName
  rcases List.mem_pair.1 hname with rfl | rfl
  · rw [afterPrefix?_append_of_parts (by decide), afterPrefix?_append]
    rfl
  · rw [afterPrefix?_append]
    rfl

theorem IsExitName.kind {name : String} (h : IsExitName name) :
    EventKind.ofName? name = some .syscallExit := by
  cases h with
  | exitSyscall | syscallExit => decide
  | named syscall =>
    unfold EventKind.ofName?
    rw [afterPrefix?_append_of_parts (by decide), afterPrefix?_append_of_parts (by decide),
      afterPrefix?_append]
    rfl

theorem kind_of_wakeupNames : ∀ name ∈ wakeupNames,
    EventKind.ofName? name = some .schedWakeup := by
  decide

/-! ## Renamed events -/

namespace Event

/-- An event under another name reads alike if the name is one of the same kind, and of the same
syscall if it enters one. -/
theorem readAlike_rename {e : Event} {name : String}
    (hkind : EventKind.ofName? name = EventKind.ofName? e.name)
    (hsyscall : e.kind? = some .syscallEntry → syscallName name = syscallName e.name) :
    e.ReadAlike { e with name } :=
  { ReadAlike.refl e with kind? := hkind, syscall := hsyscall }

theorem Renames.readAlike {e e' : Event} (h : Renames e e') : e.ReadAlike e' := by
  cases h with
  | same => exact .refl e
  | entry syscall name spelled respelled =>
    refine readAlike_rename ?_ fun _ => ?_
    · rw [kind_of_entryNames syscall _ spelled, kind_of_entryNames syscall _ respelled]
    · rw [syscallName_of_entryNames syscall _ spelled,
        syscallName_of_entryNames syscall _ respelled]
  | exit name spelled respelled =>
    have hkind : e.kind? = some .syscallExit := spelled.kind
    refine readAlike_rename ?_ fun hentry => ?_
    · rw [spelled.kind, respelled.kind]
    · rw [hkind] at hentry
      cases hentry
  | wakeup name spelled respelled =>
    have hkind : e.kind? = some .schedWakeup := kind_of_wakeupNames _ spelled
    refine readAlike_rename ?_ fun hentry => ?_
    · rw [kind_of_wakeupNames _ spelled, kind_of_wakeupNames _ respelled]
    · rw [hkind] at hentry
      cases hentry

end Event

/-- Renaming syscall and wakeup events within their spellings changes no state along the way and
nothing that is told, from whichever replay the events go on. -/
theorem renamed_course (r : Replay) {events events' : List Event}
    (h : List.Forall₂ Event.Renames events events') : r.course events' = r.course events :=
  Replay.course_of_readAlike (h.imp fun _ _ => Event.Renames.readAlike) r

/-- Thread 7 reads, makes a call whose name is empty and wakes thread 8 with a priority. -/
def spelledCalls (read readExit nameless namelessExit wakeup : String) : List Event :=
  [.recorded 0 10 "sched_switch" [("prev_tid", .signed 0), ("next_tid", .signed 7)],
   .recorded 0 20 read [("fd", .signed 3)],
   .recorded 0 30 readExit [("ret", .signed 5)],
   .recorded 0 40 nameless [],
   .recorded 0 50 wakeup [("tid", .signed 8), ("prio", .signed 20)],
   .recorded 0 60 namelessExit [("ret", .signed 0)]]

/-- The exit of the read may as well name another syscall. -/
theorem renamed_course_spelledCalls :
    List.Forall₂ Event.Renames
      (spelledCalls "sys_read" "exit_syscall" "sys_" "syscall_exit_" "sched_waking")
      (spelledCalls "syscall_entry_read" "syscall_exit_write" "syscall_entry_" "syscall_exit"
        "sched_wakeup_new") ∧
    (Replay.ofSettings {}).course (spelledCalls "syscall_entry_read" "syscall_exit_write"
        "syscall_entry_" "syscall_exit" "sched_wakeup_new") =
      (Replay.ofSettings {}).course
        (spelledCalls "sys_read" "exit_syscall" "sys_" "syscall_exit_" "sched_waking") ∧
    Replay.gives {} (spelledCalls "sys_read" "exit_syscall" "sys_" "syscall_exit_" "sched_waking")
      (fun p => (requestExits p.signals).map (·.syscall) = ["read"] ∧
        (callExits p.signals).map (·.2.1.name) = ["read", ""]) = true := by
  have hrenamed : List.Forall₂ Event.Renames
      (spelledCalls "sys_read" "exit_syscall" "sys_" "syscall_exit_" "sched_waking")
      (spelledCalls "syscall_entry_read" "syscall_exit_write" "syscall_entry_" "syscall_exit"
        "sched_wakeup_new") :=
    .cons (.same _) <|
      .cons (.entry _ "read" _ (by decide) (by decide)) <|
      .cons (.exit _ _ .exitSyscall (.named "write")) <|
      .cons (.entry _ "" _ (by decide) (by decide)) <|
      .cons (.wakeup _ _ (by decide) (by decide)) <|
      .cons (.exit _ _ (.named "") .syscallExit) .nil
  exact ⟨hrenamed, renamed_course _ hrenamed, by decide +kernel⟩

end KernelReplay
