import KernelReplay.Machine.State.Links

/-
  Changes to the table of one thread and the counts of one, which may be two threads. Such changes
  compose (`State.rework_rework`), and only what they make of the table that is there matters
  (`State.rework_congr`), so what a sequence of them leaves can be told from the start.
-/

namespace KernelReplay

namespace Table

variable {κ α : Type} [Ord κ] [DecidableEq κ] [Std.LawfulEqOrd κ]

/-- Gives a key a value unless it has one. -/
def insertNew [Std.TransOrd κ] (t : Table κ α) (k : κ) (v : α) : Table κ α :=
  if k ∈ t then t else t.insert k v

theorem get?_insertNew [Std.TransOrd κ] (t : Table κ α) (k k' : κ) (v : α) :
    (t.insertNew k v).get? k' = (t.get? k').or (if k' = k then some v else none) := by
  unfold insertNew
  split
  · rename_i hmem
    obtain ⟨w, hw⟩ := Option.isSome_iff_exists.1 (mem_iff.1 hmem)
    by_cases hk : k' = k
    · rw [hk, hw]
      rfl
    · rw [if_neg hk, Option.or_none]
  · rename_i hmem
    have hnone : t.get? k = none := Option.not_isSome_iff_eq_none.1 hmem
    rw [get?_insert]
    by_cases hk : k' = k
    · rw [if_pos hk, if_pos hk, hk, hnone]
      rfl
    · rw [if_neg hk, if_neg hk, Option.or_none]

/-- Applies a function to the value at a key, if there is a key and it has a value. -/
def adjustAt (t : Table κ α) (k? : Option κ) (f : α → α) : Table κ α :=
  match k? with
  | some k => t.adjust k f
  | none => t

theorem get?_adjustAt (t : Table κ α) (k? : Option κ) (k : κ) (f : α → α) :
    (t.adjustAt k? f).get? k = (t.get? k).map fun v => if k? = some k then f v else v := by
  cases k? with
  | none => simp [adjustAt]
  | some n =>
    rw [adjustAt, get?_adjust]
    by_cases hk : k = n
    · simp [hk]
    · simp [hk, Ne.symm hk]

theorem mem_adjustAt {t : Table κ α} {k? : Option κ} {k : κ} {f : α → α} :
    k ∈ t.adjustAt k? f ↔ k ∈ t := by
  rw [mem_iff, mem_iff, get?_adjustAt, Option.isSome_map]

end Table

namespace State

variable {s : State} {owner tid : Int} {f f' : Table Int Fd → Table Int Fd}
  {g g' : IoCounts → IoCounts}

/-- The state with the table of one thread changed, and the counts of one. -/
def rework (s : State) (owner tid : Int) (f : Table Int Fd → Table Int Fd)
    (g : IoCounts → IoCounts) : State :=
  { s with threads := s.threads.map fun k t =>
    { t with fds := if k = owner then f t.fds else t.fds, io := if k = tid then g t.io else t.io } }

theorem thread?_rework (k : Int) : (s.rework owner tid f g).thread? k = (s.thread? k).map fun t =>
    { t with fds := if k = owner then f t.fds else t.fds, io := if k = tid then g t.io else t.io } :=
  Table.get?_map ..

theorem knows_rework {k : Int} : (s.rework owner tid f g).Knows k ↔ s.Knows k := by
  unfold Knows
  rw [thread?_rework]
  cases s.thread? k <;> simp

theorem fds_rework (ho : s.Knows owner) : (s.rework owner tid f g).fds owner = f (s.fds owner) := by
  obtain ⟨t, ht⟩ := ho
  unfold fds
  rw [thread?_rework, ht]
  simp

theorem fds_rework_of_ne {k : Int} (hk : k ≠ owner) :
    (s.rework owner tid f g).fds k = s.fds k := by
  unfold fds
  rw [thread?_rework]
  cases s.thread? k <;> simp [hk]

/-- Where an empty table stays empty it does not matter whether the owner is known. -/
theorem fds_rework_of_empty (hf : f ∅ = ∅) (k : Int) :
    (s.rework owner tid f g).fds k = if k = owner then f (s.fds k) else s.fds k := by
  unfold fds
  rw [thread?_rework]
  cases s.thread? k <;> by_cases hk : k = owner <;> simp [hk, hf]

theorem fds_setThread (s : State) (tid k : Int) (t : Thread) :
    (s.setThread tid t).fds k = if k = tid then t.fds else s.fds k := by
  unfold fds
  rw [thread?_setThread]
  split <;> rfl

/-- Changing a table leaves what is counted for threads. -/
theorem io_rework (k : Int) :
    ((s.rework owner tid f id).holdings k).io = (s.holdings k).io := by
  cases ht : s.thread? k with
  | none =>
    rw [holdings_of_none ht, holdings_of_none (by rw [thread?_rework, ht]; rfl)]
  | some t =>
    rw [holdings_of_thread? ht, holdings_of_thread? (by rw [thread?_rework, ht]; rfl)]
    exact ite_self _

theorem fdOwner_rework (k : Int) : (s.rework owner tid f g).fdOwner k = s.fdOwner k := by
  refine fdOwner_congr ?_ fun _ => knows_rework
  rw [group?, group?, thread?_rework]
  cases s.thread? k <;> rfl

theorem rework_rework :
    (s.rework owner tid f g).rework owner tid f' g' = s.rework owner tid (f' ∘ f) (g' ∘ g) := by
  unfold rework
  rw [Table.map_map]
  congr 2
  funext k t
  congr 1 <;> split <;> rfl

/-- Only what the change makes of the table that is there matters. -/
theorem rework_congr (hf : f (s.fds owner) = f' (s.fds owner)) :
    s.rework owner tid f g = s.rework owner tid f' g := by
  unfold rework
  congr 1
  refine Table.ext_get? fun k => ?_
  rw [Table.get?_map, Table.get?_map]
  cases ht : s.threads.get? k with
  | none => rfl
  | some t =>
    by_cases hk : k = owner
    · subst hk
      have hfds : s.fds k = t.fds := by simp [fds, thread?, ht]
      rw [hfds] at hf
      simp [hf]
    · simp [hk]

theorem rework_id (s : State) (owner tid : Int) : s.rework owner tid id id = s := by
  unfold rework
  have hthreads : (s.threads.map fun k t => { t with
      fds := if k = owner then id t.fds else t.fds, io := if k = tid then id t.io else t.io }) =
      s.threads := by
    refine Table.ext_get? fun k => ?_
    rw [Table.get?_map]
    simp
  rw [hthreads]

theorem adjustThread_fds (s : State) (owner tid : Int) (f : Table Int Fd → Table Int Fd) :
    s.adjustThread owner (fun t => { t with fds := f t.fds }) = s.rework owner tid f id := by
  unfold adjustThread rework
  congr 1
  refine Table.ext_get? fun k => ?_
  rw [Table.get?_adjust, Table.get?_map]
  by_cases hk : k = owner <;> cases s.threads.get? k <;> simp [hk]

theorem adjustThread_io (s : State) (owner tid : Int) (g : IoCounts → IoCounts) :
    s.adjustThread tid (fun t => { t with io := g t.io }) = s.rework owner tid id g := by
  unfold adjustThread rework
  congr 1
  refine Table.ext_get? fun k => ?_
  rw [Table.get?_adjust, Table.get?_map]
  by_cases hk : k = tid <;> cases s.threads.get? k <;> simp [hk]

theorem adjustFd_rework (s : State) (owner tid number : Int) (f : Fd → Fd) :
    s.adjustFd owner number f = s.rework owner tid (·.adjust number f) id :=
  s.adjustThread_fds owner tid (·.adjust number f)

end State

end KernelReplay
