import KernelReplay.Table.Basic

/-
  Tables seen through `get?`. One lemma says what each operation does to `get?`, and `ext_get?`
  says that nothing else can be seen of a table, so no other file looks at the list of pairs.
-/

namespace KernelReplay.Table

variable {κ α β : Type} [Ord κ]

@[simp] theorem get?_empty (k : κ) : (∅ : Table κ α).get? k = none := rfl

theorem contains_eq (t : Table κ α) (k : κ) : t.contains k = (t.get? k).isSome := rfl

theorem mem_iff {t : Table κ α} {k : κ} : k ∈ t ↔ (t.get? k).isSome := Iff.rfl

theorem mem_of_get? {t : Table κ α} {k : κ} {v : α} (h : t.get? k = some v) : k ∈ t :=
  mem_iff.2 (Option.isSome_of_eq_some h)

theorem not_mem_of_get? {t : Table κ α} {k : κ} (h : t.get? k = none) : ¬ k ∈ t := by
  rw [mem_iff, h]
  exact Bool.false_ne_true

section Lawful

variable [DecidableEq κ] [Std.LawfulEqOrd κ]

omit [DecidableEq κ] in
theorem compare_eq_iff {a b : κ} : compare a b = .eq ↔ a = b :=
  Std.LawfulEqCmp.compare_eq_iff_eq

theorem lookup_place (k k' : κ) (v : α) (l : List (κ × α)) :
    lookup k' (place k v l) = if k' = k then some v else lookup k' l := by
  induction l with
  | nil => simp [place, lookup]
  | cons p rest ih =>
    obtain ⟨c, w⟩ := p
    rw [place]
    split <;> simp only [lookup, compare_eq_iff, ih] <;> grind [compare_eq_iff]

/-- An insertion shows at its key and nowhere else. -/
theorem get?_insert [Std.TransOrd κ] (t : Table κ α) (k k' : κ) (v : α) :
    (t.insert k v).get? k' = if k' = k then some v else t.get? k' :=
  lookup_place k k' v t.entries

@[simp] theorem get?_insert_self [Std.TransOrd κ] (t : Table κ α) (k : κ) (v : α) :
    (t.insert k v).get? k = some v := by simp [get?_insert]

theorem get?_insert_of_ne [Std.TransOrd κ] {t : Table κ α} {k k' : κ} {v : α} (h : k' ≠ k) :
    (t.insert k v).get? k' = t.get? k' := by simp [get?_insert, h]

theorem lookup_filter (k k' : κ) (l : List (κ × α)) :
    lookup k' (l.filter fun p => compare k p.1 ≠ .eq) = if k' = k then none else lookup k' l := by
  induction l with
  | nil => simp [lookup]
  | cons p rest ih =>
    simp only [List.filter_cons, compare_eq_iff, ne_eq, decide_not] at ih ⊢
    by_cases h : k = p.1 <;> simp only [h, decide_true, decide_false, Bool.not_true, Bool.not_false,
      if_true, Bool.false_eq_true, if_false, lookup, compare_eq_iff] <;> grind

/-- An erasure shows at its key and nowhere else. -/
theorem get?_erase (t : Table κ α) (k k' : κ) :
    (t.erase k).get? k' = if k' = k then none else t.get? k' :=
  lookup_filter k k' t.entries

@[simp] theorem get?_erase_self (t : Table κ α) (k : κ) : (t.erase k).get? k = none := by
  simp [get?_erase]

theorem get?_erase_of_ne {t : Table κ α} {k k' : κ} (h : k' ≠ k) :
    (t.erase k).get? k' = t.get? k' := by simp [get?_erase, h]

theorem lookup_map (f : κ → α → β) (k : κ) (l : List (κ × α)) :
    lookup k (l.map fun p => (p.1, f p.1 p.2)) = (lookup k l).map (f k) := by
  induction l with
  | nil => rfl
  | cons p rest ih =>
    simp only [List.map_cons, lookup, compare_eq_iff]
    split <;> simp_all

@[simp] theorem get?_map (t : Table κ α) (f : κ → α → β) (k : κ) :
    (t.map f).get? k = (t.get? k).map (f k) :=
  lookup_map f k t.entries

/-- Adjusting one key shows there and nowhere else, and adds no key. -/
theorem get?_adjust (t : Table κ α) (k k' : κ) (f : α → α) :
    (t.adjust k f).get? k' = if k' = k then (t.get? k').map f else t.get? k' := by
  rw [adjust, get?_map]
  simp only [compare_eq_iff]
  by_cases h : k' = k
  · subst h; simp
  · simp [h, Ne.symm h]

@[simp] theorem get?_adjust_self (t : Table κ α) (k : κ) (f : α → α) :
    (t.adjust k f).get? k = (t.get? k).map f := by simp [get?_adjust]

theorem get?_adjust_of_ne {t : Table κ α} {k k' : κ} {f : α → α} (h : k' ≠ k) :
    (t.adjust k f).get? k' = t.get? k' := by simp [get?_adjust, h]

theorem lookup_eq_some_iff {l : List (κ × α)} (h : Ascending l) {k : κ} {v : α} :
    lookup k l = some v ↔ (k, v) ∈ l := by
  induction l with
  | nil => simp [lookup]
  | cons p rest ih =>
    obtain ⟨c, w⟩ := p
    have hhead : ∀ q ∈ rest, compare c q.1 = .lt := (List.pairwise_cons.1 h).1
    have ih := ih (List.Pairwise.of_cons h)
    simp only [lookup, compare_eq_iff, List.mem_cons, Prod.mk.injEq]
    by_cases hk : k = c
    · subst hk
      have hrest : (k, v) ∉ rest := fun hm => by simpa using hhead _ hm
      simp [hrest, eq_comm]
    · simp [hk, ih]

/-- The pairs listed are those that `get?` shows. -/
theorem mem_toList_iff {t : Table κ α} {k : κ} {v : α} :
    (k, v) ∈ t.toList ↔ t.get? k = some v :=
  (lookup_eq_some_iff t.ascending).symm

theorem mem_keys_iff {t : Table κ α} {k : κ} : k ∈ t.keys ↔ k ∈ t := by
  simp only [keys, List.mem_map, Prod.exists, exists_and_right, exists_eq_right, mem_iff,
    Option.isSome_iff_exists]
  exact exists_congr fun v => mem_toList_iff

theorem mem_values_iff {t : Table κ α} {v : α} : v ∈ t.values ↔ ∃ k, t.get? k = some v := by
  simp only [values, List.mem_map, Prod.exists, exists_eq_right]
  exact exists_congr fun k => mem_toList_iff

omit [DecidableEq κ] [Std.LawfulEqOrd κ] in
/-- The keys are listed in strictly rising order. -/
theorem keys_ascending (t : Table κ α) : t.keys.Pairwise fun a b => compare a b = .lt :=
  List.pairwise_map.2 t.ascending

theorem eq_of_lookup_eq [Std.TransOrd κ] {l m : List (κ × α)} (hl : Ascending l) (hm : Ascending m)
    (h : ∀ k, lookup k l = lookup k m) : l = m := by
  have sub : ∀ p : κ × α, p ∈ l ↔ p ∈ m := fun p => by
    rw [← lookup_eq_some_iff hl, ← lookup_eq_some_iff hm, h]
  have nodup : ∀ {l : List (κ × α)}, Ascending l → l.Nodup := fun hl =>
    hl.imp fun {a b} hab e => by subst e; simp at hab
  have hperm := (List.perm_ext_iff_of_nodup (nodup hl) (nodup hm)).2 sub
  unfold Ascending at hl hm
  refine hperm.eq_of_pairwise ?_ hl hm
  intro a b _ _ hab hba
  have := Std.TransCmp.lt_trans hab hba
  simp at this

/-- Tables that answer alike are equal. -/
theorem ext_get? [Std.TransOrd κ] {t u : Table κ α} (h : ∀ k, t.get? k = u.get? k) : t = u := by
  obtain ⟨l, hl⟩ := t
  obtain ⟨m, hm⟩ := u
  obtain rfl : l = m := eq_of_lookup_eq hl hm h
  rfl

theorem insert_erase [Std.TransOrd κ] (t : Table κ α) (k : κ) (v : α) :
    (t.erase k).insert k v = t.insert k v := by
  refine ext_get? fun k' => ?_
  rw [get?_insert, get?_insert, get?_erase]
  by_cases hk : k' = k <;> simp [hk]

/-- Inserting pairs with rising keys shows each of them. -/
theorem get?_foldl_insert [Std.TransOrd κ] {l : List (κ × α)} (h : Ascending l)
    (t : Table κ α) (k : κ) :
    (l.foldl (fun t p => t.insert p.1 p.2) t).get? k = (lookup k l).or (t.get? k) := by
  induction l generalizing t with
  | nil => rfl
  | cons p rest ih =>
    have hhead : ∀ q ∈ rest, compare p.1 q.1 = .lt := (List.pairwise_cons.1 h).1
    rw [List.foldl_cons, ih (List.Pairwise.of_cons h), get?_insert]
    simp only [lookup, compare_eq_iff]
    by_cases hk : k = p.1
    · subst hk
      have hnone : lookup p.1 rest = none := by
        refine Option.eq_none_iff_forall_ne_some.2 fun v hv => ?_
        have hmem := (lookup_eq_some_iff (List.Pairwise.of_cons h)).1 hv
        have hlt : compare p.1 p.1 = .lt := hhead (p.1, v) hmem
        simp at hlt
      rw [hnone, if_pos rfl, if_pos rfl]
      rfl
    · rw [if_neg hk, if_neg hk]

/-- A table is made of the pairs that it lists. -/
theorem ofList_toList [Std.TransOrd κ] (t : Table κ α) : ofList t.toList = t := by
  refine ext_get? fun k => ?_
  unfold ofList toList
  rw [get?_foldl_insert t.ascending]
  exact Option.or_none

/-- Of two insertions at a key the later one stays. -/
@[simp] theorem insert_insert [Std.TransOrd κ] (t : Table κ α) (k : κ) (v w : α) :
    (t.insert k v).insert k w = t.insert k w := by
  refine ext_get? fun k' => ?_
  simp only [get?_insert]
  split <;> rfl

/-- Mapping twice is mapping once. -/
theorem map_map [Std.TransOrd κ] {γ : Type} (t : Table κ α) (f : κ → α → β) (g : κ → β → γ) :
    (t.map f).map g = t.map fun k v => g k (f k v) := by
  refine ext_get? fun k => ?_
  simp only [get?_map, Option.map_map]
  rfl

/-- Mapping what was inserted is inserting what it maps to. -/
theorem map_insert [Std.TransOrd κ] (t : Table κ α) (f : κ → α → β) (k : κ) (v : α) :
    (t.insert k v).map f = (t.map f).insert k (f k v) := by
  refine ext_get? fun k' => ?_
  simp only [get?_map, get?_insert]
  split
  · rename_i hk
    rw [hk]
    rfl
  · rfl

/-- Adjusting a key that has a value is inserting the new one. -/
theorem adjust_eq_insert [Std.TransOrd κ] {t : Table κ α} {k : κ} {v : α} (h : t.get? k = some v)
    (f : α → α) : t.adjust k f = t.insert k (f v) := by
  refine ext_get? fun k' => ?_
  rw [get?_adjust, get?_insert]
  split
  · rename_i hk
    rw [hk, h]
    rfl
  · rfl

/-- Inserting what is there does nothing. -/
theorem insert_of_get? [Std.TransOrd κ] {t : Table κ α} {k : κ} {v : α} (h : t.get? k = some v) :
    t.insert k v = t := by
  refine ext_get? fun k' => ?_
  rw [get?_insert]
  split
  · rename_i hk
    rw [hk, h]
  · rfl

/-- Adjusting a key without a value does nothing. -/
theorem adjust_of_none [Std.TransOrd κ] {t : Table κ α} {k : κ} (h : t.get? k = none) (f : α → α) :
    t.adjust k f = t := by
  refine ext_get? fun k' => ?_
  rw [get?_adjust]
  split
  · rename_i hk
    rw [hk, h]
    rfl
  · rfl

/-- Erasing a key without a value does nothing. -/
theorem erase_of_none [Std.TransOrd κ] {t : Table κ α} {k : κ} (h : t.get? k = none) :
    t.erase k = t := by
  refine ext_get? fun k' => ?_
  rw [get?_erase]
  split
  · rename_i hk
    rw [hk, h]
  · rfl

end Lawful

end KernelReplay.Table
