import Mathlib
import KernelReplay.Table.Lemmas

/-
  Sums over the values of a table. A key without a value counts as nothing (`weight`), so sums over
  two tables that weigh alike off one key differ by what they weigh at that key
  (`sum_add_weight`); insertions and erasures are cases of it.
-/

namespace KernelReplay.Table

variable {κ α : Type} [Ord κ]

/-- The sum of a measure over the values. -/
def sum (t : Table κ α) (f : α → Nat) : Nat := (t.values.map f).sum

/-- The measure of what is under a key. -/
def weight (t : Table κ α) (f : α → Nat) (k : κ) : Nat := ((t.get? k).map f).getD 0

theorem weight_of_some {t : Table κ α} {f : α → Nat} {k : κ} {v : α} (h : t.get? k = some v) :
    t.weight f k = f v := by simp [weight, h]

theorem weight_of_none {t : Table κ α} {f : α → Nat} {k : κ} (h : t.get? k = none) :
    t.weight f k = 0 := by simp [weight, h]

@[simp] theorem sum_empty (f : α → Nat) : (∅ : Table κ α).sum f = 0 := rfl

variable [DecidableEq κ] [Std.LawfulEqOrd κ]

theorem sum_eq_finset_sum (t : Table κ α) (f : α → Nat) {domain : Finset κ}
    (h : ∀ k ∈ t, k ∈ domain) : t.sum f = ∑ k ∈ domain, t.weight f k := by
  have hnodup : t.keys.Nodup := by
    refine t.keys_ascending.imp fun {a b} hab heq => ?_
    subst heq
    simp at hab
  have hlist : t.values.map f = t.keys.map (t.weight f) := by
    unfold values keys
    rw [List.map_map, List.map_map]
    refine List.map_congr_left fun p hp => ?_
    exact (weight_of_some (mem_toList_iff.1 hp)).symm
  have hsub : t.keys.toFinset ⊆ domain := by
    intro k hk
    exact h k (mem_keys_iff.1 (List.mem_toFinset.1 hk))
  rw [sum, hlist, ← List.sum_toFinset _ hnodup]
  refine Finset.sum_subset hsub fun k _ hk => weight_of_none ?_
  have hk : k ∉ t := fun hin => hk (List.mem_toFinset.2 (mem_keys_iff.2 hin))
  simpa [mem_iff] using hk

/-- Sums over tables that weigh alike off a key differ by what they weigh there. -/
theorem sum_add_weight {t u : Table κ α} {f : α → Nat} (k : κ)
    (h : ∀ k', k' ≠ k → u.weight f k' = t.weight f k') :
    u.sum f + t.weight f k = t.sum f + u.weight f k := by
  obtain ⟨domain, hdomain⟩ : ∃ domain, domain = {k} ∪ (t.keys.toFinset ∪ u.keys.toFinset) := ⟨_, rfl⟩
  have hk : k ∈ domain := by simp [hdomain]
  have ht : ∀ k' ∈ t, k' ∈ domain := fun k' hin => by simp [hdomain, mem_keys_iff.2 hin]
  have hu : ∀ k' ∈ u, k' ∈ domain := fun k' hin => by simp [hdomain, mem_keys_iff.2 hin]
  have hrest : ∑ k' ∈ domain.erase k, u.weight f k' = ∑ k' ∈ domain.erase k, t.weight f k' :=
    Finset.sum_congr rfl fun k' hk' => h k' (Finset.ne_of_mem_erase hk')
  rw [sum_eq_finset_sum u f hu, sum_eq_finset_sum t f ht, ← Finset.add_sum_erase _ _ hk,
    ← Finset.add_sum_erase _ (t.weight f) hk, hrest]
  omega

theorem sum_insert [Std.TransOrd κ] (t : Table κ α) (f : α → Nat) (k : κ) (v : α) :
    (t.insert k v).sum f + t.weight f k = t.sum f + f v := by
  have hself : (t.insert k v).weight f k = f v := weight_of_some (get?_insert_self t k v)
  rw [← hself]
  refine sum_add_weight k fun k' hne => ?_
  rw [weight, weight, get?_insert_of_ne hne]

theorem sum_erase (t : Table κ α) (f : α → Nat) (k : κ) :
    (t.erase k).sum f + t.weight f k = t.sum f := by
  have hself : (t.erase k).weight f k = 0 := weight_of_none (get?_erase_self t k)
  have h := sum_add_weight (t := t) (u := t.erase k) (f := f) k fun k' hne => by
    rw [weight, weight, get?_erase_of_ne hne]
  omega

theorem weight_le_sum (t : Table κ α) (f : α → Nat) (k : κ) : t.weight f k ≤ t.sum f := by
  have h := t.sum_erase f k
  omega

end KernelReplay.Table
