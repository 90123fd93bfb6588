/-
  What follows the start of a text.
-/

namespace KernelReplay

theorem isPrefixOf?_eq_some_iff {start text rest : List Char} :
    start.isPrefixOf? text = some rest ↔ text = start ++ rest := by
  induction start generalizing text with
  | nil =>
    show some text = some rest ↔ text = rest
    exact Option.some_inj
  | cons c start ih =>
    cases text with
    | nil =>
      show none = some rest ↔ [] = c :: start ++ rest
      simp
    | cons d text =>
      show (if c == d then start.isPrefixOf? text else none) = some rest ↔ _
      rw [List.cons_append, List.cons.injEq]
      by_cases h : c = d
      · subst h
        simpa using ih
      · have h' : d ≠ c := fun e => h e.symm
        simp [h, h']

/-- What follows `start` in a name that begins with it. -/
def afterPrefix? (start name : String) : Option String :=
  (start.toList.isPrefixOf? name.toList).map String.ofList

theorem afterPrefix?_eq_some_iff {start name rest : String} :
    afterPrefix? start name = some rest ↔ name = start ++ rest := by
  rw [afterPrefix?, Option.map_eq_some_iff, ← String.toList_inj, String.toList_append]
  constructor
  · rintro ⟨r, hr, rfl⟩
    simpa using isPrefixOf?_eq_some_iff.1 hr
  · intro h
    exact ⟨rest.toList, isPrefixOf?_eq_some_iff.2 h, by simp⟩

theorem afterPrefix?_append (start rest : String) :
    afterPrefix? start (start ++ rest) = some rest :=
  afterPrefix?_eq_some_iff.2 rfl

/-- A name does not begin with `start` if it begins with a text that parts from `start`. -/
theorem afterPrefix?_append_of_parts {start other : String}
    (h : ¬ start.toList <+: other.toList ∧ ¬ other.toList <+: start.toList) (rest : String) :
    afterPrefix? start (other ++ rest) = none := by
  refine Option.eq_none_iff_forall_ne_some.2 fun after hafter => ?_
  have hname : other.toList ++ rest.toList = start.toList ++ after.toList := by
    rw [← String.toList_append, afterPrefix?_eq_some_iff.1 hafter, String.toList_append]
  rcases List.prefix_or_prefix_of_prefix ⟨_, hname.symm⟩ (List.prefix_append _ _) with hp | hp
  · exact h.1 hp
  · exact h.2 hp

example : afterPrefix? "sys_" "sys_read" = some "read" := by decide

end KernelReplay
