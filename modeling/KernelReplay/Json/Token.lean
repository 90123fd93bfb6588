import KernelReplay.Json.Number
import KernelReplay.Text.Prefix

/-
  The tokens of a JSON text: brackets, separators and values without parts. Where the text fails the
  last token is `fault` and nothing follows it.
-/

namespace KernelReplay.Json

/-- A token of a JSON text. -/
inductive Token
  | openArray
  | closeArray
  | openObject
  | closeObject
  | colon
  | comma
  | scalar (value : Json)
  /-- Text that begins no token. -/
  | fault
  deriving Repr, Inhabited

/-- White space between tokens. -/
def isSpace (c : Char) : Bool := c = ' ' || c = '\t' || c = '\n' || c = '\r'

/-- The value of a hexadecimal digit. -/
def hexValue? (c : Char) : Option Nat :=
  if c.isDigit then some (digitValue c)
  else if 'a' ≤ c ∧ c ≤ 'f' then some (c.toNat - 'a'.toNat + 10)
  else if 'A' ≤ c ∧ c ≤ 'F' then some (c.toNat - 'A'.toNat + 10)
  else none

/-- The value of four hexadecimal digits. -/
def hexUnit? (a b c d : Char) : Option Nat := do
  some ((((← hexValue? a) * 16 + (← hexValue? b)) * 16 + (← hexValue? c)) * 16 + (← hexValue? d))

/-- What a backslash and a character stand for. -/
def escaped? (c : Char) : Option Nat :=
  if c = '"' ∨ c = '\\' ∨ c = '/' then some c.toNat
  else if c = 'b' then some 0x08
  else if c = 'f' then some 0x0C
  else if c = 'n' then some 0x0A
  else if c = 'r' then some 0x0D
  else if c = 't' then some 0x09
  else none

/-- The code points of a text up to its closing quote, where an escape may give half of a surrogate
pair, and what follows the quote. -/
def textUnits? : List Char → Option (List Nat × List Char)
  | [] => none
  | '"' :: rest => some ([], rest)
  | '\\' :: 'u' :: a :: b :: c :: d :: rest => do
    let unit ← hexUnit? a b c d
    let (units, after) ← textUnits? rest
    some (unit :: units, after)
  | '\\' :: c :: rest => do
    let unit ← escaped? c
    let (units, after) ← textUnits? rest
    some (unit :: units, after)
  | c :: rest =>
    if c.toNat < 0x20 || c = '\\' then none
    else do
      let (units, after) ← textUnits? rest
      some (c.toNat :: units, after)

/-- The text that code points write, if every half of a surrogate pair meets its other half. -/
def pairUp? : List Nat → Option (List Char)
  | [] => some []
  | u :: rest =>
    if 0xD800 ≤ u ∧ u < 0xDC00 then
      match rest with
      | v :: rest =>
        if 0xDC00 ≤ v ∧ v < 0xE000 then
          (pairUp? rest).map (Char.ofNat (0x10000 + (u - 0xD800) * 0x400 + (v - 0xDC00)) :: ·)
        else none
      | [] => none
    else if 0xDC00 ≤ u ∧ u < 0xE000 then none
    else (pairUp? rest).map (Char.ofNat u :: ·)

/-- The text value at the start of what follows an opening quote, and what follows it. -/
def text? (cs : List Char) : Option (Json × List Char) := do
  let (units, rest) ← textUnits? cs
  some (.text ((pairUp? units).map String.ofList), rest)

/-- The word that stands for a value, if it begins a text, and what follows. -/
def word? (cs : List Char) : Option (Json × List Char) :=
  let read := fun (word : String) (v : Json) => (word.toList.isPrefixOf? cs).map fun rest => (v, rest)
  (read "null" .null).or ((read "true" (.bool true)).or (read "false" (.bool false)))

/-- The value without parts at the start of a text, and what follows. -/
def scalar? (cs : List Char) : Option (Json × List Char) :=
  match cs with
  | '"' :: rest => text? rest
  | c :: _ => if c = '-' || c.isDigit then number? cs else word? cs
  | [] => none

/-- The token that a character is. -/
def bracket? (c : Char) : Option Token :=
  if c = '[' then some .openArray
  else if c = ']' then some .closeArray
  else if c = '\x7b' then some .openObject
  else if c = '\x7d' then some .closeObject
  else if c = ':' then some .colon
  else if c = ',' then some .comma
  else none

theorem textUnits?_length {cs rest : List Char} {units : List Nat}
    (h : textUnits? cs = some (units, rest)) : rest.length < cs.length := by
  fun_induction textUnits? cs generalizing units rest with
  | case1 => simp at h
  | case2 => simp_all
  | case3 a b c d tail ih =>
    simp only [Option.bind_eq_bind, Option.bind_eq_some_iff, Prod.exists] at h
    obtain ⟨_, _, _, after, hr, he⟩ := h
    obtain ⟨-, rfl⟩ := Prod.mk.inj (Option.some.inj he)
    have := ih hr
    simp only [List.length_cons]
    omega
  | case4 c tail _ ih =>
    simp only [Option.bind_eq_bind, Option.bind_eq_some_iff, Prod.exists] at h
    obtain ⟨_, _, _, after, hr, he⟩ := h
    obtain ⟨-, rfl⟩ := Prod.mk.inj (Option.some.inj he)
    have := ih hr
    simp only [List.length_cons]
    omega
  | case5 => simp at h
  | case6 c tail _ _ _ _ ih =>
    simp only [Option.bind_eq_bind, Option.bind_eq_some_iff, Prod.exists] at h
    obtain ⟨_, after, hr, he⟩ := h
    obtain ⟨-, rfl⟩ := Prod.mk.inj (Option.some.inj he)
    have := ih hr
    simp only [List.length_cons]
    omega

theorem word?_length {cs rest : List Char} {v : Json} (h : word? cs = some (v, rest)) :
    rest.length < cs.length := by
  have key : ∀ (w : List Char), w ≠ [] → ∀ r, w.isPrefixOf? cs = some r → r.length < cs.length := by
    intro w hw r hr
    rw [isPrefixOf?_eq_some_iff.1 hr, List.length_append]
    have := List.length_pos_iff.2 hw
    omega
  simp only [word?, Option.or_eq_some_iff, Option.map_eq_some_iff, Prod.mk.injEq] at h
  rcases h with ⟨r, hr, -, rfl⟩ | ⟨-, ⟨r, hr, -, rfl⟩ | ⟨-, r, hr, -, rfl⟩⟩ <;>
    exact key _ (by simp) _ hr

theorem scalar?_length {cs rest : List Char} {v : Json} (h : scalar? cs = some (v, rest)) :
    rest.length < cs.length := by
  unfold scalar? at h
  split at h
  · simp only [text?, Option.bind_eq_bind, Option.bind_eq_some_iff, Prod.exists] at h
    obtain ⟨_, after, hr, he⟩ := h
    obtain ⟨-, rfl⟩ := Prod.mk.inj (Option.some.inj he)
    have := textUnits?_length hr
    simp only [List.length_cons]
    omega
  · split at h
    · exact number?_length h
    · exact word?_length h
  · simp at h

/-- The tokens of a text. -/
def tokens (cs : List Char) : List Token :=
  match cs with
  | [] => []
  | c :: rest =>
    if isSpace c then tokens rest
    else match bracket? c with
      | some token => token :: tokens rest
      | none =>
        match _h : scalar? (c :: rest) with
        | some (v, after) => .scalar v :: tokens after
        | none => [.fault]
termination_by cs.length
decreasing_by
  · simp
  · simp
  · exact scalar?_length _h

end KernelReplay.Json
