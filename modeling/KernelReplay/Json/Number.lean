import KernelReplay.Json.Basic
import KernelReplay.Word

/-
  JSON numbers: their grammar, and which of them are words and which exceed every double. A number
  is read as its leading digits, as many as fit a word, times a power of ten; it is too large when
  the product of the two, each rounded to a double, rounds to no finite double.
-/

namespace KernelReplay.Json

/-- The digits at the start of a text, and what follows. -/
def digits (cs : List Char) : List Char × List Char :=
  (cs.takeWhile Char.isDigit, cs.dropWhile Char.isDigit)

/-- A digit's value. -/
def digitValue (c : Char) : Nat := c.toNat - '0'.toNat

/-- The number that digits write. -/
def decimal (ds : List Char) : Nat := ds.foldl (fun n d => 10 * n + digitValue d) 0

/-- Appends digits to a number while it stays a word; the digits that are left over. -/
def leading : Nat → List Char → Nat × List Char
  | n, [] => (n, [])
  | n, d :: ds =>
    if 10 * n + digitValue d ≤ maxWord then leading (10 * n + digitValue d) ds else (n, d :: ds)

/-- A natural rounded to the 53 significant bits of a double, ties to even. -/
def roundToDouble (n : Nat) : Nat :=
  let unit := 1 <<< (n.log2 - 52)
  let q := n / unit
  let r := 2 * (n % unit)
  (if r > unit ∨ (r = unit ∧ q % 2 = 1) then q + 1 else q) * unit

/-- The least natural that rounds to no finite double. -/
def doubleLimit : Nat := 1 <<< 1024 - 1 <<< 970

/-- The greatest power of ten below every limit of doubles. -/
def maxTenPower : Int := 308

/-- The parts of a number's spelling. -/
structure Spelling where
  negative : Bool
  whole : List Char
  fraction : Option (List Char)
  exponent : Option (Bool × List Char)

namespace Spelling

/-- Whether the number is too large for a double. -/
def tooLarge (n : Spelling) : Bool :=
  let fraction := n.fraction.getD []
  let (start, dropped) := leading 0 n.whole
  let (significand, unread) := leading start fraction
  let shift : Int := dropped.length - (fraction.length - unread.length : Nat)
  let exponent : Int := match n.exponent with
    | some (true, ds) => -decimal ds
    | some (false, ds) => decimal ds
    | none => 0
  let power := shift + exponent
  significand ≠ 0 && 0 ≤ power &&
    (maxTenPower < power ||
      doubleLimit ≤ roundToDouble significand * roundToDouble (Nat.pow 10 power.toNat))

/-- The value of a number that stands at the start of `cs`, with `rest` after it. -/
def value (n : Spelling) (cs rest : List Char) : Json :=
  let i : Int := if n.negative then -decimal n.whole else decimal n.whole
  if n.fraction.isNone && n.exponent.isNone && (-0x8000_0000_0000_0000 ≤ i && i ≤ maxWord)
      && !(n.negative && i = 0) then
    .integer i
  else
    .real (.ofList (cs.take (cs.length - rest.length))) n.tooLarge

end Spelling

/-- The part of a number after its point. -/
def fraction? : List Char → Option (Option (List Char) × List Char)
  | '.' :: rest =>
    let (ds, rest) := digits rest
    if ds = [] then none else some (some ds, rest)
  | cs => some (none, cs)

/-- Whether a sign says minus, and what follows it. -/
def sign : List Char → Bool × List Char
  | '-' :: rest => (true, rest)
  | '+' :: rest => (false, rest)
  | cs => (false, cs)

/-- The part of a number after the letter `e`: whether the exponent is negative, and its digits. -/
def exponent? : List Char → Option (Option (Bool × List Char) × List Char)
  | e :: rest =>
    if e = 'e' ∨ e = 'E' then
      let (ds, after) := digits (sign rest).2
      if ds = [] then none else some (some ((sign rest).1, ds), after)
    else
      some (none, e :: rest)
  | [] => some (none, [])

/-- The part of a number before its point: a digit that is not zero leads if there are several. -/
def whole? (cs : List Char) : Option (List Char × List Char) :=
  let (ds, rest) := digits cs
  match ds with
  | [] => none
  | '0' :: _ :: _ => none
  | _ => some (ds, rest)

/-- Whether a number is negative, and what follows its sign. -/
def minus : List Char → Bool × List Char
  | '-' :: rest => (true, rest)
  | cs => (false, cs)

/-- The longest number at the start of a text, and what follows. -/
def number? (cs : List Char) : Option (Json × List Char) := do
  let (whole, rest) ← whole? (minus cs).2
  let (fraction, rest) ← fraction? rest
  let (exponent, rest) ← exponent? rest
  let n : Spelling := { negative := (minus cs).1, whole, fraction, exponent }
  some (n.value cs rest, rest)

theorem digits_length (cs : List Char) : (digits cs).1.length + (digits cs).2.length = cs.length := by
  rw [digits, ← List.length_append, List.takeWhile_append_dropWhile]

theorem whole?_length {cs ds rest : List Char} (h : whole? cs = some (ds, rest)) :
    rest.length < cs.length := by
  have hd := digits_length cs
  simp only [whole?] at h
  split at h
  · simp at h
  · simp at h
  · rename_i hne _
    obtain ⟨-, rfl⟩ := Prod.mk.inj (Option.some.inj h)
    have : (digits cs).1.length ≠ 0 := fun e => hne (List.length_eq_zero_iff.1 e)
    omega

theorem fraction?_length {cs rest : List Char} {ds : Option (List Char)}
    (h : fraction? cs = some (ds, rest)) : rest.length ≤ cs.length := by
  unfold fraction? at h
  split at h
  · rename_i after
    have hd := digits_length after
    simp only at h
    split at h
    · simp at h
    · obtain ⟨-, rfl⟩ := Prod.mk.inj (Option.some.inj h)
      simp only [List.length_cons]
      omega
  · obtain ⟨-, rfl⟩ := Prod.mk.inj (Option.some.inj h)
    exact Nat.le_refl _

theorem sign_length (cs : List Char) : (sign cs).2.length ≤ cs.length := by
  unfold sign
  split <;> simp

theorem minus_length (cs : List Char) : (minus cs).2.length ≤ cs.length := by
  unfold minus
  split <;> simp

theorem exponent?_length {cs rest : List Char} {e : Option (Bool × List Char)}
    (h : exponent? cs = some (e, rest)) : rest.length ≤ cs.length := by
  unfold exponent? at h
  split at h
  · rename_i c after
    have hd := digits_length (sign after).2
    have hs := sign_length after
    split at h
    · simp only at h
      split at h
      · simp at h
      · obtain ⟨-, rfl⟩ := Prod.mk.inj (Option.some.inj h)
        simp only [List.length_cons]
        omega
    · obtain ⟨-, rfl⟩ := Prod.mk.inj (Option.some.inj h)
      exact Nat.le_refl _
  · obtain ⟨-, rfl⟩ := Prod.mk.inj (Option.some.inj h)
    exact Nat.le_refl _

theorem number?_length {cs rest : List Char} {v : Json} (h : number? cs = some (v, rest)) :
    rest.length < cs.length := by
  simp only [number?, Option.bind_eq_bind, Option.bind_eq_some_iff, Prod.exists] at h
  obtain ⟨_, r₁, h₁, _, r₂, h₂, _, r₃, h₃, h₄⟩ := h
  obtain ⟨-, rfl⟩ := Prod.mk.inj (Option.some.inj h₄)
  have := minus_length cs
  have := whole?_length h₁
  have := fraction?_length h₂
  have := exponent?_length h₃
  omega

end KernelReplay.Json
