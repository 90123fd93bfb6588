/-
  Arithmetic in 64-bit ranges. Times, identifiers and priorities are integers in the signed range,
  sizes and counters are naturals below 2^64. Differences, negations and products are refused when
  they leave their range; counters stop at the greatest word instead.
-/

namespace KernelReplay

/-- The operation whose result left its range. -/
inductive Overflow
  | add
  | subtract
  | multiply
  | negate
  deriving DecidableEq, Repr, Inhabited

/-- The wording of an overflow. -/
def Overflow.message : Overflow → String
  | .add => "attempt to add with overflow"
  | .subtract => "attempt to subtract with overflow"
  | .multiply => "attempt to multiply with overflow"
  | .negate => "attempt to negate with overflow"

/-- The greatest unsigned word. -/
def maxWord : Nat := 0xFFFF_FFFF_FFFF_FFFF

/-- The integers of a signed word. -/
def FitsSigned (i : Int) : Prop := -0x8000_0000_0000_0000 ≤ i ∧ i < 0x8000_0000_0000_0000

instance (i : Int) : Decidable (FitsSigned i) := inferInstanceAs (Decidable (_ ∧ _))

/-- The naturals of an unsigned word. -/
def FitsWord (n : Nat) : Prop := n ≤ maxWord

instance (n : Nat) : Decidable (FitsWord n) := inferInstanceAs (Decidable (_ ≤ _))

theorem FitsWord.of_le {m n : Nat} (h : FitsWord m) (hle : n ≤ m) : FitsWord n := Nat.le_trans hle h

/-- Computations in sequence succeed exactly if each of them does. -/
theorem checked_bind_eq_ok_iff {ε α β : Type} {x : Except ε α} {f : α → Except ε β} {b : β} :
    (x >>= f) = .ok b ↔ ∃ a, x = .ok a ∧ f a = .ok b := by
  cases x with
  | error e => simp [bind, Except.bind]
  | ok a => simp [bind, Except.bind]

/-- The difference of two signed words. -/
def checkedSub (a b : Int) : Except Overflow Int :=
  if FitsSigned (a - b) then .ok (a - b) else .error .subtract

/-- The negation of a signed word. -/
def checkedNeg (a : Int) : Except Overflow Int :=
  if FitsSigned (-a) then .ok (-a) else .error .negate

/-- The product of two unsigned words. -/
def checkedMul (a b : Nat) : Except Overflow Nat :=
  if FitsWord (a * b) then .ok (a * b) else .error .multiply

/-- The successor of an unsigned word. -/
def checkedSucc (n : Nat) : Except Overflow Nat :=
  if FitsWord (n + 1) then .ok (n + 1) else .error .add

/-- The predecessor of an unsigned word. -/
def checkedPred (n : Nat) : Except Overflow Nat :=
  if n = 0 then .error .subtract else .ok (n - 1)

theorem checkedSub_eq_ok_iff {a b d : Int} :
    checkedSub a b = .ok d ↔ FitsSigned (a - b) ∧ a - b = d := by
  unfold checkedSub
  split <;> simp_all

theorem checkedNeg_eq_ok_iff {a d : Int} : checkedNeg a = .ok d ↔ FitsSigned (-a) ∧ -a = d := by
  unfold checkedNeg
  split <;> simp_all

theorem checkedMul_eq_ok_iff {a b d : Nat} :
    checkedMul a b = .ok d ↔ FitsWord (a * b) ∧ a * b = d := by
  unfold checkedMul
  split <;> simp_all

theorem checkedSucc_eq_ok_iff {n d : Nat} :
    checkedSucc n = .ok d ↔ FitsWord (n + 1) ∧ n + 1 = d := by
  unfold checkedSucc
  split <;> simp_all

theorem checkedPred_eq_ok_iff {n d : Nat} : checkedPred n = .ok d ↔ n = d + 1 := by
  unfold checkedPred
  split
  · simp_all
  · simp only [Except.ok.injEq]
    omega

/-- The sum of two counters, which stays at the greatest word once it is reached. -/
def saturatingAdd (a b : Nat) : Nat := min (a + b) maxWord

theorem saturatingAdd_comm (a b : Nat) : saturatingAdd a b = saturatingAdd b a := by
  simp [saturatingAdd, Nat.add_comm]

theorem saturatingAdd_assoc (a b c : Nat) :
    saturatingAdd (saturatingAdd a b) c = saturatingAdd a (saturatingAdd b c) := by
  simp only [saturatingAdd]
  omega

theorem saturatingAdd_zero {n : Nat} (h : n ≤ maxWord) : saturatingAdd n 0 = n := Nat.min_eq_left h

theorem saturatingAdd_le (a b : Nat) : saturatingAdd a b ≤ maxWord := Nat.min_le_right _ _

example : saturatingAdd maxWord 1 = maxWord := by decide

theorem le_saturatingAdd {a : Nat} (h : a ≤ maxWord) (b : Nat) : a ≤ saturatingAdd a b := by
  simp only [saturatingAdd]
  omega

end KernelReplay
