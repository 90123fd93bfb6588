/-
  Field values of trace events: words, texts and lists of values. The accessors give a value only
  in the reading asked for; a field of another type reads as absent.
-/

namespace KernelReplay

/-- The value of a payload or context field. -/
inductive FieldValue
  | signed (value : Int64)
  | unsigned (value : UInt64)
  | text (value : String)
  | list (values : List FieldValue)
  deriving Repr, Inhabited

/-- An IPv4 address, first octet first. -/
structure Ipv4 where
  a : UInt8
  b : UInt8
  c : UInt8
  d : UInt8
  deriving DecidableEq, Repr, Inhabited

namespace Ipv4

/-- The address whose bits, most significant first, are those of `n`. -/
def ofNat (n : Nat) : Ipv4 :=
  ⟨.ofNat (n >>> 24), .ofNat (n >>> 16), .ofNat (n >>> 8), .ofNat n⟩

/-- Dotted decimal. -/
def render (ip : Ipv4) : String :=
  s!"{ip.a.toNat}.{ip.b.toNat}.{ip.c.toNat}.{ip.d.toNat}"

end Ipv4

namespace FieldValue

mutual

/-- Decides whether two values are the same. -/
def decEq : (v w : FieldValue) → Decidable (v = w)
  | signed a, signed b => if h : a = b then .isTrue (h ▸ rfl) else .isFalse (by simpa using h)
  | unsigned a, unsigned b => if h : a = b then .isTrue (h ▸ rfl) else .isFalse (by simpa using h)
  | text a, text b => if h : a = b then .isTrue (h ▸ rfl) else .isFalse (by simpa using h)
  | list a, list b =>
    match decEqAll a b with
    | .isTrue h => .isTrue (h ▸ rfl)
    | .isFalse h => .isFalse (by simpa using h)
  | signed _, unsigned _ | signed _, text _ | signed _, list _ => .isFalse (by simp)
  | unsigned _, signed _ | unsigned _, text _ | unsigned _, list _ => .isFalse (by simp)
  | text _, signed _ | text _, unsigned _ | text _, list _ => .isFalse (by simp)
  | list _, signed _ | list _, unsigned _ | list _, text _ => .isFalse (by simp)

/-- Decides whether two lists of values are the same. -/
def decEqAll : (vs ws : List FieldValue) → Decidable (vs = ws)
  | [], [] => .isTrue rfl
  | [], _ :: _ | _ :: _, [] => .isFalse (by simp)
  | v :: vs, w :: ws =>
    match decEq v w, decEqAll vs ws with
    | .isTrue h, .isTrue h' => .isTrue (by rw [h, h'])
    | .isFalse h, _ => .isFalse (by simp [h])
    | _, .isFalse h => .isFalse (by simp [h])

end

instance : DecidableEq FieldValue := decEq

/-- The value as a signed word. -/
def int? : FieldValue → Option Int
  | signed v => some v.toInt
  | unsigned v => if v.toNat < 1 <<< 63 then some v.toNat else none
  | _ => none

/-- The value as an unsigned word. -/
def nat? : FieldValue → Option Nat
  | signed v => if 0 ≤ v.toInt then some v.toInt.toNat else none
  | unsigned v => some v.toNat
  | _ => none

/-- The value as text. -/
def text? : FieldValue → Option String
  | text s => some s
  | _ => none

/-- The value as a list. -/
def list? : FieldValue → Option (List FieldValue)
  | list vs => some vs
  | _ => none

/-- The value as one octet. -/
def octet? (v : FieldValue) : Option UInt8 :=
  v.nat?.bind fun n => if n < 1 <<< 8 then some (.ofNat n) else none

/-- The value as an IPv4 address: four octets in a list, or one word of 32 bits. -/
def ipv4? : FieldValue → Option Ipv4
  | list [a, b, c, d] => do some ⟨← a.octet?, ← b.octet?, ← c.octet?, ← d.octet?⟩
  | v => v.nat?.bind fun n => if n < 1 <<< 32 then some (.ofNat n) else none

/-- The list of an address's octets. -/
def ofIpv4 (ip : Ipv4) : FieldValue :=
  list ([ip.a, ip.b, ip.c, ip.d].map fun octet => unsigned octet.toUInt64)

end FieldValue

end KernelReplay
