import Mathlib.Data.List.Basic
import KernelReplay.Table.Lemmas
import KernelReplay.Trace.Event

/-
  Events that are written as texts and read back. How a text spells numbers, texts, lists and maps, and
  how it is read, is left open (`Serialization`); what is relied on is that each of these is read back as
  it was written, and that a field, whose text does not name its kind, is read as the first kind that
  accepts it (`Serialization.Faithful`). The digits of a word do not say whether it was a signed or an
  unsigned one, so what is read is the normal form of the event, in which every word is a signed one
  that can be (`Serialization.Faithful.readEvent_write`).
-/

namespace KernelReplay

/-! ## Normal forms -/

namespace FieldValue

mutual

/-- The value with every word that fits a signed one as a signed one, at any depth. -/
def normal : FieldValue → FieldValue
  | signed v => signed v
  | unsigned v => if v.toNat < 0x8000_0000_0000_0000 then signed (.ofInt v.toNat) else unsigned v
  | text s => text s
  | list vs => list (allNormal vs)

/-- The values, each in normal form. -/
def allNormal : List FieldValue → List FieldValue
  | [] => []
  | v :: rest => v.normal :: allNormal rest

end

theorem normal_of_lt {v : UInt64} (h : v.toNat < 0x8000_0000_0000_0000) :
    (unsigned v).normal = signed (.ofInt v.toNat) := if_pos h

theorem normal_of_not_lt {v : UInt64} (h : ¬ v.toNat < 0x8000_0000_0000_0000) :
    (unsigned v).normal = unsigned v := if_neg h

mutual

theorem normal_normal : ∀ v : FieldValue, v.normal.normal = v.normal
  | signed _ | text _ => rfl
  | unsigned v => by
    by_cases h : v.toNat < 0x8000_0000_0000_0000
    · rw [normal_of_lt h]
      rfl
    · rw [normal_of_not_lt h, normal_of_not_lt h]
  | list vs => congrArg list (allNormal_allNormal vs)

theorem allNormal_allNormal : ∀ vs : List FieldValue, allNormal (allNormal vs) = allNormal vs
  | [] => rfl
  | v :: rest => congrArg₂ List.cons (normal_normal v) (allNormal_allNormal rest)

end

/-- An unsigned word that fits a signed one keeps its value as one. -/
theorem toInt_ofInt_toNat {v : UInt64} (h : v.toNat < 0x8000_0000_0000_0000) :
    (Int64.ofInt v.toNat).toInt = v.toNat :=
  Int64.toInt_ofInt_of_le (by omega) (by omega)

mutual

/-- How many lists of a value are inside each other. -/
def nesting : FieldValue → Nat
  | signed _ | unsigned _ | text _ => 0
  | list vs => allNesting vs + 1

/-- The deepest nesting of a list of values. -/
def allNesting : List FieldValue → Nat
  | [] => 0
  | v :: rest => max v.nesting (allNesting rest)

end

theorem allNesting_append (vs ws : List FieldValue) :
    allNesting (vs ++ ws) = max (allNesting vs) (allNesting ws) := by
  induction vs with
  | nil => exact (Nat.zero_max _).symm
  | cons v rest ih => rw [List.cons_append, allNesting, allNesting, ih, Nat.max_assoc]

end FieldValue

namespace Event

/-- The event with its fields and its context in normal form. -/
def normal (e : Event) : Event :=
  { e with
    fields := e.fields.map fun _ => FieldValue.normal
    context := e.context.map fun _ => FieldValue.normal }

theorem normal_normal (e : Event) : e.normal.normal = e.normal := by
  unfold normal
  simp only [Table.map_map, FieldValue.normal_normal]

/-- How deep an event nests: around the lists of a value are a map of fields and the event. -/
def nesting (e : Event) : Nat := FieldValue.allNesting (e.fields.values ++ e.context.values) + 2

end Event

/-! ## Writing and reading -/

/-- A way to write events as texts and to read them. What is written is a number, a text, a list or a
map before it is spelled. -/
structure Serialization where
  /-- What is written of a value. -/
  Doc : Type
  ofInt64 : Int64 → Doc
  ofUInt64 : UInt64 → Doc
  ofString : String → Doc
  ofList : List Doc → Doc
  /-- The members of a map are in the order in which they are written. -/
  ofMembers : List (String × Doc) → Doc
  ofField : FieldValue → Doc
  ofEvent : Event → Doc
  int64? : Doc → Option Int64
  uint64? : Doc → Option UInt64
  string? : Doc → Option String
  /-- Reads a list whose items are read in a given way. -/
  list? : {α : Type} → (Doc → Option α) → Doc → Option (List α)
  /-- Reads a map whose values are read in a given way. -/
  table? : {α : Type} → (Doc → Option α) → Doc → Option (Table String α)
  field? : Doc → Option FieldValue
  /-- How many lists and maps are inside each other. -/
  nesting : Doc → Nat
  /-- The text of what is written. -/
  spell : Doc → String
  /-- The event that a text is read as. -/
  readEvent : String → Option Event

namespace Serialization

/-- How many lists and maps inside each other are read of a text. -/
def maxNesting : Nat := 127

/-- Numbers, texts, lists and maps are read back as they were written, fields as the first kind that
accepts them and events by their members. -/
structure Faithful (S : Serialization) : Prop where
  int64?_ofInt64 : ∀ v, S.int64? (S.ofInt64 v) = some v
  uint64?_ofUInt64 : ∀ v, S.uint64? (S.ofUInt64 v) = some v
  /-- An unsigned word is read as the signed word of the same value, if there is one. -/
  int64?_ofUInt64 : ∀ v w, S.int64? (S.ofUInt64 v) = some w ↔ w.toInt = v.toNat
  string?_ofString : ∀ s, S.string? (S.ofString s) = some s
  /-- A text is no number. -/
  int64?_ofString : ∀ s, S.int64? (S.ofString s) = none
  uint64?_ofString : ∀ s, S.uint64? (S.ofString s) = none
  list?_ofList : ∀ {α : Type} (read : S.Doc → Option α) ds, S.list? read (S.ofList ds) = ds.mapM read
  /-- A list is no number and no text. -/
  int64?_ofList : ∀ ds, S.int64? (S.ofList ds) = none
  uint64?_ofList : ∀ ds, S.uint64? (S.ofList ds) = none
  string?_ofList : ∀ ds, S.string? (S.ofList ds) = none
  /-- A map is read back value by value. -/
  table?_ofMembers : ∀ {α β : Type} (write : α → S.Doc) (read : S.Doc → Option β) (f : α → β),
    (∀ a, read (write a) = some (f a)) → ∀ t : Table String α,
    S.table? read (S.ofMembers (t.toList.map fun p => (p.1, write p.2))) = some (t.map fun _ => f)
  /-- A field is written as what it holds. -/
  ofField_signed : ∀ v, S.ofField (.signed v) = S.ofInt64 v
  ofField_unsigned : ∀ v, S.ofField (.unsigned v) = S.ofUInt64 v
  ofField_text : ∀ s, S.ofField (.text s) = S.ofString s
  ofField_list : ∀ vs, S.ofField (.list vs) = S.ofList (vs.map S.ofField)
  /-- Of the kinds of fields, the first one that accepts what is written is read. -/
  field?_eq : ∀ d, S.field? d =
    ((S.int64? d).map .signed).or (((S.uint64? d).map .unsigned).or
      (((S.string? d).map .text).or ((S.list? S.field? d).map .list)))
  /-- An event is written as a map of its members. -/
  ofEvent_eq : ∀ e, S.ofEvent e = S.ofMembers
    [("timestamp", S.ofInt64 e.timestamp), ("name", S.ofString e.name),
     ("fields", S.ofMembers (e.fields.toList.map fun p => (p.1, S.ofField p.2))),
     ("context", S.ofMembers (e.context.toList.map fun p => (p.1, S.ofField p.2)))]
  nesting_ofInt64 : ∀ v, S.nesting (S.ofInt64 v) = 0
  nesting_ofUInt64 : ∀ v, S.nesting (S.ofUInt64 v) = 0
  nesting_ofString : ∀ s, S.nesting (S.ofString s) = 0
  nesting_ofList : ∀ ds, S.nesting (S.ofList ds) = (ds.map S.nesting).foldr max 0 + 1
  nesting_ofMembers : ∀ members, S.nesting (S.ofMembers members) =
    (members.map fun m => S.nesting m.2).foldr max 0 + 1
  /-- The text of a map that does not nest too deep is read as the event whose members it has. -/
  readEvent_spell : ∀ timestamp name fields context e,
    S.nesting (S.ofMembers [("timestamp", timestamp), ("name", name), ("fields", fields),
      ("context", context)]) ≤ maxNesting →
    S.int64? timestamp = some e.timestamp → S.string? name = some e.name →
    S.table? S.field? fields = some e.fields → S.table? S.field? context = some e.context →
    S.readEvent (S.spell (S.ofMembers [("timestamp", timestamp), ("name", name),
      ("fields", fields), ("context", context)])) = some e

namespace Faithful

variable {S : Serialization}

/-- An unsigned word is read as a signed one if it fits, and as itself if it does not. -/
theorem field?_unsigned (h : S.Faithful) (v : UInt64) :
    S.field? (S.ofField (.unsigned v)) = some (FieldValue.unsigned v).normal := by
  rw [h.ofField_unsigned, h.field?_eq, h.uint64?_ofUInt64]
  by_cases hfits : v.toNat < 0x8000_0000_0000_0000
  · rw [(h.int64?_ofUInt64 v _).2 (FieldValue.toInt_ofInt_toNat hfits),
      FieldValue.normal_of_lt hfits]
    rfl
  · have hnone : S.int64? (S.ofUInt64 v) = none := by
      refine Option.eq_none_iff_forall_ne_some.2 fun w hw => ?_
      have heq := (h.int64?_ofUInt64 v w).1 hw
      have hlt := Int64.toInt_lt w
      omega
    rw [hnone, FieldValue.normal_of_not_lt hfits]
    rfl

mutual

/-- What is written of a field is read as its normal form. -/
theorem field?_ofField (h : S.Faithful) :
    ∀ v : FieldValue, S.field? (S.ofField v) = some v.normal
  | .signed v => by
    rw [h.ofField_signed, h.field?_eq, h.int64?_ofInt64]
    rfl
  | .unsigned v => h.field?_unsigned v
  | .text s => by
    rw [h.ofField_text, h.field?_eq, h.int64?_ofString, h.uint64?_ofString, h.string?_ofString]
    rfl
  | .list vs => by
    rw [h.ofField_list, h.field?_eq, h.int64?_ofList, h.uint64?_ofList, h.string?_ofList,
      h.list?_ofList, mapM_field?_ofField h vs]
    rfl

theorem mapM_field?_ofField (h : S.Faithful) : ∀ vs : List FieldValue,
    (vs.map S.ofField).mapM S.field? = some (FieldValue.allNormal vs)
  | [] => rfl
  | v :: rest => by
    rw [List.map_cons, List.mapM_cons, field?_ofField h v, mapM_field?_ofField h rest]
    rfl

end

mutual

theorem nesting_ofField (h : S.Faithful) :
    ∀ v : FieldValue, S.nesting (S.ofField v) = v.nesting
  | .signed v => by rw [h.ofField_signed, h.nesting_ofInt64, FieldValue.nesting]
  | .unsigned v => by rw [h.ofField_unsigned, h.nesting_ofUInt64, FieldValue.nesting]
  | .text s => by rw [h.ofField_text, h.nesting_ofString, FieldValue.nesting]
  | .list vs => by
    rw [h.ofField_list, h.nesting_ofList, List.map_map, foldr_nesting_ofField h vs,
      FieldValue.nesting]

theorem foldr_nesting_ofField (h : S.Faithful) : ∀ vs : List FieldValue,
    (vs.map (S.nesting ∘ S.ofField)).foldr max 0 = FieldValue.allNesting vs
  | [] => rfl
  | v :: rest => by
    rw [List.map_cons, List.foldr_cons, foldr_nesting_ofField h rest, Function.comp_apply,
      nesting_ofField h v, FieldValue.allNesting]

end

/-- A map of fields nests one deeper than its fields. -/
theorem nesting_ofFields (h : S.Faithful) (fields : Table String FieldValue) :
    S.nesting (S.ofMembers (fields.toList.map fun p => (p.1, S.ofField p.2))) =
      FieldValue.allNesting fields.values + 1 := by
  rw [h.nesting_ofMembers, List.map_map, ← h.foldr_nesting_ofField, Table.values, List.map_map]
  rfl

/-- What is written of an event nests as deep as the event. -/
theorem nesting_ofEvent (h : S.Faithful) (e : Event) : S.nesting (S.ofEvent e) = e.nesting := by
  rw [h.ofEvent_eq, h.nesting_ofMembers, Event.nesting, FieldValue.allNesting_append]
  simp only [List.map_cons, List.map_nil, List.foldr_cons, List.foldr_nil, h.nesting_ofInt64,
    h.nesting_ofString, h.nesting_ofFields]
  omega

/-- The text of an event that does not nest too deep is read as its normal form. -/
theorem readEvent_write (h : S.Faithful) {e : Event} (hnesting : e.nesting ≤ maxNesting) :
    S.readEvent (S.spell (S.ofEvent e)) = some e.normal := by
  rw [← h.nesting_ofEvent, h.ofEvent_eq] at hnesting
  rw [h.ofEvent_eq]
  exact h.readEvent_spell _ _ _ _ e.normal hnesting (h.int64?_ofInt64 e.timestamp)
    (h.string?_ofString e.name)
    (h.table?_ofMembers S.ofField S.field? FieldValue.normal h.field?_ofField e.fields)
    (h.table?_ofMembers S.ofField S.field? FieldValue.normal h.field?_ofField e.context)

end Faithful

end Serialization

end KernelReplay
