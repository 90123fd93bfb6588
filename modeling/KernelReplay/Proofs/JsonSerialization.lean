import Mathlib.Data.List.Forall2
import KernelReplay.Proofs.JsonReadback
import KernelReplay.Proofs.Serialization
import KernelReplay.Trace.EventText

/-
  Events as JSON texts. What is written of an event is a JSON value, which is rendered and read back as
  an event (`Serialization.json`). A value that is accepted as a field breaks off nowhere
  (`FieldValue.isPlain_of_ofJson?`), so its text says all of it, and the reader of events, which stops at
  the first fault, finds none (`Serialization.faithful_json`).
-/

namespace KernelReplay

/-! ## Values that are accepted -/

/-- The items of a list are read if each of them is. -/
theorem mapM_eq_some_iff {α β : Type} {read : α → Option β} {l : List α} {l' : List β} :
    l.mapM read = some l' ↔ List.Forall₂ (fun a b => read a = some b) l l' := by
  induction l generalizing l' with
  | nil => simp [eq_comm]
  | cons a rest ih =>
    rw [List.mapM_cons, List.forall₂_cons_left_iff]
    constructor
    · intro h
      obtain ⟨b, hb, h⟩ := Option.bind_eq_some_iff.1 h
      obtain ⟨rest', hrest, h⟩ := Option.bind_eq_some_iff.1 h
      cases h
      exact ⟨b, rest', hb, ih.1 hrest, rfl⟩
    · rintro ⟨b, rest', hb, hrest, rfl⟩
      rw [hb, ih.2 hrest]
      rfl

namespace Json

variable {j : Json}

theorem int64?_eq_some_iff {v : Int64} : j.int64? = some v ↔ j = .integer v.toInt := by
  constructor
  · intro h
    unfold int64? at h
    split at h
    · split at h
      · rename_i i hfits
        cases h
        rw [Int64.toInt_ofInt_of_le hfits.1 hfits.2]
      · cases h
    · cases h
  · rintro rfl
    rw [int64?, if_pos ⟨Int64.le_toInt v, Int64.toInt_lt v⟩, Int64.ofInt_toInt]

/-- An unsigned word is the signed word of the same value. -/
theorem int64?_natCast (v : UInt64) (w : Int64) :
    (integer v.toNat).int64? = some w ↔ w.toInt = v.toNat := by
  rw [int64?_eq_some_iff, integer.injEq, eq_comm]

theorem uint64?_eq_some_iff {v : UInt64} : j.uint64? = some v ↔ j = .integer v.toNat := by
  constructor
  · intro h
    unfold uint64? at h
    split at h
    · split at h
      · rename_i i hfits
        cases h
        have hlt : i.toNat < UInt64.size := Nat.lt_succ_of_le hfits.2
        rw [UInt64.toNat_ofNat_of_lt' hlt, Int.toNat_of_nonneg hfits.1]
      · cases h
    · cases h
  · rintro rfl
    have hfits : FitsWord (v.toNat : Int).toNat := Nat.le_of_lt_succ (UInt64.toNat_lt v)
    rw [uint64?, if_pos ⟨Int.natCast_nonneg _, hfits⟩, Int.toNat_natCast, UInt64.ofNat_toNat]

theorem string?_eq_some_iff {s : String} : j.string? = some s ↔ j = .ofString s := by
  cases j <;> simp [string?, ofString]

theorem isPlain_int64 (v : Int64) : (integer v.toInt).IsPlain := by
  have hle := Int64.le_toInt v
  have hlt := Int64.toInt_lt v
  refine ⟨hle, ?_⟩
  unfold maxWord
  omega

theorem isPlain_uint64 (v : UInt64) : (integer v.toNat).IsPlain := by
  have hlt := UInt64.toNat_lt v
  refine ⟨by omega, ?_⟩
  unfold maxWord
  omega

/-- The list whose items are read in a given way. -/
def list? {α : Type} (read : Json → Option α) : Json → Option (List α)
  | .array items true => items.mapM read
  | _ => none

/-- Reads a member of a map. -/
def member? {α : Type} (read : Json → Option α) (m : Option String × Json) :
    Option (String × α) :=
  m.1.bind fun key => (read m.2).map (key, ·)

/-- The map whose values are read in a given way. -/
def table? {α : Type} (read : Json → Option α) : Json → Option (Table String α)
  | .object members true => (members.mapM (member? read)).map Table.ofList
  | _ => none

theorem member?_eq_some_iff {α : Type} {read : Json → Option α} {m : Option String × Json}
    {p : String × α} : member? read m = some p ↔ m.1 = some p.1 ∧ read m.2 = some p.2 := by
  obtain ⟨key, v⟩ := m
  obtain ⟨name, a⟩ := p
  cases key <;> simp [member?, and_comm, eq_comm]

theorem table?_eq_some_iff {α : Type} {read : Json → Option α} {t : Table String α} :
    j.table? read = some t ↔ ∃ members ps, j = .object members true ∧
      List.Forall₂ (fun m p => member? read m = some p) members ps ∧ t = Table.ofList ps := by
  constructor
  · intro h
    unfold table? at h
    split at h
    · obtain ⟨ps, hps, rfl⟩ := Option.map_eq_some_iff.1 h
      exact ⟨_, ps, rfl, mapM_eq_some_iff.1 hps, rfl⟩
    · cases h
  · rintro ⟨members, ps, rfl, hps, rfl⟩
    rw [table?, mapM_eq_some_iff.2 hps]
    rfl

/-- A map is read back value by value. -/
theorem table?_ofMembers {α β : Type} {write : α → Json} {read : Json → Option β} {f : α → β}
    (h : ∀ a, read (write a) = some (f a)) (t : Table String α) :
    (ofMembers (t.toList.map fun p => (p.1, write p.2))).table? read =
      some (t.map fun _ => f) := by
  refine table?_eq_some_iff.2 ⟨_, (t.map fun _ => f).toList, rfl, ?_,
    (Table.ofList_toList _).symm⟩
  show List.Forall₂ _ _ (t.toList.map fun p => (p.1, f p.2))
  rw [List.map_map, List.forall₂_map_left_iff, List.forall₂_map_right_iff, List.forall₂_same]
  intro p _
  exact member?_eq_some_iff.2 ⟨rfl, h p.2⟩

theorem allNesting_eq (items : List Json) : allNesting items = (items.map nesting).foldr max 0 := by
  induction items with
  | nil => rfl
  | cons v rest ih => rw [allNesting, ih, List.map_cons, List.foldr_cons]

theorem membersNesting_eq (members : List (Option String × Json)) :
    membersNesting members = (members.map fun m => m.2.nesting).foldr max 0 := by
  induction members with
  | nil => rfl
  | cons m rest ih => rw [membersNesting, ih, List.map_cons, List.foldr_cons]

theorem nesting_ofList (items : List Json) :
    (ofList items).nesting = (items.map nesting).foldr max 0 + 1 := by
  rw [ofList, nesting, allNesting_eq]

theorem nesting_ofMembers (members : List (String × Json)) :
    (ofMembers members).nesting = (members.map fun m => m.2.nesting).foldr max 0 + 1 := by
  rw [ofMembers, nesting, membersNesting_eq, List.map_map]
  rfl

end Json

namespace FieldValue

theorem allOfJson?_eq_mapM (items : List Json) : allOfJson? items = items.mapM ofJson? := by
  induction items with
  | nil => rfl
  | cons v rest ih =>
    rw [allOfJson?, List.mapM_cons, ih]
    cases ofJson? v <;> cases rest.mapM ofJson? <;> rfl

theorem allToJson_eq_map (vs : List FieldValue) : allToJson vs = vs.map toJson := by
  induction vs with
  | nil => rfl
  | cons v rest ih => rw [allToJson, ih, List.map_cons]

/-- A value is accepted as the first kind of field that accepts it. -/
theorem ofJson?_eq (j : Json) : ofJson? j =
    (j.int64?.map signed).or ((j.uint64?.map unsigned).or
      ((j.string?.map text).or ((j.list? ofJson?).map list))) := by
  cases j with
  | array items closed =>
    cases closed with
    | false => rfl
    | true =>
      rw [ofJson?, allOfJson?_eq_mapM]
      rfl
  | _ => simp [ofJson?, Json.int64?, Json.uint64?, Json.string?, Json.list?]

/-- An integer that is accepted is a word. -/
theorem isPlain_integer {i : Int} {v : FieldValue} (h : ofJson? (.integer i) = some v) :
    (Json.integer i).IsPlain := by
  rw [ofJson?_eq] at h
  cases hsigned : (Json.integer i).int64? with
  | some w =>
    rw [Json.int64?_eq_some_iff.1 hsigned]
    exact Json.isPlain_int64 w
  | none =>
    cases hunsigned : (Json.integer i).uint64? with
    | some w =>
      rw [Json.uint64?_eq_some_iff.1 hunsigned]
      exact Json.isPlain_uint64 w
    | none =>
      rw [hsigned, hunsigned] at h
      cases h

mutual

/-- A value that is accepted as a field breaks off nowhere. -/
theorem isPlain_of_ofJson? : ∀ (j : Json) {v : FieldValue}, ofJson? j = some v → j.IsPlain
  | .array items true, _, h => by
    rw [ofJson?] at h
    obtain ⟨vs, hvs, -⟩ := Option.map_eq_some_iff.1 h
    exact ⟨allPlain_of_allOfJson? items hvs, rfl⟩
  | .array _ false, _, h => by cases h
  | .integer _, _, h => isPlain_integer h
  | .text (some _), _, _ => rfl
  | .null, _, h | .bool _, _, h | .real .., _, h | .text none, _, h | .object .., _, h
  | .torn, _, h => by cases h

theorem allPlain_of_allOfJson? : ∀ (items : List Json) {vs : List FieldValue},
    allOfJson? items = some vs → Json.AllPlain items
  | [], _, _ => trivial
  | j :: rest, vs, h => by
    rw [allOfJson?] at h
    split at h
    · rename_i v vs' hv hvs
      exact ⟨isPlain_of_ofJson? j hv, allPlain_of_allOfJson? rest hvs⟩
    · cases h

end

theorem isPlain_of_table? {j : Json} {t : Table String FieldValue}
    (h : j.table? ofJson? = some t) : j.IsPlain := by
  obtain ⟨members, ps, rfl, hps, -⟩ := Json.table?_eq_some_iff.1 h
  refine ⟨?_, rfl⟩
  clear h
  induction hps with
  | nil => trivial
  | cons hm _ ih =>
    obtain ⟨hkey, hvalue⟩ := Json.member?_eq_some_iff.1 hm
    exact ⟨Option.isSome_of_eq_some hkey, isPlain_of_ofJson? _ hvalue, ih⟩

end FieldValue

/-! ## Events that are accepted -/

namespace Event

/-- A value that is accepted as a field is read as it, if it leaves room for the two containers
around it. -/
theorem readField_eq {j : Json} {v : FieldValue} (h : FieldValue.ofJson? j = some v)
    (hnesting : j.nesting ≤ Json.maxNesting - 2) : readField j = .ok v := by
  unfold readField
  rw [if_pos (Json.isWhole_of_nesting _ (FieldValue.isPlain_of_ofJson? j h) hnesting), h]

/-- Of members that are accepted, each is put into the map. -/
theorem readMembers_eq {members : List (Option String × Json)} {ps : List (String × FieldValue)}
    (h : List.Forall₂ (fun m p => Json.member? FieldValue.ofJson? m = some p) members ps)
    (hnesting : Json.membersNesting members ≤ Json.maxNesting - 2)
    (fields : Table String FieldValue) :
    readMembers fields members = .ok (ps.foldl (fun t p => t.insert p.1 p.2) fields) := by
  induction h generalizing fields with
  | nil => rfl
  | @cons m p members ps hm _ ih =>
    obtain ⟨key, j⟩ := m
    obtain ⟨hkey, hvalue⟩ := Json.member?_eq_some_iff.1 hm
    cases hkey
    have hfirst : j.nesting ≤ Json.maxNesting - 2 := Nat.le_trans (Nat.le_max_left _ _) hnesting
    have hrest : Json.membersNesting members ≤ Json.maxNesting - 2 :=
      Nat.le_trans (Nat.le_max_right _ _) hnesting
    show (readField j >>= fun field => readMembers (fields.insert p.1 field) members) = _
    rw [readField_eq hvalue hfirst]
    exact ih hrest _

/-- A map that is accepted is read as it, if it leaves room for the event around it. -/
theorem readFields_eq {j : Json} {fields : Table String FieldValue}
    (h : j.table? FieldValue.ofJson? = some fields) (hnesting : j.nesting ≤ Json.maxNesting - 1) :
    readFields j = .ok fields := by
  obtain ⟨members, ps, rfl, hps, rfl⟩ := Json.table?_eq_some_iff.1 h
  rw [Json.nesting] at hnesting
  show (readMembers ∅ members >>= fun read => Json.readEnd true >>= fun _ => .ok read) = _
  rw [readMembers_eq hps (by omega)]
  rfl

/-- The text of a map whose members are accepted is read as the event that they make. -/
theorem ofText_render {timestamp name fields context : Json} {e : Event}
    (hnesting : (Json.ofMembers [("timestamp", timestamp), ("name", name), ("fields", fields),
      ("context", context)]).nesting ≤ Json.maxNesting)
    (htimestamp : timestamp.int64? = some e.timestamp) (hname : name.string? = some e.name)
    (hfields : fields.table? FieldValue.ofJson? = some e.fields)
    (hcontext : context.table? FieldValue.ofJson? = some e.context) :
    ofText (Json.ofMembers [("timestamp", timestamp), ("name", name), ("fields", fields),
      ("context", context)]).render = .ok e := by
  have hplainFields := FieldValue.isPlain_of_table? hfields
  have hplainContext := FieldValue.isPlain_of_table? hcontext
  have hdeep : fields.nesting ≤ Json.maxNesting - 1 ∧ context.nesting ≤ Json.maxNesting - 1 := by
    simp only [Json.ofMembers, List.map, Json.nesting, Json.membersNesting] at hnesting
    omega
  have hreadFields := readFields_eq hfields hdeep.1
  have hreadContext := readFields_eq hcontext hdeep.2
  obtain rfl := Json.int64?_eq_some_iff.1 htimestamp
  obtain rfl := Json.string?_eq_some_iff.1 hname
  have hreadTime : Json.readInt64 (.integer e.timestamp.toInt) = .ok e.timestamp := by
    have hlt : e.timestamp.toInt < 0x8000_0000_0000_0000 := Int64.toInt_lt e.timestamp
    rw [Json.readInt64, if_pos hlt, Int64.ofInt_toInt]
  have hplain : (Json.ofMembers [("timestamp", .integer e.timestamp.toInt),
      ("name", .ofString e.name), ("fields", fields), ("context", context)]).IsPlain :=
    ⟨⟨rfl, Json.isPlain_int64 e.timestamp, rfl, rfl, rfl, hplainFields, rfl, hplainContext,
      trivial⟩, rfl⟩
  have hdraft : Draft.readMembers {} [(some "timestamp", .integer e.timestamp.toInt),
      (some "name", .ofString e.name), (some "fields", fields), (some "context", context)] =
      .ok { timestamp := some e.timestamp, name := some e.name, fields := some e.fields,
            context := some e.context } := by
    simp only [Draft.readMembers, Draft.readMember, Draft.once, hreadTime, hreadFields,
      hreadContext]
    rfl
  unfold ofText Json.readAll
  rw [Json.ofText_render hplain]
  show ((Draft.readMembers {} [(some "timestamp", _), (some "name", _), (some "fields", _),
    (some "context", _)] >>= fun d => Json.readEnd true >>= fun _ => d.finish) >>=
    fun e => Json.readEnd true >>= fun _ => .ok e) = _
  rw [hdraft]
  rfl

end Event

/-! ## The serialization -/

namespace Serialization

/-- Events are written as JSON. -/
def json : Serialization where
  Doc := Json
  ofInt64 v := .integer v.toInt
  ofUInt64 v := .integer v.toNat
  ofString := .ofString
  ofList := .ofList
  ofMembers := .ofMembers
  ofField := FieldValue.toJson
  ofEvent := Event.toJson
  int64? := Json.int64?
  uint64? := Json.uint64?
  string? := Json.string?
  list? := Json.list?
  table? := Json.table?
  field? := FieldValue.ofJson?
  nesting := Json.nesting
  spell := Json.render
  readEvent text := (Event.ofText text).toOption

theorem faithful_json : json.Faithful where
  int64?_ofInt64 _ := Json.int64?_eq_some_iff.2 rfl
  uint64?_ofUInt64 _ := Json.uint64?_eq_some_iff.2 rfl
  int64?_ofUInt64 v w := by
    dsimp only [json]
    exact Json.int64?_natCast v w
  string?_ofString _ := rfl
  int64?_ofString _ := rfl
  uint64?_ofString _ := rfl
  list?_ofList _ _ := rfl
  int64?_ofList _ := rfl
  uint64?_ofList _ := rfl
  string?_ofList _ := rfl
  table?_ofMembers _ _ _ h t := Json.table?_ofMembers h t
  ofField_signed _ := rfl
  ofField_unsigned _ := rfl
  ofField_text _ := rfl
  ofField_list vs := congrArg Json.ofList (FieldValue.allToJson_eq_map vs)
  field?_eq := FieldValue.ofJson?_eq
  ofEvent_eq _ := rfl
  nesting_ofInt64 _ := rfl
  nesting_ofUInt64 _ := rfl
  nesting_ofString _ := rfl
  nesting_ofList := Json.nesting_ofList
  nesting_ofMembers := Json.nesting_ofMembers
  readEvent_spell _ _ _ _ _ hnesting htimestamp hname hfields hcontext :=
    congrArg Except.toOption (Event.ofText_render hnesting htimestamp hname hfields hcontext)

end Serialization

end KernelReplay
