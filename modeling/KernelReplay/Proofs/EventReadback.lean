import KernelReplay.Proofs.FacetFrames
import KernelReplay.Proofs.JsonSerialization
import KernelReplay.Proofs.RangeSafety
import KernelReplay.Proofs.ReadAlike

/-
  Events read back from their own texts. What is read is the normal form of the event, in which every
  word is a signed one that can be (`Serialization.Faithful.readEvent_write`). No rule can tell the two
  forms apart, as every reading of a field is the same in both (`Event.readAlike_normal`), so that a
  recorded stream is replayed as the stream was (`readback_course`).
-/

namespace KernelReplay

/-! ## What is read of a normal form -/

namespace FieldValue

/-- What reads the same of a signed and an unsigned word of one value reads the same of a value and
its normal form, if it reads the same of lists. -/
theorem read_normal {α : Type} (read : FieldValue → α)
    (hword : ∀ v : UInt64, v.toNat < 0x8000_0000_0000_0000 →
      read (signed (.ofInt v.toNat)) = read (unsigned v))
    (hlist : ∀ vs, read (list (allNormal vs)) = read (list vs)) (v : FieldValue) :
    read v.normal = read v := by
  cases v with
  | signed | text => rfl
  | unsigned v =>
    by_cases h : v.toNat < 0x8000_0000_0000_0000
    · rw [normal_of_lt h, hword v h]
    · rw [normal_of_not_lt h]
  | list vs => exact hlist vs

theorem int?_normal : ∀ v : FieldValue, v.normal.int? = v.int? := by
  refine read_normal int? (fun v h => ?_) fun _ => rfl
  have hfits : v.toNat < 1 <<< 63 := h
  rw [int?, int?, toInt_ofInt_toNat h, if_pos hfits]

theorem nat?_normal : ∀ v : FieldValue, v.normal.nat? = v.nat? := by
  refine read_normal nat? (fun v h => ?_) fun _ => rfl
  rw [nat?, nat?, toInt_ofInt_toNat h, if_pos (Int.natCast_nonneg _), Int.toNat_natCast]

theorem text?_normal : ∀ v : FieldValue, v.normal.text? = v.text? :=
  read_normal text? (fun _ _ => rfl) fun _ => rfl

theorem octet?_normal (v : FieldValue) : v.normal.octet? = v.octet? := by
  unfold octet?
  rw [nat?_normal]

theorem ipv4?_normal : ∀ v : FieldValue, v.normal.ipv4? = v.ipv4? := by
  refine read_normal ipv4? (fun v h => ?_) fun vs => ?_
  · have hnat := nat?_normal (unsigned v)
    rw [normal_of_lt h] at hnat
    simp only [ipv4?, hnat]
  · match vs with
    | [a, b, c, d] =>
      show ipv4? (list [a.normal, b.normal, c.normal, d.normal]) = _
      simp only [ipv4?, octet?_normal]
    | [] | [_] | [_, _] | [_, _, _] | _ :: _ :: _ :: _ :: _ :: _ => rfl

end FieldValue

namespace Event

theorem field?_normal (e : Event) (name : String) :
    e.normal.field? name = (e.field? name).map FieldValue.normal := Table.get?_map ..

theorem contextField?_normal (e : Event) (name : String) :
    e.normal.contextField? name = (e.contextField? name).map FieldValue.normal := Table.get?_map ..

/-- A reading that is the same of normal forms is the same of a field that may be missing. -/
theorem bind_normal {α : Type} {read : FieldValue → Option α} (h : ∀ v, read v.normal = read v)
    (v? : Option FieldValue) : (v?.map FieldValue.normal).bind read = v?.bind read := by
  cases v? with
  | none => rfl
  | some v => exact h v

/-- An event in normal form reads as the event does. -/
theorem readAlike_normal (e : Event) : e.ReadAlike e.normal where
  kind? := rfl
  syscall _ := rfl
  time := rfl
  cpu? := by
    unfold cpu?
    rw [field?_normal, contextField?_normal, ← Option.map_or,
      bind_normal FieldValue.nat?_normal]
  int? := by
    funext name
    rw [int?, field?_normal, bind_normal FieldValue.int?_normal, int?]
  nat? := by
    funext name
    rw [nat?, field?_normal, bind_normal FieldValue.nat?_normal, nat?]
  text? := by
    funext name
    rw [text?, field?_normal, bind_normal FieldValue.text?_normal, text?]
  ipv4? name := by rw [field?_normal, bind_normal FieldValue.ipv4?_normal]
  hasField name := by rw [field?_normal, Option.isSome_map]
  contextInt? name := by rw [contextField?_normal, bind_normal FieldValue.int?_normal]
  contextText? name := by rw [contextField?_normal, bind_normal FieldValue.text?_normal]

end Event

/-! ## Reading back -/

/-- A stream of events is read back in normal form. -/
theorem Serialization.Faithful.mapM_readEvent_write {S : Serialization} (h : S.Faithful)
    {events : List Event} (hnesting : ∀ e ∈ events, e.nesting ≤ maxNesting) :
    events.mapM (fun e => S.readEvent (S.spell (S.ofEvent e))) = some (events.map Event.normal) := by
  induction events with
  | nil => rfl
  | cons e rest ih =>
    obtain ⟨hfirst, hrest⟩ := List.forall_mem_cons.1 hnesting
    rw [List.mapM_cons, h.readEvent_write hfirst, ih hrest]
    rfl

/-- Where texts are read back faithfully, an event that does not nest too deep is read in normal form
from the text that it is written as; the normal form of a normal form is itself; and the events read
from the texts of a stream have the course of the stream. -/
theorem readback_course {S : Serialization} (h : S.Faithful) :
    (∀ e : Event, e.nesting ≤ Serialization.maxNesting →
      S.readEvent (S.spell (S.ofEvent e)) = some e.normal) ∧
    (∀ e : Event, e.normal.normal = e.normal) ∧
    ∀ events : List Event, (∀ e ∈ events, e.nesting ≤ Serialization.maxNesting) →
      ∃ events', events.mapM (fun e => S.readEvent (S.spell (S.ofEvent e))) = some events' ∧
        ∀ r : Replay, r.course events' = r.course events := by
  refine ⟨fun e hnesting => h.readEvent_write hnesting, Event.normal_normal,
    fun events hnesting => ⟨_, h.mapM_readEvent_write hnesting, fun r => ?_⟩⟩
  refine Replay.course_of_readAlike ?_ r
  exact List.forall₂_map_right_iff.2 (List.forall₂_same.2 fun e _ => e.readAlike_normal)

/-- A connection to an address in a list of octets, with an argument that fits no signed word. -/
def octetConnect : Event :=
  .recorded 0 20 "syscall_entry_connect"
    [("fd", .unsigned 3), ("family", .signed 2), ("dport", .unsigned 80),
     ("v4addr", .list [.unsigned 10, .signed 0, .unsigned 0, .unsigned 1]),
     ("uservaddr", .unsigned 0xFFFF_FFFF_FFFF_FFFF)]

/-- The thread that connects takes over a CPU before, and is told of the connection. -/
def octetConnection : List Event :=
  [.recorded 0 10 "sched_switch" [("prev_tid", .signed 0), ("next_tid", .unsigned 7)],
   octetConnect,
   .recorded 0 30 "syscall_exit_connect" [("ret", .signed 0)]]

/-- The octets of the address and the numbers come back as other values, and the greatest word as it
was. -/
theorem readback_course_octetConnection :
    Serialization.json.Faithful ∧
    octetConnect.nesting = 3 ∧ octetConnect.normal ≠ octetConnect ∧
    (Event.ofText octetConnect.toJson.render).toOption = some octetConnect.normal ∧
    (∀ e ∈ octetConnection, e.nesting ≤ Serialization.maxNesting) ∧
    (∃ events', octetConnection.mapM (fun e => (Event.ofText e.toJson.render).toOption) =
      some events' ∧ ∀ r : Replay, r.course events' = r.course octetConnection) ∧
    Replay.gives {} octetConnection (fun p =>
      (requestExits p.signals).map (·.body) = [.connect 3 (some "10.0.0.1:80")]) = true := by
  have hnesting : octetConnect.nesting = 3 := by decide +kernel
  have hlimit : octetConnect.nesting ≤ Serialization.maxNesting := by
    rw [hnesting]
    decide
  have hall : ∀ e ∈ octetConnection, e.nesting ≤ Serialization.maxNesting := by decide +kernel
  obtain ⟨htext, -, hcourse⟩ := readback_course Serialization.faithful_json
  exact ⟨Serialization.faithful_json, hnesting, by decide +kernel, htext _ hlimit, hall,
    hcourse _ hall, by decide +kernel⟩

end KernelReplay
