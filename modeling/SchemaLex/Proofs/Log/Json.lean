import SchemaLex.Proofs.Json.Line
import SchemaLex.Proofs.Log.Context
import SchemaLex.Proofs.Token.Json

/-!
# Events read back from their JSON text

The JSON text of an event is read as the JSON form that was written, whatever characters its message
and its context have (`Event.parse?_formatJson`), so what the text says can be read off the fields
of that form.  `Event.Decoded` lists what they say: which fields there are, and what each of them
holds.
-/

namespace SchemaLex

namespace Json

/-! ## Reading an object -/

/-- The fields of an object by their names; a name that is no text makes the object unreadable. -/
def fields? : Json → Option (List (String × Json))
  | .object members =>
    (Token.decodeKeys? members).map (·.map fun (name, value) ↦ (String.ofList name, value))
  | _ => none

/-- The text that a string spells. -/
def text? : Json → Option String
  | .string units => (decode units).map String.ofList
  | _ => none

/-- The number that a plain run of digits writes. -/
def natural? : Json → Option Nat
  | .number ⟨false, whole, [], none⟩ => some (ofDigits 10 whole)
  | _ => none

@[simp] theorem text?_ofString (text : String) : (ofString text).text? = some text := by
  rw [ofString, text?, decode_encode, Option.map_some, String.ofList_toList]

@[simp] theorem natural?_ofInt (n : Nat) : (ofInt n).natural? = some n := by
  have hnegative : decide ((n : Int) < 0) = false := decide_eq_false (by omega)
  rw [ofInt, hnegative, natural?, Int.natAbs_natCast,
    ofDigits_toDigits (by decide) (by decide)]

/-- The object with given fields. -/
def ofFields (fields : List (String × Json)) : Json :=
  .object (fields.map fun (name, value) ↦ (encode name.toList, value))

theorem fields?_ofFields (fields : List (String × Json)) :
    (ofFields fields).fields? = some fields := by
  have hdecode : Token.decodeKeys? (fields.map fun (name, value) ↦ (encode name.toList, value)) =
      some (fields.map fun (name, value) ↦ (name.toList, value)) := by
    induction fields with
    | nil => rfl
    | cons field fields ih => simp [Token.decodeKeys?, ih]
  rw [ofFields, fields?, hdecode, Option.map_some, List.map_map]
  simp [Function.comp_def]

theorem wellFormed_ofFields {fields : List (String × Json)}
    (h : ∀ field ∈ fields, field.2.WellFormed) : (ofFields fields).WellFormed := by
  refine .object ?_ ?_
  · intro m hm
    obtain ⟨field, -, rfl⟩ := List.mem_map.mp hm
    exact wellFormed_encode _
  · intro m hm
    obtain ⟨field, hfield, rfl⟩ := List.mem_map.mp hm
    exact h field hfield

end Json

namespace Event

/-! ## The form of an event -/

/-- The entries of a context as fields. -/
def contextFields (c : Context) : List (String × Json) :=
  c.entries.map fun (key, value) ↦ (key, .ofString value)

theorem contextJson_eq (c : Context) : contextJson c = .ofFields (contextFields c) := by
  rw [contextJson, Json.ofFields, contextFields, List.map_map]
  rfl

theorem wellFormed_contextJson (c : Context) : (contextJson c).WellFormed := by
  rw [contextJson_eq]
  refine Json.wellFormed_ofFields fun field hfield ↦ ?_
  obtain ⟨entry, -, rfl⟩ := List.mem_map.mp hfield
  exact Json.wellFormed_ofString _

theorem wellFormed_toJson (e : Event) (stamp : String) : (e.toJson stamp).WellFormed := by
  refine Json.wellFormed_ofFields ?_
  unfold members
  simp only [List.forall_mem_append, List.forall_mem_cons]
  have hnil : ∀ field ∈ ([] : List (String × Json)), field.2.WellFormed := List.forall_mem_nil _
  refine ⟨⟨⟨⟨⟨?_, ?_, hnil⟩, ?_⟩, ?_, ?_, hnil⟩, ?_⟩, ?_, ?_, hnil⟩
  case refine_3 =>
    split
    · exact hnil
    · exact List.forall_mem_singleton.mpr (wellFormed_contextJson _)
  case refine_6 =>
    split
    · exact hnil
    · exact List.forall_mem_singleton.mpr (.number (Json.Numeral.wellFormed_integer _))
  all_goals exact Json.wellFormed_ofString _

/-- The text of an event is read as the form that was written. -/
theorem parse?_formatJson (e : Event) (stamp : String) :
    Json.parse? (e.formatJson stamp) = some (e.toJson stamp) :=
  Json.parse?_text (e.wellFormed_toJson stamp)

/-! ## What the fields say -/

/-- What the fields of the JSON form say about an event with a timestamp. -/
structure Decoded (e : Event) (stamp : String) (fields : List (String × Json)) : Prop where
  nodup : (fields.map (·.1)).Nodup
  names : ∀ name, name ∈ fields.map (·.1) ↔
    name ∈ ["timestamp", "level", "code", "message", "category", "severity"] ∨
      name = "offset" ∧ e.offset ≠ none ∨ name = "context" ∧ e.context.entries ≠ []
  timestamp : (fields.lookup "timestamp").bind Json.text? = some stamp
  level : (fields.lookup "level").bind Json.text? = some e.level.name
  code : (fields.lookup "code").bind Json.text? = some e.code.name
  message : (fields.lookup "message").bind Json.text? = some e.message
  category : (fields.lookup "category").bind Json.text? = some e.category
  severity : (fields.lookup "severity").bind Json.text? = some e.severity.name
  offset : (fields.lookup "offset").bind Json.natural? = e.offset
  /-- The context has its keys as names, each once, and their values as texts. -/
  context : ∀ json ∈ fields.lookup "context", ∃ inner, json.fields? = some inner ∧
    (inner.map (·.1)).Nodup ∧
    ∀ key, (inner.lookup key).map Json.text? = (e.context.get? key).map some

theorem nodup_members (e : Event) (stamp : String) : ((e.members stamp).map (·.1)).Nodup := by
  unfold members
  cases e.offset <;> cases e.context.isEmpty <;> simp

theorem text?_of_mem_members {e : Event} {stamp name text : String}
    (h : (name, .ofString text) ∈ e.members stamp) :
    ((e.members stamp).lookup name).bind Json.text? = some text := by
  rw [lookup_eq_some_of_mem (e.nodup_members stamp) h]
  exact Json.text?_ofString text

theorem lookup_offset_members (e : Event) (stamp : String) :
    (e.members stamp).lookup "offset" = e.offset.map fun n ↦ Json.ofInt n := by
  unfold members
  cases e.offset <;> cases e.context.isEmpty <;> rfl

theorem lookup_context_members (e : Event) (stamp : String) :
    (e.members stamp).lookup "context" =
      if e.context.isEmpty then none else some (contextJson e.context) := by
  unfold members
  cases e.offset <;> cases e.context.isEmpty <;> rfl

theorem decoded_members (e : Event) (stamp : String) : e.Decoded stamp (e.members stamp) where
  nodup := e.nodup_members stamp
  names := by
    intro name
    have hempty : e.context.isEmpty = true ↔ e.context.entries = [] := List.isEmpty_iff
    rw [ne_eq, ne_eq, ← hempty]
    unfold members
    cases e.offset <;> cases e.context.isEmpty <;> simp <;> grind
  timestamp := text?_of_mem_members (by simp [members])
  level := text?_of_mem_members (by simp [members])
  code := text?_of_mem_members (by simp [members])
  message := text?_of_mem_members (by simp [members])
  category := text?_of_mem_members (by simp [members])
  severity := text?_of_mem_members (by simp [members])
  offset := by
    rw [lookup_offset_members]
    cases e.offset <;> simp
  context := by
    rw [lookup_context_members]
    intro json hjson
    split at hjson
    · cases hjson
    · cases hjson
      refine ⟨contextFields e.context, ?_, ?_, ?_⟩
      · rw [contextJson_eq, Json.fields?_ofFields]
      · rw [contextFields, List.map_map]
        exact e.context.nodup_keys
      · intro key
        rw [contextFields, lookup_map, ← Context.get?, Option.map_map]
        cases e.context.get? key <;> simp

/-- The JSON text of an event is one line without control characters, and its fields say what the
event says: every event has six of them, and besides an offset or a context if it has one. -/
theorem formatJson_decodes (e : Event) (stamp : String) :
    let line := e.formatJson stamp
    (∀ c ∈ line.toList, 0x20 ≤ c.toNat) ∧ '\n' ∉ line.toList ∧
      ∃ json fields, Json.parse? line = some json ∧ json.fields? = some fields ∧
        e.Decoded stamp fields := by
  intro line
  have hplain : ∀ c ∈ line.toList, 0x20 ≤ c.toNat := by
    rw [show line.toList = (e.toJson stamp).render from String.toList_ofList]
    exact (e.wellFormed_toJson stamp).plain_render
  have hbreak : '\n' ∉ line.toList := fun h ↦ absurd (hplain _ h) (by decide)
  exact ⟨hplain, hbreak, e.toJson stamp, e.members stamp, e.parse?_formatJson stamp,
    Json.fields?_ofFields _, e.decoded_members stamp⟩

end Event

end SchemaLex
