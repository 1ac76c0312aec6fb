import SchemaLex.Proofs.Config.Settings
import SchemaLex.Proofs.Config.Written
import SchemaLex.Proofs.Toml.Values

/-!
# Layers of configuration

A document is read for what it states at the places of the settings, in whatever order and among
whatever else (`parse_eq_of_setAlike`).  The same holds of the keys within a record that is written
as a value.  A written configuration states all settings (`parse_render`).
-/

namespace SchemaLex.Config

open Toml (Lines Sections Statement)

/-! ## Documents -/

/-- A document holds the statements of `d`, and they fit together. -/
structure Holds (document : String) (d : Toml.Document) : Prop where
  read : Toml.readDocument? (Toml.skipMark document.toList) = some d
  fits : d.root?.isSome = true

/-- `p.Alike item item'`: as records, the items are the same to the setting at `p`.  They are equal,
or they are values, both with fields or both without, that have the same field for the setting but
for the order of keys in it.  What fields there are besides, and in which order, may differ. -/
inductive Place.Alike (p : Place) : Toml → Toml → Prop
  | refl (item : Toml) : Alike p item item
  | value {item item' : Toml} : item.isValue = true → item'.isValue = true →
      item.isScalar = item'.isScalar →
      Option.Rel Toml.Reordered (p.item? item) (p.item? item') → Alike p item item'

/-- What one document states at the places of the settings the other states too, except that it need
not open a record by a header, and that it may order keys in values otherwise and have other keys in
a record that is written as a value. -/
def SetIn (d d' : Toml.Document) : Prop :=
  ∀ p ∈ places,
    (∀ item, item ≠ Toml.Section.opened false → ⟨[p.table], item⟩ ∈ d.statements →
      ∃ item', ⟨[p.table], item'⟩ ∈ d'.statements ∧ p.Alike item item') ∧
    ∀ path item, ⟨p.table :: p.key :: path, item⟩ ∈ d.statements →
      ∃ item', ⟨p.table :: p.key :: path, item'⟩ ∈ d'.statements ∧ Toml.Reordered item item'

/-- Two documents state the same at the places of the settings. -/
def SetAlike (d d' : Toml.Document) : Prop := SetIn d d' ∧ SetIn d' d

/-- No header opens the record of a setting as an array of tables. -/
def OpensNoArray (d : Toml.Document) : Prop :=
  ∀ p ∈ places, ⟨[p.table], Toml.Section.opened true⟩ ∉ d.statements

theorem Holds.exists_root {document : String} {d : Toml.Document} (h : Holds document d) :
    ∃ root, Toml.MakesEntries {s | s ∈ d.statements} root ∧ Toml.parse? document = some root := by
  obtain ⟨root, hroot⟩ := Option.isSome_iff_exists.mp h.fits
  refine ⟨root, Toml.makes_root? (Toml.hasValues_of_readDocument? h.read) hroot, ?_⟩
  rw [Toml.parse?, h.read, Option.bind_some, hroot]

/-- A document of plain lines holds what it was written from. -/
theorem holds_of_sections {document : String} {cs : List Char} {sections : List Toml.Section}
    (h : Sections cs sections)
    (htext : document.toList = cs ∧ Toml.skipMark document.toList = document.toList)
    (hfits : (Toml.Document.root? ⟨[], sections⟩).isSome = true) :
    Holds document ⟨[], sections⟩ := by
  refine ⟨?_, hfits⟩
  rw [htext.2, htext.1, Toml.readDocument?_sections h]

/-- What is stated at and below a place makes what is said there. -/
theorem exists_makes_of_nonempty {S : Set Statement} {root : Toml.Entries}
    (h : Toml.MakesEntries S root) {p : Place}
    (harray : ⟨[p.table], Toml.Section.opened true⟩ ∉ S)
    (hne : (Toml.inside (Toml.inside S p.table) p.key).Nonempty) :
    ∃ field, Toml.Makes (Toml.inside (Toml.inside S p.table) p.key) field ∧
      p.content? root = some field.content := by
  obtain ⟨s, hs⟩ := hne
  obtain ⟨item, hlookup, hitem⟩ := h.exists_lookup ⟨_, hs⟩
  rw [Place.content?_of_lookup hlookup]
  cases hitem with
  | value _ hS =>
    -- nothing is stated below a value
    have hmem := hS.le hs
    cases hmem
  | table _ _ _ hnodup hpresent habsent =>
    obtain ⟨field, hfield, hmakes⟩ :=
      (Toml.MakesEntries.mk hnodup hpresent habsent).exists_lookup ⟨_, hs⟩
    exact ⟨field, hmakes, by rw [Place.item?, hfield, Option.map_some]⟩
  | tables _ hmem => exact absurd hmem harray

/-- What is said at a place is told by the statements: those of the record as a whole and those at
and below the place. -/
theorem content?_cases {S : Set Statement} {root : Toml.Entries}
    (h : Toml.MakesEntries S root) {p : Place}
    (harray : ⟨[p.table], Toml.Section.opened true⟩ ∉ S) {c : Toml.Content}
    (hcontent : p.content? root = some c) :
    (∃ value, value.isValue = true ∧ ⟨[p.table], value⟩ ∈ S ∧
        (p.item? value).map Toml.content = some c) ∨
      ∃ item, Toml.Makes (Toml.inside (Toml.inside S p.table) p.key) item ∧ item.content = c := by
  cases hlookup : root.lookup p.table with
  | none =>
    rw [Place.content?, hlookup] at hcontent
    cases hcontent
  | some item =>
    rw [Place.content?_of_lookup hlookup] at hcontent
    cases h.present p.table item hlookup with
    | value hvalue hS => exact .inl ⟨item, hvalue, hS.ge rfl, hcontent⟩
    | table _ _ _ _ hpresent =>
      obtain ⟨field, hfield, hc⟩ := Option.map_eq_some_iff.mp hcontent
      exact .inr ⟨field, hpresent p.key field hfield, hc⟩
    | tables _ hmem => exact absurd hmem harray

/-- A record is a scalar exactly if a scalar is stated for it. -/
theorem isScalar_iff {S : Set Statement} {root : Toml.Entries} (h : Toml.MakesEntries S root)
    {t : String} :
    (∀ item ∈ root.lookup t, item.isScalar = false) ↔
      ∀ item, item.isScalar = true → ⟨[t], item⟩ ∉ S := by
  constructor
  · intro hall scalar hscalar hmem
    obtain ⟨item, hlookup, hitem⟩ := h.exists_lookup ⟨⟨[], scalar⟩, hmem⟩
    obtain rfl := hitem.eq_of_isValue (Toml.isValue_of_isScalar hscalar) hmem
    rw [hall item hlookup] at hscalar
    cases hscalar
  · intro hall item hlookup
    cases h.present t item hlookup with
    | value _ hS =>
      by_contra hscalar
      exact hall item (Bool.eq_true_of_not_eq_false hscalar) (hS.ge rfl)
    | table | tables => rfl

/-! ## What alike documents say -/

theorem Place.Alike.isScalar_eq {p : Place} {item item' : Toml} (h : p.Alike item item') :
    item.isScalar = item'.isScalar := by
  cases h with
  | refl => rfl
  | value _ _ hscalar _ => exact hscalar

/-- A value is alike only to values, and they say the same at the place. -/
theorem Place.Alike.content_eq {p : Place} {item item' : Toml} (h : p.Alike item item')
    (hvalue : item.isValue = true) :
    item'.isValue = true ∧ (p.item? item).map Toml.content = (p.item? item').map Toml.content := by
  cases h with
  | refl => exact ⟨hvalue, rfl⟩
  | value _ hvalue' _ hfield =>
    refine ⟨hvalue', ?_⟩
    generalize p.item? item = field, p.item? item' = field' at hfield
    cases hfield with
    | none => rfl
    | some hfield => exact congrArg some hfield.content_eq

theorem ne_opened_of_isValue {item : Toml} {element : Bool} (h : item.isValue = true) :
    item ≠ Toml.Section.opened element := by
  rintro rfl
  cases element <;> cases h

theorem SetIn.statedIn {d d' : Toml.Document} (h : SetIn d d') {p : Place} (hp : p ∈ places) :
    Toml.StatedIn (Toml.inside (Toml.inside {s | s ∈ d.statements} p.table) p.key)
      (Toml.inside (Toml.inside {s | s ∈ d'.statements} p.table) p.key) :=
  fun s hs ↦ (h p hp).2 s.path s.item hs

theorem SetAlike.symm {d d' : Toml.Document} (h : SetAlike d d') : SetAlike d' d := And.symm h

theorem OpensNoArray.of_setAlike {d d' : Toml.Document} (h : OpensNoArray d)
    (halike : SetAlike d d') : OpensNoArray d' := by
  intro p hp hmem
  obtain ⟨item, hitem, hp'⟩ := (halike.2 p hp).1 (.tables [[]]) (fun heq ↦ nomatch heq) hmem
  cases hp' with
  | refl => exact h p hp hitem
  | value hvalue => cases hvalue

section Alike

variable {d d' : Toml.Document} {root root' : Toml.Entries}

theorem hasRecords_of_setAlike (h : Toml.MakesEntries {s | s ∈ d.statements} root)
    (h' : Toml.MakesEntries {s | s ∈ d'.statements} root') (halike : SetAlike d d')
    (hrecords : HasRecords root) : HasRecords root' := by
  intro p hp
  refine (isScalar_iff h').mpr fun item hscalar hmem ↦ ?_
  have hvalue := Toml.isValue_of_isScalar hscalar
  obtain ⟨item', hitem', hp'⟩ := (halike.2 p hp).1 item (ne_opened_of_isValue hvalue) hmem
  exact (isScalar_iff h).mp (hrecords p hp) item' (hp'.isScalar_eq.symm.trans hscalar) hitem'

theorem content?_of_setAlike (h : Toml.MakesEntries {s | s ∈ d.statements} root)
    (h' : Toml.MakesEntries {s | s ∈ d'.statements} root') (harray : OpensNoArray d)
    (halike : SetAlike d d') {p : Place} (hp : p ∈ places) {c : Toml.Content}
    (hcontent : p.content? root = some c) : p.content? root' = some c := by
  rcases content?_cases h (harray p hp) hcontent with ⟨value, hvalue, hmem, hc⟩ | ⟨item, hitem, hc⟩
  · obtain ⟨value', hmem', hp'⟩ := (halike.1 p hp).1 value (ne_opened_of_isValue hvalue) hmem
    obtain ⟨hvalue', hsame⟩ := hp'.content_eq hvalue
    obtain ⟨item, hlookup, hitem⟩ := h'.exists_lookup ⟨⟨[], value'⟩, hmem'⟩
    obtain rfl := hitem.eq_of_isValue hvalue' hmem'
    rw [Place.content?_of_lookup hlookup, ← hsame, hc]
  · have hin := halike.1.statedIn hp
    have harray' := harray.of_setAlike halike p hp
    obtain ⟨field, hfield, hsaid⟩ :=
      exists_makes_of_nonempty h' harray' (hin.nonempty hitem.nonempty)
    rw [hsaid, ← hc, hitem.content_eq hfield hin (halike.2.statedIn hp)]

end Alike

/-- Only what a document states at the places of the settings matters, not where it states it, in
which order it has the keys, nor what else it states. -/
theorem parse_eq_of_setAlike {env : Environment} {document document' : String}
    {d d' : Toml.Document} (h : Holds document d) (h' : Holds document' d')
    (harray : OpensNoArray d) (halike : SetAlike d d') :
    parse env document = parse env document' := by
  obtain ⟨root, hmakes, hparse⟩ := h.exists_root
  obtain ⟨root', hmakes', hparse'⟩ := h'.exists_root
  have hrecords : HasRecords root ↔ HasRecords root' :=
    ⟨hasRecords_of_setAlike hmakes hmakes' halike,
      hasRecords_of_setAlike hmakes' hmakes halike.symm⟩
  have hcontent : ∀ p ∈ places, p.content? root = p.content? root' := by
    intro p hp
    refine Option.ext fun c ↦ ⟨?_, ?_⟩
    · exact content?_of_setAlike hmakes hmakes' harray halike hp
    · exact content?_of_setAlike hmakes' hmakes (harray.of_setAlike halike) halike.symm hp
  refine parse_congr fun c ↦ ?_
  simp only [parse_eq_ok_iff, hparse, hparse', Option.some.injEq, exists_eq_left']
  exact and_congr hrecords (assigned_congr fun p hp ↦ ⟨hcontent p hp, fun _ ↦ rfl⟩)

/-! ## Documents with other keys or another order -/

/-- Documents with the same statements at the places of the settings are alike. -/
theorem SetAlike.of_statements {d d' : Toml.Document}
    (h : ∀ p ∈ places,
      (∀ item, item ≠ Toml.Section.opened false →
        (⟨[p.table], item⟩ ∈ d.statements ↔ ⟨[p.table], item⟩ ∈ d'.statements)) ∧
      ∀ path item, ⟨p.table :: p.key :: path, item⟩ ∈ d.statements ↔
        ⟨p.table :: p.key :: path, item⟩ ∈ d'.statements) : SetAlike d d' := by
  constructor
  · intro p hp
    exact ⟨fun item hne hmem ↦ ⟨item, ((h p hp).1 item hne).mp hmem, .refl item⟩,
      fun path item hmem ↦ ⟨item, ((h p hp).2 path item).mp hmem, .refl item⟩⟩
  · intro p hp
    exact ⟨fun item hne hmem ↦ ⟨item, ((h p hp).1 item hne).mpr hmem, .refl item⟩,
      fun path item hmem ↦ ⟨item, ((h p hp).2 path item).mpr hmem, .refl item⟩⟩

/-- Tables that are written as values are alike to a setting if they have the same under its key. -/
theorem Place.Alike.inline {p : Place} {es es' : Toml.Entries}
    (h : es.lookup p.key = es'.lookup p.key) :
    p.Alike (.table .inline es) (.table .inline es') := by
  refine .value rfl rfl rfl ?_
  change Option.Rel _ (es.lookup p.key) (es'.lookup p.key)
  rw [h]
  cases es'.lookup p.key with
  | none => exact .none
  | some item => exact .some (.refl item)

/-- The document that sets flags in a table written as a value. -/
def flagsDocument (t : String) (flags : List (String × Bool)) : Toml.Document :=
  ⟨[⟨[], t, .table .inline (flags.map fun (key, b) ↦ (key, .boolean b))⟩], []⟩

theorem setIn_flags {t : String} {flags flags' : List (String × Bool)}
    (h : ∀ p ∈ places, flags.lookup p.key = flags'.lookup p.key) :
    SetIn (flagsDocument t flags) (flagsDocument t flags') := by
  intro p hp
  constructor
  · intro item _ hmem
    cases List.mem_singleton.mp hmem
    refine ⟨_, List.mem_singleton.mpr rfl, .inline ?_⟩
    rw [lookup_map, lookup_map, h p hp]
  · intro path item hmem
    cases List.mem_singleton.mp hmem

theorem opensNoArray_flags (t : String) (flags : List (String × Bool)) :
    OpensNoArray (flagsDocument t flags) := by
  rintro p - hmem
  cases congrArg Statement.item (List.mem_singleton.mp hmem)

/-- The flags of a table that has nothing else. -/
def flags? : Toml.Entries → Option (List (String × Bool))
  | [] => some []
  | (key, .boolean b) :: es => (flags? es).map ((key, b) :: ·)
  | _ => none

theorem eq_map_of_flags? {es : Toml.Entries} {flags : List (String × Bool)}
    (h : flags? es = some flags) : es = flags.map fun (key, b) ↦ (key, .boolean b) := by
  fun_induction flags? es generalizing flags with
  | case1 =>
    cases h
    rfl
  | case2 key b es ih =>
    obtain ⟨rest, hrest, rfl⟩ := Option.map_eq_some_iff.mp h
    rw [List.map_cons, ← ih hrest]
  | case3 => cases h

/-- The key and the flags of a document that sets only flags, in a table written as a value. -/
def inlineFlags? : Toml.Document → Option (String × List (String × Bool))
  | ⟨[⟨[], t, .table .inline es⟩], []⟩ => (flags? es).map (t, ·)
  | _ => none

theorem holds_flags {document : String} (t : String) (flags : List (String × Bool))
    (h : (Toml.readDocument? (Toml.skipMark document.toList)).bind inlineFlags? = some (t, flags)) :
    Holds document (flagsDocument t flags) := by
  obtain ⟨d, hread, hd⟩ := Option.bind_eq_some_iff.mp h
  unfold inlineFlags? at hd
  split at hd
  · obtain ⟨_, hflags, heq⟩ := Option.map_eq_some_iff.mp hd
    cases heq
    refine ⟨?_, rfl⟩
    rw [hread, eq_map_of_flags? hflags]
    rfl
  · cases hd

/-! ## Written configurations -/

theorem hasRecords_written (c : Config) : HasRecords (written c) := by
  refine hasRecords_iff.mpr ⟨?_, ?_⟩
  · rintro item ⟨⟩
    rfl
  · rintro item ⟨⟩
    rfl

theorem assigned_written (env : Environment) (c : Config) : Assigned env (written c) c :=
  ⟨rfl, rfl, rfl, rfl, rfl, rfl, rfl⟩

theorem parse_render (env : Environment) (c : Config) : parse env (render c) = .ok c :=
  parse_eq_ok_iff.mpr ⟨written c, parse?_render c, hasRecords_written c, assigned_written env c⟩

/-! ## All together -/

/-- The layers of configuration: what is read from a document, when it is read, that neither the
order of its statements and of keys in values nor what it has for other keys nor variables of
settings in it matter, and that a written configuration is read back in any environment. -/
theorem parse_layers :
    (∀ env document c, parse env document = .ok c ↔
      ∃ root, Toml.parse? document = some root ∧ HasRecords root ∧ Assigned env root c) ∧
    (∀ env document, (∃ c, parse env document = .ok c) ↔
      ∃ root, Toml.parse? document = some root ∧ Proper root) ∧
    (∀ env document document' d d', Holds document d → Holds document' d' → OpensNoArray d →
      SetAlike d d' → parse env document = parse env document') ∧
    (∀ env env' document, (∀ root, Toml.parse? document = some root → ∀ p ∈ places,
        p.content? root = none → p.raw? env = p.raw? env') →
      parse env document = parse env' document) ∧
    ∀ env c, parse env (render c) = .ok c :=
  ⟨fun _ _ _ ↦ parse_eq_ok_iff, fun _ _ ↦ exists_parse_iff,
    fun _ _ _ _ _ h h' harray halike ↦ parse_eq_of_setAlike h h' harray halike,
    fun _ _ _ h ↦ parse_eq_of_raw? h, parse_render⟩

/-- Two tables in either order, one of them with a key of no setting, and the same for the keys of a
table that is written as a value. -/
theorem parse_layers_reordered :
    parse .empty "[logging]\n[lexical]\nlog_unknown_tokens = true\n" =
        parse .empty "[lexical]\nother = false\nlog_unknown_tokens = true\n[logging]\n" ∧
      parse .empty "logging = \x7buse_structured_logging=true,detailed_console_output=true\x7d" =
        parse .empty
          "logging = \x7bdetailed_console_output=true,a=false,use_structured_logging=true\x7d" := by
  constructor
  · have hlexical := Lines.flag "log_unknown_tokens" "log_unknown_tokens = " (by decide) true .nil
    have hother := Lines.flag "other" "other = " (by decide) false hlexical
    have h := Sections.header "logging" "[logging]\n" (by decide) .nil <|
      Sections.header "lexical" "[lexical]\n" (by decide) hlexical .nil
    have h' := Sections.header "lexical" "[lexical]\n" (by decide) hother <|
      Sections.header "logging" "[logging]\n" (by decide) .nil .nil
    refine parse_layers.2.2.1 _ _ _ _ _ (holds_of_sections h (by decide +kernel) rfl)
      (holds_of_sections h' (by decide +kernel) rfl) ?_ (.of_statements ?_)
    · intro p hp
      simp [Toml.Document.statements, Toml.Section.statements, Toml.Section.opened]
    · intro p hp
      have hkey : p.key ≠ "other" := by
        revert p
        decide
      simp [Toml.Document.statements, Toml.Section.statements, Toml.Section.opened, hkey, or_comm]
  · let flags := [("use_structured_logging", true), ("detailed_console_output", true)]
    let flags' :=
      [("detailed_console_output", true), ("a", false), ("use_structured_logging", true)]
    have hflags : ∀ p ∈ places, flags.lookup p.key = flags'.lookup p.key := by decide
    exact parse_layers.2.2.1 _ _ _ _ _ (holds_flags "logging" flags (by decide +kernel))
      (holds_flags "logging" flags' (by decide +kernel)) (opensNoArray_flags _ _)
      ⟨setIn_flags hflags, setIn_flags fun p hp ↦ (hflags p hp).symm⟩

/-- A document may be read although the record `lexical` is no table. -/
theorem parse_array_not_table :
    ¬ ∀ env document c, parse env document = .ok c → ∃ root, Toml.parse? document = some root ∧
      ∀ item ∈ root.lookup "lexical", ∃ origin es, item = .table origin es := by
  intro htable
  have hread : (parse .empty "lexical = []").toOption = some {} := by decide +kernel
  have harray : ((Toml.parse? "lexical = []").bind (·.lookup "lexical")).any
      (fun item ↦ match item with | .array _ => true | _ => false) = true := by decide +kernel
  cases hparse : parse .empty "lexical = []" with
  | error e =>
    rw [hparse] at hread
    cases hread
  | ok c =>
    obtain ⟨root, hroot, hall⟩ := htable _ _ _ hparse
    rw [hroot, Option.bind_some] at harray
    cases hlookup : root.lookup "lexical" with
    | none =>
      rw [hlookup] at harray
      cases harray
    | some item =>
      obtain ⟨origin, es, rfl⟩ := hall item hlookup
      rw [hlookup] at harray
      cases harray

end SchemaLex.Config
