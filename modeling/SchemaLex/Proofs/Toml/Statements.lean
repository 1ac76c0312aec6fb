import Mathlib.Data.Set.Image
import SchemaLex.Proofs.Toml.Changes

/-!
# What a document states

Every pair of a document states an item for the full path of its key, and every header states a
table or an array of tables.  `Document.statements` lists them.  A root table is what the statements
make as a set (`makes_root?`), wherever in the document each of them stands.
-/

namespace SchemaLex.Toml

/-- Whether an item is written by a pair; a table by a pair is complete. -/
def isValue : Toml → Bool
  | .table origin _ => origin == .inline
  | .tables _ => false
  | _ => true

/-! ## Statements -/

/-- An item for the full path of a key. -/
structure Statement where
  path : List String
  item : Toml

/-- The statement in a table that the key `key` has. -/
def Statement.into (key : String) (s : Statement) : Statement := ⟨key :: s.path, s.item⟩

def Pair.statement (p : Pair) : Statement := ⟨p.path ++ [p.key], p.item⟩

/-- What a header states: a table or an array of tables, of which nothing is known yet. -/
def Section.opened (element : Bool) : Toml := if element then .tables [[]] else .table .header []

/-- The pairs under a header add to its path. -/
def Section.statements (s : Section) : List Statement :=
  ⟨s.path ++ [s.key], opened s.element⟩ ::
    s.pairs.map fun p ↦ ⟨s.path ++ [s.key] ++ (p.path ++ [p.key]), p.item⟩

def Document.statements (d : Document) : List Statement :=
  d.pairs.map Pair.statement ++ d.sections.flatMap Section.statements

/-- The statements about what stands at and below a key. -/
def inside (S : Set Statement) (key : String) : Set Statement := {s | s.into key ∈ S}

/-- The statements, all of them in a table that the key `key` has. -/
def under (key : String) (S : Set Statement) : Set Statement := Statement.into key '' S

/-! ## What statements make -/

/-- `Makes S item`: an item that is stated in no other way than by `S` is `item`.  The elements of
an array of tables are left open. -/
inductive Makes : Set Statement → Toml → Prop
  | value {S : Set Statement} {item : Toml} : item.isValue = true → S = {⟨[], item⟩} →
      Makes S item
  | table {S : Set Statement} {origin : Origin} {es : Entries} : origin ≠ .inline → S.Nonempty →
      (∀ item, ⟨[], item⟩ ∈ S → item = .table .header []) → (es.map Prod.fst).Nodup →
      (∀ key item, es.lookup key = some item → Makes (inside S key) item) →
      (∀ key, es.lookup key = none → inside S key = ∅) → Makes S (.table origin es)
  | tables {S : Set Statement} {elements : List Entries} : elements ≠ [] →
      ⟨[], .tables [[]]⟩ ∈ S → (∀ item, ⟨[], item⟩ ∈ S → item = .tables [[]]) →
      Makes S (.tables elements)

/-- The statements make the entries of a table. -/
structure MakesEntries (S : Set Statement) (es : Entries) : Prop where
  nodup : (es.map Prod.fst).Nodup
  present : ∀ key item, es.lookup key = some item → Makes (inside S key) item
  absent : ∀ key, es.lookup key = none → inside S key = ∅

section Sets

variable {S T : Set Statement} {key : String}

theorem into_injective (key : String) : Function.Injective (Statement.into key) := by
  rintro ⟨path, item⟩ ⟨path', item'⟩ h
  cases h
  rfl

theorem inside_union : inside (S ∪ T) key = inside S key ∪ inside T key := rfl

theorem inside_under_self : inside (under key T) key = T :=
  Set.preimage_image_eq T (into_injective key)

theorem inside_under_ne {other : String} (h : other ≠ key) : inside (under key T) other = ∅ := by
  refine Set.eq_empty_of_forall_notMem ?_
  rintro s ⟨s', -, heq⟩
  have hpath : key :: s'.path = other :: s.path := congrArg Statement.path heq
  exact h (List.cons.inj hpath).1.symm

theorem inside_header (item : Toml) : inside {⟨[], item⟩} key = ∅ := by
  refine Set.eq_empty_of_forall_notMem ?_
  rintro s ⟨⟩

theorem under_singleton (path : List String) (item : Toml) :
    under key {⟨path, item⟩} = {⟨key :: path, item⟩} := Set.image_singleton

theorem setOf_mem_map {statements : List Statement} :
    {s | s ∈ statements.map (Statement.into key)} = under key {s | s ∈ statements} := by
  ext s
  exact List.mem_map

end Sets

theorem MakesEntries.table {S : Set Statement} {origin : Origin} {es : Entries}
    (h : MakesEntries S es) (horigin : origin ≠ .inline) (hne : S.Nonempty)
    (hheader : ∀ item, ⟨[], item⟩ ∈ S → item = .table .header []) : Makes S (.table origin es) :=
  .table horigin hne hheader h.nodup h.present h.absent

/-- What is stated is there. -/
theorem MakesEntries.exists_lookup {S : Set Statement} {es : Entries} (h : MakesEntries S es)
    {key : String} (hne : (inside S key).Nonempty) :
    ∃ item, es.lookup key = some item ∧ Makes (inside S key) item := by
  cases hlookup : es.lookup key with
  | none =>
    rw [h.absent key hlookup] at hne
    exact absurd hne Set.not_nonempty_empty
  | some item => exact ⟨item, rfl, h.present key item hlookup⟩

theorem makesEntries_nil : MakesEntries ∅ [] :=
  ⟨List.nodup_nil, fun _ _ h ↦ (nomatch h), fun _ _ ↦ rfl⟩

/-- What is stated of a table itself does not matter for its entries. -/
theorem MakesEntries.header {S : Set Statement} {es : Entries} (h : MakesEntries S es)
    (item : Toml) : MakesEntries ({⟨[], item⟩} ∪ S) es := by
  refine ⟨h.nodup, ?_, ?_⟩
  · intro key item' hitem
    rw [inside_union, inside_header, Set.empty_union]
    exact h.present key item' hitem
  · intro key hnone
    rw [inside_union, inside_header, Set.empty_union, h.absent key hnone]

namespace Makes

variable {S : Set Statement} {item item' : Toml}

theorem nonempty (h : Makes S item) : S.Nonempty := by
  cases h with
  | value _ hS => exact hS ▸ Set.singleton_nonempty _
  | table _ hne => exact hne
  | tables _ hheader => exact ⟨_, hheader⟩

theorem entries {origin : Origin} {es : Entries} (h : Makes S (.table origin es))
    (horigin : origin ≠ .inline) :
    MakesEntries S es ∧ ∀ item, ⟨[], item⟩ ∈ S → item = .table .header [] := by
  cases h with
  | value hvalue => exact absurd (eq_of_beq hvalue) horigin
  | table _ _ hheader hnodup hpresent habsent => exact ⟨⟨hnodup, hpresent, habsent⟩, hheader⟩

/-- An item for which a value is stated is the value. -/
theorem eq_of_isValue (h : Makes S item) {value : Toml} (hvalue : value.isValue = true)
    (hmem : ⟨[], value⟩ ∈ S) : item = value := by
  cases h with
  | value _ hS =>
    rw [hS] at hmem
    cases hmem
    rfl
  | table _ _ hheader =>
    rw [hheader value hmem] at hvalue
    cases hvalue
  | tables _ _ hheader =>
    rw [hheader value hmem] at hvalue
    cases hvalue

end Makes

/-! ## The root table -/

theorem MakesEntries.changes {S T : Set Statement} {key : String} {new : Toml} {es es' : Entries}
    (h : MakesEntries S es) (hchanges : es.Changes key new es')
    (hnew : Makes (inside S key ∪ T) new) : MakesEntries (S ∪ under key T) es' := by
  refine ⟨hchanges.nodup h.nodup, ?_, ?_⟩
  · intro other item hitem
    rw [inside_union]
    by_cases hother : other = key
    · subst hother
      rw [hchanges.self] at hitem
      cases hitem
      rw [inside_under_self]
      exact hnew
    · rw [inside_under_ne hother, Set.union_empty]
      exact h.present other item (hchanges.others other hother ▸ hitem)
  · intro other hnone
    rw [inside_union]
    by_cases hother : other = key
    · subst hother
      rw [hchanges.self] at hnone
      cases hnone
    · rw [inside_under_ne hother, Set.union_empty]
      exact h.absent other (hchanges.others other hother ▸ hnone)

/-- Statements below the first part of a path make what the item there grows to. -/
theorem Entries.Grows.makes {step : Entries → Entries → Prop} {old : Option Toml} {new : Toml}
    {S T : Set Statement} (h : Grows step old new) (hsome : ∀ item ∈ old, Makes S item)
    (hnone : old = none → S = ∅) (hne : T.Nonempty) (hpath : ∀ item, ⟨[], item⟩ ∉ T)
    (hstep : ∀ (S : Set Statement) inner inner', MakesEntries S inner → step inner inner' →
      MakesEntries (S ∪ T) inner') : Makes (S ∪ T) new := by
  cases h with
  | fresh horigin hinner =>
    obtain rfl := hnone rfl
    refine (hstep ∅ _ _ makesEntries_nil hinner).table horigin hne.inr ?_
    rintro item (hitem | hitem)
    · cases hitem
    · exact absurd hitem (hpath item)
  | table horigin hinner =>
    obtain ⟨hentries, hheader⟩ := (hsome _ rfl).entries horigin
    refine (hstep S _ _ hentries hinner).table horigin hne.inr ?_
    rintro item (hitem | hitem)
    · exact hheader item hitem
    · exact absurd hitem (hpath item)
  | tables helements =>
    -- the header that opened the array is still stated, and what the element holds is left open
    cases hsome _ rfl with
    | value hvalue => cases hvalue
    | tables _ hmem hheader =>
      refine .tables helements (.inl hmem) ?_
      rintro item (hitem | hitem)
      · exact hheader item hitem
      · exact absurd hitem (hpath item)

theorem MakesEntries.assign? {key : String} {item : Toml} {path : List String} {S : Set Statement}
    {es es' : Entries} (hvalue : item.isValue = true) (h : MakesEntries S es)
    (hassign : Entries.assign? key item path es = some es') :
    MakesEntries (S ∪ {⟨path ++ [key], item⟩}) es' := by
  induction path generalizing S es es' with
  | nil =>
    obtain ⟨hnone, hchanges⟩ := Entries.assign?_nil hassign
    rw [List.nil_append, ← under_singleton]
    refine h.changes hchanges ?_
    rw [h.absent key hnone, Set.empty_union]
    exact .value hvalue rfl
  | cons part path ih =>
    obtain ⟨new, hchanges, hgrows⟩ := Entries.assign?_cons hassign
    rw [List.cons_append, ← under_singleton]
    refine h.changes hchanges (hgrows.makes ?_ ?_ (Set.singleton_nonempty _) ?_ ?_)
    · intro old hold
      exact h.present part old hold
    · exact h.absent part
    · simp
    · intro S inner inner' hinner hstep
      exact ih hinner hstep

theorem MakesEntries.assignAll? {pairs : List Pair} {S : Set Statement} {es es' : Entries}
    (hvalues : ∀ p ∈ pairs, p.item.isValue = true) (h : MakesEntries S es)
    (hassign : Entries.assignAll? pairs es = some es') :
    MakesEntries (S ∪ {s | s ∈ pairs.map Pair.statement}) es' := by
  induction pairs generalizing S es with
  | nil =>
    cases hassign
    simpa using h
  | cons p pairs ih =>
    obtain ⟨hp, hpairs⟩ := List.forall_mem_cons.mp hvalues
    obtain ⟨es₁, hfirst, hrest⟩ := Option.bind_eq_some_iff.mp hassign
    have hall := ih hpairs (h.assign? hp hfirst) hrest
    rw [Set.union_assoc] at hall
    convert hall using 2
    ext s
    simp [Pair.statement]

namespace Section

variable {element : Bool} {key : String} {pairs : List Pair}

/-- What a header and the pairs under it state of the last part of its path. -/
def facts (element : Bool) (pairs : List Pair) : Set Statement :=
  {⟨[], opened element⟩} ∪ {s | s ∈ pairs.map Pair.statement}

theorem mem_facts_nil {item : Toml} (h : ⟨[], item⟩ ∈ facts element pairs) :
    item = opened element := by
  obtain heq | hmem := h
  · cases heq
    rfl
  · obtain ⟨p, -, heq⟩ := List.mem_map.mp hmem
    have hpath : p.path ++ [p.key] = [] := congrArg Statement.path heq
    exact absurd hpath (by simp)

theorem statements_nil :
    {s | s ∈ statements ⟨element, [], key, pairs⟩} = under key (facts element pairs) := by
  have hmap : statements ⟨element, [], key, pairs⟩ =
      (⟨[], opened element⟩ :: pairs.map Pair.statement).map (Statement.into key) := by
    simp [statements, Statement.into, Pair.statement]
  have hfacts : {s | s ∈ (⟨[], opened element⟩ :: pairs.map Pair.statement)} =
      facts element pairs := by
    ext s
    exact List.mem_cons
  rw [hmap, setOf_mem_map, hfacts]

theorem statements_cons {part : String} {path : List String} :
    {s | s ∈ statements ⟨element, part :: path, key, pairs⟩} =
      under part {s | s ∈ statements ⟨element, path, key, pairs⟩} := by
  have hmap : statements ⟨element, part :: path, key, pairs⟩ =
      (statements ⟨element, path, key, pairs⟩).map (Statement.into part) := by
    simp [statements, Statement.into]
  rw [hmap, setOf_mem_map]

/-- A header opens what it and the pairs under it state. -/
theorem makes_open? {path : List String} {S : Set Statement} {old : Option Toml} {new : Toml}
    (hvalues : ∀ p ∈ pairs, p.item.isValue = true)
    (h : open? ⟨element, path, key, pairs⟩ old = some new) (hsome : ∀ item ∈ old, Makes S item)
    (hnone : old = none → S = ∅) : Makes (S ∪ facts element pairs) new := by
  have hopened : ⟨[], opened element⟩ ∈ S ∪ facts element pairs := .inr (.inl rfl)
  obtain ⟨rfl, hold, elements, hne, rfl⟩ | ⟨rfl, inner, inner', hold, hpairs, rfl⟩ := open?_cases h
  · refine .tables hne hopened ?_
    rintro item (hitem | hitem)
    · cases old with
      | none =>
        rw [hnone rfl] at hitem
        cases hitem
      | some old =>
        obtain ⟨elements', rfl⟩ := hold old rfl
        cases hsome _ rfl with
        | value hvalue => cases hvalue
        | tables _ _ hheader => exact hheader item hitem
    · exact mem_facts_nil hitem
  · have hinner : MakesEntries S inner ∧ ∀ item, ⟨[], item⟩ ∈ S → item = .table .header [] := by
      obtain ⟨rfl, rfl⟩ | rfl := hold
      · rw [hnone rfl]
        exact ⟨makesEntries_nil, fun _ h ↦ nomatch h⟩
      · exact (hsome _ rfl).entries (by decide)
    have hentries := (hinner.1.assignAll? hvalues hpairs).header (opened false)
    rw [Set.union_left_comm] at hentries
    refine hentries.table (by decide) ⟨_, hopened⟩ ?_
    rintro item (hitem | hitem)
    · exact hinner.2 item hitem
    · exact mem_facts_nil hitem

end Section

theorem MakesEntries.update? {element : Bool} {key : String} {pairs : List Pair}
    {path full : List String} {S : Set Statement} {es es' : Entries}
    (hvalues : ∀ p ∈ pairs, p.item.isValue = true) (h : MakesEntries S es)
    (hupdate : Entries.update? key (Section.open? ⟨element, full, key, pairs⟩) path es = some es') :
    MakesEntries (S ∪ {s | s ∈ Section.statements ⟨element, path, key, pairs⟩}) es' := by
  induction path generalizing S es es' with
  | nil =>
    obtain ⟨new, hnew, hchanges⟩ := Entries.update?_nil hupdate
    rw [Section.statements_nil]
    exact h.changes hchanges (Section.makes_open? hvalues hnew (h.present key) (h.absent key))
  | cons part path ih =>
    obtain ⟨new, hchanges, hgrows⟩ := Entries.update?_cons hupdate
    rw [Section.statements_cons]
    refine h.changes hchanges
      (hgrows.makes (h.present part) (h.absent part) ⟨_, List.mem_cons_self⟩ ?_ ?_)
    · simp [Section.statements]
    · intro S inner inner' hinner hstep
      exact ih hinner hstep

/-- All items that the pairs of a document state are values. -/
structure Document.HasValues (d : Document) : Prop where
  pairs : ∀ p ∈ d.pairs, p.item.isValue = true
  sections : ∀ s ∈ d.sections, ∀ p ∈ s.pairs, p.item.isValue = true

theorem MakesEntries.updateAll? {sections : List Section} {S : Set Statement} {es es' : Entries}
    (hvalues : ∀ s ∈ sections, ∀ p ∈ s.pairs, p.item.isValue = true) (h : MakesEntries S es)
    (hupdate : sections.foldlM (fun root s ↦ Entries.update? s.key s.open? s.path root) es =
      some es') :
    MakesEntries (S ∪ {s | s ∈ sections.flatMap Section.statements}) es' := by
  induction sections generalizing S es with
  | nil =>
    cases hupdate
    simpa using h
  | cons s sections ih =>
    obtain ⟨hs, hsections⟩ := List.forall_mem_cons.mp hvalues
    obtain ⟨es₁, hfirst, hrest⟩ := Option.bind_eq_some_iff.mp hupdate
    have hall := ih hsections (h.update? hs hfirst) hrest
    rw [Set.union_assoc] at hall
    convert hall using 2
    ext st
    simp

/-- The statements of a document make its root table. -/
theorem makes_root? {d : Document} {root : Entries} (hvalues : d.HasValues)
    (h : d.root? = some root) : MakesEntries {s | s ∈ d.statements} root := by
  obtain ⟨root₁, hpairs, hsections⟩ := Option.bind_eq_some_iff.mp h
  have hfirst := makesEntries_nil.assignAll? hvalues.pairs hpairs
  have hall := hfirst.updateAll? hvalues.sections hsections
  rw [Set.empty_union] at hall
  convert hall using 1
  ext s
  simp [Document.statements]

end SchemaLex.Toml
