import SchemaLex.Proofs.Lookup
import SchemaLex.Toml.Basic

/-!
# Changes to entries

A pair or a header changes the item of one key of a table and leaves all others as they are
(`Entries.Changes`).  Under the last part of its path it adds an item or opens a table; under an
earlier part the item there is a table that grows (`Entries.Grows`).
-/

namespace SchemaLex.Toml

/-! ## Entries with a new item -/

namespace Entries

theorem lookup_set_self (key : String) (item : Toml) (es : Entries) :
    (set key item es).lookup key = some item := by
  induction es with
  | nil => exact List.lookup_cons_self
  | cons e es ih =>
    obtain ⟨k, i⟩ := e
    rw [set]
    split
    · rename_i h
      rw [h, List.lookup_cons_self]
    · rename_i h
      rw [lookup_cons_of_ne (Ne.symm h), ih]

theorem lookup_set_ne {key other : String} (h : other ≠ key) (item : Toml) (es : Entries) :
    (set key item es).lookup other = es.lookup other := by
  induction es with
  | nil => exact lookup_cons_of_ne h item []
  | cons e es ih =>
    obtain ⟨k, i⟩ := e
    rw [set]
    split
    · rename_i hk
      rw [hk, lookup_cons_of_ne h, lookup_cons_of_ne h]
    · rw [List.lookup_cons, List.lookup_cons, ih]

theorem map_fst_set (key : String) (item : Toml) (es : Entries) :
    (set key item es).map Prod.fst =
      if key ∈ es.map Prod.fst then es.map Prod.fst else es.map Prod.fst ++ [key] := by
  induction es with
  | nil => rfl
  | cons e es ih =>
    obtain ⟨k, i⟩ := e
    rw [set]
    split
    · rename_i h
      simp [h]
    · rename_i h
      rw [List.map_cons, ih]
      by_cases hmem : key ∈ es.map Prod.fst <;> simp [hmem, Ne.symm h]

/-- `Changes key new es es'`: the entries `es'` are `es` with a new item for `key`. -/
structure Changes (key : String) (new : Toml) (es es' : Entries) : Prop where
  self : es'.lookup key = some new
  others : ∀ other, other ≠ key → es'.lookup other = es.lookup other
  nodup : (es.map Prod.fst).Nodup → (es'.map Prod.fst).Nodup

theorem changes_set (key : String) (item : Toml) (es : Entries) :
    Changes key item es (set key item es) := by
  refine ⟨lookup_set_self key item es, fun _ h ↦ lookup_set_ne h item es, fun hnodup ↦ ?_⟩
  rw [map_fst_set]
  split
  · exact hnodup
  · rename_i hkey
    rw [← List.concat_eq_append]
    exact hnodup.concat hkey

theorem changes_append {key : String} {es : Entries} (h : es.lookup key = none) (item : Toml) :
    Changes key item es (es ++ [(key, item)]) := by
  refine ⟨?_, ?_, fun hnodup ↦ ?_⟩
  · rw [List.lookup_append, h, Option.none_or, List.lookup_cons_self]
  · intro other hne
    rw [List.lookup_append, lookup_cons_of_ne hne, List.lookup_nil, Option.or_none]
  · rw [List.map_append, List.map_singleton, ← List.concat_eq_append]
    exact hnodup.concat (lookup_eq_none_iff_notMem.mp h)

/-! ## Pairs and headers -/

/-- What becomes of the item at the first part of a path when something is added below it. -/
inductive Grows (step : Entries → Entries → Prop) : Option Toml → Toml → Prop
  | fresh {origin : Origin} {inner : Entries} : origin ≠ .inline → step [] inner →
      Grows step none (.table origin inner)
  | table {origin : Origin} {inner inner' : Entries} : origin ≠ .inline → step inner inner' →
      Grows step (some (.table origin inner)) (.table origin inner')
  | tables {elements elements' : List Entries} : elements' ≠ [] →
      Grows step (some (.tables elements)) (.tables elements')

theorem setLast_ne_nil (new : Entries) (elements : List Entries) : setLast new elements ≠ [] :=
  List.append_ne_nil_of_right_ne_nil _ (List.cons_ne_nil _ _)

theorem assign?_nil {key : String} {item : Toml} {es es' : Entries}
    (h : assign? key item [] es = some es') : es.lookup key = none ∧ Changes key item es es' := by
  rw [assign?] at h
  split at h
  · cases h
  · rename_i hnone
    have hnone := Option.not_isSome_iff_eq_none.mp hnone
    cases h
    exact ⟨hnone, changes_append hnone item⟩

theorem assign?_cons {key part : String} {item : Toml} {path : List String} {es es' : Entries}
    (h : assign? key item (part :: path) es = some es') :
    ∃ new, Changes part new es es' ∧
      Grows (fun inner inner' ↦ assign? key item path inner = some inner') (es.lookup part)
        new := by
  rw [assign?] at h
  split at h
  · rename_i hlookup
    obtain ⟨inner, hinner, heq⟩ := Option.bind_eq_some_iff.mp h
    cases heq
    rw [hlookup]
    exact ⟨_, changes_append hlookup _, .fresh (by decide) hinner⟩
  · rename_i hlookup
    obtain ⟨inner, hinner, heq⟩ := Option.bind_eq_some_iff.mp h
    cases heq
    rw [hlookup]
    exact ⟨_, changes_set _ _ _, .table (by decide) hinner⟩
  · rename_i hlookup
    split at h
    · cases h
    obtain ⟨inner, hinner, heq⟩ := Option.bind_eq_some_iff.mp h
    cases heq
    rw [hlookup]
    exact ⟨_, changes_set _ _ _, .table (by decide) hinner⟩
  · rename_i hlookup
    split at h
    · cases h
    split at h
    · cases h
    obtain ⟨inner, hinner, heq⟩ := Option.bind_eq_some_iff.mp h
    cases heq
    rw [hlookup]
    exact ⟨_, changes_set _ _ _, .tables (setLast_ne_nil _ _)⟩
  · cases h

theorem update?_nil {key : String} {f : Option Toml → Option Toml} {es es' : Entries}
    (h : update? key f [] es = some es') :
    ∃ new, f (es.lookup key) = some new ∧ Changes key new es es' := by
  obtain ⟨new, hnew, heq⟩ := Option.bind_eq_some_iff.mp h
  cases heq
  exact ⟨new, hnew, changes_set _ _ _⟩

theorem update?_cons {key part : String} {f : Option Toml → Option Toml} {path : List String}
    {es es' : Entries} (h : update? key f (part :: path) es = some es') :
    ∃ new, Changes part new es es' ∧
      Grows (fun inner inner' ↦ update? key f path inner = some inner') (es.lookup part) new := by
  rw [update?] at h
  split at h
  · rename_i hlookup
    obtain ⟨inner, hinner, heq⟩ := Option.bind_eq_some_iff.mp h
    cases heq
    rw [hlookup]
    exact ⟨_, changes_set _ _ _, .fresh (by decide) hinner⟩
  · cases h
  · rename_i origin inner hinline hlookup
    obtain ⟨inner', hinner, heq⟩ := Option.bind_eq_some_iff.mp h
    cases heq
    rw [hlookup]
    refine ⟨_, changes_set _ _ _, .table ?_ hinner⟩
    rintro rfl
    exact hinline rfl
  · rename_i hlookup
    split at h
    · cases h
    obtain ⟨inner, hinner, heq⟩ := Option.bind_eq_some_iff.mp h
    cases heq
    rw [hlookup]
    exact ⟨_, changes_set _ _ _, .tables (setLast_ne_nil _ _)⟩
  · cases h

end Entries

/-- A header opens a new table, a table that was only mentioned, or one more element. -/
theorem Section.open?_cases {s : Section} {old : Option Toml} {new : Toml}
    (h : s.open? old = some new) :
    (s.element = true ∧ (∀ item ∈ old, ∃ elements, item = .tables elements) ∧
        ∃ elements, elements ≠ [] ∧ new = .tables elements) ∨
      s.element = false ∧ ∃ inner inner',
        (old = none ∧ inner = [] ∨ old = some (.table .implicit inner)) ∧
        Entries.assignAll? s.pairs inner = some inner' ∧ new = .table .header inner' := by
  unfold open? at h
  split at h
  · obtain ⟨inner, hinner, heq⟩ := Option.bind_eq_some_iff.mp h
    cases heq
    split
    · rename_i helement
      exact .inl ⟨helement, fun _ h ↦ (nomatch h), _, List.cons_ne_nil _ _, rfl⟩
    · rename_i helement
      exact .inr ⟨Bool.eq_false_iff.mpr helement, [], inner, .inl ⟨rfl, rfl⟩, hinner, rfl⟩
  · rename_i inner
    split at h
    · cases h
    · rename_i helement
      obtain ⟨inner', hinner, heq⟩ := Option.map_eq_some_iff.mp h
      exact .inr ⟨Bool.eq_false_iff.mpr helement, inner, inner', .inr rfl, hinner, heq.symm⟩
  · rename_i elements
    split at h
    · rename_i helement
      obtain ⟨inner', hinner, heq⟩ := Option.map_eq_some_iff.mp h
      refine .inl ⟨helement, ?_, _, by simp, heq.symm⟩
      rintro item ⟨⟩
      exact ⟨_, rfl⟩
    · cases h
  · cases h

end SchemaLex.Toml
